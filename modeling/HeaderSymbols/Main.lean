import HeaderSymbols.Command.Session

/-!
# The command

Hands the words of the command line and the environment to `program`, over the files of
the system, and shows what it leaves.
-/
namespace HeaderSymbols

/-- The system's number and words for an error. -/
def OsError.ofIO : IO.Error → OsError
  | .alreadyExists _ code text | .invalidArgument _ code text | .permissionDenied _ code text
  | .resourceExhausted _ code text | .inappropriateType _ code text | .noSuchThing _ code text
  | .interrupted _ code text | .noFileOrDirectory _ code text
  | .otherError code text | .resourceBusy code text | .resourceVanished code text
  | .unsupportedOperation code text | .hardwareFault code text | .unsatisfiedConstraints code text
  | .illegalOperation code text | .protocolError code text | .timeExpired code text =>
    ⟨code.toNat, text⟩
  | .unexpectedEof => ⟨5, "Input/output error"⟩
  | .userError text => ⟨5, text⟩

def ask {α : Type} (action : IO α) : IO (Except OsError α) := do
  match ← action.toBaseIO with
  | .ok a => return .ok a
  | .error e => return .error (.ofIO e)

instance : FileAccess IO where
  Handle := IO.FS.Handle
  read p := do return (← ask (IO.FS.readBinFile p.display)).map ByteArray.toList
  write p content := ask (IO.FS.writeBinFile p.display content.toByteArray)
  move source target := ask (IO.FS.rename source.display target.display)
  remove p := ask (IO.FS.removeFile p.display)
  openLog p append := ask (IO.FS.Handle.mk p.display (if append then .append else .write))
  append h content := ask (h.write content.toByteArray)

def readEnvironment : IO Environment := do
  let values ← Variable.all.mapM fun v => return (v, ← IO.getEnv v.name)
  return fun v => ((values.lookup v).bind fun value => value).map Text.Utf8.encode

def usage : String := "Usage: f256conv [OPTIONS] [INPUT]"

def Stop.text : Stop → String
  | .displayHelp => usage
  | .displayVersion => "f256conv 0.1.0"
  | .unknownArgument => "error: unexpected argument\n\n" ++ usage
  | .invalidValue => "error: invalid value for an option\n\n" ++ usage
  | .tooManyValues => "error: unexpected value for an option\n\n" ++ usage
  | .argumentConflict => "error: an option cannot be used with another\n\n" ++ usage
  | .missingRequiredArgument => "error: a required option is missing\n\n" ++ usage
  | .invalidUtf8 => "error: a value is not UTF-8\n\n" ++ usage

end HeaderSymbols

open HeaderSymbols in
def main (words : List String) : IO UInt32 := do
  match ← program (words.map Text.Utf8.encode) (← readEnvironment) with
  | .error stop =>
    if stop.status = 0 then IO.println stop.text else IO.eprintln stop.text
    return stop.status
  | .ok out =>
    IO.print out.stdout
    IO.eprint out.stderr
    return out.status
