import HeaderSymbols.Command.Settings
import HeaderSymbols.File.Access
import HeaderSymbols.Text.Json

/-!
# Running the program

A run opens the place for diagnostics, reads the input, converts it and, unless it only
checks, publishes the output: the text is written beside the output's path and moved
there, so that the output is never half written. A success is summed up in one line; a
failure is told by its diagnostics and, in text form, its summary.

Command lines are read, and JSON text is written, by libraries (`Libraries`), whatever
they are; `program` has those modelled here.
-/
namespace HeaderSymbols

/-- What the program leaves to libraries. -/
structure Libraries where
  /-- Reads the words of a command line, the name of the program not counted. -/
  arguments : List Bytes → Except Stop Arguments
  /-- Writes a JSON object with its members in the order given. -/
  object : List (String × Text.Scalar) → String

def Libraries.standard : Libraries := ⟨Arguments.read, Text.object⟩

/-! ## Files -/

section Files

variable {m : Type → Type} [Monad m] [FileAccess m]

/-- A failure of the system's, seen in the file that was to be converted. -/
def Failure.ofSystem (file task reason : String) : Failure :=
  let problem := Problem.withDetail .io task (some reason)
  ⟨problem, [⟨file, none, problem⟩]⟩

/-- The text of the input, which must be UTF-8. -/
def readSource (input : Path) : m (Except Failure String) := do
  match ← FileAccess.read input with
  | .error e => return .error (.ofSystem input.display "Error reading input file" e.text)
  | .ok bytes =>
    match Text.Utf8.decode? bytes with
    | some source => return .ok source
    | none =>
      return .error
        (.ofSystem input.display "Error reading input file" "stream did not contain valid UTF-8")

/-- Writes the output beside its path and moves it there; what is left beside it after a
failure is removed if it can be. -/
def publish (output : Path) (text : String) : m (Except OsError Unit) := do
  match ← FileAccess.write output.staging (Text.Utf8.encode text) with
  | .error e =>
    let _ ← FileAccess.remove output.staging
    return .error e
  | .ok () =>
    match ← FileAccess.move output.staging output with
    | .error e =>
      let _ ← FileAccess.remove output.staging
      return .error e
    | .ok () => return .ok ()

/-- Converts a file without writing anything. -/
def checkFile (o : Options) (input : Path) : m (Except Failure Conversion) := do
  match ← readSource input with
  | .error failure => return .error failure
  | .ok source => return convert o input.display source

/-- Converts a file and publishes the result. -/
def convertFile (o : Options) (input output : Path) : m (Except Failure Conversion) := do
  match ← readSource input with
  | .error failure => return .error failure
  | .ok source =>
    match convert o input.display source with
    | .error failure => return .error failure
    | .ok conversion =>
      match ← publish output conversion.output with
      | .error e => return .error (.ofSystem input.display "Error writing output file" e.text)
      | .ok () => return .ok conversion

end Files

/-! ## Reports -/

/-- A diagnostic in one line. -/
def Diagnostic.report (lib : Libraries) (d : Diagnostic) : Format → String
  | .text => d.text
  | .json => lib.object
      [("code", .text d.code),
       ("file", .text d.file),
       ("line", match d.line with
         | some line => .number line.toNat
         | none => .null),
       ("message", .text d.problem.message),
       ("severity", .text "error")]

/-- What is said of a failure, line by line. -/
def Failure.lines (lib : Libraries) (f : Failure) (format : Format) : List String :=
  f.diagnostics.map (·.report lib format) ++
    match format with
    | .text => [f.summary.message]
    | .json => []

namespace Settings

/-- What is said of a success, in one line. -/
def summary (lib : Libraries) (s : Settings) (c : Conversion) : String :=
  match s.format with
  | .text =>
    (if s.check then s.input.display ++ ": checked " else s.output.display ++ ": wrote ") ++
      toString c.symbols ++ " symbols from " ++ toString c.lines ++ " lines"
  | .json => lib.object
      [("input", .text s.input.display),
       ("lines", .number c.lines),
       ("output", if s.check then .null else .text s.output.display),
       ("status", .text "ok"),
       ("symbols", .number c.symbols)]

end Settings

/-! ## The program -/

/-- What a program shows. -/
structure Exit where
  status : UInt32
  stdout : String
  stderr : String
  deriving DecidableEq, Repr

/-- Where diagnostics go, once it is open. -/
inductive Outlet (Handle : Type) where
  | stderr
  | nowhere
  | file (h : Handle)

section Program

variable {m : Type → Type} [Monad m] [FileAccess m]

def Sink.openOutlet : Sink → m (Except OsError (Outlet (FileAccess.Handle m)))
  | .stderr => return .ok .stderr
  | .disabled => return .ok .nowhere
  | .file path append => do
    match ← FileAccess.openLog path append with
    | .error e => return .error e
    | .ok h => return .ok (.file h)

namespace Outlet

/-- Tells a line to an outlet; what is meant for standard error is returned. Whether a file takes
the line is not looked at. -/
def tellLine (line : String) : Outlet (FileAccess.Handle m) → m String
  | .stderr => return line ++ "\n"
  | .nowhere => return ""
  | .file h => do
    let _ ← FileAccess.append h (Text.Utf8.encode (line ++ "\n"))
    return ""

/-- Tells lines one after another. -/
def tell (outlet : Outlet (FileAccess.Handle m)) : List String → m String
  | [] => return ""
  | line :: lines => do
    let shown ← outlet.tellLine line
    return shown ++ (← outlet.tell lines)

end Outlet

namespace Settings

/-- Converts the input, and publishes the output unless it is only to be checked. -/
def perform (s : Settings) : m (Except Failure Conversion) :=
  if s.check then checkFile s.options s.input else convertFile s.options s.input s.output

def run (lib : Libraries) (s : Settings) : m Exit := do
  match ← s.sink.openOutlet with
  | .error e => return ⟨1, "", "Failed to open diagnostics sink: " ++ e.text ++ "\n"⟩
  | .ok outlet =>
    match ← s.perform with
    | .ok conversion =>
      return ⟨0, if s.quiet then "" else s.summary lib conversion ++ "\n", ""⟩
    | .error failure => return ⟨1, "", ← outlet.tell (failure.lines lib s.format)⟩

end Settings

/-- The program, given the words of its command line and its environment. -/
def Libraries.program (lib : Libraries) (words : List Bytes) (env : Environment) :
    m (Except Stop Exit) := do
  match lib.arguments words with
  | .error stop => return .error stop
  | .ok arguments =>
    match Settings.resolve arguments env with
    | .error e => return .ok ⟨1, "", e.message ++ "\n"⟩
    | .ok settings => return .ok (← settings.run lib)

def program (words : List Bytes) (env : Environment) : m (Except Stop Exit) :=
  Libraries.standard.program words env

end Program
end HeaderSymbols
