import HeaderSymbols.Command.Arguments
import HeaderSymbols.Command.Environment
import HeaderSymbols.Conversion
import HeaderSymbols.Text.Quoted

/-!
# Settings

What a run is to do: the command line decides first, then the environment, then a
default. The output must not be the input, by the names in their paths, and the words
that go into the prologue must be words.

Main statement: `isWord_of_word_eq_ok`, a target or visibility that is accepted is a
word, and the one that was given.
-/
namespace HeaderSymbols

/-- Why a run cannot start. -/
inductive SettingsError where
  /-- A switch set to a word that is neither on nor off. -/
  | invalidSwitch (v : Variable) (word : String)
  | outputIsInput
  | invalidTarget (text : String)
  | invalidVisibility (text : String)
  deriving DecidableEq, Repr

def SettingsError.message : SettingsError → String
  | invalidSwitch v word => "Invalid boolean value for " ++ v.name ++ ": " ++ word
  | outputIsInput => "Output file must differ from the input file"
  | invalidTarget text => "Invalid target: " ++ Text.Quoted.encode text
  | invalidVisibility text => "Invalid visibility: " ++ Text.Quoted.encode text

def SettingsError.failure (e : SettingsError) : Failure := ⟨⟨.cli, e.message⟩, []⟩

/-- Where diagnostics go. -/
inductive Sink where
  | stderr
  | disabled
  | file (path : Path) (append : Bool)
  deriving DecidableEq, Repr

structure Settings where
  input : Path
  output : Path
  options : Options
  /-- Whether the output is only checked, not written. -/
  check : Bool
  quiet : Bool
  format : Format
  sink : Sink
  deriving DecidableEq, Repr

namespace Settings

def standardInput : Path := .ofString "f256-microkernel-api.asm"

def standardOutput : Path := .ofString "f256-microkernel.s"

/-- A word can stand unquoted or between quotes: it is not empty, and has neither blanks nor
quotes. -/
def isWord (s : String) : Bool :=
  !s.toList.isEmpty && s.toList.all fun c => !Text.isBlank c && c != '"'

def word (error : String → SettingsError) (s : String) : Except SettingsError String :=
  if isWord s then .ok s else .error (error s)

def switch (env : Environment) (v : Variable) : Except SettingsError (Option Bool) :=
  (env.switch? v).mapError (.invalidSwitch v)

/-- Where diagnostics go. A file named on the command line overrides an environment that
wants none. -/
def sinkOf (a : Arguments) (env : Environment) (append noError : Option Bool) : Sink :=
  if a.noError || (a.error.isNone && noError.getD false) then .disabled
  else
    match a.error.or ((env.text? .errorFile).map Path.ofString) with
    | some path => .file path (a.errorAppend || append.getD false)
    | none => .stderr

def resolve (a : Arguments) (env : Environment) : Except SettingsError Settings := do
  let quiet ← switch env .quiet
  let append ← switch env .errorAppend
  let noError ← switch env .noError
  let input := a.input.getD standardInput
  let output := (a.outfile.or ((env.text? .output).map Path.ofString)).getD standardOutput
  if input.alike output then throw .outputIsInput
  let target ← word .invalidTarget ((a.target.or (env.text? .target)).getD Options.standard.target)
  let visibility ← word .invalidVisibility
    ((a.visibility.or (env.text? .visibility)).getD Options.standard.visibility)
  return {
    input
    output
    options := ⟨Options.standard.tool, target, visibility⟩
    check := a.check
    quiet := a.quiet || quiet.getD false
    format := a.format.getD .text
    sink := sinkOf a env append noError }

theorem isWord_of_word_eq_ok {error : String → SettingsError} {s t : String}
    (h : word error s = .ok t) : isWord s = true ∧ t = s := by
  unfold word at h
  split at h
  · exact ⟨‹_›, by simpa using h.symm⟩
  · simp at h

end Settings
end HeaderSymbols
