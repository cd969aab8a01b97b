import HeaderSymbols.Text.Blank
import HeaderSymbols.Text.Utf8

/-!
# Environment variables

Seven variables supply what the command line leaves open. Their values are read as text
without the blanks around it, and an empty value counts as no value. A switch is a word
for on or off, in any case of its letters.

Main statement: `switch?_congr`, a switch depends on the value of its own variable only.
-/
namespace HeaderSymbols

inductive Variable where
  | output | target | visibility | quiet | errorFile | errorAppend | noError
  deriving DecidableEq, Repr

def Variable.name : Variable → String
  | output => "F256CONV_OUTPUT"
  | target => "F256CONV_TARGET"
  | visibility => "F256CONV_VISIBILITY"
  | quiet => "F256CONV_QUIET"
  | errorFile => "F256CONV_ERROR_FILE"
  | errorAppend => "F256CONV_ERROR_APPEND"
  | noError => "F256CONV_NO_ERROR"

def Variable.all : List Variable :=
  [output, target, visibility, quiet, errorFile, errorAppend, noError]

/-- The values of the variables that are set. -/
abbrev Environment := Variable → Option Bytes

namespace Environment

/-- The text of a value, without the blanks around it. -/
def trimmed (value : Bytes) : List Char := Text.trim (Text.Utf8.decodeLossy value).toList

/-- The text of a variable that is set to one. -/
def text? (env : Environment) (v : Variable) : Option String :=
  (env v).bind fun value =>
    if (trimmed value).isEmpty then none else some (String.ofList (trimmed value))

def onWords : List String := ["1", "true", "yes", "on"]

def offWords : List String := ["0", "false", "no", "off"]

/-- What a variable is switched to, if to anything; the error is the word it is set to. -/
def switch? (env : Environment) (v : Variable) : Except String (Option Bool) :=
  match env v with
  | none => .ok none
  | some value =>
    let word := String.ofList ((trimmed value).map Char.toLower)
    if word ∈ onWords then .ok (some true)
    else if word ∈ offWords then .ok (some false)
    else if word.isEmpty then .ok none
    else .error word

theorem text?_congr {env other : Environment} {v : Variable} (h : env v = other v) :
    env.text? v = other.text? v := by simp [text?, h]

theorem switch?_congr {env other : Environment} {v : Variable} (h : env v = other v) :
    env.switch? v = other.switch? v := by simp [switch?, h]

end Environment
end HeaderSymbols
