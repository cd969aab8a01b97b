import HeaderSymbols.File.Path

/-!
# Command-line arguments

Words are read from left to right, and reading stops at the first that cannot be read.
An option takes its value from the same word, after an equals sign or, in its short
form, right behind the letter, or else from the next word; then its value is judged only
when the next option or input is met, or the words end. Short options without a value
can share a word. A word of two hyphens ends the options.

Main statement: what is read keeps the rules between options (`validate_eq_ok_iff`).
-/
namespace HeaderSymbols

/-- Why reading stops: an error of the caller's, or a request for help or the version. -/
inductive Stop where
  | unknownArgument
  /-- A value missing, empty where a path is wanted, or not one of those listed. -/
  | invalidValue
  /-- A value for an option that takes none. -/
  | tooManyValues
  /-- An option given twice, or with one that excludes it. -/
  | argumentConflict
  | missingRequiredArgument
  /-- A value that must be text and is not. -/
  | invalidUtf8
  | displayHelp
  | displayVersion
  deriving DecidableEq, Repr

/-- The exit status of a program that stops so. -/
def Stop.status : Stop → UInt32
  | displayHelp | displayVersion => 0
  | _ => 2

/-- How outcomes are written. -/
inductive Format where
  | text | json
  deriving DecidableEq, Repr

inductive Parameter where
  | input | outfile | target | visibility | check | format | quiet | error | errorAppend | noError
  | help | version
  deriving DecidableEq, Repr

namespace Parameter

def takesValue : Parameter → Bool
  | input | outfile | target | visibility | format | error => true
  | check | quiet | errorAppend | noError | help | version => false

/-- The names after two hyphens. -/
def long : List (String × Parameter) :=
  [("outfile", outfile), ("target", target), ("visibility", visibility), ("check", check),
   ("format", format), ("quiet", quiet), ("error", error), ("error-append", errorAppend),
   ("no-error", noError), ("help", help), ("version", version)]

/-- The letters after one hyphen. -/
def short : List (Char × Parameter) :=
  [('o', outfile), ('q', quiet), ('E', error), ('h', help), ('V', version)]

end Parameter

/-- What a command line says. -/
structure Arguments where
  input : Option Path
  outfile : Option Path
  target : Option String
  visibility : Option String
  check : Bool
  format : Option Format
  quiet : Bool
  error : Option Path
  errorAppend : Bool
  noError : Bool
  deriving DecidableEq, Repr

namespace Arguments

def none : Arguments := ⟨.none, .none, .none, .none, false, .none, false, .none, false, false⟩

/-- Whether a parameter has been given. -/
def has (a : Arguments) : Parameter → Bool
  | .input => a.input.isSome
  | .outfile => a.outfile.isSome
  | .target => a.target.isSome
  | .visibility => a.visibility.isSome
  | .check => a.check
  | .format => a.format.isSome
  | .quiet => a.quiet
  | .error => a.error.isSome
  | .errorAppend => a.errorAppend
  | .noError => a.noError
  | .help | .version => false

def path (value : Bytes) : Except Stop Path :=
  if value.isEmpty then .error .invalidValue else .ok ⟨value⟩

def text (value : Bytes) : Except Stop String :=
  match Text.Utf8.decode? value with
  | some s => .ok s
  | .none => .error .invalidUtf8

def formatOf (value : Bytes) : Except Stop Format :=
  if value = Text.Utf8.encode "text" then .ok .text
  else if value = Text.Utf8.encode "json" then .ok .json
  else .error .invalidValue

/-- Gives a parameter its value, which is ignored where the parameter takes none. -/
def assign (a : Arguments) (p : Parameter) (value : Bytes) : Except Stop Arguments :=
  if a.has p then .error .argumentConflict
  else
    match p with
    | .input => (path value).map fun v => { a with input := v }
    | .outfile => (path value).map fun v => { a with outfile := v }
    | .target => (text value).map fun v => { a with target := v }
    | .visibility => (text value).map fun v => { a with visibility := v }
    | .check => .ok { a with check := true }
    | .format => (formatOf value).map fun v => { a with format := v }
    | .quiet => .ok { a with quiet := true }
    | .error => (path value).map fun v => { a with error := v }
    | .errorAppend => .ok { a with errorAppend := true }
    | .noError => .ok { a with noError := true }
    | .help => .error .displayHelp
    | .version => .error .displayVersion

/-- The rules between options: no diagnostics file goes with no diagnostics, and appending
needs a file. -/
def validate (a : Arguments) : Except Stop Arguments :=
  if a.noError ∧ (a.error.isSome ∨ a.errorAppend) then .error .argumentConflict
  else if a.errorAppend ∧ a.error.isNone then .error .missingRequiredArgument
  else .ok a

theorem validate_eq_ok_iff {a b : Arguments} : a.validate = .ok b ↔
    a = b ∧ (a.noError = true → a.error = .none ∧ a.errorAppend = false) ∧
      (a.errorAppend = true → a.error.isSome = true) := by
  unfold validate
  split
  · rename_i h
    simp only [reduceCtorEq, false_iff, not_and]
    rintro - h1
    have := h1 h.1
    simp_all
  · split
    · rename_i h
      simp only [reduceCtorEq, false_iff, not_and]
      rintro - - h2
      have := h2 h.1
      simp_all
    · rename_i h1 h2
      simp only [Except.ok.injEq, iff_self_and]
      rintro -
      cases he : a.error <;> cases ha : a.errorAppend <;> simp_all

end Arguments

/-- A command line between two words. -/
structure ArgumentReader where
  arguments : Arguments
  /-- A parameter met but not judged, and its value if it has one. -/
  pending : Option (Parameter × Option Bytes)
  inputSeen : Bool
  /-- Whether the options have ended. -/
  ended : Bool
  deriving DecidableEq, Repr

namespace ArgumentReader

def start : ArgumentReader := ⟨.none, none, false, false⟩

/-- Judges what is pending. -/
def settle (r : ArgumentReader) : Except Stop ArgumentReader :=
  match r.pending with
  | none => .ok r
  | some (_, none) => .error .invalidValue
  | some (p, some value) =>
    (r.arguments.assign p value).map fun a => { r with arguments := a, pending := none }

/-- Takes a parameter with a value from the same word, or one without a value. -/
def take (r : ArgumentReader) (p : Parameter) (value : Bytes) : Except Stop ArgumentReader := do
  let r ← r.settle
  let a ← r.arguments.assign p value
  return { r with arguments := a }

/-- Takes a parameter whose value is in the next word, or has just been met. -/
def await (r : ArgumentReader) (p : Parameter) (value : Option Bytes) :
    Except Stop ArgumentReader := do
  let r ← r.settle
  return { r with pending := some (p, value) }

/-- A word that is neither an option nor an option's value. Only one is taken. -/
def positional (r : ArgumentReader) (word : Bytes) : Except Stop ArgumentReader :=
  if r.inputSeen then .error .unknownArgument
  else ({ r with inputSeen := true } : ArgumentReader).await .input (some word)

def equals : UInt8 := 0x3D

def hyphen : UInt8 := 0x2D

/-- The part of a word after its two hyphens: a name and, after an equals sign, a value. -/
def long (r : ArgumentReader) (body : Bytes) : Except Stop ArgumentReader :=
  let name := body.takeWhile (· != equals)
  let rest := body.dropWhile (· != equals)
  match (Text.Utf8.decode? name).bind fun n => Parameter.long.lookup n with
  | none => .error .unknownArgument
  | some p =>
    match p.takesValue, rest with
    | true, [] => r.await p none
    | true, _ :: value => r.take p value
    | false, [] => r.take p []
    | false, _ :: _ => .error .tooManyValues

/-- The value of a short option in the rest of its word. -/
def attached (rest : Bytes) : Option Bytes :=
  match rest with
  | [] => none
  | b :: value => if b = equals then some value else some rest

/-- The part of a word after its one hyphen: letters, of which the first that takes a value
takes the rest of the word. -/
def letters (r : ArgumentReader) : List (Option Char) → Bytes → Except Stop ArgumentReader
  | [], _ => .ok r
  | none :: _, _ => .error .unknownArgument
  | some c :: cs, bytes =>
    let rest := bytes.drop c.utf8Size
    match Parameter.short.lookup c with
    | none => .error .unknownArgument
    | some p =>
      if p.takesValue then
        match attached rest with
        | some value => r.take p value
        | none => r.await p none
      else do
        let r ← r.take p []
        r.letters cs rest

/-- A word that does not look like an option. -/
def plain (r : ArgumentReader) (word : Bytes) : Except Stop ArgumentReader :=
  match r.pending with
  | some (p, none) => .ok { r with pending := some (p, some word) }
  | _ => r.positional word

def word (r : ArgumentReader) (word : Bytes) : Except Stop ArgumentReader :=
  if r.ended then r.positional word
  else
    match word with
    | first :: second :: body =>
      if first = hyphen ∧ second = hyphen then
        if body.isEmpty then .ok { r with ended := true } else r.long body
      else if first = hyphen then r.letters (Text.Utf8.decode (second :: body)) (second :: body)
      else r.plain word
    | _ => r.plain word

end ArgumentReader

/-- What the words of a command line say, the name of the program not counted. -/
def Arguments.read (words : List Bytes) : Except Stop Arguments := do
  let r ← words.foldlM ArgumentReader.word .start
  let r ← r.settle
  r.arguments.validate

end HeaderSymbols
