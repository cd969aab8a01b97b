import HeaderSymbols.Model
import HeaderSymbols.Source.Line

/-!
# The language of headers

Which lines a header may have, one by one and together. A table lists the forms of a line. The
first form whose keywords stand in a line is the form of that line, and the numbers that it asks
for must then be there; no later form is tried. What a form means for the groups and the
namespaces around it makes the lines two words of brackets: an opened group ends in an end of
its kind or in one of no kind, and a namespace that is entered is left.

* `table`, `formOf?`, `Formed`: the forms of a line, and the lines that have one.
* `Balanced`: the words in which every bracket is closed by one that fits.
* `groupBrackets`, `namespaceBrackets`: the two words that lines make.
-/
namespace HeaderSymbols.Grammar

/-! ## The forms of a line -/

/-- What a form asks of one word. -/
inductive Slot where
  | any
  | keyword (text : String)
  | number
  /-- Any word that does not look like a number, or a number. -/
  | value
  deriving DecidableEq, Repr

/-- What a line is for the groups and the namespaces around it. -/
inductive Role where
  | plain
  | opens (kind : GroupKind)
  /-- The end of a group of this kind, or of either. -/
  | closes (kind : Option GroupKind)
  | enters
  | leaves
  deriving DecidableEq, Repr

structure Form where
  slots : List Slot
  role : Role
  deriving DecidableEq, Repr

/-- The forms of a line, in the order in which they are tried. -/
def table : List Form := [
  ⟨[.keyword ".endn"], .leaves⟩,
  ⟨[.keyword ".endv"], .plain⟩,
  ⟨[.keyword ".ends"], .closes (some .struct)⟩,
  ⟨[.keyword ".endu"], .closes (some .union)⟩,
  ⟨[.keyword ".struct"], .opens .struct⟩,
  ⟨[.keyword ".union"], .opens .union⟩,
  ⟨[.any, .keyword ".namespace"], .enters⟩,
  ⟨[.keyword ".virtual", .number], .plain⟩,
  ⟨[.any, .keyword ".struct"], .opens .struct⟩,
  ⟨[.keyword ".word", .any], .plain⟩,
  ⟨[.keyword ".fill", .number], .plain⟩,
  ⟨[.any, .keyword ".ends"], .closes none⟩,
  ⟨[.any, .keyword "=", .value], .plain⟩,
  ⟨[.any, .keyword ".byte", .any], .plain⟩,
  ⟨[.any, .keyword ".word", .any], .plain⟩,
  ⟨[.any, .keyword ".dword", .any], .plain⟩,
  ⟨[.any, .keyword ".fill", .number], .plain⟩,
  ⟨[.any, .keyword ".dstruct", .any], .plain⟩]

/-- Whether a word is the keyword, where a keyword is asked for. -/
def Slot.fits : Slot → String → Bool
  | keyword text, word => word = text
  | _, _ => true

/-- Whether there are as many words as slots, with the keywords in their places. -/
def fits : List Slot → List String → Bool
  | [], [] => true
  | slot :: slots, word :: words => slot.fits word && fits slots words
  | [], _ :: _ | _ :: _, [] => false

/-- The form of a line with these words. -/
def formOf? (words : List String) : Option Form := table.find? fun form => fits form.slots words

/-- A word that begins with a dollar sign or has decimal digits only. -/
def LooksNumeric (word : String) : Prop :=
  word.toList.head? = some '$' ∨ word.toList ≠ [] ∧ ∀ c ∈ word.toList, c.isDigit = true

/-- The word is a number, where one is asked for. -/
def Slot.Sound : Slot → String → Prop
  | number, word => (Number.parse? word).isSome
  | value, word => LooksNumeric word → (Number.parse? word).isSome
  | _, _ => True

/-- The numbers that the form asks for are there. -/
def Form.Sound (form : Form) (words : List String) : Prop :=
  ∀ p ∈ form.slots.zip words, p.1.Sound p.2

/-- The words have a form, and the numbers that it asks for. -/
def Formed (words : List String) : Prop := ∃ form, formOf? words = some form ∧ form.Sound words

def role? (words : List String) : Option Role := (formOf? words).map Form.role

/-! ## Brackets -/

/-- A bracket of a word, which opens something or closes what is open. -/
inductive Bracket (α β : Type) where
  | opens (a : α)
  | closes (b : β)
  deriving DecidableEq, Repr

/-- The words in which every bracket that opens is closed by one that fits it. -/
inductive Balanced {α β : Type} (Fits : α → β → Prop) : List (Bracket α β) → Prop where
  | nil : Balanced Fits []
  | block {a b inner rest} (fits : Fits a b) (inside : Balanced Fits inner)
      (after : Balanced Fits rest) :
      Balanced Fits (.opens a :: (inner ++ .closes b :: rest))

/-- An end of a group fits when it is an end of this kind, or of no kind. -/
def Ends (kind : GroupKind) (closer : Option GroupKind) : Prop := ∀ k ∈ closer, k = kind

/-- The end of a namespace fits whatever namespace is open. -/
def Leaves (_ _ : Unit) : Prop := True

def Role.groupBracket? : Role → Option (Bracket GroupKind (Option GroupKind))
  | opens kind => some (.opens kind)
  | closes kind => some (.closes kind)
  | _ => none

def Role.namespaceBracket? : Role → Option (Bracket Unit Unit)
  | enters => some (.opens ())
  | leaves => some (.closes ())
  | _ => none

/-- The roles of the lines that have a form. -/
def roles (lines : List Line) : List Role := lines.filterMap fun line => role? line.words

/-- The lines that open or close a group. -/
def groupBrackets (lines : List Line) : List (Bracket GroupKind (Option GroupKind)) :=
  (roles lines).filterMap Role.groupBracket?

/-- The lines that enter or leave a namespace. -/
def namespaceBrackets (lines : List Line) : List (Bracket Unit Unit) :=
  (roles lines).filterMap Role.namespaceBracket?

end HeaderSymbols.Grammar
