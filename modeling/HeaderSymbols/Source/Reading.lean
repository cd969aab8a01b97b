import HeaderSymbols.Fault
import HeaderSymbols.Model
import HeaderSymbols.Namespaces
import HeaderSymbols.Source.Line

/-!
# Reading a source into a model

A reading goes through numbered lines once and builds the model as it goes. What a line is told
by is the number of its words first, and then the keyword among them; of the forms with two words
the first that fits decides. Texts, namespaces, regions and skips go to the document wherever they
stand; assignments, members and unnamed groups go to the innermost open group; a named structure is
registered and placed nowhere.

The state is passed on through everything that a line does. What finds a fault records it in the
reading as it is by then, with all that was done to it before, and the reading goes on from there.

Main statements: `steps_append`, lines after lines are read from where those have left the reading;
`finish_eq`, what is wrong at the end comes last.
-/
namespace HeaderSymbols

/-- Dots of a reference stand for the underscores between qualified names. -/
def undot (reference : String) : String :=
  String.ofList (reference.toList.map fun c => if c = '.' then '_' else c)

/-- The registered name that a reference to a structure means: a reference with a dot
counts from the outermost namespace, any other from the open ones. -/
def Namespaces.structureName (ns : Namespaces) (reference : String) : String :=
  if '.' ∈ reference.toList then undot reference else ns.qualify reference

/-- The state between two lines. -/
structure Reading where
  model : Model
  namespaces : Namespaces
  /-- The open groups, innermost first. -/
  scopes : List GroupId
  findings : Array Finding
  deriving DecidableEq, Repr

namespace Reading

def start : Reading := ⟨.empty, .root, [Model.document], #[]⟩

/-- The innermost open group. -/
def scope (r : Reading) : GroupId := r.scopes.headD Model.document

/-- The number of open groups. -/
def depth (r : Reading) : Nat := r.scopes.length

/-! ## What lines do -/

def record (r : Reading) (line : Option UInt32) (fault : Fault) : Reading :=
  { r with findings := r.findings.push ⟨line, fault⟩ }

/-- Adds an item to the document. -/
def note (r : Reading) (item : Item) : Reading :=
  { r with model := r.model.push Model.document item }

/-- Adds an item to the innermost open group. -/
def place (r : Reading) (item : Item) : Reading :=
  { r with model := r.model.push r.scope item }

def enter (r : Reading) (name : String) : Reading :=
  { r with namespaces := r.namespaces.enter name }

/-- Leaves the innermost namespace, and tells whether there was one. -/
def leave (r : Reading) : Bool × Reading :=
  (!r.namespaces.isRoot, { r with namespaces := r.namespaces.leave })

/-- The number that a word spells, or a finding that it spells none. -/
def number (r : Reading) (text : String) (line : UInt32) : Option UInt64 × Reading :=
  match Number.parse? text with
  | some n => (some n, r)
  | none => (none, r.record (some line) (.invalidNumber text))

def addMember (r : Reading) (name : String) (comment : Option String) (size : Option UInt64)
    (layout : Option String) (line : UInt32) : Reading :=
  r.place (.member ⟨name, comment, size, layout, line⟩)

/-- Opens a group in the innermost open one. -/
def openGroup (r : Reading) (kind : GroupKind) : Reading :=
  let (id, model) := r.model.addGroup kind
  let r := { r with model := model }.place (.group id)
  { r with scopes := id :: r.scopes }

/-- Opens a structure, and registers it under its name. -/
def openNamed (r : Reading) (name : String) : Reading :=
  let (id, model) := r.model.addGroup .struct
  let r := { r with model := model.register (r.namespaces.qualify name) id }
  { r with scopes := id :: r.scopes }

/-- What is wrong when nothing of this kind is there to be closed. -/
def closeFault : GroupKind → Fault
  | .struct => .endsOutsideStructure
  | .union => .enduOutsideUnion

/-- Closes the innermost open group, which must be of this kind and not the document. -/
def close (r : Reading) (kind : GroupKind) (line : UInt32) : Reading :=
  if r.scopes.length = 1 ∨ r.model.kind? r.scope ≠ some kind then
    r.record (some line) (closeFault kind)
  else { r with scopes := r.scopes.tail }

/-- Closes the innermost open group, of whatever kind. -/
def closeNamed (r : Reading) (line : UInt32) : Reading :=
  if r.scopes.length = 1 then r.record (some line) .endsOutsideStructure
  else { r with scopes := r.scopes.tail }

def unrecognized (r : Reading) (line : Line) (number : UInt32) : Reading :=
  r.record (some number) (.unrecognizedLine line.text)

/-! ## Lines -/

/-- The reading after a line of one word. -/
def oneWord (r : Reading) (word : String) (line : Line) (number : UInt32) : Reading :=
  if word = ".endn" then
    let (left, r) := r.leave
    if left then r.note .leave else r.record (some number) .endnOutsideNamespace
  else if word = ".endv" then r.note (.region none)
  else if word = ".ends" then r.close .struct number
  else if word = ".endu" then r.close .union number
  else if word = ".struct" then r.openGroup .struct
  else if word = ".union" then r.openGroup .union
  else r.unrecognized line number

/-- The reading after a line of two words. -/
def twoWords (r : Reading) (first second : String) (line : Line) (number : UInt32) : Reading :=
  if second = ".namespace" then
    let r := r.enter first
    r.note (.enter first)
  else if first = ".virtual" then
    match r.number second number with
    | (some address, r) => r.note (.region (some address))
    | (none, r) => r
  else if second = ".struct" then r.openNamed first
  else if first = ".word" then r.note (.skip 2 number)
  else if first = ".fill" then
    match r.number second number with
    | (some amount, r) => r.note (.skip amount number)
    | (none, r) => r
  else if second = ".ends" then r.closeNamed number
  else r.unrecognized line number

/-- The reading after a line of a name, the word that says what it is, and the word after that. -/
def threeWords (r : Reading) (name keyword argument : String) (line : Line) (number : UInt32) :
    Reading :=
  if keyword = "=" then
    if Number.isLiteral argument then
      match r.number argument number with
      | (some value, r) => r.place (.assignment name (.number value) line.comment)
      | (none, r) => r
    else
      let value := Value.symbol (r.namespaces.qualify (undot argument))
      r.place (.assignment name value line.comment)
  else if keyword = ".byte" then r.addMember name line.comment (some 1) none number
  else if keyword = ".word" then r.addMember name line.comment (some 2) none number
  else if keyword = ".dword" then r.addMember name line.comment (some 4) none number
  else if keyword = ".fill" then
    match r.number argument number with
    | (some size, r) => r.addMember name line.comment (some size) none number
    | (none, r) => r
  else if keyword = ".dstruct" then
    let layout := r.namespaces.structureName argument
    r.addMember name line.comment none (some layout) number
  else r.unrecognized line number

/-- The reading after one line more. -/
def step (r : Reading) (line : Line) (number : UInt32) : Reading :=
  match line.words with
  | [] => r.note (.text line.comment)
  | [word] => r.oneWord word line number
  | [first, second] => r.twoWords first second line number
  | [first, second, third] => r.threeWords first second third line number
  | _ => r.unrecognized line number

/-- The reading after lines that carry their numbers. -/
def steps (r : Reading) (lines : List (Line × UInt32)) : Reading :=
  lines.foldl (fun r l => r.step l.1 l.2) r

/-- What must not be left open at the end of a source, and is. -/
def unclosed (r : Reading) : List Fault :=
  (if r.scopes.length = 1 then [] else [.unclosedGroup]) ++
    (if r.namespaces.isRoot then [] else [.unclosedNamespace])

/-- The reading at the end of its source. -/
def finish (r : Reading) : Reading := r.unclosed.foldl (fun r fault => r.record none fault) r

/-- Lines count from 1. -/
def numbered (lines : List Line) : List (Line × UInt32) :=
  lines.zipIdx.map fun l => (l.1, UInt32.ofNat l.2 + 1)

/-- The reading of all lines of a source. -/
def ofLines (lines : List Line) : Reading := (start.steps (numbered lines)).finish

/-! ## Laws -/

@[simp] theorem note_findings (r : Reading) (item : Item) : (r.note item).findings = r.findings :=
  rfl

@[simp] theorem place_findings (r : Reading) (item : Item) :
    (r.place item).findings = r.findings := rfl

@[simp] theorem steps_nil (r : Reading) : r.steps [] = r := rfl

@[simp] theorem steps_cons (r : Reading) (line : Line) (number : UInt32)
    (rest : List (Line × UInt32)) :
    r.steps ((line, number) :: rest) = (r.step line number).steps rest := rfl

theorem steps_append (r : Reading) (xs ys : List (Line × UInt32)) :
    r.steps (xs ++ ys) = (r.steps xs).steps ys := List.foldl_append

/-- What is wrong at the end of a source comes last, and changes nothing else. -/
theorem finish_eq (r : Reading) :
    r.finish =
      { r with findings := r.findings ++ (r.unclosed.map (Finding.mk none)).toArray } := by
  have hrecord : ∀ (faults : List Fault) (r : Reading),
      faults.foldl (fun r fault => r.record none fault) r =
        { r with findings := r.findings ++ (faults.map (Finding.mk none)).toArray } := by
    intro faults
    induction faults with
    | nil => simp
    | cons fault rest ih =>
      intro r
      have hpush : (r.record none fault).findings ++ (rest.map (Finding.mk none)).toArray =
          r.findings ++ ((fault :: rest).map (Finding.mk none)).toArray := by
        simp [record]
      rw [List.foldl_cons, ih, hpush]
      rfl
  exact hrecord r.unclosed r

@[simp] theorem finish_model (r : Reading) : r.finish.model = r.model := by rw [finish_eq]

theorem findings_finish (r : Reading) :
    r.finish.findings.toList = r.findings.toList ++ r.unclosed.map (Finding.mk none) := by
  rw [finish_eq]
  simp

end Reading
end HeaderSymbols
