import HeaderSymbols.Fault
import HeaderSymbols.Layout.Cursor
import HeaderSymbols.Namespaces

/-!
# Emitting lines

A layout is written as lines: texts passed on, and symbols with their values. The
emitter collects the lines and the faults met on the way, counts the symbols, and keeps the
namespaces that qualify them. `visit` is what it does at one item of a group.

Main statements: `extends_visit`, nothing emitted or reported is ever taken back;
`visit_eq_nest` and `not_mem_path_of_visit`, a group is nested only for an item that is one,
and expanded only where it is not being expanded already.
-/
namespace HeaderSymbols

inductive OutputLine where
  | text (comment : Option String)
  | symbol (name : String) (value : Value) (comment : Option String)
  deriving DecidableEq, Repr

namespace OutputLine

def render : OutputLine → String
  | text comment => comment.getD ""
  | symbol name value comment =>
    name ++ " = " ++ value.text ++
      match comment with
      | some c => "  " ++ c
      | none => ""

def isSymbol : OutputLine → Bool
  | text _ => false
  | symbol .. => true

/-- The text of lines, each ended by a line feed. -/
def renderAll (lines : List OutputLine) : String :=
  String.join (lines.map fun l => l.render ++ "\n")

end OutputLine

structure Emitter where
  namespaces : Namespaces
  lines : Array OutputLine
  findings : Array Finding
  /-- The number of symbols emitted. -/
  symbols : Nat
  deriving DecidableEq, Repr

/-- What becomes of an item: it ends at a cursor, or a group is to be laid out in its place,
just so or as the expansion of a member. -/
inductive Move where
  | finish (cursor : Cursor)
  | nest (id : GroupId)
  | expand (id : GroupId)
  deriving DecidableEq, Repr

namespace Emitter

def new : Emitter := ⟨.root, #[], #[], 0⟩

instance : Inhabited Emitter := ⟨new⟩

def output (e : Emitter) : String := OutputLine.renderAll e.lines.toList

def enter (e : Emitter) (name : String) : Emitter :=
  { e with namespaces := e.namespaces.enter name }

def leave (e : Emitter) : Emitter := { e with namespaces := e.namespaces.leave }

/-- Leaves all namespaces. -/
def clear (e : Emitter) : Emitter := { e with namespaces := .root }

def emit (e : Emitter) (line : OutputLine) : Emitter := { e with lines := e.lines.push line }

/-- Emits a symbol, qualified by the open namespaces, and counts it. -/
def define (e : Emitter) (name : String) (value : Value) (comment : Option String) : Emitter :=
  let e := e.emit (.symbol (e.namespaces.qualify name) value comment)
  { e with symbols := e.symbols + 1 }

def report (e : Emitter) (line : Option UInt32) (fault : Fault) : Emitter :=
  { e with findings := e.findings.push ⟨line, fault⟩ }

/-- Moves on from an address, and ends addresses where there is no further one. -/
def advance (e : Emitter) (address amount : UInt64) (line : UInt32) : Emitter × Cursor :=
  match Cursor.advance? address amount with
  | some next => (e, some next)
  | none => (e.report line .addressOverflow, none)

def skip (e : Emitter) (start : Cursor) (amount : UInt64) (line : UInt32) : Emitter × Cursor :=
  match start with
  | some address => e.advance address amount line
  | none => (e.report line .skipOutsideRegion, none)

/-- A member without structure: a symbol for its address, and its size to move on by. -/
def field (e : Emitter) (m : Member) (start : Cursor) : Emitter × Cursor :=
  match start with
  | none => (e.report m.line .memberOutsideRegion, none)
  | some address =>
    let e := e.define m.name (.number address) m.comment
    match m.size with
    | some size => e.advance address size m.line
    | none => (e.report m.line (.unsizedMember (e.namespaces.qualify m.name)), start)

/-- The group that a member's structure name stands for, when a member at this cursor inside
these expansions can be expanded to it. -/
def resolve (model : Model) (path : List GroupId) (start : Cursor) (name : String) :
    Except Fault GroupId :=
  if start.isNone then .error .memberOutsideRegion
  else
    match model.lookup name with
    | none => .error (.unknownStructure name)
    | some id => if id ∈ path then .error (.recursiveStructure name) else .ok id

/-- A member met at a cursor inside the expansions of `path`. A member that cannot be expanded
ends where it is. -/
def member (model : Model) (path : List GroupId) (start : Cursor) (e : Emitter) (m : Member) :
    Emitter × Move :=
  match m.layout with
  | none => (e.field m start).map id .finish
  | some name =>
    match resolve model path start name with
    | .ok id => (e.enter m.name, .expand id)
    | .error fault => (e.report m.line fault, .finish start)

/-- An item met at a cursor inside the expansions of `path`. -/
def visit (model : Model) (path : List GroupId) (start : Cursor) (e : Emitter) :
    Item → Emitter × Move
  | .text comment => (e.emit (.text comment), .finish start)
  | .enter name => (e.enter name, .finish start)
  | .leave => (e.leave, .finish start)
  | .region address => (e, .finish address)
  | .skip amount line => (e.skip start amount line).map id .finish
  | .assignment name value comment => (e.define name value comment, .finish start)
  | .member m => e.member model path start m
  | .group id => (e, .nest id)

/-! ## Laws -/

/-- The number of symbols among lines. -/
def countSymbols (lines : Array OutputLine) : Nat := lines.countP OutputLine.isSymbol

/-- Nothing that one emitter has emitted or reported is missing in the other, and the symbols that
it has emitted besides are counted. -/
structure Extends (e e' : Emitter) : Prop where
  lines : e.lines.toList <+: e'.lines.toList
  findings : e.findings.toList <+: e'.findings.toList
  symbols : e'.symbols + countSymbols e.lines = e.symbols + countSymbols e'.lines

theorem Extends.refl (e : Emitter) : e.Extends e :=
  ⟨List.prefix_refl _, List.prefix_refl _, rfl⟩

theorem Extends.trans {e₁ e₂ e₃ : Emitter} (h : e₁.Extends e₂) (h' : e₂.Extends e₃) :
    e₁.Extends e₃ := by
  refine ⟨h.lines.trans h'.lines, h.findings.trans h'.findings, ?_⟩
  have hfirst := h.symbols
  have hsecond := h'.symbols
  omega

/-- Between two emitters with the same findings no further ones were met. -/
theorem Extends.findings_eq {e₁ e₂ e₃ : Emitter} (h : e₁.Extends e₂) (h' : e₂.Extends e₃)
    (he : e₃.findings = e₁.findings) : e₂.findings = e₁.findings := by
  have hle := h'.findings.length_le
  rw [he] at hle
  exact Array.toList_inj.1 (h.findings.eq_of_length_le hle).symm

/-- An emitter that has counted its symbols has counted them when it has emitted more. -/
theorem Extends.symbols_eq {e e' : Emitter} (h : e.Extends e')
    (he : e.symbols = countSymbols e.lines) : e'.symbols = countSymbols e'.lines := by
  have hsymbols := h.symbols
  omega

theorem extends_text (e : Emitter) (comment : Option String) :
    e.Extends (e.emit (.text comment)) :=
  ⟨by simp [emit], List.prefix_refl _, by simp [emit, countSymbols, OutputLine.isSymbol]⟩

theorem extends_define (e : Emitter) (name : String) (value : Value) (comment : Option String) :
    e.Extends (e.define name value comment) := by
  refine ⟨by simp [define, emit], List.prefix_refl _, ?_⟩
  simp only [define, emit, countSymbols, Array.countP_push, OutputLine.isSymbol, if_true]
  omega

theorem extends_report (e : Emitter) (line : Option UInt32) (fault : Fault) :
    e.Extends (e.report line fault) := ⟨List.prefix_refl _, by simp [report], rfl⟩

theorem extends_enter (e : Emitter) (name : String) : e.Extends (e.enter name) :=
  ⟨List.prefix_refl _, List.prefix_refl _, rfl⟩

theorem extends_leave (e : Emitter) : e.Extends e.leave :=
  ⟨List.prefix_refl _, List.prefix_refl _, rfl⟩

theorem extends_advance (e : Emitter) (address amount : UInt64) (line : UInt32) :
    e.Extends (e.advance address amount line).1 := by
  unfold advance
  split
  · exact .refl e
  · exact extends_report ..

theorem lines_advance (e : Emitter) (address amount : UInt64) (line : UInt32) :
    (e.advance address amount line).1.lines = e.lines := by
  unfold advance
  split <;> rfl

theorem extends_skip (e : Emitter) (start : Cursor) (amount : UInt64) (line : UInt32) :
    e.Extends (e.skip start amount line).1 := by
  unfold skip
  split
  · exact extends_advance ..
  · exact extends_report ..

theorem extends_field (e : Emitter) (m : Member) (start : Cursor) :
    e.Extends (e.field m start).1 := by
  unfold field
  split
  · exact extends_report ..
  · have hd := extends_define e m.name
    split
    · exact (hd ..).trans (extends_advance ..)
    · exact (hd ..).trans (extends_report ..)

theorem extends_visit (model : Model) (path : List GroupId) (start : Cursor) (e : Emitter)
    (item : Item) : e.Extends (e.visit model path start item).1 := by
  cases item with
  | text => exact extends_text ..
  | assignment => exact extends_define ..
  | skip => exact extends_skip ..
  | member m =>
    simp only [visit, member]
    split
    · exact extends_field e m start
    · split
      · exact extends_enter ..
      · exact extends_report ..
  | enter => exact extends_enter ..
  | leave => exact extends_leave e
  | region | group => exact .refl e

/-- What becomes of an item depends on the names that are registered and on which of their groups
are on the path, and on nothing else of a model or a path. -/
theorem visit_congr {m m' : Model} (h : ∀ name, m'.lookup name = m.lookup name)
    {path path' : List GroupId}
    (hpath : ∀ name id, m.lookup name = some id → (id ∈ path' ↔ id ∈ path))
    (start : Cursor) (e : Emitter) (item : Item) :
    e.visit m' path' start item = e.visit m path start item := by
  have hresolve (name : String) : resolve m' path' start name = resolve m path start name := by
    unfold resolve
    rw [h]
    cases hl : m.lookup name with
    | none => rfl
    | some id => simp only [hpath name id hl]
  cases item with
  | member mem => simp only [visit, member, hresolve]
  | _ => rfl

theorem visit_of_lookup {m m' : Model} (h : ∀ name, m'.lookup name = m.lookup name)
    (path : List GroupId) (start : Cursor) (e : Emitter) (item : Item) :
    e.visit m' path start item = e.visit m path start item :=
  visit_congr h (fun _ _ _ => Iff.rfl) start e item

theorem visit_eq_nest {m : Model} {path : List GroupId} {start : Cursor} {e e' : Emitter}
    {item : Item} {id : GroupId} (h : e.visit m path start item = (e', .nest id)) :
    item = .group id ∧ e' = e := by
  cases item with
  | group child =>
    simp only [visit, Prod.mk.injEq, Move.nest.injEq] at h
    exact ⟨by rw [h.2], h.1.symm⟩
  | member mem =>
    simp only [visit, member] at h
    split at h
    · simp [Prod.map] at h
    · split at h <;> simp at h
  | _ => simp [visit, Prod.map] at h

theorem resolve_eq_ok {m : Model} {path : List GroupId} {start : Cursor} {name : String}
    {id : GroupId} (h : resolve m path start name = .ok id) :
    start.isSome ∧ m.lookup name = some id ∧ id ∉ path := by
  unfold resolve at h
  split at h
  · cases h
  · rename_i hs
    split at h
    · cases h
    · rename_i hl
      split at h
      · cases h
      · rename_i hp
        cases h
        exact ⟨Option.isSome_iff_ne_none.2 (by simpa using hs), hl, hp⟩

theorem visit_eq_expand {m : Model} {path : List GroupId} {start : Cursor} {e e' : Emitter}
    {item : Item} {id : GroupId} (h : e.visit m path start item = (e', .expand id)) :
    ∃ mem name, item = .member mem ∧ mem.layout = some name ∧
      resolve m path start name = .ok id ∧ e' = e.enter mem.name := by
  cases item with
  | member mem =>
    simp only [visit, member] at h
    split at h
    · simp [Prod.map] at h
    · rename_i name hl
      split at h
      · rename_i target hr
        simp only [Prod.mk.injEq, Move.expand.injEq] at h
        exact ⟨mem, name, rfl, hl, h.2 ▸ hr, h.1.symm⟩
      · simp at h
  | _ => simp [visit, Prod.map] at h

theorem not_mem_path_of_visit {m : Model} {path : List GroupId} {start : Cursor} {e e' : Emitter}
    {item : Item} {id : GroupId} (h : e.visit m path start item = (e', .expand id)) :
    id ∉ path := by
  obtain ⟨mem, name, -, -, hr, -⟩ := visit_eq_expand h
  exact (resolve_eq_ok hr).2.2

end Emitter
end HeaderSymbols
