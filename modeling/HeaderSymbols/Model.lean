import HeaderSymbols.Text.Number

/-!
# The model of a header

A header is a set of groups. A group is a structure, whose members follow each other,
or a union, whose members start together; group 0 is the document. Members are items
in source order. Structures that have a name are found in a registry, where the latest
registration of a name counts.

Main statements: what `push` and `addGroup` do to each group (`group?_push`,
`group?_addGroup`), and what `register` does to each name (`lookup_register`).
-/
namespace HeaderSymbols

/-- An address, where there is one. -/
abbrev Cursor := Option UInt64

abbrev GroupId := Nat

inductive GroupKind where
  | struct | union
  deriving DecidableEq, Repr

/-- The right-hand side of an assignment. -/
inductive Value where
  | number (n : UInt64)
  | symbol (name : String)
  deriving DecidableEq, Repr

def Value.text : Value → String
  | number n => Number.hex n
  | symbol name => name

/-- A field, which has a size or is laid out as the structure registered under a name. -/
structure Member where
  name : String
  comment : Option String
  size : Option UInt64
  layout : Option String
  line : UInt32
  deriving DecidableEq, Repr

inductive Item where
  /-- A line to be passed on: a comment, or nothing. -/
  | text (comment : Option String)
  | enter (name : String)
  | leave
  /-- The start of an address region, or the end of addresses. -/
  | region (start : Cursor)
  | skip (amount : UInt64) (line : UInt32)
  | assignment (name : String) (value : Value) (comment : Option String)
  | member (m : Member)
  /-- A group without a name of its own. -/
  | group (id : GroupId)
  deriving DecidableEq, Repr

structure Group where
  kind : GroupKind
  items : Array Item
  deriving DecidableEq, Repr

/-- The members in source order. -/
def Group.members (g : Group) : List Item := g.items.toList

structure Model where
  groups : Array Group
  /-- Registered names, the latest first. -/
  registry : List (String × GroupId)
  deriving DecidableEq, Repr

namespace Model

/-- The group of everything that stands in no other. -/
def document : GroupId := 0

/-- A document without members. -/
def empty : Model := ⟨#[⟨.struct, #[]⟩], []⟩

def group? (m : Model) (id : GroupId) : Option Group := m.groups[id]?

def kind? (m : Model) (id : GroupId) : Option GroupKind := (m.group? id).map Group.kind

/-- A group that is not there counts as a structure, without members. -/
def kind (m : Model) (id : GroupId) : GroupKind := (m.kind? id).getD .struct

def members (m : Model) (id : GroupId) : List Item := ((m.group? id).map Group.members).getD []

/-- The model with one more group, and the group's identity. -/
def addGroup (m : Model) (kind : GroupKind) : GroupId × Model :=
  (m.groups.size, { m with groups := m.groups.push ⟨kind, #[]⟩ })

def push (m : Model) (id : GroupId) (item : Item) : Model :=
  { m with groups := m.groups.modify id fun g => { g with items := g.items.push item } }

def register (m : Model) (name : String) (id : GroupId) : Model :=
  { m with registry := (name, id) :: m.registry }

def lookup (m : Model) (name : String) : Option GroupId := m.registry.lookup name

/-! ## Laws -/

theorem group?_push (m : Model) (id : GroupId) (item : Item) (other : GroupId) :
    (m.push id item).group? other =
      if id = other then (m.group? other).map fun g => { g with items := g.items.push item }
      else m.group? other := by
  simp [group?, push, Array.getElem?_modify]

theorem kind?_push (m : Model) (id : GroupId) (item : Item) (other : GroupId) :
    (m.push id item).kind? other = m.kind? other := by
  simp only [kind?, group?_push]
  split <;> simp [Function.comp_def]

theorem members_push (m : Model) {id : GroupId} (item : Item) (h : id < m.groups.size)
    (other : GroupId) :
    (m.push id item).members other =
      if id = other then m.members other ++ [item] else m.members other := by
  simp only [members, group?_push]
  split
  · rename_i heq
    subst heq
    simp [group?, h, Group.members]
  · rfl

theorem group?_addGroup (m : Model) (kind : GroupKind) (other : GroupId) :
    (m.addGroup kind).2.group? other =
      if other = m.groups.size then some ⟨kind, #[]⟩ else m.group? other := by
  simp [group?, addGroup, Array.getElem?_push]

@[simp] theorem size_push (m : Model) (id : GroupId) (item : Item) :
    (m.push id item).groups.size = m.groups.size := Array.size_modify

@[simp] theorem size_addGroup (m : Model) (kind : GroupKind) :
    (m.addGroup kind).2.groups.size = m.groups.size + 1 := Array.size_push ..

theorem members_addGroup (m : Model) (kind : GroupKind) (other : GroupId) :
    (m.addGroup kind).2.members other = m.members other := by
  simp only [members, group?_addGroup]
  split
  · rename_i h
    subst h
    simp [group?, Group.members]
  · rfl

theorem kind?_addGroup (m : Model) (kind : GroupKind) (other : GroupId) :
    (m.addGroup kind).2.kind? other =
      if other = m.groups.size then some kind else m.kind? other := by
  simp only [kind?, group?_addGroup]
  split <;> rfl

@[simp] theorem size_register (m : Model) (name : String) (id : GroupId) :
    (m.register name id).groups.size = m.groups.size := rfl

@[simp] theorem group?_register (m : Model) (name : String) (id other : GroupId) :
    (m.register name id).group? other = m.group? other := rfl

theorem lookup_register (m : Model) (name : String) (id : GroupId) (other : String) :
    (m.register name id).lookup other = if other = name then some id else m.lookup other := by
  by_cases h : other = name
  · simp [lookup, register, h]
  · have hb : (other == name) = false := by simpa using h
    simp [lookup, register, List.lookup_cons, h, hb]

end Model
end HeaderSymbols
