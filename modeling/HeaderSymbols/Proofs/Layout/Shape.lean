import HeaderSymbols.Proofs.Layout.Recursion
import HeaderSymbols.Proofs.Source.Representation
import Mathlib.Data.List.Forall2

/-!
# The shape of a structure

A structure has a shape of its own: the lines that it is laid out as, with names and offsets told
from the structure, the findings, and its size. The shape is read off the model without a path, a
namespace or an address. A layout is the shape put at an address, as long as addresses do not
overflow and no structure is found inside of itself; these are the two things that depend on where
a structure stands.

* `Shape.OfGroup`, `Shape.ofGroup_unique`: a group has one shape at most.
* `Shape.Placed`: a layout is a shape, at an address and in namespaces.
* `Placed.shift`, `Placed.within`, `Placed.follow`: shapes inside of shapes.
* `placed_layout`: every layout that is not in the way of itself is the shape of its group.
-/
namespace HeaderSymbols

/-! ## Shapes -/

/-- A line that a structure is laid out as. A field has its offset from the start of the
structure. -/
inductive Slot where
  | field (name : String) (offset : Nat) (comment : Option String)
  | constant (name : String) (value : Value) (comment : Option String)
  deriving DecidableEq, Repr

namespace Slot

/-- The slot as told from a place that is this much before. -/
def shift (amount : Nat) : Slot → Slot
  | field name offset comment => .field name (amount + offset) comment
  | constant name value comment => .constant name value comment

/-- The slot as told from outside of a namespace. -/
def within (outer : String) : Slot → Slot
  | field name offset comment => .field (outer ++ "_" ++ name) offset comment
  | constant name value comment => .constant (outer ++ "_" ++ name) value comment

/-- The line that the slot is in these namespaces, where the structure starts here. -/
inductive Stands (ns : Namespaces) (start : UInt64) : Slot → OutputLine → Prop where
  | field {name offset comment} {address : UInt64} (h : address.toNat = start.toNat + offset) :
      Stands ns start (.field name offset comment)
        (.symbol (ns.qualify name) (.number address) comment)
  | constant {name value comment} :
      Stands ns start (.constant name value comment) (.symbol (ns.qualify name) value comment)

end Slot

/-- What a structure is laid out as, wherever it stands. -/
structure Shape where
  slots : List Slot
  findings : List Finding
  /-- Where it ends, from its start. -/
  size : Nat
  deriving DecidableEq, Repr

namespace GroupKind

/-- Where a member starts in a group that has got this far. -/
def offset (kind : GroupKind) (done : Nat) : Nat :=
  match kind with
  | .struct => done
  | .union => 0

/-- How far a group has got after a member that ends here. -/
def reach (kind : GroupKind) (done finish : Nat) : Nat :=
  match kind with
  | .struct => finish
  | .union => max done finish

end GroupKind

namespace Shape

def shift (amount : Nat) (s : Shape) : Shape :=
  ⟨s.slots.map (Slot.shift amount), s.findings, amount + s.size⟩

def within (outer : String) (s : Shape) : Shape :=
  ⟨s.slots.map (Slot.within outer), s.findings, s.size⟩

/-- The shape of a part and, told from the same place, of what comes after it. -/
def follow (s t : Shape) : Shape := ⟨s.slots ++ t.slots, s.findings ++ t.findings, t.size⟩

mutual

/-- An item has a shape, which starts where the item does. -/
inductive OfItem (m : Model) : Item → Shape → Prop where
  | assignment {name value comment} :
      OfItem m (.assignment name value comment) ⟨[.constant name value comment], [], 0⟩
  | field {mem : Member} {size : UInt64} (plain : mem.layout = none)
      (sized : mem.size = some size) :
      OfItem m (.member mem) ⟨[.field mem.name 0 mem.comment], [], size.toNat⟩
  | unknown {mem : Member} {name} (layout : mem.layout = some name)
      (unregistered : m.lookup name = none) :
      OfItem m (.member mem) ⟨[], [⟨some mem.line, .unknownStructure name⟩], 0⟩
  | expansion {mem : Member} {name id s} (layout : mem.layout = some name)
      (registered : m.lookup name = some id) (body : OfGroup m id s) :
      OfItem m (.member mem) (s.within mem.name)
  | group {id s} (body : OfGroup m id s) : OfItem m (.group id) s

/-- Members of a group that has got this far have a shape, which is told from the start of the
group. -/
inductive OfMembers (m : Model) : GroupKind → Nat → List Item → Shape → Prop where
  | nil {kind done} : OfMembers m kind done [] ⟨[], [], done⟩
  | cons {kind done i rest s t} (head : OfItem m i s)
      (tail : OfMembers m kind (kind.reach done (kind.offset done + s.size)) rest t) :
      OfMembers m kind done (i :: rest) ((s.shift (kind.offset done)).follow t)

/-- A group has the shape of its members. -/
inductive OfGroup (m : Model) : GroupId → Shape → Prop where
  | intro {id s} (members : OfMembers m (m.kind id) 0 (m.members id) s) : OfGroup m id s

end

/-! ## One shape -/

section
variable {m : Model}

mutual

theorem ofItem_unique {i : Item} {s t : Shape} : OfItem m i s → OfItem m i t → s = t
  | .assignment, h => by cases h; rfl
  | .field plain sized, h => by
    cases h with
    | field _ sized' =>
      cases sized.symm.trans sized'
      rfl
    | unknown layout | expansion layout => cases plain.symm.trans layout
  | .unknown layout unregistered, h => by
    cases h with
    | field plain => cases plain.symm.trans layout
    | unknown layout' =>
      cases layout.symm.trans layout'
      rfl
    | expansion layout' registered =>
      cases layout.symm.trans layout'
      cases unregistered.symm.trans registered
  | .expansion layout registered body, h => by
    cases h with
    | field plain => cases plain.symm.trans layout
    | unknown layout' unregistered =>
      cases layout.symm.trans layout'
      cases unregistered.symm.trans registered
    | expansion layout' registered' body' =>
      cases layout.symm.trans layout'
      cases registered.symm.trans registered'
      rw [ofGroup_unique body body']
  | .group body, h => by
    cases h with
    | group body' => exact ofGroup_unique body body'
termination_by structural h => h

theorem ofMembers_unique {kind : GroupKind} {done : Nat} {items : List Item} {s t : Shape} :
    OfMembers m kind done items s → OfMembers m kind done items t → s = t
  | .nil, h => by cases h; rfl
  | .cons head tail, h => by
    cases h with
    | cons head' tail' =>
      cases ofItem_unique head head'
      cases ofMembers_unique tail tail'
      rfl
termination_by structural h => h

/-- A group has one shape at most. -/
theorem ofGroup_unique {id : GroupId} {s t : Shape} : OfGroup m id s → OfGroup m id t → s = t
  | .intro members, h => by
    cases h with
    | intro members' => exact ofMembers_unique members members'
termination_by structural h => h

end

end

/-! ## Shapes at an address -/

/-- From one emitter to another a shape has been laid out that starts at an address and ends at a
cursor, in the namespaces that are open at first. -/
structure Placed (s : Shape) (start : UInt64) (e : Emitter) (finish : Cursor) (e' : Emitter) :
    Prop where
  lines : ∃ more, e'.lines.toList = e.lines.toList ++ more ∧
    List.Forall₂ (Slot.Stands e.namespaces start) s.slots more
  findings : e'.findings.toList = e.findings.toList ++ s.findings
  finish : ∃ address : UInt64, finish = some address ∧ address.toNat = start.toNat + s.size

section
variable {s t : Shape} {start : UInt64} {e e₁ e' : Emitter} {c c₁ : Cursor}

/-- A shape that starts this much further on. -/
theorem Placed.shift {inner : UInt64} {amount : Nat} (h : s.Placed inner e c e')
    (hi : inner.toNat = start.toNat + amount) : (s.shift amount).Placed start e c e' where
  lines := by
    obtain ⟨more, hmore, hslots⟩ := h.lines
    refine ⟨more, hmore, List.forall₂_map_left_iff.2 (hslots.imp fun slot line hline => ?_)⟩
    cases hline with
    | field ha => exact .field (by rw [ha, hi, Nat.add_assoc])
    | constant => exact .constant
  findings := h.findings
  finish := by
    obtain ⟨address, hc, ha⟩ := h.finish
    exact ⟨address, hc, by rw [ha, hi, Nat.add_assoc]; rfl⟩

/-- A shape in the namespace of a member. -/
theorem Placed.within {name : String} (h : s.Placed start (e.enter name) c e') :
    (s.within name).Placed start e c e'.leave where
  lines := by
    have hq (inner : String) :
        (e.enter name).namespaces.qualify inner = e.namespaces.qualify (name ++ "_" ++ inner) := by
      simp [Emitter.enter, Namespaces.qualify, String.append_assoc]
    obtain ⟨more, hmore, hslots⟩ := h.lines
    refine ⟨more, hmore, List.forall₂_map_left_iff.2 (hslots.imp fun slot line hline => ?_)⟩
    cases hline with
    | field ha => exact hq _ ▸ .field ha
    | constant => exact hq _ ▸ .constant
  findings := h.findings
  finish := h.finish

theorem Placed.follow (h : s.Placed start e c₁ e₁) (hn : e₁.namespaces = e.namespaces)
    (h' : t.Placed start e₁ c e') : (s.follow t).Placed start e c e' where
  lines := by
    obtain ⟨first, hfirst, hs⟩ := h.lines
    obtain ⟨others, hothers, ht⟩ := h'.lines
    rw [hn] at ht
    exact ⟨first ++ others, by rw [hothers, hfirst, List.append_assoc], List.rel_append hs ht⟩
  findings := by rw [h'.findings, h.findings, Shape.follow, List.append_assoc]
  finish := h'.finish

/-- Nothing is laid out. -/
theorem placed_nil {done : Nat} {address : UInt64} (h : address.toNat = start.toNat + done) :
    Placed ⟨[], [], done⟩ start e (some address) e where
  lines := ⟨[], (List.append_nil _).symm, .nil⟩
  findings := (List.append_nil _).symm
  finish := ⟨address, rfl, h⟩

end
end Shape

/-! ## Layouts -/

/-- What is met because of where a structure stands: its address, or the structures around it. -/
def Fault.Situated : Fault → Prop
  | addressOverflow | recursiveStructure _ => True
  | _ => False

namespace GroupKind

variable {start cursor finish : UInt64} {done far : Nat}

theorem exists_start_eq (kind : GroupKind) (hc : cursor.toNat = start.toNat + done) :
    ∃ a, kind.start (some start) (some cursor) = some a ∧
      a.toNat = start.toNat + kind.offset done := by
  cases kind with
  | struct => exact ⟨cursor, rfl, hc⟩
  | union => exact ⟨start, rfl, rfl⟩

theorem exists_next_eq (kind : GroupKind) (hc : cursor.toNat = start.toNat + done)
    (hf : finish.toNat = start.toNat + far) :
    ∃ a, kind.next (some cursor) (some finish) = some a ∧
      a.toNat = start.toNat + kind.reach done far := by
  cases kind with
  | struct => exact ⟨finish, rfl, hf⟩
  | union =>
    refine ⟨max cursor finish, rfl, ?_⟩
    rw [Cursor.toNat_max, hc, hf, Nat.add_max_add_left]
    rfl

end GroupKind

namespace Shape

variable {m : Model} {path : List GroupId} {a : UInt64} {e e' : Emitter} {c : Cursor}

/-- A member that is no structure. -/
theorem placed_field {mem : Member} {size : UInt64} (hl : mem.layout = none)
    (hsize : mem.size = some size)
    (hfree : ∀ f ∈ e.met (e.field mem (some a)).1, ¬ f.Situated) :
    ∃ s, OfItem m (.member mem) s ∧
      s.Placed a e (e.field mem (some a)).2 (e.field mem (some a)).1 := by
  refine ⟨_, .field hl hsize, ?_⟩
  simp only [Emitter.field, hsize, Emitter.advance] at hfree ⊢
  split at hfree
  · rename_i next hn
    refine ⟨⟨[_], by simp [Emitter.define, Emitter.emit], .cons (.field rfl) .nil⟩,
      (List.append_nil _).symm, next, rfl, Cursor.advance?_eq_some_iff.1 hn⟩
  · refine absurd trivial (hfree .addressOverflow ?_)
    simp [Emitter.met_define e mem.name (.number a) mem.comment, Emitter.met_report]

/-- An item that ends at once. -/
theorem placed_visit {i : Item} (hv : e.visit m path (some a) i = (e', .finish c))
    (hp : i.isPlaced = true)
    (hs : ∀ mem, i = .member mem → mem.layout = none → ∃ size, mem.size = some size)
    (hfree : ∀ f ∈ e.met e', ¬ f.Situated) : ∃ s, OfItem m i s ∧ s.Placed a e c e' := by
  cases i with
  | text | enter | leave | region | skip => cases hp
  | group => cases hv
  | assignment name value comment =>
    cases hv
    exact ⟨_, .assignment, ⟨[_], by simp [Emitter.define, Emitter.emit], .cons .constant .nil⟩,
      (List.append_nil _).symm, a, rfl, rfl⟩
  | member mem =>
    simp only [Emitter.visit, Emitter.member] at hv
    split at hv
    · rename_i hl
      cases hv
      obtain ⟨size, hsize⟩ := hs mem rfl hl
      exact placed_field hl hsize hfree
    · rename_i name hl
      split at hv
      · cases hv
      · rename_i fault hr
        cases hv
        have hfault : ¬ fault.Situated := hfree fault (by simp [Emitter.met_report])
        rcases Emitter.resolve_eq_error hr with ⟨hnone, -⟩ | ⟨hu, rfl⟩ | ⟨target, -, -, rfl⟩
        · cases hnone
        · exact ⟨_, .unknown hl hu, ⟨[], (List.append_nil _).symm, .nil⟩,
            by simp [Emitter.report], a, rfl, rfl⟩
        · exact absurd trivial hfault

end Shape

namespace Descent

open Shape (OfItem OfMembers OfGroup)

variable {m : Model}

/-- **Shapes.** In the model of a source, what is laid out from an address on is the shape of the
item, the members or the group, if no address overflows and nothing is found recursive. -/
theorem placed_layout (hm : m.Forest) (path : List GroupId) (id : GroupId) :
    Yields hm.wellNested
      (fun _ start e i c e' => i.isPlaced = true → ∀ a, start = some a →
        (∀ f ∈ e.met e', ¬ f.Situated) → ∃ s, OfItem m i s ∧ s.Placed a e c e')
      (fun _ id entry items cursor e c e' => (∀ i ∈ items, i.isPlaced = true) →
        ∀ a b done, entry = some a → cursor = some b → b.toNat = a.toNat + done →
        (∀ f ∈ e.met e', ¬ f.Situated) →
          ∃ s, OfMembers m (m.kind id) done items s ∧ s.Placed a e c e')
      (fun _ id start e c e' => id ≠ Model.document → ∀ a, start = some a →
        (∀ f ∈ e.met e', ¬ f.Situated) → ∃ s, OfGroup m id s ∧ s.Placed a e c e') path id := by
  refine induct hm.wellNested ?finish ?nest ?expand ?nil ?cons ?opened path id
  case finish =>
    rintro path id _ e i c e' hi hv hp a rfl hfree
    exact Shape.placed_visit hv hp (fun mem hmem => hm.exists_size (hmem ▸ hi)) hfree
  case nest =>
    rintro path id _ e child c e' hnests - hg - a rfl hfree
    obtain ⟨s, hs, hplaced⟩ := hg (Walk.ne_document_of_nests hm.toWellFormed hnests) a rfl hfree
    exact ⟨s, .group hs, hplaced⟩
  case expand =>
    rintro path _ e mem name target c e' hl hr - hg - a rfl hfree
    have hlookup := (Emitter.resolve_eq_ok hr).2.1
    obtain ⟨s, hs, hplaced⟩ := hg (Walk.ne_document_of_lookup hm.toWellFormed hlookup) a rfl hfree
    exact ⟨_, .expansion hl hlookup hs, hplaced.within⟩
  case nil =>
    rintro path id _ _ e - a b done rfl rfl hb -
    exact ⟨_, .nil, Shape.placed_nil hb⟩
  case cons =>
    rintro path id _ i rest _ e c₁ e₁ c e' hsub hitem hfirst hmembers hrest hp a b done rfl rfl hb
      hfree
    have hi := hsub i (.head _)
    have hx := (extends_layout hm.wellNested path id).item hi hitem
    have hx' := (extends_layout hm.wellNested path id).members _ hmembers
    have hn := (namespaces_layout hm.toWellFormed path id).item hi hitem (hp i (.head _))
    rw [Emitter.met_trans hx hx', List.forall_mem_append] at hfree
    obtain ⟨x, hstart, hxa⟩ := (m.kind id).exists_start_eq hb
    obtain ⟨s, hs, hplaced⟩ := hfirst (hp i (.head _)) x hstart hfree.1
    obtain ⟨y, rfl, hy⟩ := hplaced.finish
    obtain ⟨z, hnext, hz⟩ := (m.kind id).exists_next_eq hb
      (show y.toNat = a.toNat + ((m.kind id).offset done + s.size) by rw [hy, hxa, Nat.add_assoc])
    obtain ⟨t, ht, hafter⟩ := hrest (fun j hj => hp j (.tail _ hj)) a z _ rfl hnext hz hfree.2
    exact ⟨_, .cons hs ht, (hplaced.shift hxa).follow hn hafter⟩
  case opened =>
    rintro path id _ e c e' h hid a rfl hfree
    obtain ⟨s, hs, hplaced⟩ := h (hm.placed id hid) a a 0 rfl rfl rfl hfree
    exact ⟨s, .intro hs, hplaced⟩

end Descent
end HeaderSymbols
