import HeaderSymbols.Proofs.Source.Directive

/-!
# What a line does

A line does one of a few things to a reading (`Does`). It gives the document an item of its own,
which may turn the namespaces; it places an item in the innermost open group; it opens a group
there, or one under a name; it closes a group; or it leaves a finding.

Main statement: `does_step`, a line does one of these.
-/
namespace HeaderSymbols

/-! ## Items -/

/-- Whether an item may stand in a group that is not the document. -/
def Item.isPlaced : Item → Bool
  | .assignment .. | .member _ | .group _ => true
  | _ => false

def Item.isGroup : Item → Bool
  | .group _ => true
  | _ => false

/-- The namespaces after an item that stands for no group. -/
def Item.turn (ns : Namespaces) : Item → Namespaces
  | .enter name => ns.enter name
  | .leave => ns.leave
  | _ => ns

/-- The namespaces after items. -/
def Namespaces.after (ns : Namespaces) (items : List Item) : Namespaces := items.foldl Item.turn ns

namespace Namespaces

@[simp] theorem after_nil (ns : Namespaces) : ns.after [] = ns := rfl

@[simp] theorem after_cons (ns : Namespaces) (i : Item) (items : List Item) :
    ns.after (i :: items) = (i.turn ns).after items := rfl

theorem after_append (ns : Namespaces) (xs ys : List Item) :
    ns.after (xs ++ ys) = (ns.after xs).after ys := List.foldl_append

theorem turn_of_isPlaced (ns : Namespaces) {i : Item} (h : i.isPlaced = true) : i.turn ns = ns := by
  cases i <;> first | rfl | cases h

theorem after_of_isPlaced (ns : Namespaces) {items : List Item}
    (h : ∀ i ∈ items, i.isPlaced = true) : ns.after items = ns := by
  induction items with
  | nil => rfl
  | cons i rest ih =>
    rw [after_cons, turn_of_isPlaced ns (h i (.head _))]
    exact ih fun j hj => h j (.tail _ hj)

theorem exists_eq_enter_leave {ns : Namespaces} (h : ns ≠ .root) :
    ∃ name, ns = ns.leave.enter name := by
  obtain ⟨_ | ⟨name, outer⟩⟩ := ns
  · exact absurd rfl h
  · exact ⟨name, rfl⟩

/-- Each item that leaves a namespace finds one open, when the first is met in these. -/
def Admits (ns : Namespaces) : List Item → Prop
  | [] => True
  | i :: rest => (i = .leave → ns ≠ .root) ∧ (i.turn ns).Admits rest

theorem admits_append {ns : Namespaces} {xs ys : List Item} :
    ns.Admits (xs ++ ys) ↔ ns.Admits xs ∧ (ns.after xs).Admits ys := by
  induction xs generalizing ns with
  | nil => simp [Admits]
  | cons i rest ih => simp [Admits, ih, and_assoc]

end Namespaces

namespace Reading

/-! ## One line -/

/-- What one line does to a reading. -/
inductive Does (r : Reading) : Reading → Prop where
  | note {item} (free : item.isPlaced = false) (left : item = .leave → r.namespaces ≠ .root) :
    Does r { r.note item with namespaces := item.turn r.namespaces }
  | place {item} (plain : item.isGroup = false) (placed : item.isPlaced = true)
      (sized : ∀ mem, item = .member mem → mem.size.isSome ≠ mem.layout.isSome) :
    Does r (r.place item)
  | openGroup (kind : GroupKind) :
    Does r { r with
      model := (r.model.addGroup kind).2.push r.scope (.group r.model.groups.size)
      scopes := r.model.groups.size :: r.scopes }
  | openNamed (name : String) :
    Does r { r with
      model := (r.model.addGroup .struct).2.register name r.model.groups.size
      scopes := r.model.groups.size :: r.scopes }
  | close (inside : r.scopes.length ≠ 1) : Does r { r with scopes := r.scopes.tail }
  | record (line : Option UInt32) (fault : Fault) : Does r (r.record line fault)

variable {r after : Reading}

theorem does_obey {comment : Option String} {line : UInt32} {d : Directive}
    (hd : r.obey comment line d = .ok after) : r.Does after := by
  cases d with
  | blank | region | endRegion | skip | enter => cases hd; exact .note rfl fun h => by cases h
  | leave =>
    simp only [obey] at hd
    split at hd
    · cases hd
    · rename_i outer ho
      cases hd
      rw [← Namespaces.leave?_eq_some ho]
      refine .note rfl fun _ hroot => ?_
      rw [Namespaces.leave?_eq_none_iff.2 hroot] at ho
      cases ho
  | openGroup kind => cases hd; exact .openGroup kind
  | openNamed name => cases hd; exact .openNamed _
  | close kind =>
    simp only [obey] at hd
    split at hd
    · cases hd
    · rename_i hopen
      cases hd
      exact .close fun hlength => hopen (.inl hlength)
  | closeNamed =>
    simp only [obey] at hd
    split at hd
    · cases hd
    · rename_i hinside
      cases hd
      exact .close hinside
  | assign => cases hd; exact .place rfl rfl fun _ h => by cases h
  | field | instantiate =>
    cases hd
    exact .place rfl rfl fun _ hm => by cases hm; simp

theorem does_step (r : Reading) (line : Line) (number : UInt32) : r.Does (r.step line number) := by
  cases hd : Directive.ofLine line with
  | error fault =>
    rw [step_of_error hd]
    exact .record ..
  | ok d =>
    rw [step_of_ok hd]
    cases ho : r.obey line.comment number d with
    | ok after => exact does_obey ho
    | error fault => exact .record ..

end Reading
end HeaderSymbols
