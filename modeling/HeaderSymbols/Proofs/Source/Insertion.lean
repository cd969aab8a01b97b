import HeaderSymbols.Proofs.Layout.History
import HeaderSymbols.Proofs.Source.Document

/-!
# One more item in the document

A reading looks at the document only to add to its end. So with one more item among those that the
document has already, a reading goes on as without it, and the item stays where it is.

* `Model.insert`, `Reading.insert`: the item put in at a place.
* `insert_push`, `insert_addGroup`: a group and an item may be added before or after that.
* `step_insert`, `steps_insert`: a line does to the reading with the item what it does to the one
  without, and so do lines.
-/
namespace HeaderSymbols

/-! ## Models -/

namespace Model

/-- The model with one more item in the document, after the first `i` of them. -/
def insert (m : Model) (i : Nat) (item : Item) : Model :=
  { m with
    groups := m.groups.modify document fun g =>
      { g with items := (g.members.take i ++ item :: g.members.drop i).toArray } }

variable {m : Model} {i : Nat} {item : Item}

theorem group?_insert (m : Model) (i : Nat) (item : Item) (id : GroupId) :
    (m.insert i item).group? id =
      if document = id then (m.group? id).map fun g =>
        { g with items := (g.members.take i ++ item :: g.members.drop i).toArray }
      else m.group? id := by
  simp [group?, insert, Array.getElem?_modify]

@[simp] theorem size_insert (m : Model) (i : Nat) (item : Item) :
    (m.insert i item).groups.size = m.groups.size := Array.size_modify

@[simp] theorem kind?_insert (m : Model) (i : Nat) (item : Item) (id : GroupId) :
    (m.insert i item).kind? id = m.kind? id := by
  simp only [kind?, group?_insert]
  split <;> simp [Function.comp_def]

theorem members_insert (hm : m.WellFormed) (i : Nat) (item : Item) :
    (m.insert i item).members document =
      (m.members document).take i ++ item :: (m.members document).drop i := by
  obtain ⟨g, hg⟩ : ∃ g, m.group? document = some g := by
    simp [group?, hm.document_lt]
  simp [members, group?_insert, hg, Group.members]

theorem beside_insert (m : Model) (i : Nat) (item : Item) : m.Beside (m.insert i item) where
  kind id := by rw [kind, kind?_insert, kind]
  lookup _ := rfl
  members id hid := by rw [members, group?_insert, if_neg (Ne.symm hid), members]

/-- A text that is put in nests nothing. -/
theorem wellNested_insert_text (hm : m.WellFormed) (i : Nat) (comment : Option String) :
    (m.insert i (.text comment)).WellNested := by
  refine wellNested_of_lt fun parent child hc => ?_
  rw [size_insert]
  refine hm.nests parent child ?_
  by_cases hp : parent = document
  · subst hp
    rw [Nests, members_insert hm] at hc
    rw [Nests, ← List.take_append_drop i (m.members document)]
    simpa [-List.take_append_drop] using hc
  · rwa [Nests, (beside_insert m i _).members parent hp] at hc

/-- An item is put in before or after another one is added to the end of a group. -/
theorem insert_push (hi : i ≤ (m.members document).length) (id : GroupId) (other : Item) :
    (m.push id other).insert i item = (m.insert i item).push id other := by
  simp only [push, insert, mk.injEq, and_true]
  refine Array.ext_getElem? fun k => ?_
  simp only [Array.getElem?_modify]
  by_cases hid : id = k <;> by_cases hk : document = k <;> simp only [hid, hk, if_true, if_false]
  subst hk
  cases hg : m.groups[document]? with
  | none => rfl
  | some g =>
    have hle : i ≤ g.items.size := by simpa [members, group?, hg, Group.members] using hi
    have htake : (g.items.toList ++ [other]).take i = g.items.toList.take i :=
      List.take_append_of_le_length hle
    have hdrop : (g.items.toList ++ [other]).drop i = g.items.toList.drop i ++ [other] :=
      List.drop_append_of_le_length hle
    simp [Group.members, htake, hdrop]

theorem insert_addGroup (hm : m.WellFormed) (kind : GroupKind) :
    (m.addGroup kind).2.insert i item = ((m.insert i item).addGroup kind).2 := by
  have hsize := hm.document_lt
  simp only [addGroup, insert, mk.injEq, and_true]
  refine Array.ext_getElem? fun k => ?_
  simp only [Array.getElem?_modify, Array.getElem?_push, Array.size_modify]
  by_cases hk : document = k
  · simp [← hk, Nat.ne_of_lt hsize]
  · simp [hk]

theorem insert_register (name : String) (id : GroupId) :
    (m.register name id).insert i item = (m.insert i item).register name id := rfl

/-- At the end of the document, putting an item in is adding it. -/
theorem push_eq_insert (m : Model) (item : Item) :
    m.push document item = m.insert (m.members document).length item := by
  simp only [push, insert, mk.injEq, and_true]
  refine Array.ext_getElem? fun k => ?_
  simp only [Array.getElem?_modify]
  split
  · rename_i hk
    subst hk
    cases hg : m.groups[document]? with
    | none => rfl
    | some g =>
      have hdrop : g.items.toList.drop g.items.size = [] := List.drop_of_length_le (Nat.le_refl _)
      simp [members, group?, hg, Group.members, List.take_of_length_le, hdrop, ← List.push_toArray]
  · rfl

end Model

/-! ## Readings -/

namespace Reading

/-- The reading with one more item in the document, after the first `i` of them. -/
def insert (r : Reading) (i : Nat) (item : Item) : Reading :=
  { r with model := r.model.insert i item }

variable {r : Reading} {i : Nat} {item : Item}

theorem note_eq_insert (r : Reading) (item : Item) :
    r.note item = r.insert (r.model.members Model.document).length item := by
  rw [note, Model.push_eq_insert]
  rfl

/-- A directive is obeyed with the item as without, or is refused for the same fault. -/
theorem obey_insert (h : r.WellFormed) (hi : i ≤ (r.model.members Model.document).length)
    (comment : Option String) (number : UInt32) (d : Directive) :
    (r.insert i item).obey comment number d =
      (r.obey comment number d).map (insert · i item) := by
  have hnote (other : Item) : (r.insert i item).note other = (r.note other).insert i item := by
    simp only [note, insert, Model.insert_push hi]
  have hplace (other : Item) : (r.insert i item).place other = (r.place other).insert i item := by
    simp only [place, insert, Model.insert_push hi]
    rfl
  cases d with
  | blank | region | endRegion | skip => exact congrArg Except.ok (hnote _)
  | assign | field | instantiate => exact congrArg Except.ok (hplace _)
  | enter name =>
    simp only [obey, hnote]
    rfl
  | leave =>
    simp only [obey, hnote]
    cases hl : r.namespaces.leave? <;> simp only [insert, hl] <;> rfl
  | openGroup kind =>
    have hi' : i ≤ ((r.model.addGroup kind).2.members Model.document).length := by
      rwa [Model.members_addGroup]
    have hsize : ((r.insert i item).model.addGroup kind).1 = (r.model.addGroup kind).1 :=
      Model.size_insert ..
    simp only [obey, openGroup, hsize]
    simp only [insert, Except.map, place, Model.insert_push hi', Model.insert_addGroup h.model]
    rfl
  | openNamed name =>
    have hsize : ((r.insert i item).model.addGroup .struct).1 = (r.model.addGroup .struct).1 :=
      Model.size_insert ..
    simp only [obey, openNamed, hsize]
    simp only [insert, Except.map, Model.insert_register, Model.insert_addGroup h.model]
  | close kind =>
    have hscope : (r.insert i item).scope = r.scope := rfl
    have hkind (id : GroupId) : (r.insert i item).model.kind? id = r.model.kind? id :=
      Model.kind?_insert ..
    simp only [obey, hscope, hkind, apply_ite (Except.map (insert · i item))]
    rfl
  | closeNamed =>
    simp only [obey, apply_ite (Except.map (insert · i item))]
    rfl

theorem step_insert (h : r.WellFormed) (hi : i ≤ (r.model.members Model.document).length)
    (line : Line) (number : UInt32) :
    (r.insert i item).step line number = (r.step line number).insert i item := by
  cases hd : Directive.ofLine line with
  | error fault =>
    rw [step_of_error hd, step_of_error hd]
    rfl
  | ok d =>
    rw [step_of_ok hd, step_of_ok hd, obey_insert h hi]
    cases r.obey line.comment number d <;> rfl

/-- **Lines.** Lines are read with one more item in the document as they are without. -/
theorem steps_insert (h : r.WellFormed) (hi : i ≤ (r.model.members Model.document).length)
    (lines : List (Line × UInt32)) :
    (r.insert i item).steps lines = (r.steps lines).insert i item := by
  induction lines generalizing r with
  | nil => rfl
  | cons l rest ih =>
    have hle := (members_prefix_steps h [l]).length_le
    rw [steps_cons, steps_cons, step_insert h hi]
    exact ih (wellFormed_step h l.1 l.2) (Nat.le_trans hi hle)

theorem insert_finish (r : Reading) (i : Nat) (item : Item) :
    (r.insert i item).finish = r.finish.insert i item := by
  rw [finish_eq, finish_eq]
  rfl

end Reading
end HeaderSymbols
