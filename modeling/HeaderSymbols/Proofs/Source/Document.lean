import HeaderSymbols.Proofs.Source.Arena

/-!
# What lines give to the document

A line gives the document one item or none. An item that enters or leaves a namespace is given by
the line that does so, and it is the document that gets it; no other item turns the namespaces. So
the namespaces of a reading are told by the items of its document, and a line that leaves a
namespace gives its item only where one is open.

* `Does.delivers`, `delivers_steps`: what a line and what lines give.
* `exists_puts`: every item of a document was put there by a line.
-/
namespace HeaderSymbols.Reading

variable {r r₁ r₂ after : Reading} {item : Item}

/-- Between two readings the document has got these items, which have turned the namespaces. -/
structure Delivers (r after : Reading) (items : List Item) : Prop where
  members : after.model.members Model.document = r.model.members Model.document ++ items
  namespaces : after.namespaces = r.namespaces.after items
  admits : r.namespaces.Admits items

theorem Delivers.none (hm : after.model.members Model.document = r.model.members Model.document)
    (hn : after.namespaces = r.namespaces) : r.Delivers after [] :=
  ⟨by rw [hm, List.append_nil], hn, trivial⟩

theorem Delivers.trans {xs ys : List Item} (h : r.Delivers r₁ xs) (h' : r₁.Delivers r₂ ys) :
    r.Delivers r₂ (xs ++ ys) where
  members := by rw [h'.members, h.members, List.append_assoc]
  namespaces := by rw [h'.namespaces, h.namespaces, Namespaces.after_append]
  admits := Namespaces.admits_append.2 ⟨h.admits, h.namespaces ▸ h'.admits⟩

/-- The innermost open group gets an item, which is given to the document if that is the one. -/
theorem delivers_push {m : Model} (hm : m.members Model.document = r.model.members Model.document)
    (hs : r.scope < m.groups.size) (hp : item.isPlaced = true)
    (hmodel : after.model = m.push r.scope item) (hns : after.namespaces = r.namespaces) :
    ∃ items, r.Delivers after items ∧ items.length ≤ 1 := by
  have hpush := Model.members_push m item hs Model.document
  rw [← hmodel, hm] at hpush
  split at hpush
  · have hl : item = .leave → r.namespaces ≠ .root := fun hl => by subst hl; cases hp
    exact ⟨[item], ⟨hpush, hns.trans (Namespaces.turn_of_isPlaced _ hp).symm, hl, trivial⟩,
      Nat.le_refl 1⟩
  · exact ⟨[], .none hpush hns, Nat.zero_le 1⟩

theorem Does.delivers (h : r.WellFormed) (hd : r.Does after) :
    ∃ items, r.Delivers after items ∧ items.length ≤ 1 := by
  cases hd with
  | @note item _ left =>
    have hm := Model.members_push r.model item h.model.document_lt Model.document
    rw [if_pos rfl] at hm
    exact ⟨[item], ⟨hm, rfl, left, trivial⟩, Nat.le_refl 1⟩
  | place _ placed => exact delivers_push rfl h.scope_lt placed rfl rfl
  | openGroup kind =>
    refine delivers_push (Model.members_addGroup ..) ?_ rfl rfl rfl
    rw [Model.size_addGroup]
    exact Nat.lt_succ_of_lt h.scope_lt
  | openNamed => exact ⟨[], .none (Model.members_addGroup ..) rfl, Nat.zero_le 1⟩
  | close | record => exact ⟨[], .none rfl rfl, Nat.zero_le 1⟩

/-! ## Lines -/

theorem delivers_steps (h : r.WellFormed) (lines : List (Line × UInt32)) :
    ∃ items, r.Delivers (r.steps lines) items := by
  induction lines generalizing r with
  | nil => exact ⟨[], .none rfl rfl⟩
  | cons l rest ih =>
    obtain ⟨items, hitems, -⟩ := (does_step r l.1 l.2).delivers h
    obtain ⟨others, hothers⟩ := ih (wellFormed_step h l.1 l.2)
    exact ⟨items ++ others, hitems.trans hothers⟩

/-- The line gives the document this item. -/
def Puts (r : Reading) (line : Line) (number : UInt32) (item : Item) : Prop :=
  (r.step line number).model.members Model.document = r.model.members Model.document ++ [item]

/-- What the document has it keeps. -/
theorem members_prefix_steps (h : r.WellFormed) (lines : List (Line × UInt32)) :
    r.model.members Model.document <+: (r.steps lines).model.members Model.document := by
  obtain ⟨items, hitems⟩ := delivers_steps h lines
  exact ⟨items, hitems.members.symm⟩

/-- The items of a document from the one that a line puts there on. -/
theorem Puts.drop_members (h : r.WellFormed) {line : Line} {number : UInt32}
    (hp : r.Puts line number item) (rest : List (Line × UInt32)) :
    ∃ items, ((r.step line number).steps rest).model.members Model.document =
      r.model.members Model.document ++ item :: items := by
  obtain ⟨items, hitems⟩ := members_prefix_steps (wellFormed_step h line number) rest
  rw [hp, List.append_assoc] at hitems
  exact ⟨items, hitems.symm⟩

theorem exists_puts (h : r.WellFormed) (lines : List (Line × UInt32)) {i : Nat}
    (hi : (r.model.members Model.document).length ≤ i)
    (hitem : ((r.steps lines).model.members Model.document)[i]? = some item) :
    ∃ before line number rest, lines = before ++ (line, number) :: rest ∧
      ((r.steps before).model.members Model.document).length = i ∧
      (r.steps before).Puts line number item := by
  induction lines generalizing r with
  | nil =>
    rw [steps_nil, List.getElem?_eq_none hi] at hitem
    cases hitem
  | cons l rest ih =>
    obtain ⟨items, hitems, hlen⟩ := (does_step r l.1 l.2).delivers h
    have hw := wellFormed_step h l.1 l.2
    by_cases hlt : ((r.step l.1 l.2).model.members Model.document).length ≤ i
    · obtain ⟨before, line, number, rest, rfl, hindex, hput⟩ := ih hw hlt hitem
      exact ⟨l :: before, line, number, rest, rfl, hindex, hput⟩
    -- the line reaches past the index, so the one item that it gives is there
    rw [hitems.members, List.length_append] at hlt
    obtain ⟨x, rfl⟩ := List.length_eq_one_iff.1 (show items.length = 1 by omega)
    have hindex : (r.model.members Model.document).length = i :=
      Nat.le_antisymm hi (Nat.lt_succ_iff.1 (Nat.lt_of_not_le hlt))
    have hputs : r.Puts l.1 l.2 x := hitems.members
    obtain ⟨items, hmembers⟩ := hputs.drop_members h rest
    have hx : ((r.steps (l :: rest)).model.members Model.document)[i]? = some x := by
      show (((r.step l.1 l.2).steps rest).model.members Model.document)[i]? = some x
      rw [hmembers, ← hindex, List.getElem?_append_right (Nat.le_refl _), Nat.sub_self]
      rfl
    rw [hitem] at hx
    cases hx
    exact ⟨[], l.1, l.2, rest, rfl, hindex, hputs⟩

end HeaderSymbols.Reading
