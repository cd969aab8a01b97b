import HeaderSymbols.Layout.Walk

/-!
# Groups inside groups

A group stands inside another without a name (`Nests`) or is expanded there by name. The
first can go on for ever only if groups nest without end; the second never can, for a
group is not expanded inside its own expansion, and there are only so many groups.

* `WellNested.below`: in a well nested model going down from a group to those nested in it
  and to those its members may be expanded to comes to an end.
* `wellNested_of_lt`: groups that only nest later ones are well nested.
* `specimen`: a small model with a union, and with references that cannot be expanded.
-/
namespace HeaderSymbols

/-! ## Groups not yet on a path -/

/-- How many of the groups of a model are not in a list. -/
def unused (size : Nat) (ids : List GroupId) : Nat :=
  (List.range size).countP fun id => id ∉ ids

theorem countP_lt_of_mem {α : Type} {p q : α → Bool} {l : List α} {a : α}
    (hpq : ∀ x ∈ l, p x = true → q x = true) (ha : a ∈ l) (hp : p a = false) (hq : q a = true) :
    l.countP p < l.countP q := by
  obtain ⟨s, t, rfl⟩ := List.append_of_mem ha
  have hs := List.countP_mono_left fun x hx => hpq x (List.mem_append_left _ hx)
  have ht := List.countP_mono_left fun x hx =>
    hpq x (List.mem_append_right _ (List.mem_cons_of_mem _ hx))
  simp only [List.countP_append, List.countP_cons, hp, hq, if_true, Bool.false_eq_true, if_false]
  omega

theorem unused_cons_lt {size : Nat} {id : GroupId} {ids : List GroupId} (hs : id < size)
    (h : id ∉ ids) : unused size (id :: ids) < unused size ids :=
  countP_lt_of_mem (fun x _ hx => by simp_all) (List.mem_range.2 hs) (by simp) (by simpa using h)

namespace Model

theorem lt_size_of_members_ne_nil {m : Model} {id : GroupId} (h : m.members id ≠ []) :
    id < m.groups.size := by
  unfold members group? at h
  by_cases hs : id < m.groups.size
  · exact hs
  · simp [Array.getElem?_eq_none (Nat.le_of_not_lt hs)] at h

/-! ## Nesting without names -/

/-- One group stands in another without a name. -/
def Nests (m : Model) (child parent : GroupId) : Prop := .group child ∈ m.members parent

/-- No group nests others without end. -/
def WellNested (m : Model) : Prop := WellFounded m.Nests

theorem wellNested_of_lt {m : Model}
    (h : ∀ parent child, m.Nests child parent → parent < child ∧ child < m.groups.size) :
    m.WellNested := by
  refine Subrelation.wf ?_ (measure fun id => m.groups.size - id).wf
  intro child parent hc
  obtain ⟨hlt, hs⟩ := h parent child hc
  exact Nat.sub_lt_sub_left (Nat.lt_trans hlt hs) hlt

/-- Whether an item nests no group, or one of a model of this size that comes after its own. -/
def nestsLater (size : Nat) (parent : GroupId) : Item → Bool
  | .group child => parent < child && child < size
  | _ => true

theorem wellNested_of_nestsLater {m : Model}
    (h : ∀ parent < m.groups.size, ∀ i ∈ m.members parent,
      nestsLater m.groups.size parent i = true) : m.WellNested := by
  refine wellNested_of_lt fun parent child hc => ?_
  have hs := lt_size_of_members_ne_nil (List.ne_nil_of_mem hc)
  simpa [nestsLater] using h parent hs _ hc

/-- A structure with a union inside, where a member refers to the structure once more, and a
document that has it at an address and refers to one that is not registered. -/
def specimen : Model where
  groups := #[
    ⟨.struct, #[.enter "k", .region (some 16), .member ⟨"p", none, none, some "t", 3⟩,
      .member ⟨"q", none, none, some "u", 4⟩, .leave, .skip 2 5]⟩,
    ⟨.struct, #[.member ⟨"a", none, some 1, none, 7⟩, .group 2]⟩,
    ⟨.union, #[.member ⟨"x", none, some 2, none, 9⟩, .member ⟨"y", none, some 4, none, 10⟩,
      .member ⟨"self", none, none, some "t", 11⟩]⟩]
  registry := [("t", 1)]

theorem wellNested_specimen : specimen.WellNested := wellNested_of_nestsLater (by decide)

/-! ## Going down a model -/

/-- What there is to lay out below a group, each on its path of expansions: a group nested in it,
and a group off the path, if there is a member for which it may be expanded. -/
inductive Below (m : Model) : List GroupId × GroupId → List GroupId × GroupId → Prop where
  | nested {path child id} (h : m.Nests child id) : Below m (path, child) (path, id)
  | expanded {path target id} (fresh : target ∉ path) (h : m.members id ≠ []) :
      Below m (target :: path, target) (path, id)

/-- Nothing in a well nested model goes down without end. -/
theorem WellNested.below {m : Model} (hm : m.WellNested) : WellFounded m.Below := by
  refine ⟨fun ⟨path, id⟩ => ?_⟩
  generalize hn : unused m.groups.size path = n
  induction n using Nat.strongRecOn generalizing path id with
  | ind n ihn =>
    induction id using hm.induction with
    | _ id ihid =>
      refine ⟨_, fun _ hb => ?_⟩
      cases hb with
      | nested hc => exact ihid _ hc
      | @expanded _ target _ ht _ =>
        by_cases hs : target < m.groups.size
        · exact ihn _ (hn ▸ unused_cons_lt hs ht) _ target rfl
        · -- a group that the model does not have has no members to go down to
          have hnil : m.members target = [] :=
            Classical.byContradiction fun h => hs (lt_size_of_members_ne_nil h)
          refine ⟨_, fun _ hb => ?_⟩
          cases hb with
          | nested hc =>
            rw [Nests, hnil] at hc
            cases hc
          | expanded _ h => exact absurd hnil h

/-- Induction down a model. -/
theorem WellNested.descend {m : Model} (hm : m.WellNested) {P : List GroupId → GroupId → Prop}
    (step : ∀ path id, (∀ child, m.Nests child id → P path child) →
      (∀ target, target ∉ path → m.members id ≠ [] → P (target :: path) target) → P path id)
    (path : List GroupId) (id : GroupId) : P path id := by
  refine hm.below.induction (C := fun p => P p.1 p.2) (path, id) fun p ih => ?_
  exact step p.1 p.2 (fun child hc => ih _ (.nested hc)) fun target ht h => ih _ (.expanded ht h)

end Model
end HeaderSymbols
