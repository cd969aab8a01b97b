import HeaderSymbols.Proofs.Layout.Descent

/-!
# A group around members

Members that follow each other in a group can be put into a group of their own, which stands in
their place without a name. If it is of the kind of the group around it, every layout stays as it
was: a structure hands its cursor in and out again, and a union, which has come at least to where
it was entered, takes the furthest of the ends in two steps instead of one.

* `wellNested_wrap`: the new group does not nest without end.
* `members_append`, `members_furthest`: members after members, and how far a union had got before.
* `members_regroup`: the members of a group as those of a group inside it.
* `layout_wrap`: so no layout is changed.
-/
namespace HeaderSymbols

/-! ## Models -/

namespace Model

/-- The model where the members `ys` of the group `p`, which stand between `xs` and `zs`, are those
of a new group of the same kind in their place. -/
def wrap (m : Model) (p : GroupId) (xs ys zs : List Item) : Model where
  groups := (m.groups.modify p fun g =>
    { g with items := (xs ++ .group m.groups.size :: zs).toArray }).push ⟨m.kind p, ys.toArray⟩
  registry := m.registry

/-- Nothing in the model refers to this group. -/
structure Fresh (m : Model) (id : GroupId) : Prop where
  loose : ∀ parent, ¬ m.Nests id parent
  nameless : ∀ name, m.lookup name ≠ some id

variable {m : Model} {p : GroupId} {xs ys zs : List Item}

theorem kind_wrap (id : GroupId) :
    (m.wrap p xs ys zs).kind id = if id = m.groups.size then m.kind p else m.kind id := by
  simp only [kind, kind?, group?, wrap, Array.getElem?_push, Array.size_modify]
  split
  · rfl
  · rw [Array.getElem?_modify]
    split <;> simp [Function.comp_def]

theorem members_wrap (hp : p < m.groups.size) (id : GroupId) :
    (m.wrap p xs ys zs).members id =
      if id = m.groups.size then ys
      else if id = p then xs ++ .group m.groups.size :: zs
      else m.members id := by
  simp only [members, group?, wrap, Array.getElem?_push, Array.size_modify]
  split
  · simp [Group.members]
  · rw [Array.getElem?_modify]
    by_cases hid : id = p
    · subst hid
      simp [Group.members, hp]
    · rw [if_neg (Ne.symm hid), if_neg hid]

theorem wellNested_wrap (hm : m.WellNested) (hfresh : m.Fresh m.groups.size)
    (hp : p < m.groups.size) (h : m.members p = xs ++ ys ++ zs) :
    (m.wrap p xs ys zs).WellNested := by
  have hne {child parent : GroupId} (hc : m.Nests child parent) : child ≠ m.groups.size :=
    fun he => hfresh.loose parent (he ▸ hc)
  have hmem {i : Item} (hi : i ∈ xs ++ ys ++ zs) : i ∈ m.members p := h ▸ hi
  -- the new group nests what its members nested where they stood before
  have hnew (hacc : ∀ child, m.Nests child p → Acc (m.wrap p xs ys zs).Nests child) :
      Acc (m.wrap p xs ys zs).Nests m.groups.size := by
    refine ⟨_, fun child hc => hacc child ?_⟩
    rw [Nests, members_wrap hp, if_pos rfl] at hc
    exact hmem (List.mem_append_left _ (List.mem_append_right _ hc))
  have hold (id : GroupId) : id ≠ m.groups.size → Acc (m.wrap p xs ys zs).Nests id := by
    induction id using hm.induction with
    | _ id ih =>
      refine fun hid => ⟨_, fun child hc => ?_⟩
      rw [Nests, members_wrap hp, if_neg hid] at hc
      split at hc
      · rename_i hidp
        subst hidp
        rcases List.mem_append.1 hc with hc | hc
        · have hc : m.Nests child id := hmem (List.mem_append_left _ (List.mem_append_left _ hc))
          exact ih child hc (hne hc)
        · rcases List.mem_cons.1 hc with hc | hc
          · cases hc
            exact hnew fun child hc => ih child hc (hne hc)
          · have hc : m.Nests child id := hmem (List.mem_append_right _ hc)
            exact ih child hc (hne hc)
      · exact ih child hc (hne hc)
  refine ⟨fun id => ?_⟩
  by_cases hid : id = m.groups.size
  · exact hid ▸ hnew fun child hc => hold child (hne hc)
  · exact hold id hid

end Model

/-! ## Members -/

namespace Descent

variable {m m' : Model} (hm : m.WellNested) (hm' : m'.WellNested) {path path' : List GroupId}
  {id id' : GroupId}

theorem group_eq_members {items : List Item} (h : m.members id = items) (start : Cursor)
    (e : Emitter) :
    group hm path id start e = members hm path id start items (fun _ hi => h ▸ hi) start e := by
  subst h
  exact group.eq_def ..

theorem members_append (entry cursor : Cursor) (e : Emitter) {xs ys : List Item}
    (hsub : ∀ i ∈ xs ++ ys, i ∈ m.members id) :
    members hm path id entry (xs ++ ys) hsub cursor e =
      let r := members hm path id entry xs (fun i hi => hsub i (List.mem_append_left _ hi)) cursor e
      members hm path id entry ys (fun i hi => hsub i (List.mem_append_right _ hi)) r.1 r.2 := by
  induction xs generalizing cursor e with
  | nil => rw [members_nil]; rfl
  | cons i rest ih =>
    rw [members_cons]
    simp only [List.cons_append, members_cons]
    exact ih ..

variable (path) in
/-- How far a union had got before can be told apart from how far it gets. -/
theorem members_furthest (hk : m.kind id = .union) (entry before cursor : Cursor) (e : Emitter)
    {items : List Item} (hsub : ∀ i ∈ items, i ∈ m.members id) :
    members hm path id entry items hsub (Cursor.furthest before cursor) e =
      (Cursor.furthest before (members hm path id entry items hsub cursor e).1,
        (members hm path id entry items hsub cursor e).2) := by
  induction items generalizing cursor e with
  | nil => simp only [members_nil]
  | cons i rest ih =>
    simp only [members_cons, hk, GroupKind.start, GroupKind.next, Cursor.furthest_assoc, ih]

/-- A structure does not look back to where it was entered. -/
theorem members_entry (hk : m.kind id = .struct) (entry entry' cursor : Cursor) (e : Emitter)
    {items : List Item} (hsub : ∀ i ∈ items, i ∈ m.members id) :
    members hm path id entry items hsub cursor e = members hm path id entry' items hsub cursor e := by
  induction items generalizing cursor e with
  | nil => simp only [members_nil]
  | cons i rest ih => simp only [members_cons, hk, GroupKind.start, ih]

/-- Members after the first ones of a group may as well be laid out from where the next member
would start, as those of a group that stands there. -/
theorem members_regroup (start : Cursor) (e : Emitter) {xs ys : List Item}
    (hsub : ∀ i ∈ xs ++ ys, i ∈ m.members id) :
    let hxs := fun i hi => hsub i (List.mem_append_left _ hi)
    let hys := fun i hi => hsub i (List.mem_append_right _ hi)
    let r := members hm path id start xs hxs start e
    let inner := (m.kind id).start start r.1
    let s := members hm path id inner ys hys inner r.2
    members hm path id start ys hys r.1 r.2 = ((m.kind id).next r.1 s.1, s.2) := by
  intro hxs hys r inner s
  cases hk : m.kind id with
  | struct =>
    have hinner : inner = r.1 := congrArg (GroupKind.start · start r.1) hk
    rw [members_entry hm hk start inner]
    simp only [s, hinner]
    rfl
  | union =>
    have hinner : inner = start := congrArg (GroupKind.start · start r.1) hk
    have hreached : Cursor.furthest r.1 start = r.1 := by
      have h := members_furthest hm path hk start start start e hxs
      rw [Cursor.furthest_self] at h
      rw [Cursor.furthest_comm]
      exact (congrArg Prod.fst h).symm
    have hys' := members_furthest hm path hk start r.1 start r.2 hys
    rw [hreached] at hys'
    simp only [hys', s, hinner, GroupKind.next]

/-- Two groups of one kind have the same layout of members that are laid out alike in both. -/
theorem members_of_items (hk : m'.kind id' = m.kind id) (entry cursor : Cursor) (e : Emitter)
    {items : List Item} (hsub : ∀ i ∈ items, i ∈ m.members id)
    (hsub' : ∀ i ∈ items, i ∈ m'.members id')
    (hitem : ∀ i (hi : i ∈ items) start e,
      item hm' path' id' start e i (hsub' i hi) = item hm path id start e i (hsub i hi)) :
    members hm' path' id' entry items hsub' cursor e =
      members hm path id entry items hsub cursor e := by
  induction items generalizing cursor e with
  | nil => simp only [members_nil]
  | cons i rest ih =>
    simp only [members_cons, hk, hitem i (.head _)]
    exact ih _ _ _ _ fun j hj => hitem j (.tail _ hj)

/-- An item is laid out alike in two models that have the same names and lay out alike what it
leads to, on paths with the same groups among those that have a name. -/
theorem item_of_groups (hlookup : ∀ name, m'.lookup name = m.lookup name)
    (hpath : ∀ name target, m.lookup name = some target → (target ∈ path' ↔ target ∈ path))
    (hnest : ∀ child, m.Nests child id → ∀ start e,
      group hm' path' child start e = group hm path child start e)
    (hexpand : ∀ target name, target ∉ path → m.lookup name = some target → ∀ start e,
      group hm' (target :: path') target start e = group hm (target :: path) target start e)
    {i : Item} (hi : i ∈ m.members id) (hi' : i ∈ m'.members id') (start : Cursor) (e : Emitter) :
    item hm' path' id' start e i hi' = item hm path id start e i hi := by
  rw [item_eq_visit, item_eq_visit, Emitter.visit_congr hlookup hpath]
  cases hv : e.visit m path start i with
  | mk e₁ move =>
    cases move with
    | finish finish => rfl
    | nest child =>
      obtain ⟨rfl, rfl⟩ := Emitter.visit_eq_nest hv
      exact hnest child hi start e₁
    | expand target =>
      obtain ⟨mem, name, -, -, hres, -⟩ := Emitter.visit_eq_expand hv
      obtain ⟨-, hl, ht⟩ := Emitter.resolve_eq_ok hres
      simp only [hexpand target name ht hl]

/-! ## Layouts -/

variable {p : GroupId} {xs ys zs : List Item}

theorem group_wrap (hwrap : (m.wrap p xs ys zs).WellNested) (hfresh : m.Fresh m.groups.size)
    (hp : p < m.groups.size) (h : m.members p = xs ++ ys ++ zs) (path : List GroupId)
    (id : GroupId) :
    id ≠ m.groups.size → ∀ start e, group hwrap path id start e = group hm path id start e := by
  refine hm.descend (P := fun path id => id ≠ m.groups.size → ∀ start e,
    group hwrap path id start e = group hm path id start e)
    (fun path id hnest hexpand hid start e => ?_) path id
  have hne : m.groups.size ≠ p := Nat.ne_of_gt hp
  -- an item is laid out as before, in whatever group of the new model it stands now
  have hitem {id' : GroupId} {i : Item} (hi : i ∈ m.members id)
      (hi' : i ∈ (m.wrap p xs ys zs).members id') (start : Cursor) (e : Emitter) :
      item hwrap path id' start e i hi' = item hm path id start e i hi :=
    item_of_groups hm hwrap (fun _ => rfl) (fun _ _ _ => Iff.rfl)
      (fun child hc => hnest child hc fun he => hfresh.loose id (he ▸ hc))
      (fun target name ht hl => hexpand target ht (List.ne_nil_of_mem hi)
        fun he => hfresh.nameless name (he ▸ hl)) hi hi' start e
  have hkind : (m.wrap p xs ys zs).kind id = m.kind id := by rw [Model.kind_wrap, if_neg hid]
  by_cases hidp : id = p
  · subst hidp
    have hmembers : (m.wrap id xs ys zs).members id = xs ++ .group m.groups.size :: zs := by
      rw [Model.members_wrap hp, if_neg hid, if_pos rfl]
    have hnew : (m.wrap id xs ys zs).members m.groups.size = ys := by
      rw [Model.members_wrap hp, if_pos rfl]
    have hkindNew : (m.wrap id xs ys zs).kind m.groups.size = m.kind id := by
      rw [Model.kind_wrap, if_pos rfl]
    have hxs : ∀ i ∈ xs ++ ys, i ∈ m.members id := fun i hi => h ▸ List.mem_append_left _ hi
    have hzs : ∀ i ∈ zs, i ∈ m.members id := fun i hi => h ▸ List.mem_append_right _ hi
    have hbefore (cursor : Cursor) (e : Emitter) (hsub) :
        members hwrap path id start xs hsub cursor e =
          members hm path id start xs (fun i hi => hxs i (List.mem_append_left _ hi)) cursor e :=
      members_of_items hm hwrap hkind _ _ _ _ _ fun i hi => hitem _ _
    have hinside (inner : Cursor) (e : Emitter) (hi) :
        item hwrap path id inner e (.group m.groups.size) hi =
          members hm path id inner ys (fun i hi => hxs i (List.mem_append_right _ hi)) inner e := by
      rw [item_eq_visit]
      show group hwrap path m.groups.size inner e = _
      rw [group_eq_members hwrap hnew]
      exact members_of_items hm hwrap hkindNew _ _ _ _ _ fun i hi => hitem _ _
    have hafter (cursor : Cursor) (e : Emitter) (hsub) :
        members hwrap path id start zs hsub cursor e = members hm path id start zs hzs cursor e :=
      members_of_items hm hwrap hkind _ _ _ _ _ fun i hi => hitem _ _
    rw [group_eq_members hwrap hmembers, group_eq_members hm h, members_append, members_append,
      members_append, members_cons, members_regroup hm start e hxs]
    simp only [hkind, hbefore, hinside, hafter]
  · have hmembers : (m.wrap p xs ys zs).members id = m.members id := by
      rw [Model.members_wrap hp, if_neg hid, if_neg hidp]
    rw [group_eq_members hwrap hmembers, group_eq_members hm rfl]
    exact members_of_items hm hwrap hkind _ _ _ _ _ fun i hi => hitem hi _

end Descent

/-- **Wrapping.** Members that follow each other in a group may as well be those of a new group of
the same kind in their place: the layout of each group that was there before ends at the same
cursor, from every cursor and every emitter, and with the same lines, findings and namespaces. -/
theorem layout_wrap {m : Model} (hm : m.WellNested) {p : GroupId} (hp : p < m.groups.size)
    (hfresh : m.Fresh m.groups.size) {xs ys zs : List Item} (h : m.members p = xs ++ ys ++ zs) :
    (m.wrap p xs ys zs).WellNested ∧
      ∀ id < m.groups.size, ∀ (start : Cursor) (e : Emitter),
        e.group (m.wrap p xs ys zs) id start = e.group m id start := by
  have hwrap := Model.wellNested_wrap hm hfresh hp h
  refine ⟨hwrap, fun id hid start e => ?_⟩
  rw [Descent.group_eq hwrap, Descent.group_eq hm]
  exact Descent.group_wrap hm hwrap hfresh hp h [id] id (Nat.ne_of_lt hid) start e

/-- The field in the middle of a union, with a union around it. -/
theorem layout_wrap_specimen :
    let x := .member ⟨"x", none, some 2, none, 9⟩
    let y := .member ⟨"y", none, some 4, none, 10⟩
    let self := .member ⟨"self", none, none, some "t", 11⟩
    let wrapped := Model.specimen.wrap 2 [x] [y] [self]
    Model.specimen.WellNested ∧ Model.specimen.Fresh Model.specimen.groups.size ∧
      Model.specimen.members 2 = [x] ++ [y] ++ [self] ∧ wrapped.members 2 = [x, .group 3, self] ∧
      wrapped.kind 3 = .union ∧
      Emitter.new.group wrapped Model.document none =
        Emitter.new.group Model.specimen Model.document none ∧
      (Emitter.new.group wrapped Model.document none).1 = some 23 := by
  intro x y self wrapped
  have hfresh : Model.specimen.Fresh Model.specimen.groups.size := by
    refine ⟨fun parent hc => ?_, fun name hl => ?_⟩
    · have hs := Model.lt_size_of_members_ne_nil (List.ne_nil_of_mem hc)
      have hlater : ∀ parent < Model.specimen.groups.size, ∀ i ∈ Model.specimen.members parent,
          Model.nestsLater Model.specimen.groups.size parent i = true := by decide
      simpa [Model.nestsLater] using hlater parent hs _ hc
    · simp only [Model.lookup, Model.specimen, List.lookup_cons] at hl
      split at hl <;> cases hl
  have hmembers : Model.specimen.members 2 = [x] ++ [y] ++ [self] := rfl
  have hwrap := (layout_wrap Model.wellNested_specimen (by decide) hfresh hmembers).2
    Model.document (by decide) none .new
  have hend : (Emitter.new.group Model.specimen Model.document none).1 = some 23 := by
    obtain ⟨e, he⟩ : ∃ e, Walk.Reaches Model.specimen
        (.ofGroup Model.specimen Model.document none .new) (.ended (some 23) e) := by
      refine ⟨?last, ?reaches⟩
      case reaches =>
        iterate 14 apply Walk.Reaches.step
        exact .refl _
    exact congrArg Prod.fst (Walk.run_eq_of_reaches he)
  exact ⟨Model.wellNested_specimen, hfresh, hmembers, rfl, rfl, hwrap, hwrap ▸ hend⟩

end HeaderSymbols
