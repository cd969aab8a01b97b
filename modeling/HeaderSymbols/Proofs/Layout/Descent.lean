import HeaderSymbols.Proofs.Layout.Nesting

/-!
# Laying out by recursion

`Descent.group` lays out a group by recursion on what stands in it, where a walk keeps a
stack of frames. The members are taken in order. A structure hands the cursor on; a union
starts each member at its own entry and keeps the furthest end. A member that can be
expanded enters its name, is laid out as its structure with that structure on the path,
and leaves its name once; one that cannot be expanded says why and ends where it starts. The
recursion goes down a well nested model, in which this comes to an end (`Below`).

* `item_eq_visit`: the recursion agrees with a walk on what becomes of one item.
* `reaches_spent`: a walk that opens a group gets to the end of its members with the end and
  the emitter of the recursion.
* `group_refines`: so a walk of a group has the result of the recursion, whatever the emitter
  and the cursor it starts with.
* `induct`: what is shown of each item and each group by what the recursion does there holds
  of all layouts.
-/
namespace HeaderSymbols

namespace Descent

/-- A group on a path, in a model in which going down from there ends. -/
structure Site {m : Model} (hm : m.WellNested) where
  path : List GroupId
  id : GroupId

instance {m : Model} (hm : m.WellNested) : WellFoundedRelation (Site hm) :=
  ⟨InvImage m.Below fun s => (s.path, s.id), InvImage.wf _ hm.below⟩

variable {m : Model}

mutual

/-- Lays out an item of the group `id` that starts here, inside the expansions of `path`. -/
def item (hm : m.WellNested) (path : List GroupId) (id : GroupId) (start : Cursor) (e : Emitter)
    (i : Item) (hi : i ∈ m.members id) : Cursor × Emitter :=
  match i, hi with
  | .text comment, _ => (start, e.emit (.text comment))
  | .enter name, _ => (start, e.enter name)
  | .leave, _ => (start, e.leave)
  | .region address, _ => (address, e)
  | .skip amount line, _ => (e.skip start amount line).swap
  | .assignment name value comment, _ => (start, e.define name value comment)
  | .group child, _ => group hm path child start e
  | .member mem, _ =>
    match mem.layout with
    | none => (e.field mem start).swap
    | some name =>
      match start, m.lookup name with
      | none, _ => (start, e.report mem.line .memberOutsideRegion)
      | some _, none => (start, e.report mem.line (.unknownStructure name))
      | some _, some target =>
        if _ : target ∈ path then (start, e.report mem.line (.recursiveStructure name))
        else
          let r := group hm (target :: path) target start (e.enter mem.name)
          (r.1, r.2.leave)
termination_by ((⟨path, id⟩ : Site hm), 0)
decreasing_by
  · exact .left _ _ (.nested ‹_›)
  · exact .left _ _ (.expanded ‹_› (List.ne_nil_of_mem ‹_›))

/-- Lays out members of the group `id`, which was entered here, from a cursor on. -/
def members (hm : m.WellNested) (path : List GroupId) (id : GroupId) (entry : Cursor)
    (items : List Item) (hsub : ∀ i ∈ items, i ∈ m.members id) (cursor : Cursor) (e : Emitter) :
    Cursor × Emitter :=
  match items with
  | [] => (cursor, e)
  | i :: rest =>
    match m.kind id with
    | .struct =>
      let r := item hm path id cursor e i (hsub i (.head _))
      members hm path id entry rest (fun j hj => hsub j (.tail _ hj)) r.1 r.2
    | .union =>
      let r := item hm path id entry e i (hsub i (.head _))
      members hm path id entry rest (fun j hj => hsub j (.tail _ hj)) (Cursor.furthest cursor r.1) r.2
termination_by ((⟨path, id⟩ : Site hm), items.length)
decreasing_by
  all_goals exact .right _ (by simp)

/-- Lays out a group from a cursor on, inside the expansions of `path`. -/
def group (hm : m.WellNested) (path : List GroupId) (id : GroupId) (start : Cursor)
    (e : Emitter) : Cursor × Emitter :=
  members hm path id start (m.members id) (fun _ h => h) start e
termination_by ((⟨path, id⟩ : Site hm), (m.members id).length + 1)
decreasing_by exact .right _ (by simp)

end

variable (hm : m.WellNested) {path : List GroupId} {id : GroupId}

/-- What becomes of an item by the move that it asks a walk for. -/
theorem item_eq_visit (start : Cursor) (e : Emitter) (i : Item) (hi : i ∈ m.members id) :
    item hm path id start e i hi =
      match e.visit m path start i with
      | (e, .finish finish) => (finish, e)
      | (e, .nest child) => group hm path child start e
      | (e, .expand target) =>
        ((group hm (target :: path) target start e).1,
          (group hm (target :: path) target start e).2.leave) := by
  rw [item.eq_def]
  cases i with
  | member mem =>
    simp only [Emitter.visit, Emitter.member, Emitter.resolve]
    cases mem.layout with
    | none => rfl
    | some name =>
      cases start with
      | none => rfl
      | some address =>
        simp only [Option.isNone_some, Bool.false_eq_true, if_false]
        cases m.lookup name with
        | none => rfl
        | some target =>
          by_cases h : target ∈ path
          · simp only [h, if_true, dif_pos]
          · simp only [h, if_false, dif_neg, not_false_eq_true]
  | _ => rfl

theorem members_nil (entry cursor : Cursor) (e : Emitter)
    (hsub : ∀ i ∈ [], i ∈ m.members id) :
    members hm path id entry [] hsub cursor e = (cursor, e) := by rw [members]

theorem members_cons (entry cursor : Cursor) (e : Emitter) {i : Item} {rest : List Item}
    (hsub : ∀ j ∈ i :: rest, j ∈ m.members id) :
    members hm path id entry (i :: rest) hsub cursor e =
      let r := item hm path id ((m.kind id).start entry cursor) e i (hsub i (.head _))
      members hm path id entry rest (fun j hj => hsub j (.tail _ hj)) ((m.kind id).next cursor r.1)
        r.2 := by
  rw [members.eq_def]
  cases m.kind id <;> rfl

end Descent

/-! ## A walk does as the recursion -/

/-- The frame once its members are laid out up to here. -/
def Frame.spent (f : Frame) (finish : Cursor) : Frame := { f with rest := [], cursor := finish }

namespace Descent

/-- A walk that opens this group on this path gets to the end of its members as the recursion
does, on the same path again. -/
def Walks {m : Model} (hm : m.WellNested) (path : List GroupId) (id : GroupId) : Prop :=
  ∀ start e expands outer,
    Walk.Reaches m (.inside (.new m id start expands) outer path e)
      (.inside ((Frame.new m id start expands).spent (group hm path id start e).1) outer path
        (group hm path id start e).2)

section
variable {m : Model} {hm : m.WellNested} {path : List GroupId} {id : GroupId}
  (hnest : ∀ child, m.Nests child id → Walks hm path child)
  (hexpand : ∀ target, target ∉ path → m.members id ≠ [] → Walks hm (target :: path) target)

include hnest hexpand in
theorem reaches_item {i : Item} (hi : i ∈ m.members id) {f : Frame} {rest : List Item}
    (hr : f.rest = i :: rest) (outer : List Frame) (e : Emitter) :
    Walk.Reaches m (.inside f outer path e)
      (.inside ({ f with rest := rest }.complete (item hm path id f.childStart e i hi).1) outer path
        (item hm path id f.childStart e i hi).2) := by
  rw [item_eq_visit]
  refine .step ?_
  cases hv : e.visit m path f.childStart i with
  | mk e₁ move =>
    have hstep : Walk.step m f outer path e =
        Walk.proceed m { f with rest := rest } outer path f.childStart e₁ move := by
      simp only [Walk.step, hr, hv]
    rw [hstep]
    cases move with
    | finish finish => exact .refl _
    | nest child =>
      obtain ⟨rfl, rfl⟩ := Emitter.visit_eq_nest hv
      exact (hnest child hi _ _ false _).trans (.step (.refl _))
    | expand target =>
      have ht : target ∉ path := Emitter.not_mem_path_of_visit hv
      exact (hexpand target ht (List.ne_nil_of_mem hi) _ _ true _).trans (.step (.refl _))

include hnest hexpand in
theorem reaches_members {f : Frame} (hk : f.kind = m.kind id) (items : List Item)
    (hr : f.rest = items) (hsub : ∀ i ∈ items, i ∈ m.members id) (outer : List Frame)
    (e : Emitter) :
    Walk.Reaches m (.inside f outer path e)
      (.inside (f.spent (members hm path id f.entry items hsub f.cursor e).1) outer path
        (members hm path id f.entry items hsub f.cursor e).2) := by
  induction items generalizing f e with
  | nil =>
    rw [members_nil]
    have hf : f.spent f.cursor = f := by simp only [Frame.spent, ← hr]
    rw [hf]
    exact .refl _
  | cons i rest ih =>
    have hi : i ∈ m.members id := hsub i (.head _)
    have hstart : (m.kind id).start f.entry f.cursor = f.childStart := by
      rw [← hk]
      rfl
    rw [members_cons, hstart, ← hk]
    exact (reaches_item hnest hexpand hi hr outer e).trans
      (ih (f := { f with rest := rest }.complete (item hm path id f.childStart e i hi).1) hk rfl
        (fun j hj => hsub j (.tail _ hj)) _)

end

/-- **Simulation.** In a well nested model a walk that opens a group, on any path, gets to the
end of the group's members as the recursion does, with the same emitter. -/
theorem reaches_spent {m : Model} (hm : m.WellNested) (path : List GroupId) (id : GroupId) :
    Walks hm path id := by
  refine hm.descend (fun path id hnest hexpand start e expands outer => ?_) path id
  rw [group]
  exact reaches_members hnest hexpand (f := .new m id start expands) rfl _ rfl (fun _ h => h)
    outer e

/-- A walk of a group comes to an end, which is the one of the recursion. -/
theorem reaches_ended {m : Model} (hm : m.WellNested) (id : GroupId) (start : Cursor) (e : Emitter) :
    Walk.Reaches m (.ofGroup m id start e)
      (.ended (group hm [id] id start e).1 (group hm [id] id start e).2) :=
  (reaches_spent hm [id] id start e false []).trans (.step (.refl _))

theorem group_eq {m : Model} (hm : m.WellNested) (id : GroupId) (start : Cursor) (e : Emitter) :
    e.group m id start = group hm [id] id start e :=
  Walk.run_eq_of_reaches (reaches_ended hm id start e)

/-- **Refinement.** In a well nested model, for every group, cursor and emitter, a walk with
frames ends as the recursion does, at the same cursor and with the same emitter: the same
lines, findings and namespaces. -/
theorem group_refines (m : Model) (hm : m.WellNested) (id : GroupId) (start : Cursor) (e : Emitter) :
    Walk.Reaches m (.ofGroup m id start e)
        (.ended (group hm [id] id start e).1 (group hm [id] id start e).2) ∧
      e.group m id start = group hm [id] id start e :=
  ⟨reaches_ended hm id start e, group_eq hm id start e⟩

theorem group_refines_specimen :
    Model.specimen.WellNested ∧
      group Model.wellNested_specimen [Model.document] Model.document none .new =
        (some 23, ⟨.root,
          #[.symbol "k_p_a" (.number 16) none, .symbol "k_p_x" (.number 17) none,
            .symbol "k_p_y" (.number 17) none],
          #[⟨some 11, .recursiveStructure "t"⟩, ⟨some 4, .unknownStructure "u"⟩], 3⟩) := by
  have h := (group_refines Model.specimen Model.wellNested_specimen Model.document none .new).2
  refine ⟨Model.wellNested_specimen, h.symm.trans (Walk.run_eq_of_reaches ?_)⟩
  iterate 14 apply Walk.Reaches.step
  exact .refl _

/-! ## Induction on a layout -/

section
variable {m : Model} (hm : m.WellNested)
  (I : List GroupId → Cursor → Emitter → Item → Cursor → Emitter → Prop)
  (M : List GroupId → GroupId → Cursor → List Item → Cursor → Emitter → Cursor → Emitter → Prop)
  (G : List GroupId → GroupId → Cursor → Emitter → Cursor → Emitter → Prop)

/-- What holds of the results of the recursion for a group, the members of the group from one
of them on, and each of the items in it. -/
structure Yields (path : List GroupId) (id : GroupId) : Prop where
  item : ∀ {start e i c e'} (hi : i ∈ m.members id), item hm path id start e i hi = (c, e') →
    I path start e i c e'
  members : ∀ {entry items cursor e c e'} (hsub : ∀ i ∈ items, i ∈ m.members id),
    members hm path id entry items hsub cursor e = (c, e') → M path id entry items cursor e c e'
  group : ∀ {start e c e'}, group hm path id start e = (c, e') → G path id start e c e'

end

/-- Induction on a layout, by what the recursion does at each item and each group. -/
theorem induct {m : Model} (hm : m.WellNested)
    {I : List GroupId → Cursor → Emitter → Item → Cursor → Emitter → Prop}
    {M : List GroupId → GroupId → Cursor → List Item → Cursor → Emitter → Cursor → Emitter → Prop}
    {G : List GroupId → GroupId → Cursor → Emitter → Cursor → Emitter → Prop}
    (finish : ∀ {path id start e i c e'}, i ∈ m.members id →
      e.visit m path start i = (e', .finish c) → I path start e i c e')
    (nest : ∀ {path id start e child c e'}, m.Nests child id →
      group hm path child start e = (c, e') → G path child start e c e' →
      I path start e (.group child) c e')
    (expand : ∀ {path start e mem name id c e'}, mem.layout = some name →
      Emitter.resolve m path start name = .ok id →
      group hm (id :: path) id start (e.enter mem.name) = (c, e') →
      G (id :: path) id start (e.enter mem.name) c e' → I path start e (.member mem) c e'.leave)
    (nil : ∀ {path id entry cursor e}, M path id entry [] cursor e cursor e)
    (cons : ∀ {path id entry i rest cursor e c₁ e₁ c e'}
      (hsub : ∀ j ∈ i :: rest, j ∈ m.members id),
      item hm path id ((m.kind id).start entry cursor) e i (hsub i (.head _)) = (c₁, e₁) →
      I path ((m.kind id).start entry cursor) e i c₁ e₁ →
      members hm path id entry rest (fun j hj => hsub j (.tail _ hj)) ((m.kind id).next cursor c₁)
        e₁ = (c, e') →
      M path id entry rest ((m.kind id).next cursor c₁) e₁ c e' →
      M path id entry (i :: rest) cursor e c e')
    (opened : ∀ {path id start e c e'}, M path id start (m.members id) start e c e' →
      G path id start e c e')
    (path : List GroupId) (id : GroupId) : Yields hm I M G path id := by
  refine hm.descend (fun path id hnest hexpand => ?_) path id
  have hitem : ∀ {start e i c e'} (hi : i ∈ m.members id),
      item hm path id start e i hi = (c, e') → I path start e i c e' := by
    intro start e i c e' hi h
    rw [item_eq_visit] at h
    cases hv : e.visit m path start i with
    | mk e₁ move =>
      rw [hv] at h
      cases move with
      | finish end₁ =>
        cases h
        exact finish hi hv
      | nest child =>
        obtain ⟨rfl, rfl⟩ := Emitter.visit_eq_nest hv
        exact nest hi h ((hnest child hi).group h)
      | expand target =>
        obtain ⟨mem, name, rfl, hl, hr, rfl⟩ := Emitter.visit_eq_expand hv
        have ht := (Emitter.resolve_eq_ok hr).2.2
        cases h
        exact expand hl hr rfl ((hexpand target ht (List.ne_nil_of_mem hi)).group rfl)
  have hmembers : ∀ {entry items cursor e c e'} (hsub : ∀ i ∈ items, i ∈ m.members id),
      members hm path id entry items hsub cursor e = (c, e') →
      M path id entry items cursor e c e' := by
    intro entry items
    induction items with
    | nil =>
      intro cursor e c e' _ h
      rw [members_nil] at h
      cases h
      exact nil
    | cons i rest ih =>
      intro cursor e c e' hsub h
      rw [members_cons] at h
      exact cons hsub rfl (hitem _ rfl) h (ih _ h)
  refine ⟨hitem, hmembers, fun h => ?_⟩
  rw [group] at h
  exact opened (hmembers _ h)

end Descent
end HeaderSymbols
