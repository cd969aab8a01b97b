import HeaderSymbols.Proofs.Layout.Effects

/-!
# The frames of a walk

Each frame of a walk but the first stands for the item that the frame below it took last, which
is a group nested there or a member that is expanded. The namespaces that are open are those that
the walk began with, turned by the items already taken of its first group, and the names of the
members that are being expanded.

* `within_step`, `within_of_reaches`: a step keeps this, and so does a run.
* `reaches_drop`: a walk gets to each item of the group that it began with.
* `group_lt_of_reaches`: in a well formed model every group that a walk enters is there.
* `Stacked.ne_root_of_leaves`: a walk leaves a namespace only where one is open.
-/
namespace HeaderSymbols

namespace Walk

/-! ## Frames on frames -/

/-- Frames of a walk of the group `id` that was begun in the namespaces `base`, the innermost
first, and the namespaces that are open. -/
inductive Stacked (m : Model) (id : GroupId) (base : Namespaces) :
    List Frame → Namespaces → Prop where
  | root {f done} (group : f.group = id) (plain : f.expands = false)
      (taken : m.members f.group = done ++ f.rest) : Stacked m id base [f] (base.after done)
  | nested {f parent outer ns before done} (below : Stacked m id base (parent :: outer) ns)
      (item : m.members parent.group = before ++ .group f.group :: parent.rest)
      (plain : f.expands = false) (taken : m.members f.group = done ++ f.rest) :
      Stacked m id base (f :: parent :: outer) (ns.after done)
  | expanded {f parent outer ns before mem name done}
      (below : Stacked m id base (parent :: outer) ns)
      (item : m.members parent.group = before ++ .member mem :: parent.rest)
      (layout : mem.layout = some name) (registered : m.lookup name = some f.group)
      (expands : f.expands = true) (taken : m.members f.group = done ++ f.rest) :
      Stacked m id base (f :: parent :: outer) ((ns.enter mem.name).after done)

/-- A walk whose frames are stacked, or one past the end of its first group. -/
def Within (m : Model) (id : GroupId) (base : Namespaces) : Walk → Prop
  | .inside top outer _ e => Stacked m id base (top :: outer) e.namespaces
  | .ended _ e => e.namespaces = base.after (m.members id)

variable {m : Model} {id : GroupId} {base ns : Namespaces} {f : Frame} {outer : List Frame}

/-- Nothing has been taken of a group that was just entered. -/
theorem members_new (m : Model) (id : GroupId) (start : Cursor) (expands : Bool) :
    m.members (Frame.new m id start expands).group =
      [] ++ (Frame.new m id start expands).rest := rfl

theorem within_ofGroup (m : Model) (id : GroupId) (start : Cursor) (e : Emitter) :
    (ofGroup m id start e).Within m id e.namespaces := by
  show Stacked m id e.namespaces [Frame.new m id start false] (e.namespaces.after [])
  exact .root rfl rfl (members_new m id start false)

theorem Stacked.resume (h : Stacked m id base (f :: outer) ns) (finish : Cursor) :
    Stacked m id base (f.complete finish :: outer) ns := by
  cases h with
  | root group plain taken => exact .root group plain taken
  | nested below item plain taken => exact .nested below item plain taken
  | expanded below item layout registered expands taken =>
    exact .expanded below item layout registered expands taken

/-- What is left of a group is the end of its members. -/
theorem Stacked.taken (h : Stacked m id base (f :: outer) ns) :
    ∃ done, m.members f.group = done ++ f.rest := by
  cases h with
  | root _ _ taken | nested _ _ _ taken | expanded _ _ _ _ _ taken => exact ⟨_, taken⟩

/-- The frame with its next item taken off, and the namespaces after that. -/
theorem Stacked.pass (h : Stacked m id base (f :: outer) ns) {i : Item} {rest : List Item}
    (hr : f.rest = i :: rest) :
    Stacked m id base ({ f with rest := rest } :: outer) (i.turn ns) := by
  have hend (done : List Item) (ns : Namespaces) :
      ns.after (done ++ [i]) = i.turn (ns.after done) := Namespaces.after_append ns done [i]
  cases h with
  | root group plain taken =>
    rw [← hend]
    exact .root group plain (by simpa [hr] using taken)
  | nested below item plain taken =>
    rw [← hend]
    exact .nested below item plain (by simpa [hr] using taken)
  | expanded below item layout registered expands taken =>
    rw [← hend]
    exact .expanded below item layout registered expands (by simpa [hr] using taken)

/-- The items of a group that is not the document leave the namespaces as they are. -/
theorem after_members (hm : m.WellFormed) {id : GroupId} (hid : id ≠ Model.document)
    (ns : Namespaces) : ns.after (m.members id) = ns :=
  ns.after_of_isPlaced (hm.placed id hid)

theorem ne_document_of_nests (hm : m.WellFormed) {child parent : GroupId}
    (h : m.Nests child parent) : child ≠ Model.document :=
  Nat.ne_of_gt (Nat.zero_lt_of_lt (hm.nests _ _ h).1)

theorem ne_document_of_lookup (hm : m.WellFormed) {name : String} {id : GroupId}
    (h : m.lookup name = some id) : id ≠ Model.document :=
  Nat.ne_of_gt (hm.registered _ _ h).1

/-- A group that is inside another one has been laid out once no item is left, and then the
namespaces are those in which its item was met. -/
theorem within_close (hm : m.WellFormed) {top : Frame} {e : Emitter}
    (h : Stacked m id base (top :: outer) e.namespaces) (hr : top.rest = []) (path : List GroupId) :
    (close top outer path e).Within m id base := by
  generalize hns : e.namespaces = ns at h
  cases h with
  | root group plain taken =>
    rw [hr, List.append_nil] at taken
    simp only [close, plain, Bool.false_eq_true, if_false]
    rw [← taken, group] at hns
    exact hns
  | nested below item plain taken =>
    rw [hr, List.append_nil] at taken
    have hchild : m.Nests top.group _ := item ▸ List.mem_append_right _ (.head _)
    rw [← taken, after_members hm (ne_document_of_nests hm hchild)] at hns
    simp only [close, plain, Bool.false_eq_true, if_false]
    show Stacked m id base _ e.namespaces
    rw [hns]
    exact below.resume _
  | expanded below item layout registered expands taken =>
    rw [hr, List.append_nil] at taken
    rw [← taken, after_members hm (ne_document_of_lookup hm registered)] at hns
    simp only [close, expands, if_true, Emitter.leave, hns, Namespaces.leave_enter]
    exact below.resume _

theorem within_step (hm : m.WellFormed) {top : Frame} {e : Emitter}
    (h : Stacked m id base (top :: outer) e.namespaces) (path : List GroupId) :
    (step m top outer path e).Within m id base := by
  unfold step
  split
  · rename_i hr
    exact within_close hm h hr path
  · rename_i i rest hr
    have hpass := h.pass hr
    obtain ⟨done, htaken⟩ := h.taken
    rw [hr] at htaken
    cases hv : e.visit m path top.childStart i with
    | mk e' move =>
      cases move with
      | finish finish =>
        show Stacked m id base _ e'.namespaces
        rw [Descent.namespaces_visit hv]
        exact hpass.resume finish
      | nest child =>
        obtain ⟨rfl, rfl⟩ := Emitter.visit_eq_nest hv
        show Stacked m id base (_ :: _ :: outer) (e'.namespaces.after [])
        exact .nested hpass htaken rfl (members_new m child _ _)
      | expand target =>
        obtain ⟨mem, name, rfl, hl, hres, rfl⟩ := Emitter.visit_eq_expand hv
        have hlookup := (Emitter.resolve_eq_ok hres).2.1
        show Stacked m id base (_ :: _ :: outer) ((e.namespaces.enter mem.name).after [])
        exact .expanded hpass htaken hl hlookup rfl (members_new m target _ _)

theorem within_of_reaches (hm : m.WellFormed) {u w : Walk} (hr : Reaches m u w)
    (h : u.Within m id base) : w.Within m id base := by
  induction hr with
  | refl => exact h
  | step _ ih => exact ih (within_step hm h _)

/-! ## What follows for a walk -/

/-- The groups that a walk is inside of, the innermost first. -/
def groups : Walk → List GroupId
  | .inside top outer _ _ => (top :: outer).map Frame.group
  | .ended .. => []

def emitter : Walk → Emitter
  | .inside _ _ _ e => e
  | .ended _ e => e

theorem Stacked.group_lt (hm : m.WellFormed) (hid : id < m.groups.size) {frames : List Frame}
    (h : Stacked m id base frames ns) : ∀ f ∈ frames, f.group < m.groups.size := by
  induction h with
  | root group =>
    intro f hf
    rw [List.mem_singleton.1 hf, group]
    exact hid
  | nested _ item _ _ ih =>
    intro f hf
    rcases List.mem_cons.1 hf with rfl | hf
    · exact (hm.nests _ _ (item ▸ List.mem_append_right _ (.head _))).2
    · exact ih f hf
  | expanded _ _ _ registered _ _ ih =>
    intro f hf
    rcases List.mem_cons.1 hf with rfl | hf
    · exact (hm.registered _ _ registered).2
    · exact ih f hf

/-- A walk of a group that is there enters only groups that are there. -/
theorem group_lt_of_reaches (hm : m.WellFormed) (hid : id < m.groups.size) {start : Cursor}
    {e : Emitter} {w : Walk} (hr : Reaches m (ofGroup m id start e) w) :
    ∀ g ∈ w.groups, g < m.groups.size := by
  have h := within_of_reaches hm hr (within_ofGroup m id start e)
  cases w with
  | inside top outer path e' =>
    intro g hg
    obtain ⟨f, hf, rfl⟩ := List.mem_map.1 hg
    exact Stacked.group_lt hm hid h f hf
  | ended finish e' => exact fun _ hg => absurd hg List.not_mem_nil

/-- The namespaces at the end of a walk are those that the items of its group leave. -/
theorem namespaces_group (hm : m.WellFormed) (e : Emitter) (id : GroupId) (start : Cursor) :
    (e.group m id start).2.namespaces = e.namespaces.after (m.members id) := by
  rw [Descent.group_eq hm.wellNested]
  exact within_of_reaches hm (Descent.reaches_ended hm.wellNested id start e)
    (within_ofGroup m id start e)

/-- Only the first frame of a walk can be for the document, and then nothing is inside of it. -/
theorem Stacked.document (hm : m.WellFormed) (hf : f.group = Model.document)
    (h : Stacked m id base (f :: outer) ns) :
    outer = [] ∧ id = Model.document ∧
      ∃ done, m.members Model.document = done ++ f.rest ∧ ns = base.after done := by
  cases h with
  | root group plain taken => exact ⟨rfl, group ▸ hf, _, hf ▸ taken, rfl⟩
  | nested below item plain taken =>
    have hchild : m.Nests f.group _ := item ▸ List.mem_append_right _ (.head _)
    exact absurd hf (ne_document_of_nests hm hchild)
  | expanded below item layout registered expands taken =>
    exact absurd hf (ne_document_of_lookup hm registered)

/-- A walk gets to each item of the group that it began with. -/
theorem reaches_drop (hm : m.WellNested) (id : GroupId) (start : Cursor) (e : Emitter) (i : Nat)
    (hi : i ≤ (m.members id).length) :
    ∃ top e', Reaches m (ofGroup m id start e) (.inside top [] [id] e') ∧ top.group = id ∧
      top.rest = (m.members id).drop i := by
  induction i with
  | zero => exact ⟨_, e, .refl _, rfl, rfl⟩
  | succ i ih =>
    obtain ⟨top, e', hr, hg, hrest⟩ := ih (Nat.le_of_succ_le hi)
    rw [List.drop_eq_getElem_cons hi] at hrest
    have hstep := Descent.reaches_item (fun child _ => Descent.reaches_spent hm [id] child)
      (fun target _ _ => Descent.reaches_spent hm [target, id] target)
      (List.getElem_mem hi) hrest [] e'
    exact ⟨_, _, hr.trans hstep, hg, rfl⟩

end Walk

/-! ## Leaving namespaces -/

/-- Whether the next step leaves a namespace, which is that of an item or that of a member whose
expansion is at its end. -/
def Frame.leaves (f : Frame) : Prop :=
  f.rest.head? = some .leave ∨ f.rest = [] ∧ f.expands = true

namespace Walk

variable {m : Model} {id : GroupId} {base ns : Namespaces} {f : Frame} {outer : List Frame}

theorem namespaces_step_of_leaves (h : f.leaves) (path : List GroupId) (e : Emitter) :
    (step m f outer path e).emitter.namespaces = e.namespaces.leave := by
  unfold step
  rcases h with hl | ⟨hr, hx⟩
  · obtain ⟨rest, hr⟩ := List.head?_eq_some_iff.1 hl
    rw [hr]
    rfl
  · rw [hr]
    cases outer <;> simp [close, hx, emitter, Emitter.leave]

theorem suffix_step_of_not_leaves (h : ¬ f.leaves) (path : List GroupId) (e : Emitter) :
    e.namespaces.names <:+ (step m f outer path e).emitter.namespaces.names := by
  unfold step
  cases hr : f.rest with
  | nil =>
    have hx : f.expands = false := by simpa [Frame.leaves, hr] using h
    cases outer <;> simp [close, hx, emitter]
  | cons i rest =>
    have hi : i ≠ .leave := fun hi => h (.inl (by rw [hr, hi]; rfl))
    cases hv : e.visit m path f.childStart i with
    | mk e' move =>
      suffices hs : e.namespaces.names <:+ e'.namespaces.names by
        simp only [hv]
        cases move <;> exact hs
      cases move with
      | finish finish =>
        rw [Descent.namespaces_visit hv]
        cases i with
        | enter name => exact List.suffix_cons ..
        | leave => exact absurd rfl hi
        | _ => exact List.suffix_refl _
      | nest child =>
        obtain ⟨-, rfl⟩ := Emitter.visit_eq_nest hv
        exact List.suffix_refl _
      | expand target =>
        obtain ⟨mem, name, -, -, -, rfl⟩ := Emitter.visit_eq_expand hv
        exact List.suffix_cons ..

/-- A walk leaves a namespace only where one is open, if the items of the document do. -/
theorem Stacked.ne_root_of_leaves (hm : m.WellFormed)
    (hdoc : id = Model.document → base.Admits (m.members Model.document))
    (h : Stacked m id base (f :: outer) ns) (hl : f.leaves) : ns ≠ .root := by
  rcases hl with hl | ⟨hr, hx⟩
  · obtain ⟨rest, hr⟩ := List.head?_eq_some_iff.1 hl
    obtain ⟨done, htaken⟩ := h.taken
    rw [hr] at htaken
    -- an item that leaves a namespace stands in the document
    have hf : f.group = Model.document := by
      refine Classical.byContradiction fun hf => ?_
      have := hm.placed _ hf .leave (htaken ▸ List.mem_append_right _ (.head _))
      cases this
    obtain ⟨-, hid, done', htaken', rfl⟩ := h.document hm hf
    have hadmits := hdoc hid
    rw [htaken', hr, Namespaces.admits_append] at hadmits
    exact hadmits.2.1 rfl
  · cases h with
    | root _ plain _ | nested _ _ plain _ => rw [plain] at hx; cases hx
    | expanded below item layout registered expands taken =>
      rw [hr, List.append_nil] at taken
      rw [← taken, after_members hm (ne_document_of_lookup hm registered)]
      simp [Namespaces.enter, Namespaces.root]

end Walk
end HeaderSymbols
