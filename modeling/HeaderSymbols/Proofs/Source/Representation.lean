import HeaderSymbols.Proofs.Layout.Frames

/-!
# The representation of a reading

A reading keeps its groups in an array and refers to them by their places there: from the items
that nest them, from the names that are registered, and from the list of the groups that are open.
After any lines, whether they were sound or not, each of these refers to a group that is there. A
group is nested in one place or registered under one name and never both, so the groups without a
name form a forest; and the open groups are the document and groups that are ever younger.

* `Forest.push`, `Forest.addGroup`, `Forest.register`: what may be done to such a model.
* `Does.represents`, `represents_steps`: a line keeps all of this, and so do lines.
* `forest_ofLines`: the model of a source.
* `representation`: and so nothing that a reading or a layout looks up is out of range.
-/
namespace HeaderSymbols

namespace Model

variable {m : Model}

theorem members_empty (id : GroupId) : empty.members id = [] := by
  cases id <;> simp [members, group?, empty, Group.members]

theorem mem_members_push (m : Model) {id p : GroupId} (item : Item) (h : id < m.groups.size)
    {x : Item} :
    x ∈ (m.push id item).members p ↔ x ∈ m.members p ∨ p = id ∧ x = item := by
  rw [members_push m item h]
  split
  · rename_i heq
    simp [heq]
  · rename_i hne
    simp [Ne.symm hne]

theorem getElem?_members_push (m : Model) {id p : GroupId} (item : Item) (h : id < m.groups.size)
    {i : Nat} {x : Item} :
    ((m.push id item).members p)[i]? = some x ↔
      (m.members p)[i]? = some x ∨ p = id ∧ i = (m.members id).length ∧ x = item := by
  rw [members_push m item h]
  split
  · rename_i heq
    subst heq
    rcases Nat.lt_trichotomy i (m.members id).length with hlt | rfl | hgt
    · simp [List.getElem?_append_left hlt, Nat.ne_of_lt hlt]
    · simp [eq_comm]
    · have hout : (m.members id)[i]? = none := List.getElem?_eq_none (Nat.le_of_lt hgt)
      have hpos : i - (m.members id).length ≠ 0 := Nat.sub_ne_zero_of_lt hgt
      simp [List.getElem?_append_right (Nat.le_of_lt hgt), hout, hpos, Nat.ne_of_gt hgt]
  · rename_i hne
    simp [Ne.symm hne]

/-! ## Models -/

/-- A model whose groups are each in one place. -/
structure Forest (m : Model) : Prop extends m.WellFormed where
  /-- No group is nested twice. -/
  once : ∀ {p q : GroupId} {i j : Nat} {child : GroupId},
    (m.members p)[i]? = some (.group child) → (m.members q)[j]? = some (.group child) →
    p = q ∧ i = j
  /-- No group that is nested has a name. -/
  unnamed : ∀ {parent child}, m.Nests child parent → ∀ name, m.lookup name ≠ some child
  /-- What has a name is a structure, -/
  structs : ∀ {name id}, m.lookup name = some id → m.kind? id = some .struct
  /-- and has one name only. -/
  distinct : ∀ {name name' id}, m.lookup name = some id → m.lookup name' = some id → name = name'
  /-- A member has a size or refers to a structure, and not both. -/
  sized : ∀ {id mem}, .member mem ∈ m.members id → mem.size.isSome ≠ mem.layout.isSome

/-- A member that refers to no structure has a size. -/
theorem Forest.exists_size (h : m.Forest) {id : GroupId} {mem : Member}
    (hmem : .member mem ∈ m.members id) (hl : mem.layout = none) :
    ∃ size, mem.size = some size := by
  have hs := h.sized hmem
  rw [hl] at hs
  exact Option.isSome_iff_exists.1 (Bool.ne_false_iff.1 hs)

theorem forest_empty : empty.Forest where
  toWellFormed := wellFormed_empty
  once hp := by simp [members_empty] at hp
  unnamed hc := by simp [Nests, members_empty] at hc
  structs hl := by cases hl
  distinct hl := by cases hl
  sized hmem := by simp [members_empty] at hmem

/-- A group that is nested nowhere and has no name. -/
structure Loose (m : Model) (id : GroupId) : Prop where
  nests : ∀ parent, ¬ m.Nests id parent
  lookup : ∀ name, m.lookup name ≠ some id

/-- A group that was just added is in no place yet. -/
theorem WellFormed.loose_addGroup (h : m.WellFormed) (kind : GroupKind) :
    (m.addGroup kind).2.Loose m.groups.size where
  nests parent hc := by
    rw [Nests, members_addGroup] at hc
    exact Nat.lt_irrefl _ (h.nests _ _ hc).2
  lookup name hl := Nat.lt_irrefl _ (h.registered name _ hl).2

/-- An item may be added to a group if it nests a group that is in no place, or none. -/
theorem Forest.push (h : m.Forest) {id : GroupId} {item : Item} (hid : id < m.groups.size)
    (hn : ∀ child, item = .group child → id < child ∧ child < m.groups.size ∧ m.Loose child)
    (hp : id ≠ Model.document → item.isPlaced = true)
    (hs : ∀ mem, item = .member mem → mem.size.isSome ≠ mem.layout.isSome) :
    (m.push id item).Forest where
  toWellFormed := h.toWellFormed.push hid (fun child hc => ⟨(hn child hc).1, (hn child hc).2.1⟩) hp
  once {p q i j child} hi hj := by
    have hfresh : item = .group child →
        ∀ {p : GroupId} {i : Nat}, (m.members p)[i]? ≠ some (.group child) :=
      fun hc p i hi => (hn child hc).2.2.nests p (List.mem_of_getElem? hi)
    rw [getElem?_members_push m item hid] at hi hj
    rcases hi with hi | ⟨rfl, rfl, hi⟩ <;> rcases hj with hj | ⟨rfl, rfl, hj⟩
    · exact h.once hi hj
    · exact absurd hi (hfresh hj.symm)
    · exact absurd hj (hfresh hi.symm)
    · exact ⟨rfl, rfl⟩
  unnamed {parent child} hc name := by
    rw [Nests, mem_members_push m item hid] at hc
    rcases hc with hc | ⟨-, hc⟩
    · exact h.unnamed hc name
    · exact (hn child hc.symm).2.2.lookup name
  structs hl := by
    rw [kind?_push]
    exact h.structs hl
  distinct := h.distinct
  sized {_ mem} hm := by
    rw [mem_members_push m item hid] at hm
    rcases hm with hm | ⟨-, hm⟩
    · exact h.sized hm
    · exact hs mem hm.symm

theorem Forest.addGroup (h : m.Forest) (kind : GroupKind) : (m.addGroup kind).2.Forest where
  toWellFormed := h.toWellFormed.addGroup kind
  once hi hj := by
    rw [members_addGroup] at hi hj
    exact h.once hi hj
  unnamed hc := by
    rw [Nests, members_addGroup] at hc
    exact h.unnamed hc
  structs {name id} hl := by
    rw [kind?_addGroup, if_neg (Nat.ne_of_lt (h.registered name id hl).2)]
    exact h.structs hl
  distinct := h.distinct
  sized hm := by
    rw [members_addGroup] at hm
    exact h.sized hm

/-- A structure that is in no place may be registered, under a name that is new or not. -/
theorem Forest.register (h : m.Forest) (name : String) {id : GroupId} (hd : document < id)
    (hs : id < m.groups.size) (hk : m.kind? id = some .struct) (hl : m.Loose id) :
    (m.register name id).Forest where
  toWellFormed := h.toWellFormed.register name hd hs
  once := h.once
  unnamed {parent child} hc other := by
    rw [lookup_register]
    split
    · rintro ⟨⟩
      exact hl.nests parent hc
    · exact h.unnamed hc other
  structs {other target} ho := by
    rw [lookup_register] at ho
    split at ho
    · cases ho
      exact hk
    · exact h.structs ho
  distinct {n n' target} hn hn' := by
    rw [lookup_register] at hn hn'
    by_cases hname : n = name <;> by_cases hname' : n' = name
    · exact hname.trans hname'.symm
    · rw [if_pos hname] at hn
      rw [if_neg hname'] at hn'
      cases hn
      exact absurd hn' (hl.lookup n')
    · rw [if_neg hname] at hn
      rw [if_pos hname'] at hn'
      cases hn'
      exact absurd hn (hl.lookup n)
    · rw [if_neg hname] at hn
      rw [if_neg hname'] at hn'
      exact h.distinct hn hn'
  sized := h.sized

end Model

/-! ## Readings -/

namespace Reading

/-- A reading whose model is a forest, and whose open groups are groups of it that were opened
one after the other, the document first. -/
structure Represents (r : Reading) : Prop where
  forest : r.model.Forest
  bottom : r.scopes.getLast? = some Model.document
  rising : r.scopes.Pairwise (· > ·)
  valid : ∀ id ∈ r.scopes, id < r.model.groups.size

variable {r after : Reading}

theorem Represents.scope_mem_scopes (h : r.Represents) : r.scope ∈ r.scopes := by
  have hbottom := h.bottom
  unfold scope
  cases hs : r.scopes with
  | nil => simp [hs] at hbottom
  | cons id outer => exact .head _

theorem represents_start : start.Represents where
  forest := Model.forest_empty
  bottom := rfl
  rising := List.pairwise_singleton ..
  valid id hid := by
    rw [List.mem_singleton.1 hid]
    exact Model.wellFormed_empty.document_lt

/-- One more group is open, which is the youngest one. -/
theorem Represents.opened (h : r.Represents) {m : Model} (hm : m.Forest)
    (hs : m.groups.size = r.model.groups.size + 1) :
    ({ r with model := m, scopes := r.model.groups.size :: r.scopes } : Reading).Represents where
  forest := hm
  bottom := getLast?_opened h.bottom _
  rising := List.pairwise_cons.2 ⟨h.valid, h.rising⟩
  valid := by
    show ∀ id ∈ r.model.groups.size :: r.scopes, id < m.groups.size
    rw [hs, List.forall_mem_cons]
    exact ⟨Nat.lt_succ_self _, fun id hid => Nat.lt_succ_of_lt (h.valid id hid)⟩

theorem Does.represents (h : r.Represents) (hd : r.Does after) : after.Represents := by
  have hscope := h.valid _ h.scope_mem_scopes
  cases hd with
  | @note item free left =>
    refine ⟨h.forest.push h.forest.document_lt ?_ (fun hne => absurd rfl hne) ?_, h.bottom,
      h.rising, ?_⟩
    · exact fun child hc => by subst hc; cases free
    · exact fun mem hmem => by subst hmem; cases free
    · show ∀ id ∈ r.scopes, id < (r.model.push Model.document item).groups.size
      rw [Model.size_push]
      exact h.valid
  | @place item plain placed sized =>
    refine ⟨h.forest.push hscope ?_ (fun _ => placed) sized, h.bottom, h.rising, ?_⟩
    · exact fun child hc => by subst hc; cases plain
    · show ∀ id ∈ r.scopes, id < (r.model.push r.scope item).groups.size
      rw [Model.size_push]
      exact h.valid
  | openGroup kind =>
    have hsize := Model.size_addGroup r.model kind
    refine h.opened ((h.forest.addGroup kind).push ?_ ?_ (fun _ => rfl) nofun) (by simp)
    · rw [hsize]
      exact Nat.lt_succ_of_lt hscope
    · rintro child ⟨⟩
      rw [hsize]
      exact ⟨hscope, Nat.lt_succ_self _, h.forest.loose_addGroup kind⟩
  | openNamed name =>
    refine h.opened ((h.forest.addGroup .struct).register name h.forest.document_lt ?_ ?_
      (h.forest.loose_addGroup .struct)) (by simp)
    · rw [Model.size_addGroup]
      exact Nat.lt_succ_self _
    · rw [Model.kind?_addGroup, if_pos rfl]
  | close inside =>
    exact ⟨h.forest, getLast?_closed h.bottom inside, h.rising.tail,
      fun id hid => h.valid id (List.mem_of_mem_tail hid)⟩
  | record => exact ⟨h.forest, h.bottom, h.rising, h.valid⟩

theorem represents_steps (h : r.Represents) (lines : List (Line × UInt32)) :
    (r.steps lines).Represents := by
  induction lines generalizing r with
  | nil => exact h
  | cons l rest ih => exact ih ((does_step r l.1 l.2).represents h)

theorem forest_steps (lines : List (Line × UInt32)) : (start.steps lines).model.Forest :=
  (represents_steps represents_start lines).forest

theorem forest_ofLines (lines : List Line) : (ofLines lines).model.Forest := by
  rw [ofLines, finish_model]
  exact forest_steps _

/-- Whatever is looked up next, by a line or by a layout of the model as it is, is there. -/
structure InRange (r : Reading) : Prop where
  /-- A line looks up the document and the innermost open group, -/
  document : Model.document < r.model.groups.size
  scope : r.scope < r.model.groups.size
  /-- and a layout of the document or of a name looks up the groups that it is inside of. -/
  walk : ∀ {id start e w}, id = Model.document ∨ (∃ name, r.model.lookup name = some id) →
    Walk.Reaches r.model (.ofGroup r.model id start e) w → ∀ g ∈ w.groups, g < r.model.groups.size

theorem Represents.inRange (h : r.Represents) : r.InRange where
  document := h.forest.document_lt
  scope := h.valid _ h.scope_mem_scopes
  walk {id _ _ _} hid hr := by
    have hlt : id < r.model.groups.size := by
      rcases hid with rfl | ⟨name, hl⟩
      · exact h.forest.document_lt
      · exact (h.forest.registered name id hl).2
    exact Walk.group_lt_of_reaches h.forest.toWellFormed hlt hr

/-- **Representation.** After any lines, rejected ones included, the open groups rise from the
document, the groups without a name are a forest, which is well founded, each name has a structure
of its own, and whatever a further line or a layout looks up is there. -/
theorem representation (lines : List (Line × UInt32)) :
    (start.steps lines).Represents ∧ (start.steps lines).model.WellNested ∧
      (start.steps lines).InRange := by
  have h : (start.steps lines).Represents := represents_steps represents_start lines
  exact ⟨h, h.forest.wellNested, h.inRange⟩

end Reading
end HeaderSymbols
