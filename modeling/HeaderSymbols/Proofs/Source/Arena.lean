import HeaderSymbols.Proofs.Layout.Nesting
import HeaderSymbols.Proofs.Source.Steps

/-!
# The models that readings make

What holds of the model of every reading, after any lines, whether they were sound or
not. Groups nest only groups that come after them, so they are well nested; the document
stands in no group and under no name; and only the document holds texts, namespaces,
regions and skips.

* `wellFormed_step`, `wellFormed_steps`: a line keeps all of this, and so do lines.
* `wellNested_ofLines`: the groups of a source never nest without end.
-/
namespace HeaderSymbols

/-! ## Models -/

namespace Model

/-- A model as readings make them. -/
structure WellFormed (m : Model) : Prop where
  top : m.kind? document = some .struct
  nests : ∀ parent child, m.Nests child parent → parent < child ∧ child < m.groups.size
  registered : ∀ name id, m.lookup name = some id → document < id ∧ id < m.groups.size
  placed : ∀ id, id ≠ document → ∀ i ∈ m.members id, i.isPlaced = true

variable {m : Model}

theorem kind?_eq_none_iff {id : GroupId} : m.kind? id = none ↔ m.groups.size ≤ id := by
  simp [kind?, group?]

theorem WellFormed.document_lt (h : m.WellFormed) : document < m.groups.size := by
  refine Nat.lt_of_not_le fun hle => ?_
  have hd := h.top
  rw [kind?_eq_none_iff.2 hle] at hd
  cases hd

theorem WellFormed.wellNested (h : m.WellFormed) : m.WellNested := wellNested_of_lt h.nests

theorem wellFormed_empty : empty.WellFormed where
  top := rfl
  nests parent child hc := by
    have hs := lt_size_of_members_ne_nil (List.ne_nil_of_mem hc)
    obtain rfl : parent = 0 := Nat.lt_one_iff.1 hs
    cases hc
  registered name id h := by cases h
  placed id hid i hi := by
    have hs := lt_size_of_members_ne_nil (List.ne_nil_of_mem hi)
    exact absurd (Nat.lt_one_iff.1 hs) hid

/-- An item may be added to a group if it nests a later group or none, and, outside the
document, if it is of the kinds placed there. -/
theorem WellFormed.push (h : m.WellFormed) {id : GroupId} {item : Item} (hid : id < m.groups.size)
    (hn : ∀ child, item = .group child → id < child ∧ child < m.groups.size)
    (hp : id ≠ Model.document → item.isPlaced = true) : (m.push id item).WellFormed where
  top := by rw [kind?_push]; exact h.top
  nests parent child hc := by
    rw [size_push]
    rw [Nests, members_push m item hid] at hc
    split at hc
    · rename_i heq
      subst heq
      rcases List.mem_append.1 hc with hc | hc
      · exact h.nests _ _ hc
      · exact hn child (List.mem_singleton.1 hc).symm
    · exact h.nests _ _ hc
  registered name other hl := by rw [size_push]; exact h.registered name other hl
  placed other hother i hi := by
    rw [members_push m item hid] at hi
    split at hi
    · rename_i heq
      subst heq
      rcases List.mem_append.1 hi with hi | hi
      · exact h.placed _ hother i hi
      · rw [List.mem_singleton.1 hi]
        exact hp hother
    · exact h.placed _ hother i hi

theorem WellFormed.addGroup (h : m.WellFormed) (kind : GroupKind) :
    (m.addGroup kind).2.WellFormed where
  top := by
    rw [kind?_addGroup, if_neg (Nat.ne_of_lt h.document_lt)]
    exact h.top
  nests parent child hc := by
    rw [Nests, members_addGroup] at hc
    obtain ⟨hlt, hs⟩ := h.nests _ _ hc
    rw [size_addGroup]
    exact ⟨hlt, Nat.lt_succ_of_lt hs⟩
  registered name id hl := by
    obtain ⟨hlt, hs⟩ := h.registered name id hl
    rw [size_addGroup]
    exact ⟨hlt, Nat.lt_succ_of_lt hs⟩
  placed id hid i hi := by
    rw [members_addGroup] at hi
    exact h.placed id hid i hi

theorem WellFormed.register (h : m.WellFormed) (name : String) {id : GroupId}
    (hd : Model.document < id) (hs : id < m.groups.size) : (m.register name id).WellFormed where
  top := h.top
  nests := h.nests
  registered other target hl := by
    rw [lookup_register] at hl
    split at hl
    · cases hl
      exact ⟨hd, hs⟩
    · exact h.registered other target hl
  placed := h.placed

end Model

/-! ## Readings -/

namespace Reading

/-- A group that is opened is inside of the document. -/
theorem getLast?_opened {scopes : List GroupId} (h : scopes.getLast? = some Model.document)
    (id : GroupId) : (id :: scopes).getLast? = some Model.document := by
  rw [List.getLast?_cons, h]
  rfl

/-- A group that is closed is not the document, which stays open. -/
theorem getLast?_closed {scopes : List GroupId} (h : scopes.getLast? = some Model.document)
    (hlength : scopes.length ≠ 1) : scopes.tail.getLast? = some Model.document := by
  match scopes with
  | [] => exact h
  | [_] => exact absurd rfl hlength
  | _ :: _ :: _ => rwa [List.getLast?_cons_cons] at h

/-- A reading whose model is well formed, and whose open groups are groups of it, inside of the
document. -/
structure WellFormed (r : Reading) : Prop where
  model : r.model.WellFormed
  bottom : r.scopes.getLast? = some Model.document
  scopes : ∀ id ∈ r.scopes, id < r.model.groups.size

theorem wellFormed_start : start.WellFormed where
  model := Model.wellFormed_empty
  bottom := rfl
  scopes id hid := by
    obtain rfl := List.mem_singleton.1 hid
    exact Nat.zero_lt_one

variable {r : Reading}

theorem WellFormed.scope_lt (h : r.WellFormed) : r.scope < r.model.groups.size := by
  unfold scope
  cases hs : r.scopes with
  | nil => exact h.model.document_lt
  | cons id outer => exact h.scopes id (by simp [hs])

/-- Where one group is open, it is the document. -/
theorem WellFormed.length_scopes_eq_one_iff (h : r.WellFormed) :
    r.scopes.length = 1 ↔ r.scopes = [Model.document] := by
  have hbottom := h.bottom
  constructor
  · intro hlength
    obtain ⟨id, hid⟩ := List.length_eq_one_iff.1 hlength
    rw [hid] at hbottom ⊢
    obtain rfl : id = Model.document := Option.some.inj hbottom
    rfl
  · intro hs
    rw [hs]
    rfl

theorem WellFormed.note (h : r.WellFormed) {item : Item} (hp : item.isPlaced = false) :
    (r.note item).WellFormed where
  model := h.model.push h.model.document_lt (fun child he => by subst he; cases hp)
    fun hd => absurd rfl hd
  bottom := h.bottom
  scopes id hid := by
    rw [Reading.note, Model.size_push]
    exact h.scopes id hid

theorem WellFormed.place (h : r.WellFormed) {item : Item} (hn : item.isGroup = false)
    (hp : item.isPlaced = true) : (r.place item).WellFormed where
  model := h.model.push h.scope_lt (fun child he => by subst he; cases hn) fun _ => hp
  bottom := h.bottom
  scopes id hid := by
    rw [Reading.place, Model.size_push]
    exact h.scopes id hid

theorem WellFormed.pop (h : r.WellFormed) (hlength : r.scopes.length ≠ 1) :
    ({ r with scopes := r.scopes.tail } : Reading).WellFormed where
  model := h.model
  bottom := getLast?_closed h.bottom hlength
  scopes id hid := h.scopes id (List.mem_of_mem_tail hid)

/-- What is open once one more group is, which is the last of the model. -/
theorem WellFormed.scopes_opened (h : r.WellFormed) :
    ∀ id ∈ r.model.groups.size :: r.scopes, id < r.model.groups.size + 1 := by
  intro id hid
  rcases List.mem_cons.1 hid with rfl | hid
  · exact Nat.lt_succ_self _
  · exact Nat.lt_succ_of_lt (h.scopes id hid)

theorem WellFormed.openGroup (h : r.WellFormed) (kind : GroupKind) :
    ({ r with
      model := (r.model.addGroup kind).2.push r.scope (.group r.model.groups.size)
      scopes := r.model.groups.size :: r.scopes } : Reading).WellFormed where
  model := by
    refine (h.model.addGroup kind).push ?_ (fun child he => ?_) fun _ => rfl
    · rw [Model.size_addGroup]
      exact Nat.lt_succ_of_lt h.scope_lt
    · cases he
      rw [Model.size_addGroup]
      exact ⟨h.scope_lt, Nat.lt_succ_self _⟩
  bottom := getLast?_opened h.bottom _
  scopes id hid := by
    rw [Model.size_push, Model.size_addGroup]
    exact h.scopes_opened id hid

theorem WellFormed.openNamed (h : r.WellFormed) (name : String) :
    ({ r with
      model := (r.model.addGroup .struct).2.register name r.model.groups.size
      scopes := r.model.groups.size :: r.scopes } : Reading).WellFormed where
  model := by
    refine (h.model.addGroup .struct).register name h.model.document_lt ?_
    rw [Model.size_addGroup]
    exact Nat.lt_succ_self _
  bottom := getLast?_opened h.bottom _
  scopes id hid := by
    rw [Model.size_register, Model.size_addGroup]
    exact h.scopes_opened id hid

theorem Does.wellFormed {after : Reading} (h : r.WellFormed) (hd : r.Does after) :
    after.WellFormed := by
  cases hd with
  | note free => exact ⟨(h.note free).model, h.bottom, (h.note free).scopes⟩
  | place plain placed => exact h.place plain placed
  | openGroup kind => exact h.openGroup kind
  | openNamed name => exact h.openNamed name
  | close inside => exact h.pop inside
  | record => exact ⟨h.model, h.bottom, h.scopes⟩

theorem wellFormed_step (h : r.WellFormed) (line : Line) (number : UInt32) :
    (r.step line number).WellFormed :=
  (does_step r line number).wellFormed h

theorem wellFormed_steps (h : r.WellFormed) (lines : List (Line × UInt32)) :
    (r.steps lines).WellFormed := by
  induction lines generalizing r with
  | nil => exact h
  | cons l rest ih => exact ih (wellFormed_step h l.1 l.2)

theorem wellFormed_ofLines (lines : List Line) : (ofLines lines).model.WellFormed := by
  rw [ofLines, finish_model]
  exact (wellFormed_steps wellFormed_start _).model

theorem wellNested_ofLines (lines : List Line) : (ofLines lines).model.WellNested :=
  (wellFormed_ofLines lines).wellNested

end Reading
end HeaderSymbols
