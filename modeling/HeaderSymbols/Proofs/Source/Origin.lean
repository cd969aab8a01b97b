import HeaderSymbols.Proofs.Agreement
import HeaderSymbols.Proofs.Source.Blocks
import HeaderSymbols.Proofs.Source.Representation
import HeaderSymbols.Proofs.Source.Spelling

/-!
# Where the items of a model come from

What stands in a model, in whatever group, was given to it by a line of the source, groups apart;
skips and members carry the number of that line. And a name is registered where a line of the source
declares a structure under it.

* `exists_gives`: each item that is not a group is given by a line.
* `Gives.skip`, `Gives.member`, `Gives.assignment`: the lines that give skips, members and
  assignments.
* `forall_names_steps`: the names of the namespaces that are open are given by lines.
* `lookup_eq_some_iff`, `lookup_eq_none_iff`: what a name stands for in the end, if anything.
-/
namespace HeaderSymbols.Reading

open Outline (Part)

/-! ## Items -/

/-- The line gives this item to the document or to the group that is open. -/
def Gives (r : Reading) (line : Line) (number : UInt32) (item : Item) : Prop :=
  (Part.ofLine r.namespaces line number).1 = .note item ∨
    (Part.ofLine r.namespaces line number).1 = .place item

variable {r : Reading} {line : Line} {number : UInt32} {item : Item}

theorem obey_closes (m : Model) (scopes : List GroupId) (closer : Option GroupKind) :
    ((Part.closes closer).obey m scopes).1 = m := by
  simp only [Part.obey]
  split <;> rfl

theorem mem_members_step (h : r.WellFormed) {id : GroupId}
    (hi : item ∈ (r.step line number).model.members id) :
    item ∈ r.model.members id ∨ item.isGroup = true ∨ r.Gives line number item := by
  rw [(step_part r line number).1] at hi
  cases hp : (Part.ofLine r.namespaces line number).1 with
  | nothing =>
    rw [hp] at hi
    exact .inl hi
  | note given =>
    rw [hp] at hi
    rcases (Model.mem_members_push _ _ h.model.document_lt).1 hi with hi | ⟨-, rfl⟩
    · exact .inl hi
    · exact .inr (.inr (.inl hp))
  | place given =>
    rw [hp] at hi
    rcases (Model.mem_members_push _ _ h.scope_lt).1 hi with hi | ⟨-, rfl⟩
    · exact .inl hi
    · exact .inr (.inr (.inr hp))
  | opens kind =>
    have hs : r.scope < (r.model.addGroup kind).2.groups.size := by
      rw [Model.size_addGroup]
      exact Nat.lt_succ_of_lt h.scope_lt
    rw [hp] at hi
    rcases (Model.mem_members_push _ _ hs).1 hi with hi | ⟨-, rfl⟩
    · exact .inl (Model.members_addGroup r.model kind id ▸ hi)
    · exact .inr (.inl rfl)
  | declares name =>
    rw [hp] at hi
    exact .inl (Model.members_addGroup r.model .struct id ▸ hi)
  | closes closer =>
    rw [hp, obey_closes] at hi
    exact .inl hi

theorem mem_members_steps (h : r.WellFormed) (lines : List (Line × UInt32)) {id : GroupId}
    (hi : item ∈ (r.steps lines).model.members id) (hg : item.isGroup = false) :
    item ∈ r.model.members id ∨ ∃ before line number rest,
      lines = before ++ (line, number) :: rest ∧ (r.steps before).Gives line number item := by
  induction lines generalizing r with
  | nil => exact .inl hi
  | cons l rest ih =>
    rcases ih (wellFormed_step h l.1 l.2) hi with hi | ⟨before, line, number, rest, rfl, hgives⟩
    · rcases mem_members_step h hi with hi | hgroup | hgives
      · exact .inl hi
      · rw [hg] at hgroup
        cases hgroup
      · exact .inr ⟨[], l.1, l.2, rest, rfl, hgives⟩
    · exact .inr ⟨l :: before, line, number, rest, rfl, hgives⟩

/-- **Origin.** Whatever stands in the model of a source, groups apart, was given by a line. -/
theorem exists_gives {source : List (Line × UInt32)} {id : GroupId}
    (hi : item ∈ (start.steps source).model.members id) (hg : item.isGroup = false) :
    ∃ r line number, Before source r line number ∧ r.Gives line number item := by
  rcases mem_members_steps wellFormed_start source hi hg with
    hi | ⟨before, line, number, rest, rfl, hgives⟩
  · simp [start, Model.members_empty] at hi
  · exact ⟨_, line, number, ⟨before, rest, rfl, rfl⟩, hgives⟩

theorem Gives.skip {amount : UInt64} {n : UInt32} (h : r.Gives line number (.skip amount n)) :
    n = number ∧ Directive.ofLine line = .ok (.skip amount) := by
  unfold Gives Part.ofLine at h
  cases hd : Directive.ofLine line with
  | error fault => simp [hd] at h
  | ok d =>
    cases d with
    | leave => cases hr : r.namespaces.isRoot <;> simp [hd, hr] at h
    | _ => simp_all

/-- A member is a field with a size, or refers to a structure by a name that the namespaces make out
of a reference. -/
theorem Gives.member {mem : Member} (h : r.Gives line number (.member mem)) :
    mem.line = number ∧
      ((∃ size, Directive.ofLine line = .ok (.field mem.name size) ∧ mem.layout = none) ∨
        ∃ reference, Directive.ofLine line = .ok (.instantiate mem.name reference) ∧
          mem.layout = some (r.namespaces.structureName reference)) := by
  unfold Gives Part.ofLine at h
  cases hd : Directive.ofLine line with
  | error fault => simp [hd] at h
  | ok d =>
    cases d with
    | leave => cases hr : r.namespaces.isRoot <;> simp [hd, hr] at h
    | field | instantiate =>
      simp only [hd, reduceCtorEq, false_or, Part.place.injEq, Item.member.injEq] at h
      subst h
      simp
    | _ => simp [hd] at h

/-- An assignment gives its name what the namespaces make out of its operand. -/
theorem Gives.assignment {name : String} {value : Value} {comment : Option String}
    (h : r.Gives line number (.assignment name value comment)) :
    ∃ operand, Directive.ofLine line = .ok (.assign name operand) ∧
      value = r.namespaces.value operand := by
  unfold Gives Part.ofLine at h
  cases hd : Directive.ofLine line with
  | error fault => simp [hd] at h
  | ok d =>
    cases d with
    | leave => cases hr : r.namespaces.isRoot <;> simp [hd, hr] at h
    | assign given operand =>
      simp only [hd, reduceCtorEq, false_or, Part.place.injEq, Item.assignment.injEq] at h
      obtain ⟨rfl, rfl, -⟩ := h
      exact ⟨operand, rfl, rfl⟩
    | _ => simp [hd] at h

/-! ## Namespaces -/

/-- The namespaces after a line have the names of those before it, or one that the line gives. -/
theorem forall_names_step {P : String → Prop}
    (hline : ∀ name, Directive.ofLine line = .ok (.enter name) → P name)
    (hns : ∀ n ∈ r.namespaces.names, P n) :
    ∀ n ∈ (r.step line number).namespaces.names, P n := by
  rw [(step_part r line number).2.2]
  unfold Part.ofLine
  cases hd : Directive.ofLine line with
  | error fault => exact hns
  | ok d =>
    cases d with
    | enter name => exact List.forall_mem_cons.2 ⟨hline name hd, hns⟩
    | leave =>
      simp only
      split
      · exact hns
      · exact fun n hn => hns n (List.mem_of_mem_tail hn)
    | _ => exact hns

theorem forall_names_steps {P : String → Prop} {lines : List (Line × UInt32)}
    (hlines : ∀ l ∈ lines, ∀ name, Directive.ofLine l.1 = .ok (.enter name) → P name)
    (hns : ∀ n ∈ r.namespaces.names, P n) : ∀ n ∈ (r.steps lines).namespaces.names, P n := by
  induction lines generalizing r with
  | nil => exact hns
  | cons l rest ih =>
    exact ih (fun l' h => hlines l' (.tail _ h)) (forall_names_step (hlines l (.head _)) hns)

/-! ## Names -/

/-- The line declares a structure under this name. -/
def Introduces (r : Reading) (line : Line) (key : String) : Prop :=
  ∃ name, Directive.ofLine line = .ok (.openNamed name) ∧ r.namespaces.qualify name = key

/-- A line of the source declares a structure under this name. -/
def Registers (source : List (Line × UInt32)) (key : String) : Prop :=
  ∃ r line number, Before source r line number ∧ r.Introduces line key

theorem introduces_iff (number : UInt32) {key : String} :
    r.Introduces line key ↔ (Part.ofLine r.namespaces line number).1 = .declares key := by
  unfold Introduces Part.ofLine
  cases hd : Directive.ofLine line with
  | error fault => simp
  | ok d =>
    cases d with
    | leave => cases hr : r.namespaces.isRoot <;> simp
    | _ => simp

theorem lookup_step_of_introduces (number : UInt32) {key : String} (h : r.Introduces line key) :
    (r.step line number).model.lookup key = some r.model.groups.size := by
  rw [introduces_iff number] at h
  rw [(step_part r line number).1, h, Part.obey, Model.lookup_register, if_pos rfl]

theorem lookup_step_of_not_introduces (number : UInt32) {key : String}
    (h : ¬ r.Introduces line key) : (r.step line number).model.lookup key = r.model.lookup key := by
  rw [introduces_iff number] at h
  rw [(step_part r line number).1]
  cases hp : (Part.ofLine r.namespaces line number).1 with
  | declares name =>
    rw [Part.obey, Model.lookup_register, if_neg fun hkey => h (by rw [hp, hkey])]
    rfl
  | closes closer => rw [obey_closes]
  | _ => rfl

/-- No line of these declares a structure under this name. -/
def Spares (r : Reading) (lines : List (Line × UInt32)) (key : String) : Prop :=
  ∀ before line number rest, lines = before ++ (line, number) :: rest →
    ¬ (r.steps before).Introduces line key

theorem spares_cons {l : Line × UInt32} {rest : List (Line × UInt32)} {key : String} :
    r.Spares (l :: rest) key ↔ ¬ r.Introduces l.1 key ∧ (r.step l.1 l.2).Spares rest key := by
  constructor
  · intro h
    refine ⟨h [] l.1 l.2 rest rfl, ?_⟩
    rintro before line number after rfl
    exact h (l :: before) line number after rfl
  · rintro ⟨hl, hrest⟩ before line number after heq
    cases before with
    | nil =>
      cases heq
      exact hl
    | cons l' before =>
      cases heq
      exact hrest before line number after rfl

theorem lookup_steps_of_spares {lines : List (Line × UInt32)} {key : String}
    (h : r.Spares lines key) : (r.steps lines).model.lookup key = r.model.lookup key := by
  induction lines generalizing r with
  | nil => rfl
  | cons l rest ih =>
    obtain ⟨hl, hrest⟩ := spares_cons.1 h
    rw [steps_cons, ih hrest, lookup_step_of_not_introduces l.2 hl]

/-- The last of these lines that declares a structure under this name makes it the group `id`. -/
def LastIntroduces (r : Reading) (lines : List (Line × UInt32)) (key : String) (id : GroupId) :
    Prop :=
  ∃ before line number rest, lines = before ++ (line, number) :: rest ∧
    (r.steps before).Introduces line key ∧ id = (r.steps before).model.groups.size ∧
    ((r.steps before).step line number).Spares rest key

theorem LastIntroduces.cons {l : Line × UInt32} {rest : List (Line × UInt32)} {key : String}
    {id : GroupId} (h : (r.step l.1 l.2).LastIntroduces rest key id) :
    r.LastIntroduces (l :: rest) key id := by
  obtain ⟨before, line, number, after, rfl, h⟩ := h
  exact ⟨l :: before, line, number, after, rfl, h⟩

theorem LastIntroduces.lookup {lines : List (Line × UInt32)} {key : String} {id : GroupId}
    (h : r.LastIntroduces lines key id) : (r.steps lines).model.lookup key = some id := by
  obtain ⟨before, line, number, rest, rfl, hintroduces, rfl, hrest⟩ := h
  rw [steps_append, steps_cons, lookup_steps_of_spares hrest,
    lookup_step_of_introduces number hintroduces]

theorem lastIntroduces_or_spares (r : Reading) (lines : List (Line × UInt32)) (key : String) :
    (∃ id, r.LastIntroduces lines key id) ∨ r.Spares lines key := by
  induction lines generalizing r with
  | nil => exact .inr fun before line number rest h => by simp at h
  | cons l rest ih =>
    rcases ih (r.step l.1 l.2) with ⟨id, hid⟩ | hrest
    · exact .inl ⟨id, hid.cons⟩
    · by_cases hl : r.Introduces l.1 key
      · exact .inl ⟨_, [], l.1, l.2, rest, rfl, hl, rfl, hrest⟩
      · exact .inr (spares_cons.2 ⟨hl, hrest⟩)

/-- **Names.** What a name stands for in the end is what the last line made of it that declares a
structure under it. -/
theorem lookup_eq_some_iff {source : List (Line × UInt32)} {key : String} {id : GroupId} :
    (start.steps source).model.lookup key = some id ↔ start.LastIntroduces source key id := by
  refine ⟨fun h => ?_, LastIntroduces.lookup⟩
  rcases lastIntroduces_or_spares start source key with ⟨id', hid'⟩ | hspares
  · rw [hid'.lookup] at h
    cases h
    exact hid'
  · rw [lookup_steps_of_spares hspares] at h
    cases h

/-- A name is registered in the end if and only if a line declares a structure under it. -/
theorem lookup_eq_none_iff {source : List (Line × UInt32)} {key : String} :
    (start.steps source).model.lookup key = none ↔ ¬ Registers source key := by
  rcases lastIntroduces_or_spares start source key with ⟨id, hid⟩ | hspares
  · rw [hid.lookup]
    obtain ⟨before, line, number, rest, hsource, hintroduces, -⟩ := hid
    simpa using ⟨_, line, number, ⟨before, rest, hsource, rfl⟩, hintroduces⟩
  · rw [lookup_steps_of_spares hspares]
    refine iff_of_true rfl ?_
    rintro ⟨_, line, number, ⟨before, rest, hsource, rfl⟩, hintroduces⟩
    exact hspares before line number rest hsource hintroduces

end HeaderSymbols.Reading
