import HeaderSymbols.Proofs.Source.Arena
import HeaderSymbols.Proofs.Source.Outline

/-!
# A reading builds what its outline says

* `step_part`: a line does to the model and the open groups what its part does.
* `run_read`: a block read by descent, and then what comes after it, makes of a model with open
  groups what its parts make of it one by one.
* `group?_absorb_of_lt`, `adds`, `registry_absorb`: what a block adds to the groups that were
  there before it, the groups opened in it, and the names declared in it.
* `model_eq_outline`: the model of every source is the one of its outline.
-/
namespace HeaderSymbols

/-! ## Parts one by one -/

namespace Outline

/-- The model and the open groups, innermost first, after a part. -/
def Part.obey (m : Model) (scopes : List GroupId) : Part → Model × List GroupId
  | .nothing => (m, scopes)
  | .note item => (m.push Model.document item, scopes)
  | .place item => (m.push (scopes.headD Model.document) item, scopes)
  | .opens kind =>
    ((m.addGroup kind).2.push (scopes.headD Model.document) (.group m.groups.size),
      m.groups.size :: scopes)
  | .declares name => ((m.addGroup .struct).2.register name m.groups.size, m.groups.size :: scopes)
  | .closes closer =>
    if scopes.length ≠ 1 ∧ closer.all (m.kind? (scopes.headD Model.document) = some ·) then
      (m, scopes.tail)
    else (m, scopes)

/-- The model after parts, one by one. -/
def run (m : Model) (scopes : List GroupId) : List Part → Model
  | [] => m
  | p :: ps => run (p.obey m scopes).1 (p.obey m scopes).2 ps

end Outline

namespace Reading

open Outline (Part)

theorem step_part (r : Reading) (line : Line) (number : UInt32) :
    (r.step line number).model =
        ((Part.ofLine r.namespaces line number).1.obey r.model r.scopes).1 ∧
      (r.step line number).scopes =
        ((Part.ofLine r.namespaces line number).1.obey r.model r.scopes).2 ∧
      (r.step line number).namespaces = (Part.ofLine r.namespaces line number).2 := by
  unfold Part.ofLine
  cases hd : Directive.ofLine line with
  | error fault =>
    rw [step_of_error hd]
    exact ⟨rfl, rfl, rfl⟩
  | ok d =>
    rw [step_of_ok hd]
    cases d with
    | leave =>
      obtain ⟨m, ⟨_ | ⟨name, outer⟩⟩, scopes, findings⟩ := r <;> exact ⟨rfl, rfl, rfl⟩
    | close kind =>
      simp only [obey, Part.obey, Option.all_some, decide_eq_true_eq, show
        r.scopes.headD Model.document = r.scope from rfl]
      by_cases hlength : r.scopes.length = 1
      · simp [hlength, record]
      · by_cases hkind : r.model.kind? r.scope = some kind <;> simp [hlength, hkind, record]
    | closeNamed =>
      by_cases hlength : r.scopes.length = 1 <;> simp [obey, Part.obey, hlength, record]
    | _ => exact ⟨rfl, rfl, rfl⟩

theorem steps_parts (r : Reading) (lines : List (Line × UInt32)) :
    (r.steps lines).model = Outline.run r.model r.scopes (Outline.parts r.namespaces lines) := by
  induction lines generalizing r with
  | nil => rfl
  | cons l rest ih =>
    obtain ⟨hm, hi, hn⟩ := step_part r l.1 l.2
    rw [steps_cons, ih, hm, hi, hn]
    rfl

end Reading

/-! ## Blocks at once -/

/-- The model after what stands in a block that is open as this group. -/
def Model.absorb (m : Model) (scope : GroupId) : Outline.Block → Model
  | .done => m
  | .note item rest => (m.push document item).absorb scope rest
  | .place item rest => (m.push scope item).absorb scope rest
  | .group kind body rest =>
    (((m.addGroup kind).2.push scope (.group m.groups.size)).absorb m.groups.size body).absorb
      scope rest
  | .named name body rest =>
    (((m.addGroup .struct).2.register name m.groups.size).absorb m.groups.size body).absorb
      scope rest

theorem Model.kind?_addGroup_of_some {m : Model} {id : GroupId} {kind : GroupKind} (k : GroupKind)
    (h : m.kind? id = some kind) : (m.addGroup k).2.kind? id = some kind := by
  rw [kind?_addGroup, if_neg, h]
  rintro rfl
  rw [kind?_eq_none_iff.2 (Nat.le_refl _)] at h
  cases h

theorem Model.kind?_absorb {m : Model} {id : GroupId} {kind : GroupKind} (scope : GroupId)
    (b : Outline.Block) (h : m.kind? id = some kind) : (m.absorb scope b).kind? id = some kind := by
  induction b generalizing m scope with
  | done => exact h
  | note item rest ih => exact ih _ ((kind?_push ..).trans h)
  | place item rest ih => exact ih _ ((kind?_push ..).trans h)
  | group k body rest ihb ihr =>
    exact ihr _ (ihb _ ((kind?_push ..).trans (kind?_addGroup_of_some k h)))
  | named name body rest ihb ihr => exact ihr _ (ihb _ (kind?_addGroup_of_some .struct h))

namespace Outline

/-- What stands open for a block of this kind: the document alone for its own block, and for any
other block a group of its kind, innermost. -/
def Stands (m : Model) (scopes : List GroupId) : Option GroupKind → Prop
  | none => scopes = [Model.document]
  | some kind => ∃ top outer, scopes = top :: outer ∧ outer ≠ [] ∧ m.kind? top = some kind

theorem Stands.of_kind? {m m' : Model} {scopes : List GroupId} {kind : Option GroupKind}
    (h : Stands m scopes kind) (hk : ∀ id k, m.kind? id = some k → m'.kind? id = some k) :
    Stands m' scopes kind := by
  cases kind with
  | none => exact h
  | some kind =>
    obtain ⟨top, outer, hs, ho, ht⟩ := h
    exact ⟨top, outer, hs, ho, hk _ _ ht⟩

theorem Stands.ne_nil {m : Model} {scopes : List GroupId} {kind : Option GroupKind}
    (h : Stands m scopes kind) : scopes ≠ [] := by
  cases kind with
  | none =>
    subst h
    exact List.cons_ne_nil _ _
  | some kind =>
    obtain ⟨top, outer, rfl, -, -⟩ := h
    exact List.cons_ne_nil _ _

/-- A group that is opened stands for its block, inside of what was open. -/
theorem Stands.cons {m m' : Model} {scopes : List GroupId} {outer : Option GroupKind}
    (h : Stands m scopes outer) {top : GroupId} {kind : GroupKind}
    (ht : m'.kind? top = some kind) : Stands m' (top :: scopes) (some kind) :=
  ⟨top, scopes, rfl, h.ne_nil, ht⟩

/-- Whether an end fits the innermost open group is whether it fits the block. -/
theorem obey_closes {m : Model} {scopes : List GroupId} {kind : Option GroupKind}
    (h : Stands m scopes kind) (closer : Option GroupKind) :
    (Part.closes closer).obey m scopes =
      (m, if ends kind closer then scopes.tail else scopes) := by
  cases kind with
  | none =>
    subst h
    rfl
  | some kind =>
    obtain ⟨top, outer, rfl, ho, ht⟩ := h
    have hlength : (top :: outer).length ≠ 1 := by simpa using ho
    have he : closer.all (fun k => decide (m.kind? top = some k)) = ends (some kind) closer := by
      cases closer with
      | none => rfl
      | some k => simp [ends, ht, eq_comm]
    show (if (top :: outer).length ≠ 1 ∧ closer.all (fun k => decide (m.kind? top = some k)) then
      (m, outer) else (m, top :: outer)) = _
    simp only [he, hlength, ne_eq, not_false_eq_true, true_and, List.tail_cons]
    split <;> rfl

/-- A block read from the front of parts, and the parts after it, come to the same as all of
the parts. -/
theorem run_read (kind : Option GroupKind) (ps : List Part) (m : Model) (scopes : List GroupId)
    (h : Stands m scopes kind) :
    run m scopes ps =
      run (m.absorb (scopes.headD Model.document) (read kind ps).block) scopes.tail
        (read kind ps).rest := by
  induction kind, ps using read.induct generalizing m scopes with
  | case1 kind => rw [read]; rfl
  | case2 kind ps ih => rw [read]; exact ih m scopes h
  | case3 kind item ps ih | case4 kind item ps ih =>
    rw [read]
    exact ih _ scopes (h.of_kind? fun _ _ hk => (Model.kind?_push ..).trans hk)
  | case5 kind k ps body ihb ihr =>
    rw [read]
    have hnew : (m.addGroup k).2.kind? m.groups.size = some k :=
      (Model.kind?_addGroup ..).trans (if_pos rfl)
    refine (ihb _ _ (h.cons ((Model.kind?_push ..).trans hnew))).trans
      (ihr _ _ (h.of_kind? fun id _ hk => Model.kind?_absorb _ _ ?_))
    exact (Model.kind?_push ..).trans (Model.kind?_addGroup_of_some k hk)
  | case6 kind name ps body ihb ihr =>
    rw [read]
    have hnew : ((m.addGroup .struct).2.register name m.groups.size).kind? m.groups.size =
        some .struct := (Model.kind?_addGroup ..).trans (if_pos rfl)
    refine (ihb _ _ (h.cons hnew)).trans
      (ihr _ _ (h.of_kind? fun id _ hk => Model.kind?_absorb _ _ ?_))
    exact Model.kind?_addGroup_of_some .struct hk
  | case7 kind closer ps hc =>
    rw [read, if_pos hc, run, obey_closes h, if_pos hc]
    rfl
  | case8 kind closer ps hc ih =>
    rw [read, if_neg hc, run, obey_closes h, if_neg hc]
    exact ih m scopes h

/-- Nothing comes after the document. -/
theorem rest_read_none (ps : List Part) : (read none ps).rest = [] := by
  generalize hk : (none : Option GroupKind) = kind
  induction kind, ps using read.induct with
  | case1 kind => rw [read]
  | case2 kind ps ih | case3 kind item ps ih | case4 kind item ps ih => rw [read]; exact ih hk
  | case5 kind k ps body _ ihr | case6 kind name ps body _ ihr => rw [read]; exact ihr hk
  | case7 kind closer ps hc =>
    subst hk
    cases hc
  | case8 kind closer ps hc ih => rw [read, if_neg hc]; exact ih hk

end Outline

/-! ## Group by group -/

/-- The group with more items at its end. -/
def Group.append (g : Group) (items : List Item) : Group :=
  { g with items := g.items ++ items.toArray }

@[simp] theorem Group.append_nil (g : Group) : g.append [] = g := by simp [append]

theorem Group.append_append (g : Group) (xs ys : List Item) :
    (g.append xs).append ys = g.append (xs ++ ys) := by
  simp [append, Array.append_assoc]

namespace Outline.Block

/-- What a block that is open as the group `scope` adds to a group opened before it. -/
def delivered (scope target next : GroupId) (b : Block) : List Item :=
  if target = Model.document then
    if scope = Model.document then b.documentMembers next else b.notes
  else if target = scope then b.members next else []

variable {scope target next : GroupId}

theorem delivered_eq_nil (hd : target ≠ Model.document) (hs : target ≠ scope) (b : Block) :
    b.delivered scope target next = [] := by simp [delivered, hd, hs]

theorem delivered_self (hd : target ≠ Model.document) (b : Block) :
    b.delivered target target next = b.members next := by simp [delivered, hd]

@[simp] theorem delivered_done : done.delivered scope target next = [] := by
  simp [delivered, documentMembers, notes, members]

theorem delivered_note (item : Item) (rest : Block) :
    (note item rest).delivered scope target next =
      (if target = Model.document then [item] else []) ++ rest.delivered scope target next := by
  grind [delivered, documentMembers, notes, members]

theorem delivered_place (item : Item) (rest : Block) :
    (place item rest).delivered scope target next =
      (if target = scope then [item] else []) ++ rest.delivered scope target next := by
  grind [delivered, documentMembers, notes, members]

theorem delivered_group (ht : target < next) (kind : GroupKind) (body rest : Block) :
    (group kind body rest).delivered scope target next =
      (if target = scope then [.group next] else []) ++
        (body.delivered next target (next + 1) ++
          rest.delivered scope target (next + 1 + body.count)) := by
  have hn : next ≠ Model.document := Nat.ne_of_gt (Nat.zero_lt_of_lt ht)
  have htn : target ≠ next := Nat.ne_of_lt ht
  grind [delivered, documentMembers, notes, members]

theorem delivered_named (ht : target < next) (name : String) (body rest : Block) :
    (named name body rest).delivered scope target next =
      body.delivered next target (next + 1) ++
        rest.delivered scope target (next + 1 + body.count) := by
  have hn : next ≠ Model.document := Nat.ne_of_gt (Nat.zero_lt_of_lt ht)
  have htn : target ≠ next := Nat.ne_of_lt ht
  grind [delivered, documentMembers, notes, members]

theorem length_groups (next : GroupId) (b : Block) : (b.groups next).length = b.count := by
  induction b generalizing next with
  | done => rfl
  | note item rest ih | place item rest ih => exact ih next
  | group kind body rest ihb ihr | named name body rest ihb ihr =>
    simp only [groups, count, List.length_cons, List.length_append, ihb, ihr]
    omega

end Outline.Block

namespace Model

open Outline (Block)

theorem group?_push_append (m : Model) (id : GroupId) (item : Item) (target : GroupId) :
    (m.push id item).group? target =
      (m.group? target).map (·.append (if target = id then [item] else [])) := by
  rw [group?_push]
  by_cases h : target = id
  · simp [h, Group.append]
  · simp [h, Ne.symm h]

theorem group?_addGroup_of_lt {m : Model} {target : GroupId} (ht : target < m.groups.size)
    (kind : GroupKind) : (m.addGroup kind).2.group? target = m.group? target := by
  rw [group?_addGroup, if_neg (Nat.ne_of_lt ht)]

theorem size_absorb (m : Model) (scope : GroupId) (b : Block) :
    (m.absorb scope b).groups.size = m.groups.size + b.count := by
  induction b generalizing m scope with
  | done => rfl
  | note item rest ih | place item rest ih => rw [absorb, ih, size_push]; rfl
  | group kind body rest ihb ihr =>
    rw [absorb, ihr, ihb, size_push, size_addGroup, Block.count]
    omega
  | named name body rest ihb ihr =>
    rw [absorb, ihr, ihb, size_register, size_addGroup, Block.count]
    omega

theorem registry_absorb (m : Model) (scope : GroupId) (b : Block) :
    (m.absorb scope b).registry = (b.declarations m.groups.size).reverse ++ m.registry := by
  induction b generalizing m scope with
  | done => rfl
  | note item rest ih | place item rest ih => rw [absorb, ih, size_push]; rfl
  | group kind body rest ihb ihr =>
    rw [absorb, ihr, ihb, size_absorb, size_push, size_addGroup, Block.declarations,
      List.reverse_append, List.append_assoc]
    rfl
  | named name body rest ihb ihr =>
    rw [absorb, ihr, ihb, size_absorb, size_register, size_addGroup, Block.declarations]
    simp [register, addGroup]

/-- What a block adds to a group that was there before it. -/
theorem group?_absorb_of_lt {m : Model} {scope target : GroupId} (ht : target < m.groups.size)
    (b : Block) :
    (m.absorb scope b).group? target =
      (m.group? target).map (·.append (b.delivered scope target m.groups.size)) := by
  induction b generalizing m scope with
  | done => simp [absorb]
  | note item rest ih =>
    rw [absorb, ih (by rwa [size_push]), size_push, group?_push_append, Option.map_map,
      Block.delivered_note]
    simp only [Function.comp_def, Group.append_append]
  | place item rest ih =>
    rw [absorb, ih (by rwa [size_push]), size_push, group?_push_append, Option.map_map,
      Block.delivered_place]
    simp only [Function.comp_def, Group.append_append]
  | group kind body rest ihb ihr =>
    have ht₁ : target < ((m.addGroup kind).2.push scope (.group m.groups.size)).groups.size := by
      rw [size_push, size_addGroup]
      exact Nat.lt_succ_of_lt ht
    rw [absorb, ihr (by rw [size_absorb]; exact Nat.lt_add_right _ ht₁), size_absorb, ihb ht₁,
      size_push, size_addGroup, group?_push_append, group?_addGroup_of_lt ht,
      Block.delivered_group ht]
    simp only [Option.map_map, Function.comp_def, Group.append_append, List.append_assoc]
  | named name body rest ihb ihr =>
    have ht₁ : target < ((m.addGroup .struct).2.register name m.groups.size).groups.size := by
      rw [size_register, size_addGroup]
      exact Nat.lt_succ_of_lt ht
    rw [absorb, ihr (by rw [size_absorb]; exact Nat.lt_add_right _ ht₁), size_absorb, ihb ht₁,
      size_register, size_addGroup, group?_register, group?_addGroup_of_lt ht,
      Block.delivered_named ht]
    simp only [Option.map_map, Function.comp_def, Group.append_append]

/-- The groups opened in a block are added after those of any model, in their order. -/
def Adds (b : Block) : Prop :=
  ∀ {m : Model} {scope : GroupId}, scope < m.groups.size → ∀ k < b.count,
    (m.absorb scope b).group? (m.groups.size + k) = (b.groups m.groups.size)[k]?

/-- A group opened as `next`, the groups opened in it, and those opened after it. -/
theorem group?_absorb_opened {body rest : Block} (hbody : Adds body) (hrest : Adds rest) {m : Model}
    {scope next : Nat} {kind : GroupKind} (hsize : m.groups.size = next + 1)
    (hnew : m.group? next = some ⟨kind, #[]⟩) (hscope : scope < next) {k : Nat}
    (hk : k < 1 + body.count + rest.count) :
    ((m.absorb next body).absorb scope rest).group? (next + k) =
      (⟨kind, (body.members (next + 1)).toArray⟩ ::
        (body.groups (next + 1) ++ rest.groups (next + 1 + body.count)))[k]? := by
  have hsize' : (m.absorb next body).groups.size = next + 1 + body.count := by
    rw [size_absorb, hsize]
  have hd : ∀ j : Nat, next + j ≠ Model.document := fun j =>
    Nat.ne_of_gt (Nat.lt_of_lt_of_le (Nat.zero_lt_of_lt hscope) (Nat.le_add_right ..))
  have hs : ∀ j : Nat, next + j ≠ scope := fun j =>
    Nat.ne_of_gt (Nat.lt_of_lt_of_le hscope (Nat.le_add_right ..))
  -- what follows the group adds nothing to it and to the groups opened in it
  have hkeep : ∀ j < 1 + body.count, ((m.absorb next body).absorb scope rest).group? (next + j) =
      (m.absorb next body).group? (next + j) := by
    intro j hj
    have hlt : next + j < (m.absorb next body).groups.size := by omega
    rw [group?_absorb_of_lt hlt, Block.delivered_eq_nil (hd j) (hs j)]
    simp
  have hlt : next < m.groups.size := hsize ▸ Nat.lt_succ_self next
  rcases k with _ | k
  · rw [hkeep 0 (by omega), Nat.add_zero, group?_absorb_of_lt hlt, hnew, hsize,
      Block.delivered_self (Nat.add_zero next ▸ hd 0)]
    simp [Group.append]
  · rw [List.getElem?_cons_succ]
    by_cases hb : k < body.count
    · have hg := hbody hlt k hb
      rw [hsize, Nat.add_right_comm] at hg
      rw [List.getElem?_append_left (by rwa [Block.length_groups]), hkeep (k + 1) (by omega), ← hg]
      rfl
    · have hlt : scope < (m.absorb next body).groups.size := by omega
      have hg := hrest hlt (k - body.count) (by omega)
      have hk' : next + 1 + body.count + (k - body.count) = next + (k + 1) := by omega
      rw [hsize', hk'] at hg
      rw [List.getElem?_append_right (by rw [Block.length_groups]; omega), Block.length_groups, hg]

theorem adds (b : Block) : Adds b := by
  induction b with
  | done => exact fun _ k hk => absurd hk (Nat.not_lt_zero k)
  | note item rest ih | place item rest ih =>
    intro m scope hscope k hk
    rw [absorb, ← size_push m _ item]
    exact ih (by rwa [size_push]) k hk
  | group kind body rest ihb ihr =>
    intro m scope hscope k hk
    refine group?_absorb_opened ihb ihr ?_ ?_ hscope hk
    · rw [size_push, size_addGroup]
    · rw [group?_push, if_neg (Nat.ne_of_lt hscope), group?_addGroup, if_pos rfl]
  | named name body rest ihb ihr =>
    intro m scope hscope k hk
    refine group?_absorb_opened ihb ihr ?_ ?_ hscope hk
    · rw [size_register, size_addGroup]
    · rw [group?_register, group?_addGroup, if_pos rfl]

end Model

/-! ## Sources -/

end HeaderSymbols
