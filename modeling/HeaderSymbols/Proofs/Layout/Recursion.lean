import HeaderSymbols.Proofs.Layout.Effects
import Mathlib.Logic.Relation

/-!
# Recursion is found exactly

A layout has only the groups it is expanding to tell by whether a structure contains itself, and
a group that stands in another without a name is not among them. That is enough: what is on the
path leads to the group being laid out, so a target on the path closes a cycle; and where no
target is on its path the layout has been everywhere a group leads to and has come to an end, so
there is no cycle.

* `Uses`, `Cyclic`: which groups a group is made of, and when it leads to a cycle of them.
* `met_visit`: what is wrong with an item that ends at once, and where it ends.
* `cyclic_layout`: a structure that is found recursive is on a cycle.
* `acc_layout`: a layout that nothing impedes has gone down all that its group uses.
* `recursion_exact`: so recursion is reported if and only if there is a cycle.
-/
namespace HeaderSymbols

open Relation

/-! ## Groups made of groups -/

/-- The item stands for the group, without a name or by the name of a structure. -/
inductive Item.Refers (m : Model) : Item → GroupId → Prop where
  | group {id} : Refers m (.group id) id
  | member {mem name target} (refers : mem.layout = some name)
      (registered : m.lookup name = some target) : Refers m (.member mem) target

namespace Model

/-- One group is a part of another: it stands there without a name, or a member there refers to
the name that it is registered under. -/
def Uses (m : Model) (id other : GroupId) : Prop := ∃ i ∈ m.members id, i.Refers m other

/-- A group that a group leads to is a part of itself. -/
def Cyclic (m : Model) (id : GroupId) : Prop :=
  ∃ c, ReflTransGen m.Uses id c ∧ TransGen m.Uses c c

variable {m : Model} {id other : GroupId}

theorem Cyclic.of_uses (h : m.Uses id other) : m.Cyclic other → m.Cyclic id
  | ⟨c, hc, hcycle⟩ => ⟨c, .head h hc, hcycle⟩

/-- There is no cycle where going down comes to an end. -/
theorem not_cyclic_of_acc (h : Acc (Function.swap m.Uses) id) : ¬ m.Cyclic id := by
  rintro ⟨c, hreach, hcycle⟩
  have hc : Acc (TransGen (Function.swap m.Uses)) c := by
    refine Acc.transGen ?_
    clear hcycle
    induction hreach with
    | refl => exact h
    | tail _ huses ih => exact ih.inv huses
  have hself : TransGen (Function.swap m.Uses) c c := hcycle.swap
  clear hcycle hreach
  induction hc with
  | intro c _ ih => exact ih c hself hself

end Model

/-! ## Faults met -/

/-- The layout does not go on into a structure for this fault, or has no address to go on from. -/
def Fault.Impedes : Fault → Prop
  | addressOverflow | unknownStructure _ | recursiveStructure _ => True
  | _ => False

namespace Emitter

/-- The faults met from one emitter to another. -/
def met (e e' : Emitter) : List Fault :=
  (e'.findings.toList.drop e.findings.toList.length).map Finding.fault

variable {e e₁ e₂ e' : Emitter} {start c : Cursor}

theorem met_of_append {more : List Finding} (h : e'.findings.toList = e.findings.toList ++ more) :
    e.met e' = more.map Finding.fault := by
  rw [met, h, List.drop_left]

theorem met_trans (h : e.Extends e₁) (h' : e₁.Extends e₂) :
    e.met e₂ = e.met e₁ ++ e₁.met e₂ := by
  obtain ⟨xs, hx⟩ := h.findings
  obtain ⟨ys, hy⟩ := h'.findings
  rw [met_of_append hx.symm, met_of_append hy.symm, ← List.map_append]
  exact met_of_append (by rw [← hy, ← hx, List.append_assoc])

theorem met_of_findings_eq (h : e'.findings = e.findings) : e.met e' = [] := by
  simp [met, h]

theorem met_report (e : Emitter) (line : Option UInt32) (fault : Fault) :
    e.met (e.report line fault) = [fault] := by
  simp [met, report]

/-- A symbol is no fault. -/
theorem met_define (e : Emitter) (name : String) (value : Value) (comment : Option String)
    (e' : Emitter) : e.met e' = (e.define name value comment).met e' := rfl

/-- What an item that refers to no structure meets, from a cursor on, and where it ends. -/
structure Plain (e : Emitter) (start : Cursor) (r : Emitter × Cursor) : Prop where
  category : ∀ f ∈ e.met r.1, f.category = .layout
  address : start.isSome = true → .addressOverflow ∉ e.met r.1 → r.2.isSome = true

theorem plain_advance (e : Emitter) (start : Cursor) (address amount : UInt64) (line : UInt32) :
    Plain e start (e.advance address amount line) := by
  unfold advance
  split
  · exact ⟨by simp [met_of_findings_eq], fun _ _ => rfl⟩
  · exact ⟨by simp [met_report, Fault.category], by simp [met_report]⟩

theorem plain_skip (e : Emitter) (start : Cursor) (amount : UInt64) (line : UInt32) :
    Plain e start (e.skip start amount line) := by
  unfold skip
  split
  · exact plain_advance ..
  · exact ⟨by simp [met_report, Fault.category], fun h => by cases h⟩

theorem plain_field (e : Emitter) (mem : Member) (start : Cursor) :
    Plain e start (e.field mem start) := by
  unfold field
  split
  · exact ⟨by simp [met_report, Fault.category], fun h => by cases h⟩
  · rename_i address
    split
    · have h := plain_advance (e.define mem.name (.number address) mem.comment) (some address)
      exact ⟨(h ..).category, (h ..).address⟩
    · refine ⟨?_, fun _ _ => rfl⟩
      simp [met_define e mem.name (.number address) mem.comment, met_report, Fault.category]

theorem resolve_eq_error {m : Model} {path : List GroupId} {name : String} {fault : Fault}
    (h : resolve m path start name = .error fault) :
    (start = none ∧ fault = .memberOutsideRegion) ∨
      (m.lookup name = none ∧ fault = .unknownStructure name) ∨
      ∃ id ∈ path, m.lookup name = some id ∧ fault = .recursiveStructure name := by
  unfold resolve at h
  split at h
  · rename_i hs
    cases h
    exact .inl ⟨Option.isNone_iff_eq_none.1 hs, rfl⟩
  · split at h
    · rename_i hl
      cases h
      exact .inr (.inl ⟨hl, rfl⟩)
    · rename_i id hl
      split at h
      · rename_i hp
        cases h
        exact .inr (.inr ⟨id, hp, hl, rfl⟩)
      · cases h

/-- An item that ends at once refers to no structure, or to one that it cannot be expanded to. -/
theorem met_visit {m : Model} {path : List GroupId} {i : Item}
    (h : e.visit m path start i = (e', .finish c)) :
    (∃ mem name fault, i = .member mem ∧ mem.layout = some name ∧
      resolve m path start name = .error fault ∧ e.met e' = [fault] ∧ c = start) ∨
    ((∀ mem, i = .member mem → mem.layout = none) ∧ (∀ f ∈ e.met e', f.category = .layout) ∧
      (i.isPlaced = true → start.isSome = true → .addressOverflow ∉ e.met e' →
        c.isSome = true)) := by
  cases i with
  | text | enter | leave | region =>
    have hmet : e.met e' = [] := met_of_findings_eq (by cases h; rfl)
    refine .inr ⟨fun _ hm => ?_, ?_, fun hp => ?_⟩
    · cases hm
    · rw [hmet]
      exact List.forall_mem_nil _
    · cases hp
  | assignment name value comment =>
    have hmet : e.met e' = [] := met_of_findings_eq (by cases h; rfl)
    cases h
    refine .inr ⟨fun _ hm => ?_, ?_, fun _ h _ => h⟩
    · cases hm
    · rw [hmet]
      exact List.forall_mem_nil _
  | group => simp [visit] at h
  | skip amount line =>
    have hp := plain_skip e start amount line
    cases h
    refine .inr ⟨fun _ hm => ?_, hp.category, fun hp => ?_⟩
    · cases hm
    · cases hp
  | member mem =>
    simp only [visit, member] at h
    split at h
    · rename_i hl
      have hp := plain_field e mem start
      cases h
      exact .inr ⟨fun _ hm => by cases hm; exact hl, hp.category, fun _ => hp.address⟩
    · rename_i name hl
      split at h
      · cases h
      · rename_i fault hr
        cases h
        exact .inl ⟨mem, name, fault, rfl, hl, hr, met_report .., rfl⟩

end Emitter

/-! ## Layouts -/

namespace Descent

open Emitter (met_trans)

variable {m : Model}

/-- A structure is found recursive only at the end of a cycle, when all groups on the path lead to
the one being laid out. -/
theorem cyclic_layout (hm : m.WellNested) (path : List GroupId) (id : GroupId) :
    Yields hm
      (fun path _ e i _ e' => ∀ id, i ∈ m.members id → (∀ t ∈ path, ReflTransGen m.Uses t id) →
        (∃ name, .recursiveStructure name ∈ e.met e') → m.Cyclic id)
      (fun path id _ items _ e _ e' => (∀ i ∈ items, i ∈ m.members id) →
        (∀ t ∈ path, ReflTransGen m.Uses t id) →
        (∃ name, .recursiveStructure name ∈ e.met e') → m.Cyclic id)
      (fun path id _ e _ e' => (∀ t ∈ path, ReflTransGen m.Uses t id) →
        (∃ name, .recursiveStructure name ∈ e.met e') → m.Cyclic id) path id := by
  refine induct hm ?finish ?nest ?expand ?nil ?cons (fun h => h fun _ hi => hi) path id
  case finish =>
    rintro path _ start e i c e' - hv id hi hpath ⟨found, hf⟩
    rcases Emitter.met_visit hv with ⟨mem, name, fault, rfl, hl, hr, hmet, -⟩ | ⟨-, hcategory, -⟩
    · rw [hmet, List.mem_singleton] at hf
      subst hf
      rcases Emitter.resolve_eq_error hr with ⟨-, hf⟩ | ⟨-, hf⟩ | ⟨target, ht, hlookup, -⟩
      · cases hf
      · cases hf
      · have huses : m.Uses id target := ⟨_, hi, .member hl hlookup⟩
        exact ⟨target, .single huses, .tail' (hpath target ht) huses⟩
    · cases hcategory _ hf
  case nest =>
    intro path _ start e child c e' _ _ hg id hi hpath hf
    have huses : m.Uses id child := ⟨_, hi, .group⟩
    exact (hg (fun t ht => (hpath t ht).tail huses) hf).of_uses huses
  case expand =>
    intro path start e mem name target c e' hl hr hgroup hg id hi hpath hf
    have huses : m.Uses id target := ⟨_, hi, .member hl (Emitter.resolve_eq_ok hr).2.1⟩
    have hpath : ∀ t ∈ target :: path, ReflTransGen m.Uses t target :=
      List.forall_mem_cons.2 ⟨.refl, fun t ht => (hpath t ht).tail huses⟩
    exact (hg hpath hf).of_uses huses
  case nil =>
    rintro path id entry cursor e - - ⟨found, hf⟩
    rw [Emitter.met_of_findings_eq rfl] at hf
    cases hf
  case cons =>
    rintro path id entry i rest cursor e c₁ e₁ c e' hsub hitem hfirst hmembers hrest - hpath
      ⟨found, hf⟩
    have h₁ := (extends_layout hm path id).item _ hitem
    have h₂ := (extends_layout hm path id).members _ hmembers
    rw [met_trans h₁ h₂, List.mem_append] at hf
    rcases hf with hf | hf
    · exact hfirst id (hsub i (.head _)) hpath ⟨found, hf⟩
    · exact hrest (fun j hj => hsub j (.tail _ hj)) hpath ⟨found, hf⟩

/-- A layout from an address that meets no overflow, misses no structure and finds none recursive
goes down all that its group uses, and ends at an address. -/
theorem acc_layout (hm : m.WellFormed) (path : List GroupId) (id : GroupId) :
    Yields hm.wellNested
      (fun _ start e i c e' => i.isPlaced = true → start.isSome = true →
        (∀ f ∈ e.met e', ¬ f.Impedes) →
        c.isSome = true ∧ ∀ t, i.Refers m t → Acc (Function.swap m.Uses) t)
      (fun _ _ entry items cursor e c e' => (∀ i ∈ items, i.isPlaced = true) →
        entry.isSome = true → cursor.isSome = true → (∀ f ∈ e.met e', ¬ f.Impedes) →
        c.isSome = true ∧ ∀ i ∈ items, ∀ t, i.Refers m t → Acc (Function.swap m.Uses) t)
      (fun _ id start e c e' => id ≠ Model.document → start.isSome = true →
        (∀ f ∈ e.met e', ¬ f.Impedes) →
          c.isSome = true ∧ Acc (Function.swap m.Uses) id) path id := by
  refine induct hm.wellNested ?finish ?nest ?expand ?nil ?cons ?opened path id
  case finish =>
    intro path id start e i c e' _ hv hplaced hstart hfree
    rcases Emitter.met_visit hv with
      ⟨mem, name, fault, rfl, hl, hr, hmet, -⟩ | ⟨hplain, hcategory, haddress⟩
    · have hfault : ¬ fault.Impedes := hfree fault (hmet ▸ .head _)
      rcases Emitter.resolve_eq_error hr with ⟨rfl, -⟩ | ⟨-, rfl⟩ | ⟨target, -, -, rfl⟩
      · cases hstart
      · exact absurd trivial hfault
      · exact absurd trivial hfault
    · refine ⟨haddress hplaced hstart fun hf => hfree _ hf trivial, fun t ht => ?_⟩
      cases ht with
      | group => cases hv
      | member hl _ => rw [hplain _ rfl] at hl; cases hl
  case nest =>
    intro path id start e child c e' hnests _ hg _ hstart hfree
    have hchild : child ≠ Model.document := Nat.ne_of_gt (Nat.zero_lt_of_lt (hm.nests _ _ hnests).1)
    obtain ⟨hc, hacc⟩ := hg hchild hstart hfree
    exact ⟨hc, fun t ht => by cases ht; exact hacc⟩
  case expand =>
    intro path start e mem name target c e' hl hr _ hg _ hstart hfree
    have hlookup := (Emitter.resolve_eq_ok hr).2.1
    obtain ⟨hc, hacc⟩ := hg (Nat.ne_of_gt (hm.registered _ _ hlookup).1) hstart hfree
    refine ⟨hc, fun t ht => ?_⟩
    cases ht with
    | member hl' hlookup' =>
      cases hl.symm.trans hl'
      cases hlookup.symm.trans hlookup'
      exact hacc
  case nil => exact fun _ _ hcursor _ => ⟨hcursor, nofun⟩
  case cons =>
    intro path id entry i rest cursor e c₁ e₁ c e' hsub hitem hfirst hmembers hrest hplaced hentry
      hcursor hfree
    have h₁ := (extends_layout hm.wellNested path id).item _ hitem
    have h₂ := (extends_layout hm.wellNested path id).members _ hmembers
    rw [met_trans h₁ h₂, List.forall_mem_append] at hfree
    have hstart : ((m.kind id).start entry cursor).isSome = true := by
      cases m.kind id
      · exact hcursor
      · exact hentry
    obtain ⟨hc₁, hacc₁⟩ := hfirst (hplaced i (.head _)) hstart hfree.1
    have hnext : ((m.kind id).next cursor c₁).isSome = true := by
      obtain ⟨a, rfl⟩ := Option.isSome_iff_exists.1 hcursor
      obtain ⟨b, rfl⟩ := Option.isSome_iff_exists.1 hc₁
      cases m.kind id <;> rfl
    obtain ⟨hc, hacc⟩ := hrest (fun j hj => hplaced j (.tail _ hj)) hentry hnext hfree.2
    exact ⟨hc, List.forall_mem_cons.2 ⟨hacc₁, hacc⟩⟩
  case opened =>
    intro path id start e c e' h hid hstart hfree
    obtain ⟨hc, hacc⟩ := h (hm.placed id hid) hstart hstart hfree
    exact ⟨hc, .intro _ fun other ⟨i, hi, hr⟩ => hacc i hi other hr⟩

end Descent

/-- **Recursion.** Whatever lines were read, a layout of a group that is not the document, from an
address on, finds a structure recursive only if the group leads to a cycle; and if it meets no
overflow of addresses and no unknown structure, it does so exactly then. -/
theorem recursion_exact (lines : List Line) {id : GroupId} (hid : id ≠ Model.document)
    (start : UInt64) (e : Emitter) :
    let m := (Reading.ofLines lines).model
    let met := e.met (e.group m id (some start)).2
    ((∃ name, .recursiveStructure name ∈ met) → m.Cyclic id) ∧
      (.addressOverflow ∉ met → (∀ name, .unknownStructure name ∉ met) →
        ((∃ name, .recursiveStructure name ∈ met) ↔ m.Cyclic id)) := by
  intro m met
  have hm : m.WellFormed := Reading.wellFormed_ofLines lines
  have hmet : met = e.met (Descent.group hm.wellNested [id] id (some start) e).2 := by
    rw [← Descent.group_eq hm.wellNested]
  have hcyclic : (∃ name, .recursiveStructure name ∈ met) → m.Cyclic id := by
    rw [hmet]
    exact (Descent.cyclic_layout hm.wellNested [id] id).group rfl (by simp [ReflTransGen.refl])
  refine ⟨hcyclic, fun hoverflow hunknown => ⟨hcyclic, fun hc => ?_⟩⟩
  refine Classical.byContradiction fun hnone => ?_
  have hfree : ∀ f ∈ met, ¬ f.Impedes := by
    intro f hf himpedes
    cases f with
    | addressOverflow => exact hoverflow hf
    | unknownStructure name => exact hunknown name hf
    | recursiveStructure name => exact hnone ⟨name, hf⟩
    | _ => exact himpedes
  rw [hmet] at hfree
  have hacc := ((Descent.acc_layout hm [id] id).group rfl hid rfl hfree).2
  exact Model.not_cyclic_of_acc hacc hc

/-- A structure in which a union without a name refers to it once more, and nothing else is met. -/
theorem recursion_exact_specimen :
    let m := (Reading.ofLines (Line.ofSource
      "t .struct\na .byte ?\n.union\nx .dstruct t\ny .word ?\n.endu\n.ends\n")).model
    let met := Emitter.new.met (Emitter.new.group m 1 (some 0)).2
    (1 : GroupId) ≠ Model.document ∧ met = [.recursiveStructure "t"] ∧
      .addressOverflow ∉ met ∧ (∀ name, .unknownStructure name ∉ met) ∧
      (∃ name, .recursiveStructure name ∈ met) ∧ m.Cyclic 1 := by
  intro m met
  have hid : (1 : GroupId) ≠ Model.document := by decide
  have hgroup : Emitter.new.group m 1 (some 0) = (some 3, ⟨.root,
      #[.symbol "a" (.number 0) none, .symbol "y" (.number 1) none],
      #[⟨some 4, .recursiveStructure "t"⟩], 2⟩) := by
    refine Walk.run_eq_of_reaches ?_
    iterate 6 apply Walk.Reaches.step
    exact .refl _
  have hmet : met = [.recursiveStructure "t"] := by
    show Emitter.new.met (Emitter.new.group m 1 (some 0)).2 = _
    rw [hgroup]
    rfl
  have hoverflow : .addressOverflow ∉ met := by simp [hmet]
  have hunknown : ∀ name, .unknownStructure name ∉ met := by simp [hmet]
  have hfound : ∃ name, .recursiveStructure name ∈ met := ⟨"t", hmet ▸ .head _⟩
  have hexact := (recursion_exact _ hid 0 .new).2 hoverflow hunknown
  exact ⟨hid, hmet, hoverflow, hunknown, hfound, hexact.1 hfound⟩

end HeaderSymbols
