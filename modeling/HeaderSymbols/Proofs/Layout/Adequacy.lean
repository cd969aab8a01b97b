import HeaderSymbols.Proofs.Layout.Effects
import HeaderSymbols.Proofs.Layout.Intended

/-!
# A layout without findings is the one intended

* `sound`: what is laid out without a finding satisfies the judgements for it, with the lines
  it adds, the namespaces it leaves open and the place where it ends.
* `results_item`, `results_group`: what the judgements lay out is laid out so, and nothing is
  found.
* `laid_iff`: the emitter for a whole model has met no fault if and only if the model is laid
  out, and has the lines of that.
-/
namespace HeaderSymbols

/-! ## From lines to entries -/

/-- The same address as a natural number. -/
def Cursor.place (c : Cursor) : Intended.Place := c.map UInt64.toNat

/-- The same line, with its value as text. -/
def OutputLine.entry : OutputLine → Intended.Entry
  | text comment => .text comment
  | symbol name value comment => .symbol name (Intended.valueText value) comment

theorem Cursor.place_furthest (a b : Cursor) :
    (Cursor.furthest a b).place = max a.place b.place := by
  cases a <;> cases b <;> simp [Cursor.furthest, Cursor.place, Cursor.toNat_max]

theorem OutputLine.render_entry (l : OutputLine) : l.entry.render = l.render := by
  cases l with
  | text comment => cases comment <;> rfl
  | symbol name value comment =>
    have hv : Intended.valueText value = value.text := by cases value <;> rfl
    cases comment with
    | none => simp [entry, Intended.Entry.render, render, hv]
    | some c => simp [entry, Intended.Entry.render, render, hv, String.append_assoc]

theorem OutputLine.isSymbol_entry (l : OutputLine) : l.entry.isSymbol = l.isSymbol := by
  cases l <;> rfl

theorem Namespaces.qualified_eq (ns : Namespaces) (name : String) :
    Intended.qualified ns.names name = ns.qualify name := by
  have hq : ∀ names : List String,
      (Namespaces.mk names).qualifier = String.join (names.reverse.map (· ++ "_")) := by
    intro names
    induction names with
    | nil => rfl
    | cons inner outer ih =>
      have he := Namespaces.qualifier_enter ⟨outer⟩ inner
      simp only [Namespaces.enter] at he
      rw [he, ih]
      simp [String.append_assoc]
  rw [Intended.qualified, Namespaces.qualify, hq]

/-! ## Growth -/

namespace Emitter

/-- What has been emitted, line by line. -/
def entries (e : Emitter) : List Intended.Entry := e.lines.toList.map OutputLine.entry

/-- One emitter has these entries more than the other, and no findings more. -/
structure Grows (e : Emitter) (more : List Intended.Entry) (e' : Emitter) : Prop where
  entries : e'.entries = e.entries ++ more
  findings : e'.findings = e.findings

variable {e e₁ e₂ : Emitter}

theorem Grows.refl (e : Emitter) : e.Grows [] e := ⟨(List.append_nil _).symm, rfl⟩

theorem Grows.trans {first others : List Intended.Entry} (h : e.Grows first e₁)
    (h' : e₁.Grows others e₂) : e.Grows (first ++ others) e₂ :=
  ⟨by rw [h'.entries, h.entries, List.append_assoc], h'.findings.trans h.findings⟩

theorem grows_emit (e : Emitter) (line : OutputLine) : e.Grows [line.entry] (e.emit line) :=
  ⟨by simp [Emitter.entries, emit], rfl⟩

theorem grows_define (e : Emitter) (name : String) (value : Value) (comment : Option String) :
    e.Grows [.symbol (Intended.qualified e.namespaces.names name) (Intended.valueText value) comment]
      (e.define name value comment) := by
  rw [Namespaces.qualified_eq]
  have h := grows_emit e (.symbol (e.namespaces.qualify name) value comment)
  exact ⟨h.entries, h.findings⟩

theorem grows_enter (e : Emitter) (name : String) : e.Grows [] (e.enter name) :=
  ⟨(List.append_nil _).symm, rfl⟩

theorem grows_leave (e : Emitter) : e.Grows [] e.leave := ⟨(List.append_nil _).symm, rfl⟩

theorem findings_report_ne (e : Emitter) (line : Option UInt32) (fault : Fault) :
    (e.report line fault).findings ≠ e.findings := by
  intro h
  have := congrArg Array.size h
  simp [report] at this

theorem advance_of_lt {address amount : UInt64} (h : address.toNat + amount.toNat < UInt64.size) :
    ∃ c : Cursor, c.place = some (address.toNat + amount.toNat) ∧
      ∀ (e : Emitter) (line : UInt32), e.advance address amount line = (e, c) := by
  let next := UInt64.ofNatLT (address.toNat + amount.toNat) h
  have hn : next.toNat = address.toNat + amount.toNat := UInt64.toNat_ofNatLT
  refine ⟨some next, congrArg some hn, fun e line => ?_⟩
  rw [advance, Cursor.advance?_eq_some_iff.2 hn]

theorem lt_of_advance {address amount : UInt64} {line : UInt32} {e' : Emitter} {c : Cursor}
    (h : e.advance address amount line = (e', c)) (hf : e'.findings = e.findings) :
    e' = e ∧ address.toNat + amount.toNat < UInt64.size ∧
      c.place = some (address.toNat + amount.toNat) := by
  unfold advance at h
  split at h
  · rename_i next hn
    cases h
    have hn := Cursor.advance?_eq_some_iff.1 hn
    exact ⟨rfl, hn ▸ next.toNat_lt_size, congrArg some hn⟩
  · cases h
    exact absurd hf (findings_report_ne _ _ _)

end Emitter

/-! ## Soundness -/

namespace Intended

open Emitter (Grows)

variable {m : Model} {path : List GroupId} {e e' : Emitter} {start c : Cursor}

/-- What a visit finishes without a finding is laid out. -/
theorem lays_of_visit {i : Item} (h : e.visit m path start i = (e', .finish c))
    (hf : e'.findings = e.findings) :
    ∃ es, e.Grows es e' ∧
      Lays m path e.namespaces.names start.place i es e'.namespaces.names c.place := by
  cases i with
  | text comment => cases h; exact ⟨_, Emitter.grows_emit _ _, .text⟩
  | enter name => cases h; exact ⟨_, Emitter.grows_enter _ _, .enter⟩
  | leave => cases h; exact ⟨_, Emitter.grows_leave _, .leave⟩
  | region address => cases h; exact ⟨_, .refl _, .region⟩
  | assignment name value comment => cases h; exact ⟨_, Emitter.grows_define .., .assignment⟩
  | group id => simp [Emitter.visit] at h
  | skip amount line =>
    simp only [Emitter.visit, Emitter.skip, Prod.map, id] at h
    cases start with
    | none => cases h; exact absurd hf (Emitter.findings_report_ne _ _ _)
    | some address =>
      simp only [Prod.mk.injEq, Move.finish.injEq] at h
      obtain ⟨rfl, hlt, hc⟩ := Emitter.lt_of_advance (Prod.ext h.1 h.2) hf
      exact ⟨_, .refl _, hc ▸ .skip hlt⟩
  | member mem =>
    simp only [Emitter.visit, Emitter.member] at h
    split at h
    · rename_i hl
      simp only [Emitter.field, Prod.map, id] at h
      cases start with
      | none => cases h; exact absurd hf (Emitter.findings_report_ne _ _ _)
      | some address =>
        cases hs : mem.size with
        | none =>
          simp only [hs] at h
          cases h
          exact absurd hf (Emitter.findings_report_ne _ _ _)
        | some size =>
          simp only [hs, Prod.mk.injEq, Move.finish.injEq] at h
          obtain ⟨rfl, hlt, hc⟩ := Emitter.lt_of_advance (Prod.ext h.1 h.2) hf
          exact ⟨_, Emitter.grows_define .., hc ▸ .field mem hl hs hlt⟩
    · split at h
      · simp at h
      · cases h; exact absurd hf (Emitter.findings_report_ne _ _ _)

/-- The members of a group of this kind that are still to come are laid out. -/
def LaysRest (m : Model) (path : List GroupId) (kind : GroupKind) (ns : List String)
    (entry place : Place) (items : List Item) (es : List Entry) (ns' : List String)
    (finish : Place) : Prop :=
  match kind with
  | .struct => InOrder m path ns place items es ns' finish
  | .union => ∃ ends, Together m path ns entry items es ns' ends ∧ finish = ends.foldl max place

theorem laysGroup_iff {ns ns' : List String} {start finish : Place} {id : GroupId}
    {es : List Entry} :
    LaysGroup m path ns start id es ns' finish ↔
      LaysRest m path (m.kind id) ns start start (m.members id) es ns' finish := by
  constructor
  · intro h
    cases h with
    | struct hk hm => rw [hk]; exact hm
    | union hk hm => rw [hk]; exact ⟨_, hm, rfl⟩
  · intro h
    cases hk : m.kind id with
    | struct => rw [hk] at h; exact .struct hk h
    | union =>
      rw [hk] at h
      obtain ⟨ends, hm, rfl⟩ := h
      exact .union hk hm

theorem LaysRest.nil (kind : GroupKind) (ns : List String) (entry place : Place) :
    LaysRest m path kind ns entry place [] [] ns place := by
  cases kind with
  | struct => exact InOrder.nil
  | union => exact ⟨[], Together.nil, rfl⟩

theorem LaysRest.cons {kind : GroupKind} {ns ns₁ ns₂ : List String} {entry cursor c₁ : Cursor}
    {i : Item} {rest : List Item} {first others : List Entry} {finish : Place}
    (head : Lays m path ns (kind.start entry cursor).place i first ns₁ c₁.place)
    (tail : LaysRest m path kind ns₁ entry.place (kind.next cursor c₁).place rest others ns₂
      finish) :
    LaysRest m path kind ns entry.place cursor.place (i :: rest) (first ++ others) ns₂ finish := by
  cases kind with
  | struct => exact InOrder.cons head tail
  | union =>
    obtain ⟨ends, ht, rfl⟩ := tail
    refine ⟨_, Together.cons head ht, ?_⟩
    rw [GroupKind.next, Cursor.place_furthest, List.foldl_cons]

/-- **Soundness.** What is laid out without a finding is laid out as meant: every item, the
members of a group from one of them on, and every group. -/
theorem sound (hm : m.WellFormed) (path : List GroupId) (id : GroupId) :
    Descent.Yields hm.wellNested
      (fun path start e i c e' => e'.findings = e.findings → ∃ es, e.Grows es e' ∧
        Lays m path e.namespaces.names start.place i es e'.namespaces.names c.place)
      (fun path id entry items cursor e c e' => e'.findings = e.findings → ∃ es, e.Grows es e' ∧
        LaysRest m path (m.kind id) e.namespaces.names entry.place cursor.place items es
          e'.namespaces.names c.place)
      (fun path id start e c e' => e'.findings = e.findings → ∃ es, e.Grows es e' ∧
        LaysGroup m path e.namespaces.names start.place id es e'.namespaces.names c.place)
      path id := by
  refine Descent.induct hm.wellNested (fun _ hv hf => lays_of_visit hv hf) (fun _ _ hg hf => ?nest)
    (fun {path start e mem name id c e'} hl hr hgo hg hf => ?expand)
    (fun _ => ⟨[], .refl _, .nil ..⟩)
    (fun {path id entry i rest cursor e c₁ e₁ c e'} hsub hgo hfirst hgo' hrest hf => ?cons)
    (fun h hf => ?opened) path id
  case nest =>
    obtain ⟨es, hw, hb⟩ := hg hf
    exact ⟨es, hw, .group hb⟩
  case opened =>
    obtain ⟨es, hw, hb⟩ := h hf
    exact ⟨es, hw, laysGroup_iff.2 hb⟩
  case expand =>
    obtain ⟨hs, hlookup, hp⟩ := Emitter.resolve_eq_ok hr
    obtain ⟨address, rfl⟩ := Option.isSome_iff_exists.1 hs
    obtain ⟨es, hw, hb⟩ := hg hf
    have hw : (e.enter mem.name).Grows es e' := hw
    have hid := Nat.ne_of_gt (hm.registered _ _ hlookup).1
    have hns : e'.leave.namespaces = e.namespaces := by
      have hi := Descent.namespaces_group hm hid (id :: path) (some address) (e.enter mem.name)
      rw [hgo] at hi
      rw [Emitter.leave, hi]
      rfl
    rw [hns]
    exact ⟨es, ⟨hw.entries, hw.findings⟩, .expansion mem hl hlookup hp hb⟩
  case cons =>
    have hx := (Descent.extends_layout hm.wellNested path id).item (hsub _ List.mem_cons_self) hgo
    have hx' := (Descent.extends_layout hm.wellNested path id).members
      (fun _ hj => hsub _ (List.mem_cons_of_mem _ hj)) hgo'
    obtain ⟨es, hw, hb⟩ := hfirst (hx.findings_eq hx' hf)
    obtain ⟨es', hw', hb'⟩ := hrest (hf.trans hw.findings.symm)
    exact ⟨es ++ es', hw.trans hw', .cons hb hb'⟩

/-! ## Completeness -/

/-- The result of a layout that begins with `e`: these entries more and no findings, with these
namespaces open at the end, which is this place. -/
structure Results (r : Cursor × Emitter) (e : Emitter) (es : List Entry) (ns' : List String)
    (finish : Place) : Prop where
  grows : e.Grows es r.2
  namespaces : r.2.namespaces.names = ns'
  place : r.1.place = finish

theorem Results.trans {r r' : Cursor × Emitter} {first others : List Entry} {ns₁ ns₂ : List String}
    {p₁ p₂ : Place} (h : Results r e first ns₁ p₁) (h' : Results r' r.2 others ns₂ p₂) :
    Results r' e (first ++ others) ns₂ p₂ :=
  ⟨h.grows.trans h'.grows, h'.namespaces, h'.place⟩

mutual

theorem results_item (hm : m.WellFormed) {path : List GroupId} {ns ns' : List String}
    {p finish : Place} {id : GroupId} {i : Item} {es : List Entry} :
    Lays m path ns p i es ns' finish →
    ∀ (hi : i ∈ m.members id) (e : Emitter) (start : Cursor),
      e.namespaces.names = ns → start.place = p →
        Results (Descent.item hm.wellNested path id start e i hi) e es ns' finish
  | .text => by
    rintro hi e start rfl rfl
    rw [Descent.item]
    exact ⟨Emitter.grows_emit e (.text _), rfl, rfl⟩
  | .enter => by
    rintro hi e start rfl rfl
    rw [Descent.item]
    exact ⟨Emitter.grows_enter e _, rfl, rfl⟩
  | .leave => by
    rintro hi e start rfl rfl
    rw [Descent.item]
    exact ⟨Emitter.grows_leave e, rfl, rfl⟩
  | .region => by
    rintro hi e start rfl rfl
    rw [Descent.item]
    exact ⟨.refl e, rfl, rfl⟩
  | .assignment => by
    rintro hi e start rfl rfl
    rw [Descent.item]
    exact ⟨Emitter.grows_define e _ _ _, rfl, rfl⟩
  | .skip fits => by
    rintro hi e start rfl hp
    obtain ⟨address, rfl, rfl⟩ := Option.map_eq_some_iff.1 hp
    obtain ⟨c, hplace, hc⟩ := Emitter.advance_of_lt fits
    rw [Descent.item, Emitter.skip, hc]
    exact ⟨.refl e, rfl, hplace⟩
  | .field mem plain sized fits => by
    rintro hi e start rfl hp
    obtain ⟨address, rfl, rfl⟩ := Option.map_eq_some_iff.1 hp
    obtain ⟨c, hplace, hc⟩ := Emitter.advance_of_lt fits
    rw [Descent.item]
    simp only [plain, Emitter.field, sized, hc]
    exact ⟨Emitter.grows_define e mem.name (.number address) mem.comment, rfl, hplace⟩
  | .expansion mem layout registered fresh body => by
    intro hi e start hns hp
    obtain ⟨address, rfl, ha⟩ := Option.map_eq_some_iff.1 hp
    have hr := results_group hm body (e.enter mem.name) (some address)
      (congrArg (mem.name :: ·) hns) (congrArg some ha)
    have hns' := Descent.namespaces_group hm (Nat.ne_of_gt (hm.registered _ _ registered).1)
    rw [Descent.item]
    simp only [layout, registered, fresh, dif_neg, not_false_eq_true]
    refine ⟨⟨hr.grows.entries, hr.grows.findings⟩, ?_, hr.place⟩
    rw [Emitter.leave, hns']
    exact hns
  | .group body => by
    intro hi e start hns hp
    rw [Descent.item]
    exact results_group hm body e start hns hp
termination_by structural h => h

theorem results_group (hm : m.WellFormed) {path : List GroupId} {ns ns' : List String}
    {p finish : Place} {id : GroupId} {es : List Entry} :
    LaysGroup m path ns p id es ns' finish →
    ∀ (e : Emitter) (start : Cursor), e.namespaces.names = ns → start.place = p →
      Results (Descent.group hm.wellNested path id start e) e es ns' finish
  | .struct kind members => by
    intro e start hns hp
    rw [Descent.group]
    exact results_inOrder hm members kind _ e start start hns hp
  | .union kind members => by
    intro e start hns hp
    rw [Descent.group, ← hp]
    exact results_together hm members kind _ e start start hns hp
termination_by structural h => h

theorem results_inOrder (hm : m.WellFormed) {path : List GroupId} {ns ns' : List String}
    {p finish : Place} {id : GroupId} {items : List Item} {es : List Entry} :
    InOrder m path ns p items es ns' finish →
    ∀ (_ : m.kind id = .struct) (hsub : ∀ i ∈ items, i ∈ m.members id) (e : Emitter)
      (entry cursor : Cursor), e.namespaces.names = ns → cursor.place = p →
        Results (Descent.members hm.wellNested path id entry items hsub cursor e) e es ns' finish
  | .nil => by
    rintro hk hsub e entry cursor rfl rfl
    rw [Descent.members_nil]
    exact ⟨.refl e, rfl, rfl⟩
  | .cons head tail => by
    intro hk hsub e entry cursor hns hp
    rw [Descent.members_cons, hk]
    have hr := results_item hm head (hsub _ (.head _)) e cursor hns hp
    exact hr.trans (results_inOrder hm tail hk _ _ entry _ hr.namespaces hr.place)
termination_by structural h => h

theorem results_together (hm : m.WellFormed) {path : List GroupId} {ns ns' : List String}
    {p : Place} {id : GroupId} {items : List Item} {es : List Entry} {ends : List Place} :
    Together m path ns p items es ns' ends →
    ∀ (_ : m.kind id = .union) (hsub : ∀ i ∈ items, i ∈ m.members id) (e : Emitter)
      (entry cursor : Cursor), e.namespaces.names = ns → entry.place = p →
        Results (Descent.members hm.wellNested path id entry items hsub cursor e) e es ns'
          (ends.foldl max cursor.place)
  | .nil => by
    rintro hk hsub e entry cursor rfl hp
    rw [Descent.members_nil]
    exact ⟨.refl e, rfl, rfl⟩
  | .cons head tail => by
    intro hk hsub e entry cursor hns hp
    rw [Descent.members_cons, hk]
    have hr := results_item hm head (hsub _ (.head _)) e entry hns hp
    let finish := (Descent.item hm.wellNested path id entry e _ (hsub _ (.head _))).1
    have ht := results_together hm tail hk (fun j hj => hsub j (.tail _ hj)) _ entry
      (Cursor.furthest cursor finish) hr.namespaces hp
    rw [Cursor.place_furthest, hr.place] at ht
    exact hr.trans ht
termination_by structural h => h

end

end Intended

/-! ## Whole models -/

namespace Emitter

open Intended (LaysGroup Laid)

variable {m : Model} (hm : m.WellFormed)

include hm

theorem laysGroup_of_group {e : Emitter} {id : GroupId} {start : Cursor}
    (hf : (e.group m id start).2.findings = e.findings) :
    ∃ es ns' finish, e.Grows es (e.group m id start).2 ∧
      LaysGroup m [id] e.namespaces.names start.place id es ns' finish := by
  obtain ⟨es, hw, hb⟩ :=
    (Intended.sound hm [id] id).group (Descent.group_eq hm.wellNested id start e).symm hf
  exact ⟨es, _, _, hw, hb⟩

theorem grows_group {e : Emitter} {start : Cursor} {id : GroupId} {es : List Intended.Entry}
    {ns' : List String} {finish : Intended.Place}
    (h : LaysGroup m [id] e.namespaces.names start.place id es ns' finish) :
    e.Grows es (e.group m id start).2 := by
  rw [Descent.group_eq hm.wellNested]
  exact (Intended.results_group hm h e start rfl rfl).grows

theorem laysGroup_of_named {e : Emitter} {namespaceName key : String} {start : UInt64}
    (hf : (e.named m namespaceName key start).2.findings = e.findings) :
    ∃ id es ns' finish, m.lookup key = some id ∧
      e.Grows es (e.named m namespaceName key start).2 ∧
      LaysGroup m [id] [namespaceName] (some start.toNat) id es ns' finish := by
  unfold named at hf ⊢
  cases hl : m.lookup key with
  | none =>
    rw [hl] at hf
    exact absurd hf (findings_report_ne e.clear _ _)
  | some id =>
    rw [hl] at hf
    obtain ⟨es, ns', finish, hw, hb⟩ := laysGroup_of_group hm hf
    exact ⟨id, es, ns', finish, rfl, ⟨hw.entries, hw.findings⟩, hb⟩

theorem grows_named (start : UInt64) {namespaceName key : String} {id : GroupId}
    {es : List Intended.Entry} {ns' : List String} {finish : Intended.Place}
    (hl : m.lookup key = some id)
    (h : LaysGroup m [id] [namespaceName] (some start.toNat) id es ns' finish) (e : Emitter) :
    e.Grows es (e.named m namespaceName key start).2 := by
  have hw : (e.clear.enter namespaceName).Grows es (group m _ id (some start)).2 :=
    grows_group hm h
  unfold named
  rw [hl]
  exact ⟨hw.entries, hw.findings⟩

/-- **Adequacy.** What is printed for a model, as meant, is what the emitter has after the
model if it has met no fault, and there is no other way to print it. -/
theorem laid_iff {es : List Intended.Entry} :
    Laid m es ↔ (ofModel m).findings = #[] ∧ (ofModel m).entries = es := by
  have hnamed := extends_named hm.wellNested
  let e₁ := (new.document m).2
  let e₂ := (e₁.named m "kernel_event" "kernel_event_event_t" 0).2
  have he : ofModel m = (e₂.named m "kernel_time" "kernel_time_t" 0).2 := rfl
  rw [he]
  constructor
  · rintro ⟨document, eventKey, eventBody, timeKey, timeBody⟩
    have h₁ : new.clear.Grows _ (group m new.clear Model.document none).2 :=
      grows_group hm document
    have h₂ := grows_named hm 0 eventKey eventBody e₁
    have h₃ := grows_named hm 0 timeKey timeBody e₂
    exact ⟨((h₁.trans h₂).trans h₃).findings, ((h₁.trans h₂).trans h₃).entries⟩
  · rintro ⟨hf, rfl⟩
    have hx₁ : new.Extends e₁ := extends_document hm.wellNested new
    have hx₂ := hnamed e₁ "kernel_event" "kernel_event_event_t" 0
    have hx₃ := hnamed e₂ "kernel_time" "kernel_time_t" 0
    have hf₂ : e₂.findings = new.findings := (hx₁.trans hx₂).findings_eq hx₃ hf
    have hf₁ : e₁.findings = new.findings := hx₁.findings_eq hx₂ hf₂
    obtain ⟨es₁, ns₁, c₁, hw₁, document⟩ := laysGroup_of_group hm hf₁
    obtain ⟨event, es₂, ns₂, c₂, eventKey, hw₂, eventBody⟩ :=
      laysGroup_of_named hm (hf₂.trans hf₁.symm)
    obtain ⟨time, es₃, ns₃, c₃, timeKey, hw₃, timeBody⟩ :=
      laysGroup_of_named hm (hf.trans hf₂.symm)
    have hw : new.clear.Grows (es₁ ++ es₂ ++ es₃) _ := (hw₁.trans hw₂).trans hw₃
    have hes : (ofModel m).entries = es₁ ++ es₂ ++ es₃ := hw.entries
    rw [← he, hes]
    exact .intro document eventKey eventBody timeKey timeBody

end Emitter
end HeaderSymbols
