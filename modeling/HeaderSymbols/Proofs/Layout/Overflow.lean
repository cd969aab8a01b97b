import HeaderSymbols.Proofs.Layout.Frames
import HeaderSymbols.Proofs.Layout.Recursion

/-!
# Overflowing addresses

Past an item whose end does not fit an address there is none to go on from. A structure hands this
on from member to member and to whatever it stands in, up to the next region. A union does not: it
starts its members anew, and of their ends it takes the furthest of those that there are, so that
the address it was entered at is never lost.

* `overflow_mem_met_step`: the steps at which an overflow is found.
* `lost_step`, `lost_of_reaches`: an address that is lost stays so up to the next region.
* `held_step`, `held_of_reaches`: it is lost only by an overflow with no union around.
* `overflow_deactivates_iff`: so a group with an overflow ends without an address exactly if one of
  its overflows has no union around.
-/
namespace HeaderSymbols

/-! ## Items -/

/-- The end of the item, which starts here, does not fit an address. -/
def Item.Overflows (start : Cursor) : Item → Prop
  | skip amount _ => ∃ address ∈ start, Cursor.advance? address amount = none
  | member mem =>
    mem.layout = none ∧ ∃ address ∈ start, ∃ size ∈ mem.size, Cursor.advance? address size = none
  | _ => False

namespace Emitter

variable {m : Model} {path : List GroupId} {start c : Cursor} {e e' : Emitter} {i : Item}

theorem overflow_mem_met_advance (e : Emitter) (address amount : UInt64) (line : UInt32) :
    .addressOverflow ∈ e.met (e.advance address amount line).1 ↔
      Cursor.advance? address amount = none := by
  unfold advance
  cases ha : Cursor.advance? address amount with
  | some next => simp [met_of_findings_eq]
  | none => simp [met_report]

theorem overflow_mem_met_visit (m : Model) (path : List GroupId) (start : Cursor) (e : Emitter)
    (i : Item) :
    .addressOverflow ∈ e.met (e.visit m path start i).1 ↔ i.Overflows start := by
  cases i with
  | skip amount line =>
    cases start with
    | none => simp [visit, skip, met_report, Item.Overflows]
    | some address => simp [visit, skip, overflow_mem_met_advance, Item.Overflows]
  | member mem =>
    simp only [visit, member, Item.Overflows]
    cases hl : mem.layout with
    | none =>
      cases start with
      | none => simp [field, met_report]
      | some address =>
        cases hs : mem.size with
        | none => simp [field, hs, met_define e mem.name (.number address) mem.comment, met_report]
        | some size =>
          simp [field, hs, met_define e mem.name (.number address) mem.comment,
            overflow_mem_met_advance]
    | some name =>
      cases hr : resolve m path start name with
      | ok id =>
        have hmet : e.met (e.enter mem.name) = [] := met_of_findings_eq rfl
        simp [hr, hmet]
      | error fault =>
        rcases resolve_eq_error hr with ⟨-, rfl⟩ | ⟨-, rfl⟩ | ⟨id, -, -, rfl⟩ <;>
          simp [hr, met_report]
  | _ => simp [visit, Item.Overflows, met_of_findings_eq, emit, enter, leave, define]

/-- From an address, what may stand in a group and is finished at once ends at an address, if that
fits. -/
theorem isSome_of_visit (h : e.visit m path start i = (e', .finish c)) (hp : i.isPlaced = true)
    (hs : start.isSome = true) (ho : ¬ i.Overflows start) : c.isSome = true := by
  rw [← overflow_mem_met_visit m path start e, h] at ho
  rcases met_visit h with ⟨-, -, -, -, -, -, -, rfl⟩ | ⟨-, -, hfits⟩
  · exact hs
  · exact hfits hp hs ho

/-- Past an item that overflows there is no address. -/
theorem eq_none_of_overflows (h : e.visit m path start i = (e', .finish c))
    (ho : i.Overflows start) : c = none := by
  cases i with
  | skip amount line =>
    obtain ⟨address, rfl, ha⟩ := ho
    simp only [visit, skip, advance, ha] at h
    cases h
    rfl
  | member mem =>
    obtain ⟨hl, address, rfl, size, hs, ha⟩ := ho
    simp only [visit, member, hl, field, Option.mem_def.1 hs, advance, ha] at h
    cases h
    rfl
  | _ => cases ho

/-- From where there is no address only a region leads to one. -/
theorem eq_none_of_visit (h : e.visit m path none i = (e', .finish c))
    (hr : ∀ address, i ≠ .region (some address)) : c = none := by
  cases i with
  | region address =>
    cases address with
    | none => cases h; rfl
    | some address => exact absurd rfl (hr address)
  | member mem =>
    simp only [visit, member] at h
    split at h
    · cases h; rfl
    · split at h <;> cases h; rfl
  | group => cases h
  | _ => cases h; rfl

end Emitter

/-! ## Steps -/

namespace Walk

variable {m : Model} {top : Frame} {outer : List Frame} {path : List GroupId} {e : Emitter}
  {w w' : Walk}

/-- What a step does: it ends the innermost group, it is done with an item, or it opens the group
that the item leads to. -/
inductive Does (m : Model) (top : Frame) (outer : List Frame) (path : List GroupId) (e : Emitter) :
    Walk → Prop where
  | close (spent : top.rest = []) : Does m top outer path e (close top outer path e)
  | finish {i rest e' c} (item : top.rest = i :: rest)
      (visit : e.visit m path top.childStart i = (e', .finish c)) :
      Does m top outer path e (.inside ({ top with rest := rest }.complete c) outer path e')
  | opens {i rest id expands path' e'} (item : top.rest = i :: rest)
      (visit : (e.visit m path top.childStart i).1 = e')
      (plain : ¬ i.Overflows top.childStart) :
      Does m top outer path e
        (.inside (.new m id top.childStart expands) ({ top with rest := rest } :: outer) path' e')

theorem does_step (m : Model) (top : Frame) (outer : List Frame) (path : List GroupId)
    (e : Emitter) :
    Does m top outer path e (step m top outer path e) := by
  unfold step
  cases hr : top.rest with
  | nil => exact .close hr
  | cons i rest =>
    cases hv : e.visit m path top.childStart i with
    | mk e' move =>
      have he : (e.visit m path top.childStart i).1 = e' := by rw [hv]
      simp only [hv]
      cases move with
      | finish c => exact .finish hr hv
      | nest child =>
        obtain ⟨rfl, -⟩ := Emitter.visit_eq_nest hv
        exact .opens hr he id
      | expand target =>
        obtain ⟨mem, name, rfl, hl, -, -⟩ := Emitter.visit_eq_expand hv
        exact .opens hr he fun ho => by cases hl.symm.trans ho.1

/-! ## Overflows -/

/-- The next item overflows. -/
def Overflows : Walk → Prop
  | inside top _ _ _ => ∃ i ∈ top.rest.head?, i.Overflows top.childStart
  | ended .. => False

/-- A union is being laid out, around whatever comes next. -/
def InUnion : Walk → Prop
  | inside top outer _ _ => ∃ f ∈ top :: outer, f.kind = .union
  | ended .. => False

theorem emitter_close (top : Frame) (outer : List Frame) (path : List GroupId) (e : Emitter) :
    (close top outer path e).emitter = if top.expands then e.leave else e := by
  cases outer <;> rfl

theorem extends_step (m : Model) (top : Frame) (outer : List Frame) (path : List GroupId)
    (e : Emitter) :
    e.Extends (step m top outer path e).emitter := by
  have h := does_step m top outer path e
  generalize step m top outer path e = w at h
  cases h with
  | close spent =>
    rw [emitter_close]
    split
    · exact Emitter.extends_leave e
    · exact .refl e
  | @finish i _ e' c _ visit =>
    have hv := Emitter.extends_visit m path top.childStart e i
    rwa [visit] at hv
  | @opens i _ _ _ _ _ _ visit =>
    exact visit ▸ Emitter.extends_visit m path top.childStart e i

theorem overflow_mem_met_step (m : Model) (top : Frame) (outer : List Frame) (path : List GroupId)
    (e : Emitter) :
    .addressOverflow ∈ e.met (step m top outer path e).emitter ↔ (inside top outer path e).Overflows := by
  have h := does_step m top outer path e
  generalize step m top outer path e = w at h
  have hnext {i : Item} {rest : List Item} (item : top.rest = i :: rest) :
      (inside top outer path e).Overflows ↔ i.Overflows top.childStart := by simp [Overflows, item]
  cases h with
  | close spent =>
    have hmet : e.met (close top outer path e).emitter = [] := by
      rw [emitter_close]
      split <;> exact Emitter.met_of_findings_eq rfl
    simp [hmet, Overflows, spent]
  | finish item visit =>
    rw [hnext item, ← Emitter.overflow_mem_met_visit m path _ e, visit]
    rfl
  | opens item visit plain =>
    rw [hnext item, ← Emitter.overflow_mem_met_visit m path _ e, visit]
    rfl

theorem Reaches.extends (h : Reaches m w w') : w.emitter.Extends w'.emitter := by
  induction h with
  | refl => exact .refl _
  | step _ ih => exact (extends_step ..).trans ih

/-- A walk that has ended met an overflow exactly if it came to an item that overflows. -/
theorem overflow_mem_met_of_reaches {finish : Cursor} {e' : Emitter}
    (h : Reaches m w (.ended finish e')) :
    .addressOverflow ∈ w.emitter.met e' ↔ ∃ v, Reaches m w v ∧ v.Overflows := by
  generalize hv : Walk.ended finish e' = last at h
  induction h with
  | refl =>
    subst hv
    rw [emitter, Emitter.met_of_findings_eq rfl]
    refine iff_of_false List.not_mem_nil ?_
    rintro ⟨v, hr, ho⟩
    cases hr
    exact ho
  | @step top outer path e last hr ih =>
    subst hv
    have hmet : e.met e' = e.met (step m top outer path e).emitter ++
        (step m top outer path e).emitter.met e' :=
      Emitter.met_trans (extends_step ..) hr.extends
    show _ ∈ e.met e' ↔ _
    rw [hmet, List.mem_append, overflow_mem_met_step, ih rfl]
    simp only [reaches_inside_iff, or_and_right, exists_or, exists_eq_left]

end Walk

/-! ## Addresses that are lost -/

/-- Nothing in the frame leads back to an address: a structure takes over where its member ends, and
a union has none to go back to. -/
def Frame.Adrift (f : Frame) : Prop := f.kind = .union → f.entry = none ∧ f.cursor = none

theorem Frame.Adrift.complete {f : Frame} (h : f.Adrift) :
    (f.complete none).cursor = none ∧ (f.complete none).Adrift := by
  have hcursor : (f.complete none).cursor = none := by
    cases hk : f.kind with
    | struct => simp [Frame.complete, hk, GroupKind.next]
    | union => simp [Frame.complete, hk, GroupKind.next, (h hk).2]
  exact ⟨hcursor, fun hk => ⟨(h hk).1, hcursor⟩⟩

theorem Frame.Adrift.childStart {f : Frame} (h : f.Adrift) (hc : f.cursor = none) :
    f.childStart = none := by
  cases hk : f.kind with
  | struct => simpa [Frame.childStart, hk, GroupKind.start] using hc
  | union => simpa [Frame.childStart, hk, GroupKind.start] using (h hk).1

namespace Walk

variable {m : Model} {top : Frame} {outer : List Frame} {path : List GroupId} {e : Emitter}
  {w w' : Walk}

/-- Where the next item starts, or where the walk has ended. -/
def address : Walk → Cursor
  | inside top _ _ _ => top.childStart
  | ended finish _ => finish

/-- There is no address here, and none to go back to. -/
def Lost : Walk → Prop
  | inside top outer _ _ => top.cursor = none ∧ ∀ f ∈ top :: outer, f.Adrift
  | ended finish _ => finish = none

/-- The next item is a region with an address. -/
def Regains : Walk → Prop
  | inside top _ _ _ => ∃ address, top.rest.head? = some (.region (some address))
  | ended .. => False

theorem Lost.address_eq (h : w.Lost) : w.address = none := by
  cases w with
  | inside top outer path e => exact (h.2 _ (.head _)).childStart h.1
  | ended => exact h

/-- Without a region, an address that is lost stays so. -/
theorem lost_step (h : (inside top outer path e).Lost) (hr : ¬ (inside top outer path e).Regains) :
    (step m top outer path e).Lost := by
  obtain ⟨hcursor, hframes⟩ := h
  obtain ⟨htop, houter⟩ := List.forall_mem_cons.1 hframes
  have hstart : top.childStart = none := htop.childStart hcursor
  have hd := does_step m top outer path e
  generalize step m top outer path e = w at hd
  cases hd with
  | close spent =>
    cases outer with
    | nil => exact hcursor
    | cons parent outer =>
      obtain ⟨hparent, houter⟩ := List.forall_mem_cons.1 houter
      simp only [close, hcursor]
      exact ⟨hparent.complete.1, List.forall_mem_cons.2 ⟨hparent.complete.2, houter⟩⟩
  | @finish i rest e' c item visit =>
    rw [hstart] at visit
    obtain rfl := Emitter.eq_none_of_visit visit fun address hi =>
      hr ⟨address, by rw [item, hi]; rfl⟩
    have hrest : ({ top with rest := rest } : Frame).Adrift := htop
    exact ⟨hrest.complete.1, List.forall_mem_cons.2 ⟨hrest.complete.2, houter⟩⟩
  | opens item visit plain =>
    exact ⟨hstart, List.forall_mem_cons.2
      ⟨fun _ => ⟨hstart, hstart⟩, List.forall_mem_cons.2 ⟨htop, houter⟩⟩⟩

/-- An address that is lost stays so up to the next region. -/
theorem lost_of_reaches (hr : Reaches m w w') (h : w.Lost) :
    w'.Lost ∨ ∃ v, Reaches m w v ∧ v.Regains ∧ Reaches m v w' := by
  induction hr with
  | refl => exact .inl h
  | @step top outer path e w' hr ih =>
    by_cases hregains : (inside top outer path e).Regains
    · exact .inr ⟨_, .refl _, hregains, .step hr⟩
    · rcases ih (lost_step h hregains) with h | ⟨v, hv, hregains, hrest⟩
      · exact .inl h
      · exact .inr ⟨v, .step hv, hregains, hrest⟩

/-- An overflow with no union around loses the address. -/
theorem lost_step_of_overflows (ho : (inside top outer path e).Overflows)
    (hu : ¬ (inside top outer path e).InUnion) : (step m top outer path e).Lost := by
  obtain ⟨i, hi, ho⟩ := ho
  have hadrift : ∀ f ∈ top :: outer, f.Adrift := fun f hf hk => absurd ⟨f, hf, hk⟩ hu
  obtain ⟨htop, houter⟩ := List.forall_mem_cons.1 hadrift
  have hd := does_step m top outer path e
  generalize step m top outer path e = w at hd
  cases hd with
  | close spent => simp [spent] at hi
  | @finish i' rest e' c item visit =>
    obtain rfl : i' = i := by simpa [item] using hi
    obtain rfl := Emitter.eq_none_of_overflows visit ho
    have hrest : ({ top with rest := rest } : Frame).Adrift := htop
    exact ⟨hrest.complete.1, List.forall_mem_cons.2 ⟨hrest.complete.2, houter⟩⟩
  | @opens i' rest id expands path' e' item visit plain =>
    obtain rfl : i' = i := by simpa [item] using hi
    exact absurd ho plain

/-! ## Addresses that are held -/

/-- The outermost union of these frames has an address. -/
inductive Anchored : List Frame → Prop where
  | union {f outer} (kind : f.kind = .union) (entry : f.entry.isSome = true)
      (cursor : f.cursor.isSome = true) (outermost : ∀ g ∈ outer, g.kind = .struct) :
      Anchored (f :: outer)
  | inside {f outer} (anchored : Anchored outer) : Anchored (f :: outer)

/-- There is an address here, or one to go back to past the unions around. -/
def Held : Walk → Prop
  | inside top outer _ _ =>
    (top.cursor.isSome = true ∧ ∀ f ∈ top :: outer, f.kind = .struct) ∨ Anchored (top :: outer)
  | ended finish _ => finish.isSome = true

theorem Anchored.complete (h : Anchored (top :: outer)) (finish : Cursor) :
    Anchored (top.complete finish :: outer) := by
  cases h with
  | union kind entry cursor outermost =>
    refine .union kind entry ?_ outermost
    obtain ⟨address, ha⟩ := Option.isSome_iff_exists.1 cursor
    rw [Frame.complete, kind, ha]
    cases finish <;> rfl
  | inside anchored => exact .inside anchored

/-- What is left of a group does not matter. -/
theorem Anchored.drop (h : Anchored (top :: outer)) (rest : List Item) :
    Anchored ({ top with rest := rest } :: outer) := by
  cases h with
  | union kind entry cursor outermost => exact .union kind entry cursor outermost
  | inside anchored => exact .inside anchored

/-- Past the last item of its group a frame hands on what it holds. -/
theorem held_close (h : (inside top outer path e).Held) : (close top outer path e).Held := by
  have hstructs (hc : top.cursor.isSome = true) (hk : ∀ f ∈ outer, f.kind = .struct) :
      (close top outer path e).Held := by
    cases outer with
    | nil => exact hc
    | cons parent outer =>
      have hparent : parent.kind = .struct := hk parent (.head _)
      refine .inl ⟨?_, List.forall_mem_cons.2 ⟨hparent, (List.forall_mem_cons.1 hk).2⟩⟩
      simpa [Frame.complete, hparent, GroupKind.next] using hc
  rcases h with ⟨hc, hk⟩ | hanchored
  · exact hstructs hc (List.forall_mem_cons.1 hk).2
  · cases hanchored with
    | union kind entry cursor outermost => exact hstructs cursor outermost
    | inside anchored =>
      cases outer with
      | nil => cases anchored
      | cons parent outer => exact .inr (anchored.complete _)

/-- An address that is held stays so, but for an overflow with no union around. -/
theorem held_step (hp : ∀ i ∈ top.rest, i.isPlaced = true) (h : (inside top outer path e).Held)
    (ho : (inside top outer path e).Overflows → (inside top outer path e).InUnion) :
    (step m top outer path e).Held := by
  have hd := does_step m top outer path e
  generalize step m top outer path e = w at hd
  cases hd with
  | close spent => exact held_close h
  | @finish i rest e' c item visit =>
    rcases h with ⟨hc, hk⟩ | hanchored
    · have htop : top.kind = .struct := hk top (.head _)
      have hstart : top.childStart = top.cursor := by rw [Frame.childStart, htop]; rfl
      have hfits : ¬ i.Overflows top.childStart := fun hi => by
        obtain ⟨f, hf, hf'⟩ := ho ⟨i, by rw [item]; rfl, hi⟩
        cases hf'.symm.trans (hk f hf)
      have hend : c.isSome = true :=
        Emitter.isSome_of_visit visit (hp i (item ▸ .head _)) (hstart ▸ hc) hfits
      refine .inl ⟨?_, List.forall_mem_cons.2 ⟨htop, (List.forall_mem_cons.1 hk).2⟩⟩
      simpa [Frame.complete, htop, GroupKind.next] using hend
    · exact .inr ((hanchored.drop rest).complete c)
  | @opens i rest id expands path' e' item visit plain =>
    rcases h with ⟨hc, hk⟩ | hanchored
    · have htop : top.kind = .struct := hk top (.head _)
      have hstart : top.childStart.isSome = true := by
        rw [Frame.childStart, htop]
        exact hc
      have hbelow : ∀ f ∈ { top with rest := rest } :: outer, f.kind = .struct :=
        List.forall_mem_cons.2 ⟨htop, (List.forall_mem_cons.1 hk).2⟩
      cases hkind : m.kind id with
      | struct => exact .inl ⟨hstart, List.forall_mem_cons.2 ⟨hkind, hbelow⟩⟩
      | union => exact .inr (.union hkind hstart hstart hbelow)
    · exact .inr (.inside (hanchored.drop rest))

/-! ## Groups of a source -/

variable {id : GroupId} {base ns : Namespaces}

/-- What a walk of a group that is not the document meets are items that may stand in a group. -/
theorem Stacked.placed (hm : m.WellFormed) (hid : id ≠ Model.document)
    (h : Stacked m id base (top :: outer) ns) : ∀ i ∈ top.rest, i.isPlaced = true := by
  obtain ⟨done, htaken⟩ := h.taken
  have htop : top.group ≠ Model.document := fun hd => hid (h.document hm hd).2.1
  exact fun i hi => hm.placed _ htop i (htaken ▸ List.mem_append_right _ hi)

theorem held_of_reaches (hm : m.WellFormed) (hid : id ≠ Model.document) (hr : Reaches m w w')
    (hs : w.Within m id base) (h : w.Held) :
    w'.Held ∨ ∃ v, Reaches m w v ∧ v.Overflows ∧ ¬ v.InUnion := by
  induction hr with
  | refl => exact .inl h
  | @step top outer path e w' hr ih =>
    by_cases ho : (inside top outer path e).Overflows ∧ ¬ (inside top outer path e).InUnion
    · exact .inr ⟨_, .refl _, ho⟩
    · have hstep : (step m top outer path e).Held :=
        held_step (Stacked.placed hm hid hs) h fun hov =>
          Classical.byContradiction fun hu => ho ⟨hov, hu⟩
      rcases ih (within_step hm hs _) hstep with h | ⟨v, hv, hov⟩
      · exact .inl h
      · exact .inr ⟨v, .step hv, hov⟩

theorem not_regains_of_within (hm : m.WellFormed) (hid : id ≠ Model.document)
    (hs : w.Within m id base) : ¬ w.Regains := by
  cases w with
  | inside top outer path e =>
    rintro ⟨address, ha⟩
    have hplaced := Stacked.placed hm hid hs _ (List.mem_of_mem_head? ha)
    cases hplaced
  | ended => exact not_false

theorem held_ofGroup (m : Model) (id : GroupId) (start : UInt64) (e : Emitter) :
    (ofGroup m id (some start) e).Held := by
  cases hk : m.kind id with
  | struct => exact .inl ⟨rfl, List.forall_mem_singleton.2 hk⟩
  | union => exact .inr (.union hk rfl rfl nofun)

end Walk

/-- **Overflow.** Whatever lines were read, the layout of a group that is not the document, from an
address on, reports an overflow exactly if it comes to an item that overflows, and ends without an
address exactly if it comes to one with no union around. After that, in this layout and in any
other one, nothing has an address up to the next region. -/
theorem overflow_deactivates_iff (lines : List Line) {id : GroupId} (hid : id ≠ Model.document)
    (start : UInt64) (e : Emitter) :
    let m := (Reading.ofLines lines).model
    let begun := Walk.ofGroup m id (some start) e
    let result := e.group m id (some start)
    (.addressOverflow ∈ e.met result.2 ↔ ∃ w, Walk.Reaches m begun w ∧ w.Overflows) ∧
      (result.1 = none ↔ ∃ w, Walk.Reaches m begun w ∧ w.Overflows ∧ ¬ w.InUnion) ∧
      ∀ top outer path e', (Walk.inside top outer path e').Overflows →
        ¬ (Walk.inside top outer path e').InUnion →
        ∀ w, Walk.Reaches m (.step m top outer path e') w → w.address = none ∨
          ∃ v, Walk.Reaches m (.step m top outer path e') v ∧ v.Regains ∧ Walk.Reaches m v w := by
  intro m begun result
  have hm : m.WellFormed := Reading.wellFormed_ofLines lines
  have hend : Walk.Reaches m begun (.ended result.1 result.2) := by
    have hrun := Descent.reaches_ended hm.wellNested id (some start) e
    rwa [← Descent.group_eq hm.wellNested] at hrun
  have hwithin : begun.Within m id e.namespaces := Walk.within_ofGroup ..
  refine ⟨Walk.overflow_mem_met_of_reaches hend, ⟨fun hnone => ?_, ?_⟩, ?_⟩
  · rcases Walk.held_of_reaches hm hid hend hwithin (Walk.held_ofGroup ..) with h | h
    · rw [hnone] at h
      cases h
    · exact h
  · rintro ⟨w, hw, ho, hu⟩
    cases w with
    | ended => cases ho
    | inside top outer path e' =>
      have hrest := (Walk.reaches_inside_iff.1 (hw.to_ended hend)).resolve_left nofun
      rcases Walk.lost_of_reaches hrest (Walk.lost_step_of_overflows ho hu) with
        hlost | ⟨v, hv, hregains, -⟩
      · exact hlost
      · have hv : Walk.Reaches m begun v := hw.trans (.step hv)
        exact absurd hregains
          (Walk.not_regains_of_within hm hid (Walk.within_of_reaches hm hv hwithin))
  · intro top outer path e' ho hu w hw
    exact (Walk.lost_of_reaches hw (Walk.lost_step_of_overflows ho hu)).imp_left
      Walk.Lost.address_eq

/-- A union whose field starts at the last address there is, in a structure that has come to no end
by it. -/
theorem overflow_deactivates_iff_specimen :
    let m := (Reading.ofLines (Line.ofSource
      "t .struct\n.union\nx .byte ?\n.endu\n.ends\n")).model
    let last : UInt64 := 0xffffffffffffffff
    (1 : GroupId) ≠ Model.document ∧
      .addressOverflow ∈ Emitter.new.met (Emitter.new.group m 1 (some last)).2 ∧
      (Emitter.new.group m 1 (some last)).1 = some last ∧
      ∀ w, Walk.Reaches m (.ofGroup m 1 (some last) .new) w → w.Overflows → w.InUnion := by
  intro m last
  have hid : (1 : GroupId) ≠ Model.document := by decide
  have hgroup : Emitter.new.group m 1 (some last) = (some last, ⟨.root,
      #[.symbol "x" (.number last) none], #[⟨some 3, .addressOverflow⟩], 1⟩) := by
    refine Walk.run_eq_of_reaches ?_
    iterate 4 apply Walk.Reaches.step
    exact .refl _
  have hmet : Emitter.new.met (Emitter.new.group m 1 (some last)).2 = [.addressOverflow] := by
    rw [hgroup]
    rfl
  obtain ⟨-, hend, -⟩ := overflow_deactivates_iff
    (Line.ofSource "t .struct\n.union\nx .byte ?\n.endu\n.ends\n") hid last .new
  refine ⟨hid, hmet ▸ .head _, congrArg Prod.fst hgroup, fun w hw ho => ?_⟩
  refine Classical.byContradiction fun hu => ?_
  have hnone := hend.2 ⟨w, hw, ho, hu⟩
  rw [hgroup] at hnone
  cases hnone

end HeaderSymbols
