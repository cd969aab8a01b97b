import HeaderSymbols.Conversion
import HeaderSymbols.Proofs.Layout.Frames

/-!
# What a layout does not depend on

What was emitted and reported before a layout stays where it is, and the layout goes on after it as
it would from an emitter that has nothing yet. And only the layout of the document depends on what
stands in the document, for no other group leads back to it.

* `after_step`, `after_group`, `after_trailers`: a step, a layout and the layouts of the trailers
  go on after whatever was emitted before.
* `Reaches.of_beside`, `group_of_beside`: where two models differ in the document alone, a walk
  goes on in one as in the other, once the items of the document are in its frames.
* `reaches_front`: a walk lays out the first items of a frame in the same way whatever follows them.
-/
namespace HeaderSymbols

/-! ## What was emitted before -/

namespace Emitter

/-- The emitter as it would be, had all of `base` been emitted and reported before. -/
def after (base e : Emitter) : Emitter :=
  ⟨e.namespaces, base.lines ++ e.lines, base.findings ++ e.findings, base.symbols + e.symbols⟩

/-- An emitter in these namespaces that has nothing yet. -/
def within (ns : Namespaces) : Emitter := ⟨ns, #[], #[], 0⟩

variable {base e : Emitter}

theorem after_within (base : Emitter) : base.after (within base.namespaces) = base := by
  simp [after, within]

theorem output_after : (base.after e).output = base.output ++ e.output := by
  simp [output, after, OutputLine.renderAll, String.join_append]

theorem symbols_after : (base.after e).symbols = base.symbols + e.symbols := rfl

theorem after_emit (line : OutputLine) : base.after (e.emit line) = (base.after e).emit line := by
  simp [after, emit]

theorem after_define (name : String) (value : Value) (comment : Option String) :
    base.after (e.define name value comment) = (base.after e).define name value comment := by
  simp [after, define, emit, Nat.add_assoc]

theorem after_report (line : Option UInt32) (fault : Fault) :
    base.after (e.report line fault) = (base.after e).report line fault := by
  simp [after, report]

theorem after_advance (address amount : UInt64) (line : UInt32) :
    (base.after e).advance address amount line =
      (base.after (e.advance address amount line).1, (e.advance address amount line).2) := by
  unfold advance
  split
  · rfl
  · rw [after_report]

theorem after_skip (start : Cursor) (amount : UInt64) (line : UInt32) :
    (base.after e).skip start amount line =
      (base.after (e.skip start amount line).1, (e.skip start amount line).2) := by
  cases start with
  | some address => exact after_advance ..
  | none => simp only [skip, after_report]

theorem after_field (mem : Member) (start : Cursor) :
    (base.after e).field mem start = (base.after (e.field mem start).1, (e.field mem start).2) := by
  cases start with
  | none => simp only [field, after_report]
  | some address =>
    simp only [field, ← after_define]
    split
    · exact after_advance ..
    · rw [after_report]
      rfl

theorem after_visit (m : Model) (path : List GroupId) (start : Cursor) (i : Item) :
    (base.after e).visit m path start i =
      (base.after (e.visit m path start i).1, (e.visit m path start i).2) := by
  cases i with
  | text => exact congrArg (·, Move.finish start) (after_emit _).symm
  | assignment => exact congrArg (·, Move.finish start) (after_define ..).symm
  | enter | leave | region | group => rfl
  | skip amount line =>
    simp only [visit, after_skip]
    rfl
  | member mem =>
    simp only [visit, member]
    split
    · rw [after_field]
      rfl
    · split
      · rfl
      · rw [after_report]

end Emitter

namespace Walk

/-- The walk as it would be, had all of `base` been emitted and reported before. -/
def after (base : Emitter) : Walk → Walk
  | inside top outer path e => inside top outer path (base.after e)
  | ended finish e => ended finish (base.after e)

variable {m m' : Model} (base : Emitter)

theorem after_close (top : Frame) (outer : List Frame) (path : List GroupId) (e : Emitter) :
    close top outer path (base.after e) = (close top outer path e).after base := by
  have hleave : (if top.expands then (base.after e).leave else base.after e) =
      base.after (if top.expands then e.leave else e) := by
    split <;> rfl
  cases outer <;> simp only [close, hleave] <;> rfl

theorem after_step (top : Frame) (outer : List Frame) (path : List GroupId) (e : Emitter) :
    step m top outer path (base.after e) = (step m top outer path e).after base := by
  unfold step
  split
  · exact after_close base top outer path e
  · simp only [Emitter.after_visit]
    cases (e.visit m path top.childStart _).2 <;> rfl

/-- **History.** A walk goes on after what was emitted before as it goes on without that. -/
theorem Reaches.after {w v : Walk} (h : Reaches m w v) :
    Reaches m (w.after base) (v.after base) := by
  induction h with
  | refl => exact .refl _
  | step _ ih =>
    refine .step ?_
    rw [after_step]
    exact ih

end Walk

namespace Emitter

variable {m : Model} (hm : m.WellNested) (base e : Emitter)

include hm

theorem after_group (id : GroupId) (start : Cursor) :
    (base.after e).group m id start =
      ((e.group m id start).1, base.after (e.group m id start).2) := by
  rw [Descent.group_eq hm id start e]
  exact Walk.run_eq_of_reaches ((Descent.reaches_ended hm id start e).after base)

theorem after_named (namespaceName key : String) (start : UInt64) :
    (base.after e).named m namespaceName key start =
      ((e.named m namespaceName key start).1, base.after (e.named m namespaceName key start).2) := by
  unfold named
  cases m.lookup key with
  | none =>
    exact congrArg ((none : Cursor), ·)
      (after_report (e := e.clear) none (.missingStructure key)).symm
  | some id =>
    have hgroup := after_group hm base (e.clear.enter namespaceName) id (some start)
    exact congrArg (fun r : Cursor × Emitter => (r.1, r.2.clear)) hgroup

theorem after_trailers : (base.after e).trailers m = base.after (e.trailers m) := by
  simp only [trailers, HeaderSymbols.trailers, List.foldl_cons, List.foldl_nil, after_named hm]

end Emitter

/-! ## What stands in the document -/

namespace Model

/-- The models are the same but for what stands in the document. -/
structure Beside (m m' : Model) : Prop where
  kind : ∀ id, m'.kind id = m.kind id
  lookup : ∀ name, m'.lookup name = m.lookup name
  members : ∀ id, id ≠ document → m'.members id = m.members id

end Model

/-- No item still to come nests the document. -/
def Frame.Apart (f : Frame) : Prop := .group Model.document ∉ f.rest

namespace Walk

variable {m m' : Model}

theorem apart_new (hm : m.WellFormed) (id : GroupId) (start : Cursor) (expands : Bool) :
    (Frame.new m id start expands).Apart :=
  fun h => ne_document_of_nests hm h rfl

theorem new_of_beside (h : m.Beside m') {id : GroupId} (hid : id ≠ Model.document) (start : Cursor)
    (expands : Bool) : Frame.new m' id start expands = Frame.new m id start expands := by
  simp only [Frame.new, h.kind, h.members id hid]

/-- The frames of a walk that never comes to the document again. -/
def Apart : Walk → Prop
  | inside top outer _ _ => ∀ f ∈ top :: outer, f.Apart
  | ended .. => True

theorem step_of_beside (hm : m.WellFormed) (h : m.Beside m') {top : Frame} {outer : List Frame}
    (path : List GroupId) (e : Emitter) (ha : ∀ f ∈ top :: outer, f.Apart) :
    step m' top outer path e = step m top outer path e ∧ (step m top outer path e).Apart := by
  obtain ⟨htop, houter⟩ := List.forall_mem_cons.1 ha
  unfold step
  cases hr : top.rest with
  | nil =>
    refine ⟨rfl, ?_⟩
    cases outer with
    | nil => trivial
    | cons parent outer =>
      obtain ⟨hparent, houter⟩ := List.forall_mem_cons.1 houter
      exact List.forall_mem_cons.2 ⟨hparent, houter⟩
  | cons i rest =>
    have hrest : ({ top with rest := rest } : Frame).Apart :=
      fun hi => htop (hr ▸ List.mem_cons_of_mem _ hi)
    have hbelow := List.forall_mem_cons.2 ⟨hrest, houter⟩
    simp only [Emitter.visit_of_lookup h.lookup]
    cases hv : e.visit m path top.childStart i with
    | mk e' move =>
      cases move with
      | finish finish => exact ⟨rfl, List.forall_mem_cons.2 ⟨hrest, houter⟩⟩
      | nest child =>
        obtain ⟨rfl, -⟩ := Emitter.visit_eq_nest hv
        have hchild : child ≠ Model.document := fun hc => htop (by rw [hr, hc]; exact .head _)
        refine ⟨?_, List.forall_mem_cons.2 ⟨apart_new hm _ _ _, hbelow⟩⟩
        simp only [proceed, new_of_beside h hchild]
      | expand target =>
        obtain ⟨mem, name, -, -, hres, -⟩ := Emitter.visit_eq_expand hv
        have htarget := ne_document_of_lookup hm (Emitter.resolve_eq_ok hres).2.1
        refine ⟨?_, List.forall_mem_cons.2 ⟨apart_new hm _ _ _, hbelow⟩⟩
        simp only [proceed, new_of_beside h htarget]

/-- **Document.** A walk that has in its frames what it needs of the document goes on in the same
way whatever else stands there. -/
theorem Reaches.of_beside (hm : m.WellFormed) (h : m.Beside m') {w v : Walk} (hr : Reaches m w v)
    (ha : w.Apart) : Reaches m' w v := by
  induction hr with
  | refl => exact .refl _
  | step _ ih =>
    obtain ⟨hstep, hnext⟩ := step_of_beside hm h _ _ ha
    refine .step ?_
    rw [hstep]
    exact ih hnext

end Walk

namespace Emitter

variable {m m' : Model} (hm : m.WellFormed) (h : m.Beside m')

include hm h

theorem group_of_beside {id : GroupId} (hid : id ≠ Model.document) (start : Cursor) (e : Emitter) :
    e.group m' id start = e.group m id start := by
  have hroot : Walk.ofGroup m' id start e = Walk.ofGroup m id start e := by
    simp only [Walk.ofGroup, Walk.new_of_beside h hid]
  rw [Descent.group_eq hm.wellNested id start e]
  refine Walk.run_eq_of_reaches (hroot ▸ ?_)
  refine (Descent.reaches_ended hm.wellNested id start e).of_beside hm h ?_
  exact List.forall_mem_singleton.2 (Walk.apart_new hm _ _ _)

theorem trailers_of_beside (e : Emitter) : e.trailers m' = e.trailers m := by
  have hnamed (namespaceName key : String) (start : UInt64) (e : Emitter) :
      e.named m' namespaceName key start = e.named m namespaceName key start := by
    unfold named
    rw [h.lookup]
    cases hl : m.lookup key with
    | none => rfl
    | some id => simp only [group_of_beside hm h (Walk.ne_document_of_lookup hm hl)]
  simp only [trailers, hnamed]

end Emitter

/-! ## The first items of a frame -/

namespace Descent

/-- Items at the front of a frame are laid out as the recursion does, whatever follows them. -/
theorem reaches_front {m : Model} (hm : m.WellNested) {path : List GroupId} {id : GroupId}
    {f : Frame} (hk : f.kind = m.kind id) (items rest : List Item) (hr : f.rest = items ++ rest)
    (hsub : ∀ i ∈ items, i ∈ m.members id) (outer : List Frame) (e : Emitter) :
    Walk.Reaches m (.inside f outer path e)
      (.inside { f with
        rest := rest
        cursor := (members hm path id f.entry items hsub f.cursor e).1 } outer path
        (members hm path id f.entry items hsub f.cursor e).2) := by
  induction items generalizing f e with
  | nil =>
    rw [members_nil]
    have hf : ({ f with rest := rest, cursor := f.cursor } : Frame) = f := by
      simp only [← show f.rest = rest from hr]
    rw [hf]
    exact .refl _
  | cons i items ih =>
    have hstart : (m.kind id).start f.entry f.cursor = f.childStart := by
      rw [← hk]
      rfl
    rw [members_cons, hstart, ← hk]
    have hitem := reaches_item (fun child _ => reaches_spent hm path child)
      (fun target _ _ => reaches_spent hm (target :: path) target) (hsub i (.head _)) hr outer e
    exact hitem.trans (ih (f := { f with rest := items ++ rest }.complete _) hk rfl
      (fun j hj => hsub j (.tail _ hj)) _)

end Descent
end HeaderSymbols
