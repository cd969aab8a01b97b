import HeaderSymbols.Conversion
import HeaderSymbols.Proofs.Layout.Descent
import HeaderSymbols.Proofs.Source.Arena

/-!
# Every walk ends

A walk is a loop, and a loop need not end. `document?`, `trailers?` and `convert?` are the
layout of the document, of the trailers and the conversion of a source when each walk on the
way has only so many steps: without a result where these do not suffice.

* `Sound`: no group is twice on a path, and there is a group on it for each expansion that
  is open and one for where the walk began. `sound_step` and `sound_of_reaches` keep this
  for a step and for a run.
* `walks_end`: in a well nested model a walk of any group gets to its end from any cursor
  and any emitter, with no group twice on its path and no more expansions open than there
  are groups; the models of sources are well nested; so every conversion comes to an end.
-/
namespace HeaderSymbols

/-! ## What is open -/

namespace Walk

/-- The groups that are being expanded, and the one that the walk began with. -/
def path : Walk → List GroupId
  | .inside _ _ path _ => path
  | .ended .. => []

/-- The number of expansions that are open. -/
def expansions : Walk → Nat
  | .inside top outer _ _ => (top :: outer).countP Frame.expands
  | .ended .. => 0

end Walk

/-- A path that is right for its innermost frame, which is inside of this many expansions. The
innermost group of a path can be one that the model does not have, but not once there is a member
to go on with. -/
structure Frame.Sound (m : Model) (expansions : Nat) (path : List GroupId) (f : Frame) : Prop where
  nodup : path.Nodup
  length : path.length = expansions + 1
  outer_lt : ∀ id ∈ path.tail, id < m.groups.size
  lt : f.rest ≠ [] → ∀ id ∈ path, id < m.groups.size

/-- The path of what is around a frame. An expansion is one group further in. -/
def Frame.around (f : Frame) (path : List GroupId) : List GroupId :=
  if f.expands then path.tail else path

/-- Frames, the innermost first, each inside of the expansions up to it. -/
def Frame.Stacked (m : Model) : List GroupId → List Frame → Prop
  | _, [] => True
  | path, f :: outer =>
    f.Sound m ((f :: outer).countP Frame.expands) path ∧ Stacked m (f.around path) outer

namespace Frame

variable {m : Model} {n : Nat} {path : List GroupId} {f : Frame}

theorem sound_root (m : Model) (id : GroupId) (start : Cursor) :
    (new m id start false).Sound m 0 [id] where
  nodup := by simp
  length := rfl
  outer_lt _ h := by cases h
  lt h _ hid := by
    obtain rfl := List.mem_singleton.1 hid
    exact Model.lt_size_of_members_ne_nil h

/-- A frame with its next item taken off. -/
theorem Sound.passed (h : f.Sound m n path) {i : Item} {rest : List Item}
    (hr : f.rest = i :: rest) : ({ f with rest := rest } : Frame).Sound m n path :=
  ⟨h.nodup, h.length, h.outer_lt, fun _ => h.lt (by simp [hr])⟩

theorem Sound.resume (h : f.Sound m n path) (finish : Cursor) :
    (f.complete finish).Sound m n path :=
  ⟨h.nodup, h.length, h.outer_lt, h.lt⟩

theorem Sound.nested (h : f.Sound m n path) {i : Item} {rest : List Item}
    (hr : f.rest = i :: rest) (id : GroupId) (start : Cursor) :
    (new m id start false).Sound m n path :=
  ⟨h.nodup, h.length, h.outer_lt, fun _ => h.lt (by simp [hr])⟩

theorem Sound.expanded (h : f.Sound m n path) {i : Item} {rest : List Item}
    (hr : f.rest = i :: rest) {id : GroupId} (hid : id ∉ path) (start : Cursor) :
    (new m id start true).Sound m (n + 1) (id :: path) where
  nodup := List.nodup_cons.2 ⟨hid, h.nodup⟩
  length := congrArg (· + 1) h.length
  outer_lt := h.lt (by simp [hr])
  lt hne other ho := by
    rcases List.mem_cons.1 ho with rfl | ho
    · exact Model.lt_size_of_members_ne_nil hne
    · exact h.lt (by simp [hr]) other ho

/-- Each expansion has a group of its own among those around it. -/
theorem Sound.expansions_le (h : f.Sound m n path) : n ≤ m.groups.size := by
  have hsub : path.tail ⊆ List.range m.groups.size := fun id hid =>
    List.mem_range.2 (h.outer_lt id hid)
  have hle := (h.nodup.sublist (List.tail_sublist _)).length_le_of_subset hsub
  rw [List.length_range, List.length_tail, h.length] at hle
  exact hle

end Frame

namespace Walk

variable {m : Model}

/-- Everything that is open in a walk is in order. -/
def Sound (m : Model) : Walk → Prop
  | .inside top outer path _ => Frame.Stacked m path (top :: outer)
  | .ended .. => True

theorem sound_ofGroup (m : Model) (id : GroupId) (start : Cursor) (e : Emitter) :
    (ofGroup m id start e).Sound m := ⟨Frame.sound_root m id start, trivial⟩

theorem sound_close {top : Frame} {outer : List Frame} {path : List GroupId}
    (h : Frame.Stacked m path (top :: outer)) (e : Emitter) :
    (close top outer path e).Sound m := by
  unfold close
  cases outer with
  | nil => trivial
  | cons parent outer =>
    obtain ⟨-, hp, ho⟩ := h
    exact ⟨hp.resume top.cursor, ho⟩

theorem sound_step {top : Frame} {outer : List Frame} {path : List GroupId}
    (h : Frame.Stacked m path (top :: outer)) (e : Emitter) :
    (step m top outer path e).Sound m := by
  unfold step
  split
  · exact sound_close h e
  · rename_i i rest hr
    obtain ⟨ht, ho⟩ := h
    cases hv : e.visit m path top.childStart i with
    | mk e' move =>
      -- the frame below a new one keeps its own group and what is open around it
      have hbelow : Frame.Stacked m path ({ top with rest := rest } :: outer) := ⟨ht.passed hr, ho⟩
      cases move with
      | finish finish => exact ⟨(ht.passed hr).resume finish, ho⟩
      | nest id => exact ⟨ht.nested hr id _, hbelow⟩
      | expand id =>
        have hid := Emitter.not_mem_path_of_visit hv
        refine ⟨?_, hbelow⟩
        have := ht.expanded hr hid top.childStart
        rw [List.countP_cons]
        exact this

theorem sound_of_reaches {u w : Walk} (hr : Reaches m u w) (h : u.Sound m) : w.Sound m := by
  induction hr with
  | refl => exact h
  | step _ ih => exact ih (sound_step h _)

theorem Sound.nodup {w : Walk} (h : w.Sound m) : w.path.Nodup := by
  cases w with
  | inside top outer path e => exact h.1.nodup
  | ended finish e => exact List.nodup_nil

theorem Sound.expansions_le {w : Walk} (h : w.Sound m) : w.expansions ≤ m.groups.size := by
  cases w with
  | inside top outer path e => exact h.1.expansions_le
  | ended finish e => exact Nat.zero_le _

end Walk

/-! ## Layouts and conversions in a number of steps -/

/-- With enough steps there is a result, and more steps do not change it. -/
def Settles {α : Type} (f : Nat → Option α) (a : α) : Prop := ∃ n, ∀ k ≥ n, f k = some a

theorem Settles.pure {α : Type} (a : α) : Settles (fun _ => some a) a := ⟨0, fun _ _ => rfl⟩

theorem Settles.bind {α β : Type} {f : Nat → Option α} {g : Nat → α → Option β} {a : α} {b : β}
    (hf : Settles f a) (hg : Settles (g · a) b) : Settles (fun k => (f k).bind (g k)) b := by
  obtain ⟨n, hn⟩ := hf
  obtain ⟨l, hl⟩ := hg
  refine ⟨max n l, fun k hk => ?_⟩
  have hkn : k ≥ n := by omega
  have hkl : k ≥ l := by omega
  simp only [hn k hkn]
  exact hl k hkl

theorem Settles.map {α β : Type} {f : Nat → Option α} {a : α} (hf : Settles f a) (g : α → β) :
    Settles (fun k => (f k).map g) (g a) := by
  obtain ⟨n, hn⟩ := hf
  exact ⟨n, fun k hk => congrArg (Option.map g) (hn k hk)⟩

namespace Walk

/-- The result of a walk that ends after no more than this many steps. -/
def within (m : Model) : Nat → Walk → Option (Cursor × Emitter)
  | _, .ended finish e => some (finish, e)
  | 0, .inside .. => none
  | n + 1, .inside top outer path e => within m n (step m top outer path e)

theorem settles_of_reaches {w : Walk} {finish : Cursor} {e : Emitter}
    (h : Reaches m w (.ended finish e)) : Settles (within m · w) (finish, e) := by
  generalize hv : Walk.ended finish e = v at h
  induction h with
  | refl =>
    subst hv
    exact ⟨0, fun k _ => by cases k <;> rfl⟩
  | step _ ih =>
    obtain ⟨n, hn⟩ := ih hv
    refine ⟨n + 1, fun k hk => ?_⟩
    cases k with
    | zero => omega
    | succ k => exact hn k (by omega)

end Walk

namespace Emitter

def group? (n : Nat) (m : Model) (e : Emitter) (id : GroupId) (start : Cursor) :
    Option (Cursor × Emitter) := Walk.within m n (.ofGroup m id start e)

def document? (n : Nat) (m : Model) (e : Emitter) : Option (Cursor × Emitter) :=
  e.clear.group? n m Model.document none

def named? (n : Nat) (m : Model) (e : Emitter) (namespaceName key : String) (start : UInt64) :
    Option (Cursor × Emitter) :=
  match m.lookup key with
  | none => some (none, e.clear.report none (.missingStructure key))
  | some id =>
    ((e.clear.enter namespaceName).group? n m id (some start)).map fun r => (r.1, r.2.clear)

def trailers? (n : Nat) (m : Model) (e : Emitter) : Option Emitter :=
  HeaderSymbols.trailers.foldlM (fun e t => (e.named? n m t.1 t.2 0).map Prod.snd) e

variable {m : Model} (hm : m.WellNested)

include hm

theorem settles_group (e : Emitter) (id : GroupId) (start : Cursor) :
    Settles (group? · m e id start) (e.group m id start) := by
  rw [Descent.group_eq hm]
  exact Walk.settles_of_reaches (Descent.reaches_ended hm id start e)

theorem settles_document (e : Emitter) : Settles (document? · m e) (e.document m) :=
  settles_group hm _ _ _

theorem settles_named (e : Emitter) (namespaceName key : String) (start : UInt64) :
    Settles (named? · m e namespaceName key start) (e.named m namespaceName key start) := by
  unfold named? named
  cases m.lookup key with
  | none => exact .pure _
  | some id => exact (settles_group hm _ id _).map fun r => (r.1, r.2.clear)

theorem settles_trailers (e : Emitter) : Settles (trailers? · m e) (e.trailers m) := by
  unfold trailers? trailers
  generalize HeaderSymbols.trailers = ts
  induction ts generalizing e with
  | nil => exact .pure e
  | cons t rest ih => exact ((settles_named hm e t.1 t.2 0).map Prod.snd).bind (ih _)

end Emitter

/-- The conversion of a source, if every walk on the way ends after no more than this many
steps. -/
def convert? (n : Nat) (o : Options) (file source : String) :
    Option (Except Failure Conversion) := do
  let lines := Line.ofSource source
  let reading := Reading.ofLines lines
  let (_, e) ← Emitter.new.document? n reading.model
  let e ← e.trailers? n reading.model
  let log := Log.ofFindings file (reading.findings ++ e.findings).toList
  some (if log.isEmpty then .ok ⟨o.prologue ++ e.output, lines.length, e.symbols⟩
    else .error (.ofLog log))

theorem settles_convert (o : Options) (file source : String) :
    Settles (convert? · o file source) (convert o file source) := by
  have hm := Reading.wellNested_ofLines (Line.ofSource source)
  exact (Emitter.settles_document hm _).bind ((Emitter.settles_trailers hm _).bind (.pure _))

/-- **Termination.** In a well nested model a walk of any group ends, from any cursor and with
any emitter, and all the way no group is twice on its path and no more expansions are open than
the model has groups; so there are the layouts of the document and of the trailers. The model of
every source is well nested, and every conversion comes to an end. -/
theorem walks_end :
    (∀ m : Model, m.WellNested →
      (∀ (id : GroupId) (start : Cursor) (e : Emitter),
        Walk.Reaches m (.ofGroup m id start e)
            (.ended (e.group m id start).1 (e.group m id start).2) ∧
          ∀ w, Walk.Reaches m (.ofGroup m id start e) w →
            w.path.Nodup ∧ w.expansions ≤ m.groups.size) ∧
      ∀ e : Emitter, Settles (Emitter.document? · m e) (e.document m) ∧
        Settles (Emitter.trailers? · m e) (e.trailers m)) ∧
    (∀ lines : List Line, (Reading.ofLines lines).model.WellNested) ∧
    ∀ (o : Options) (file source : String),
      Settles (convert? · o file source) (convert o file source) := by
  refine ⟨fun m hm => ⟨fun id start e => ⟨?_, fun w hw => ?_⟩, fun e => ?_⟩,
    Reading.wellNested_ofLines, settles_convert⟩
  · rw [Descent.group_eq hm]
    exact Descent.reaches_ended hm id start e
  · have hs := Walk.sound_of_reaches hw (Walk.sound_ofGroup m id start e)
    exact ⟨hs.nodup, hs.expansions_le⟩
  · exact ⟨Emitter.settles_document hm e, Emitter.settles_trailers hm e⟩

theorem walk_specimen_ends :
    Model.specimen.WellNested ∧
      Walk.Reaches Model.specimen (.ofGroup Model.specimen Model.document none .new)
        (.ended (Emitter.new.group Model.specimen Model.document none).1
          (Emitter.new.group Model.specimen Model.document none).2) ∧
      ∃ w, Walk.Reaches Model.specimen (.ofGroup Model.specimen Model.document none .new) w ∧
        w.path = [1, Model.document] ∧ w.path.Nodup ∧
        w.expansions = 1 ∧ w.expansions ≤ Model.specimen.groups.size := by
  obtain ⟨hended, hopen⟩ :=
    (walks_end.1 Model.specimen Model.wellNested_specimen).1 Model.document none .new
  -- the third item of the document is expanded
  have hw : Walk.Reaches Model.specimen (.ofGroup Model.specimen Model.document none .new) _ :=
    .step (.step (.step (.refl _)))
  obtain ⟨hnodup, hle⟩ := hopen _ hw
  exact ⟨Model.wellNested_specimen, hended, _, hw, rfl, hnodup, rfl, hle⟩

end HeaderSymbols
