import HeaderSymbols.Proofs.Layout.Ending
import HeaderSymbols.Proofs.Layout.Frames
import HeaderSymbols.Proofs.Layout.Members
import Mathlib.Data.List.Forall2

/-!
# The stack of a walk

A walk keeps its frames, the path of its expansions, the open namespaces and the cursors of the
frames by separate updates. At every turn of the loop they fit together. A frame was opened by the
last item taken of the frame below it and entered where that item starts; the path, which is pushed
to and popped as expansions are opened and closed, and the namespaces can be read off the frames;
and a cursor is what the ends of the members completed so far come to.

* `Records`: the ends that the members of each frame are completed with on the way.
* `Grounds`: how each frame stands on the one below it, what it has put on the path, and how far it
  has got.
* `grounded_step`, `grounded_of_reaches`: a step keeps this, and so does a run, and the ends that
  are recorded are those of the members.
* `walk_coherent`: so all parts of a walk fit together at every turn.
-/
namespace HeaderSymbols

/-! ## Frames on frames -/

namespace Frame

/-- The members of the frame's group that the walk has taken. -/
def taken (m : Model) (f : Frame) : List Item :=
  (m.members f.group).take ((m.members f.group).length - f.rest.length)

/-- The members before the last one taken, which is still being laid out while a frame is on this
one. -/
def behind (m : Model) (f : Frame) : List Item := (f.taken m).dropLast

/-- The frame is that of the group that the item opens. -/
inductive OpenedBy (m : Model) (f : Frame) : Item → Prop where
  | nested (plain : f.expands = false) : OpenedBy m f (.group f.group)
  | expanded {mem name} (expands : f.expands = true) (layout : mem.layout = some name)
      (registered : m.lookup name = some f.group) : OpenedBy m f (.member mem)

/-- The frame is for its group: of the same kind, and with the members not yet taken still to
come. -/
structure Holds (m : Model) (f : Frame) : Prop where
  kind : f.kind = m.kind f.group
  members : f.taken m ++ f.rest = m.members f.group

/-- A frame that was opened at `start` inside the expansions `around`, and has made `path` of them,
once these of its members are completed. An expansion was opened at an address, for a group that is
not expanded around it. -/
structure Grounded (m : Model) (around : List GroupId) (start : Cursor) (f : Frame)
    (path : List GroupId) (done : List Item) : Prop where
  kind : f.kind = m.kind f.group
  entry : f.entry = start
  path_eq : path = if f.expands then f.group :: around else around
  opened : f.expands = true → start.isSome = true ∧ f.group ∉ around
  cursor : f.cursor = f.reached (f.ends m path done)

variable {m : Model} {path around : List GroupId} {start : Cursor} {f : Frame} {done : List Item}

theorem taken_eq (h : m.members f.group = done ++ f.rest) : f.taken m = done := by
  simp [taken, h]

theorem taken_new (m : Model) (id : GroupId) (start : Cursor) (expands : Bool) :
    (new m id start expands).taken m = [] :=
  taken_eq (Walk.members_new m id start expands)

theorem taken_concat {i : Item} (h : m.members f.group = done ++ i :: f.rest) :
    f.taken m = done ++ [i] :=
  taken_eq (h.trans (List.append_cons ..))

theorem behind_eq {i : Item} (h : m.members f.group = done ++ i :: f.rest) :
    f.behind m = done := by
  rw [behind, taken_concat h, List.dropLast_concat]

theorem getLast?_taken {i : Item} (h : m.members f.group = done ++ i :: f.rest) :
    (f.taken m).getLast? = some i := by
  rw [taken_concat h, List.getLast?_concat]

theorem grounded_new (m : Model) (around : List GroupId) (id : GroupId) (start : Cursor) :
    (new m id start false).Grounded m around start around [] :=
  ⟨rfl, rfl, rfl, nofun, rfl⟩

theorem grounded_expansion (m : Model) {around : List GroupId} {id : GroupId} {start : Cursor}
    (hs : start.isSome = true) (hid : id ∉ around) :
    (new m id start true).Grounded m around start (id :: around) [] :=
  ⟨rfl, rfl, rfl, fun _ => ⟨hs, hid⟩, rfl⟩

/-- What a frame has put on the path is taken off with it. -/
theorem Grounded.around_eq (h : f.Grounded m around start path done) : f.around path = around := by
  rw [h.path_eq, Frame.around]
  cases f.expands <;> rfl

/-- Once all members of a group are completed, the item that opened it ends where the frame has got
to. -/
theorem Grounded.finishOf_eq (hm : m.WellNested)
    (h : f.Grounded m around start path (m.members f.group)) {i : Item} (hi : f.OpenedBy m i) :
    Walk.finishOf m around start i = f.cursor := by
  have hpath := h.path_eq
  -- by itself the item opens the group again, on the path and at the cursor that the frame has
  have hend : (Descent.group hm path f.group start .new).1 = f.cursor := by
    rw [h.cursor, ← h.entry, fst_group hm h.kind]
  cases hi with
  | nested plain =>
    rw [plain, if_neg Bool.false_ne_true] at hpath
    rw [hpath] at hend
    exact (Walk.fst_run_new hm around f.group start false .new .new).trans hend
  | @expanded mem name expands layout registered =>
    obtain ⟨hs, hfresh⟩ := h.opened expands
    rw [expands, if_pos rfl] at hpath
    rw [hpath] at hend
    have hr : Emitter.resolve m around start name = .ok f.group := by
      simp [Emitter.resolve, registered, hfresh, Option.isNone_eq_false_iff.2 hs]
    have hv : Emitter.new.visit m around start (.member mem) =
        (Emitter.new.enter mem.name, .expand f.group) := by
      simp only [Emitter.visit, Emitter.member, layout, hr]
    rw [Walk.finishOf, hv]
    exact (Walk.fst_run_new hm (f.group :: around) f.group start true _ .new).trans hend

end Frame

namespace Walk

/-- Each frame stands on the one below it, where these of the members of the innermost one are
completed. Further out the last member taken is the one that is still being laid out. What is on
the path is what the frames have put there. -/
def Grounds (m : Model) (id : GroupId) (start : Cursor) :
    Frame → List GroupId → List Item → List Frame → Prop
  | f, path, done, [] => f.Grounded m [id] start path done
  | f, path, done, parent :: outer =>
    f.Grounded m (f.around path) parent.childStart path done ∧
      Grounds m id start parent (f.around path) (parent.behind m) outer

/-- The ends of the members completed in each of the frames that others are on. -/
def outerEnds (m : Model) : List GroupId → List Frame → List (List Cursor)
  | _, [] => []
  | path, f :: outer => f.ends m path (f.behind m) :: outerEnds m (f.around path) outer

/-- The ends of the members completed in each frame, the innermost first. -/
def ends (m : Model) (top : Frame) (outer : List Frame) (path : List GroupId) :
    List (List Cursor) :=
  top.ends m path (top.taken m) :: outerEnds m (top.around path) outer

/-! ## Ends that are recorded -/

/-- The record of the ends of members, with one more end for the innermost frame. -/
def note (finish : Cursor) : List (List Cursor) → List (List Cursor)
  | [] => []
  | ends :: outer => (ends ++ [finish]) :: outer

/-- The record after one more step. An item that is finished at once is completed in its own frame,
and a group that is at its end completes the item it was opened for, in the frame below. In a group
that is opened none is completed yet. -/
def record (m : Model) (top : Frame) (path : List GroupId) (e : Emitter)
    (ends : List (List Cursor)) : List (List Cursor) :=
  match top.rest with
  | [] => note top.cursor ends.tail
  | i :: _ =>
    match (e.visit m path top.childStart i).2 with
    | .finish finish => note finish ends
    | .nest _ | .expand _ => [] :: ends

/-- One walk goes on to be the other, and the record of ends that is kept on the way goes on from
the first to the second. -/
inductive Records (m : Model) : Walk → List (List Cursor) → Walk → List (List Cursor) → Prop where
  | refl (w : Walk) (ends : List (List Cursor)) : Records m w ends w ends
  | step {top outer path e ends w ends'}
      (h : Records m (step m top outer path e) (record m top path e ends) w ends') :
      Records m (.inside top outer path e) ends w ends'

/-- Every frame of the walk stands on the one below it. -/
def Grounded (m : Model) (id : GroupId) (start : Cursor) : Walk → Prop
  | .inside top outer path _ => Grounds m id start top path (top.taken m) outer
  | .ended .. => True

/-- The ends of the members completed in each frame that is open. -/
def completed (m : Model) : Walk → List (List Cursor)
  | .inside top outer path _ => ends m top outer path
  | .ended .. => []

variable {m : Model} {id : GroupId} {start : Cursor} {base ns : Namespaces} {top : Frame}
  {outer : List Frame} {path : List GroupId}

/-- How the innermost frame stands on what is around it, whatever that is. -/
theorem Grounds.grounded {f : Frame} {done : List Item} (h : Grounds m id start f path done outer) :
    ∃ entered, f.Grounded m (f.around path) entered path done := by
  cases outer with
  | nil =>
    refine ⟨start, ?_⟩
    rw [Frame.Grounded.around_eq h]
    exact h
  | cons parent outer => exact ⟨_, h.1⟩

/-- The innermost frame may be replaced by one that stands as it does. -/
theorem Grounds.replace {f g : Frame} {done done' : List Item}
    (h : Grounds m id start f path done outer) (hx : g.expands = f.expands)
    (hg : ∀ {around entered}, f.Grounded m around entered path done →
      g.Grounded m around entered path done') : Grounds m id start g path done' outer := by
  cases outer with
  | nil => exact hg h
  | cons parent outer =>
    have haround : g.around path = f.around path := by rw [Frame.around, Frame.around, hx]
    rw [Grounds, haround]
    exact ⟨hg h.1, h.2⟩

theorem Grounds.cursor_eq {f : Frame} {done : List Item}
    (h : Grounds m id start f path done outer) : f.cursor = f.reached (f.ends m path done) := by
  obtain ⟨entered, hf⟩ := h.grounded
  exact hf.cursor

/-- What is left of a group does not matter. -/
theorem Grounds.drop {f : Frame} {done : List Item} (h : Grounds m id start f path done outer)
    (rest : List Item) : Grounds m id start { f with rest := rest } path done outer :=
  h.replace rfl fun hf => ⟨hf.kind, hf.entry, hf.path_eq, hf.opened, hf.cursor⟩

/-- A member of a frame is completed where it ends, and that is the end recorded for it. -/
theorem Grounds.complete {f : Frame} {done rest : List Item} {i : Item} {finish : Cursor}
    (h : Grounds m id start f path done outer) (hi : m.members f.group = done ++ i :: rest)
    (hf : finishOf m path f.childStart i = finish) (e : Emitter) :
    (inside ({ f with rest := rest }.complete finish) outer path e).Grounded m id start ∧
      ends m ({ f with rest := rest }.complete finish) outer path =
        note finish (f.ends m path done :: outerEnds m (f.around path) outer) := by
  have htaken : ({ f with rest := rest }.complete finish).taken m = done ++ [i] :=
    Frame.taken_eq (hi.trans (List.append_cons done i rest))
  have hends : f.ends m path (done ++ [i]) = f.ends m path done ++ [finish] := by
    rw [Frame.ends_concat, ← h.cursor_eq, ← hf]
    rfl
  have hcursor : f.kind.next f.cursor finish = f.reached (f.ends m path (done ++ [i])) := by
    rw [hends, Frame.reached_concat, h.cursor_eq]
  refine ⟨?_, ?_⟩
  · show Grounds m id start _ path _ outer
    rw [htaken]
    exact h.replace rfl fun hg => ⟨hg.kind, hg.entry, hg.path_eq, hg.opened, hcursor⟩
  · rw [ends, htaken, note, ← hends]
    rfl

/-- A frame that was just opened stands on the one below, which has taken the item for it, and no
end is recorded for it. -/
theorem grounded_open {f parent : Frame} {around : List GroupId} {done : List Item}
    (hp : Grounds m id start parent around done outer) (hdone : parent.behind m = done)
    (hf : f.Grounded m around parent.childStart path []) (hnew : f.taken m = []) (e : Emitter) :
    (inside f (parent :: outer) path e).Grounded m id start ∧
      ends m f (parent :: outer) path =
        [] :: parent.ends m around done :: outerEnds m (parent.around around) outer := by
  have haround : f.around path = around := hf.around_eq
  refine ⟨?_, ?_⟩
  · show Grounds m id start f path _ (parent :: outer)
    rw [hnew, Grounds, haround, hdone]
    exact ⟨hf, hp⟩
  · rw [ends, hnew, outerEnds, haround, hdone]
    rfl

/-- The frame below was left at the item that the frame on it is for. -/
theorem Stacked.exists_opened {f parent : Frame}
    (h : Stacked m id base (f :: parent :: outer) ns) :
    ∃ ns' before i, Stacked m id base (parent :: outer) ns' ∧
      m.members parent.group = before ++ i :: parent.rest ∧ f.OpenedBy m i := by
  cases h with
  | nested below item plain taken => exact ⟨_, _, _, below, item, .nested plain⟩
  | expanded below item layout registered expands taken =>
    exact ⟨_, _, _, below, item, .expanded expands layout registered⟩

theorem grounded_close (hm : m.WellNested) (e : Emitter)
    (hs : Stacked m id base (top :: outer) ns) (hr : top.rest = [])
    (h : Grounds m id start top path (top.taken m) outer) :
    (close top outer path e).Grounded m id start ∧
      (close top outer path e).completed m = note top.cursor (ends m top outer path).tail := by
  cases outer with
  | nil => exact ⟨trivial, rfl⟩
  | cons parent outer =>
    obtain ⟨-, before, i, -, hitem, hopened⟩ := hs.exists_opened
    obtain ⟨done, hdone⟩ := hs.taken
    have htop : top.taken m = m.members top.group := by
      rw [Frame.taken_eq hdone, hdone, hr, List.append_nil]
    have hparent : parent.behind m = before := Frame.behind_eq hitem
    obtain ⟨hframe, hbelow⟩ := h
    rw [htop] at hframe
    rw [hparent] at hbelow
    -- the path that is left is the one that the frame below stands on
    have hcomplete := hbelow.complete hitem (hframe.finishOf_eq hm hopened)
      (if top.expands then e.leave else e)
    rw [← hparent] at hcomplete
    exact hcomplete

theorem grounded_step (hm : m.WellNested) {e : Emitter} (hs : Stacked m id base (top :: outer) ns)
    (h : Grounds m id start top path (top.taken m) outer) :
    (step m top outer path e).Grounded m id start ∧
      (step m top outer path e).completed m = record m top path e (ends m top outer path) := by
  unfold step record
  cases hr : top.rest with
  | nil => exact grounded_close hm e hs hr h
  | cons i rest =>
    obtain ⟨done, hdone⟩ := hs.taken
    have htop : top.taken m = done := Frame.taken_eq hdone
    rw [hr] at hdone
    rw [htop] at h
    rw [ends, htop]
    -- a group that is opened now stands on the frame with the item taken, which is not completed
    have hbehind : ({ top with rest := rest } : Frame).behind m = done := Frame.behind_eq hdone
    cases hv : e.visit m path top.childStart i with
    | mk e' move =>
      simp only [hv]
      cases move with
      | finish finish => exact h.complete hdone (finishOf_of_visit hv) e'
      | nest child =>
        exact grounded_open (h.drop rest) hbehind
          (Frame.grounded_new m path child top.childStart) (Frame.taken_new ..) e'
      | expand target =>
        obtain ⟨mem, name, rfl, -, hres, -⟩ := Emitter.visit_eq_expand hv
        obtain ⟨haddress, -, hfresh⟩ := Emitter.resolve_eq_ok hres
        exact grounded_open (h.drop rest) hbehind
          (Frame.grounded_expansion m haddress hfresh) (Frame.taken_new ..) e'

theorem grounded_ofGroup (m : Model) (id : GroupId) (start : Cursor) (e : Emitter) :
    (ofGroup m id start e).Grounded m id start ∧ (ofGroup m id start e).completed m = [[]] := by
  have hnew : (Frame.new m id start false).taken m = [] := Frame.taken_new ..
  refine ⟨?_, ?_⟩
  · show Grounds m id start (.new m id start false) [id] ((Frame.new m id start false).taken m) []
    rw [hnew]
    exact Frame.grounded_new ..
  · show [(Frame.new m id start false).ends m [id] ((Frame.new m id start false).taken m)] = [[]]
    rw [hnew]
    rfl

theorem grounded_of_reaches (hm : m.WellFormed) {u w : Walk} (hr : Reaches m u w)
    (hs : u.Within m id base) (h : u.Grounded m id start) :
    w.Grounded m id start ∧ Records m u (u.completed m) w (w.completed m) := by
  induction hr with
  | refl => exact ⟨h, .refl ..⟩
  | @step top outer path e w _ ih =>
    obtain ⟨hnext, hrecord⟩ := grounded_step hm.wellNested (e := e) hs h
    obtain ⟨hend, hrest⟩ := ih (within_step hm hs path) hnext
    rw [hrecord] at hrest
    exact ⟨hend, .step hrest⟩

/-! ## What the frames tell -/

/-- Frames on frames, the innermost first. The first one of a walk is entered where the walk begins.
Every other one is for the last item taken of the one below, and is entered where that item
starts. -/
inductive Standing (m : Model) (id : GroupId) (start : Cursor) : List Frame → Prop where
  | bottom {f} (holds : f.Holds m) (group : f.group = id) (plain : f.expands = false)
      (entry : f.entry = start) : Standing m id start [f]
  | above {f parent outer i} (below : Standing m id start (parent :: outer)) (holds : f.Holds m)
      (item : (parent.taken m).getLast? = some i) (opened : f.OpenedBy m i)
      (entry : f.entry = parent.childStart) : Standing m id start (f :: parent :: outer)

/-- The names of the members that are expanded, the innermost first. -/
def memberNames (m : Model) : List Frame → List String
  | f :: parent :: outer =>
    match f.expands, (parent.taken m).getLast? with
    | true, some (.member mem) => mem.name :: memberNames m (parent :: outer)
    | _, _ => memberNames m (parent :: outer)
  | _ => []

theorem Stacked.holds {f : Frame} (h : Stacked m id base (f :: outer) ns)
    (hk : f.kind = m.kind f.group) : f.Holds m := by
  obtain ⟨done, htaken⟩ := h.taken
  exact ⟨hk, by rw [Frame.taken_eq htaken, htaken]⟩

theorem Grounds.standing {f : Frame} {done : List Item} (h : Grounds m id start f path done outer)
    (hs : Stacked m id base (f :: outer) ns) : Standing m id start (f :: outer) := by
  induction outer generalizing f path done ns with
  | nil =>
    have hf : f.Holds m := hs.holds h.kind
    cases hs with
    | root group plain taken => exact .bottom hf group plain h.entry
  | cons parent outer ih =>
    obtain ⟨ns', before, i, hbelow, hitem, hopened⟩ := hs.exists_opened
    exact .above (ih h.2 hbelow) (hs.holds h.1.kind) (Frame.getLast?_taken hitem) hopened h.1.entry

theorem Grounds.path_eq {f : Frame} {done : List Item} (h : Grounds m id start f path done outer) :
    path = ((f :: outer).filter Frame.expands).map Frame.group ++ [id] := by
  induction outer generalizing f path done with
  | nil =>
    rw [h.path_eq]
    cases hx : f.expands <;> simp [hx]
  | cons parent outer ih =>
    rw [h.1.path_eq, ih h.2]
    cases hx : f.expands <;> simp [hx]

theorem Grounds.accounts {f : Frame} {done : List Item} (h : Grounds m id start f path done outer) :
    List.Forall₂ Frame.Accounts (f :: outer)
      (f.ends m path done :: outerEnds m (f.around path) outer) := by
  induction outer generalizing f path done with
  | nil => exact .cons (Frame.accounts h.cursor) .nil
  | cons parent outer ih => exact .cons (Frame.accounts h.1.cursor) (ih h.2)

/-- The items taken of a group that is not the document have turned no namespaces. -/
theorem after_taken (hm : m.WellFormed) {f : Frame} {done : List Item}
    (hf : f.group ≠ Model.document) (htaken : m.members f.group = done ++ f.rest)
    (ns : Namespaces) : ns.after done = ns :=
  ns.after_of_isPlaced fun i hi => hm.placed _ hf i (htaken ▸ List.mem_append_left _ hi)

/-- The names that are open in a walk of a group that is not the document. -/
theorem Stacked.names_eq (hm : m.WellFormed) (hid : id ≠ Model.document) {frames : List Frame}
    (h : Stacked m id base frames ns) : ns.names = memberNames m frames ++ base.names := by
  induction h with
  | root group plain taken =>
    rw [after_taken hm (group ▸ hid) taken]
    rfl
  | @nested f parent outer ns before done below item plain taken ih =>
    have hchild : m.Nests f.group parent.group := by
      rw [Model.Nests, item]
      exact List.mem_append_right _ (.head _)
    rw [after_taken hm (ne_document_of_nests hm hchild) taken, ih]
    simp only [memberNames, plain]
  | @expanded f parent outer ns before mem name done below item _ registered expands taken ih =>
    rw [after_taken hm (ne_document_of_lookup hm registered) taken]
    simp only [memberNames, expands, Frame.getLast?_taken item, Namespaces.enter, ih,
      List.cons_append]

/-- How the parts of a walk of a group fit together at a turn of the loop, with `e₀` the emitter
that it began with. The innermost is first throughout. -/
structure Coherent (m : Model) (id : GroupId) (start : Cursor) (e₀ : Emitter) (top : Frame)
    (outer : List Frame) (path : List GroupId) (e : Emitter) : Prop where
  /-- The path is the groups of the frames that are expansions, on the one that the walk began
  with, -/
  path_eq : path = ((top :: outer).filter Frame.expands).map Frame.group ++ [id]
  /-- and none of them twice. -/
  nodup : path.Nodup
  /-- The namespaces are the names of the members that these frames expand, on those that the walk
  began with. -/
  namespaces : e.namespaces.names = memberNames m (top :: outer) ++ e₀.namespaces.names
  /-- Each frame is for the last item taken of the one below, and was entered where that starts. -/
  standing : Standing m id start (top :: outer)
  /-- The members completed so far are those taken, but for the ones that frames are on; they were
  completed in this walk where their layouts end, -/
  recorded : Records m (ofGroup m id start e₀) [[]] (.inside top outer path e)
    (ends m top outer path)
  /-- and the cursors are what these ends come to. -/
  accounts : List.Forall₂ Frame.Accounts (top :: outer) (ends m top outer path)

end Walk

/-- **Coherence.** Whatever lines were read, at every turn of the walk of a group that is not the
document the frames, the path, the namespaces and the cursors fit together. -/
theorem walk_coherent (lines : List Line) {id : GroupId} (hid : id ≠ Model.document)
    (start : Cursor) (e₀ : Emitter) :
    let m := (Reading.ofLines lines).model
    ∀ top outer path e, Walk.Reaches m (.ofGroup m id start e₀) (.inside top outer path e) →
      Walk.Coherent m id start e₀ top outer path e := by
  intro m top outer path e hr
  have hm : m.WellFormed := Reading.wellFormed_ofLines lines
  have hbegun := Walk.within_ofGroup m id start e₀
  have hs := Walk.within_of_reaches hm hr hbegun
  obtain ⟨hroot, hnone⟩ := Walk.grounded_ofGroup m id start e₀
  obtain ⟨hg, hrecords⟩ := Walk.grounded_of_reaches hm hr hbegun hroot
  rw [hnone] at hrecords
  exact {
    path_eq := Walk.Grounds.path_eq hg
    nodup := (Walk.sound_of_reaches hr (Walk.sound_ofGroup ..)).nodup
    namespaces := Walk.Stacked.names_eq hm hid hs
    standing := Walk.Grounds.standing hg hs
    recorded := hrecords
    accounts := Walk.Grounds.accounts hg }

/-- A structure with a union inside, in which a member is being expanded, past the first field of
its structure. -/
theorem walk_coherent_specimen :
    let lines := Line.ofSource ("point .struct\nx .byte ?\ny .word ?\n.ends\n" ++
      "key .struct\na .byte ?\n.union\nw .word ?\nat .dstruct point\n.endu\n.ends\n")
    let m := (Reading.ofLines lines).model
    let y : Item := .member ⟨"y", none, some 2, none, 3⟩
    let point : Frame := ⟨1, .struct, [y], some 17, some 18, true⟩
    let inner : Frame := ⟨3, .union, [], some 17, some 19, false⟩
    let key : Frame := ⟨2, .struct, [], some 16, some 17, false⟩
    let e : Emitter := ⟨⟨["at"]⟩, #[.symbol "a" (.number 16) none, .symbol "w" (.number 17) none,
      .symbol "at_x" (.number 17) none], #[], 3⟩
    (2 : GroupId) ≠ Model.document ∧
      Walk.Reaches m (.ofGroup m 2 (some 16) .new) (.inside point [inner, key] [1, 2] e) ∧
      Walk.Coherent m 2 (some 16) .new point [inner, key] [1, 2] e ∧
      Walk.memberNames m [point, inner, key] = ["at"] ∧
      Walk.ends m point [inner, key] [1, 2] = [[some 18], [some 19], [some 17]] := by
  intro lines m y point inner key e
  have hmodel : m = ⟨#[⟨.struct, #[]⟩,
      ⟨.struct, #[.member ⟨"x", none, some 1, none, 2⟩, y]⟩,
      ⟨.struct, #[.member ⟨"a", none, some 1, none, 6⟩, .group 3]⟩,
      ⟨.union, #[.member ⟨"w", none, some 2, none, 8⟩,
        .member ⟨"at", none, none, some "point", 9⟩]⟩],
    [("key", 2), ("point", 1)]⟩ := by decide +kernel
  have hid : (2 : GroupId) ≠ Model.document := by decide
  have hr : Walk.Reaches m (.ofGroup m 2 (some 16) .new)
      (.inside point [inner, key] [1, 2] e) := by
    rw [hmodel]
    exact .step (.step (.step (.step (.step (.refl _)))))
  refine ⟨hid, hr, walk_coherent lines hid (some 16) .new _ _ _ _ hr, ?_, ?_⟩
  · rw [hmodel]
    rfl
  · rw [hmodel]
    rfl

end HeaderSymbols
