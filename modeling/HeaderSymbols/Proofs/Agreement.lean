import HeaderSymbols.Proofs.Layout.Frames
import HeaderSymbols.Proofs.Source.Document

/-!
# Reading and layout agree on namespaces

A source is read with one stack of namespaces and its document is laid out with another one. At
each item of the document the second is what the first was before the line that gave the item,
whatever has been expanded or reported in between. So what stands directly in the document is
emitted under the names that were open at its line, and no namespace is left that is not open.

* `namespaces_of_meets`: the two at an item of the document.
* `lines_step_of_assignment`, `lines_step_of_field`: what a step emits.
* `namespaces_agree`: all of this for every source.
-/
namespace HeaderSymbols

namespace Walk

/-- The layout of the document gets here, after whatever was emitted and reported before. -/
def OfDocument (m : Model) (e : Emitter) (w : Walk) : Prop :=
  Reaches m (.ofGroup m Model.document none e.clear) w

variable {m : Model} {f : Frame} {e : Emitter}

/-! ## Emitting -/

theorem lines_step_of_assignment {name : String} {value : Value} {comment : Option String}
    {rest : List Item} (hr : f.rest = .assignment name value comment :: rest)
    (outer : List Frame) (path : List GroupId) :
    (step m f outer path e).emitter.lines =
      e.lines.push (.symbol (e.namespaces.qualify name) value comment) := by
  unfold step
  rw [hr]
  rfl

/-- A field is a symbol for its address, even where the next address is out of range, and no
symbol where there is no address. -/
theorem lines_step_of_field {name : String} {comment : Option String} {size : UInt64}
    {line : UInt32} {rest : List Item}
    (hr : f.rest = .member ⟨name, comment, some size, none, line⟩ :: rest) (outer : List Frame)
    (path : List GroupId) :
    (step m f outer path e).emitter.lines =
      match f.childStart with
      | some address =>
        e.lines.push (.symbol (e.namespaces.qualify name) (.number address) comment)
      | none => e.lines := by
  unfold step
  rw [hr]
  cases f.childStart with
  | none => simp [Emitter.visit, Emitter.member, Emitter.field, proceed, emitter, Emitter.report]
  | some address =>
    simp only [Emitter.visit, Emitter.member, Emitter.field, Emitter.advance]
    split <;> rfl

end Walk

namespace Reading

/-! ## Items and the lines that give them -/

/-- The source has this line, and is read so far before it. -/
def Before (source : List (Line × UInt32)) (r : Reading) (line : Line) (number : UInt32) : Prop :=
  ∃ before rest, source = before ++ (line, number) :: rest ∧ r = start.steps before

/-- The frame is that of the document, with the items taken that the reading had given it. -/
def Meets (r : Reading) (m : Model) (f : Frame) : Prop :=
  f.group = Model.document ∧
    f.rest = (m.members Model.document).drop (r.model.members Model.document).length

section

variable {source : List (Line × UInt32)} {r : Reading} {line : Line} {number : UInt32} {item : Item}

theorem Before.wellFormed (h : Before source r line number) : r.WellFormed := by
  obtain ⟨before, rest, -, rfl⟩ := h
  exact wellFormed_steps wellFormed_start before

/-- The namespaces of a reading are those that the items of its document leave open. -/
theorem Before.namespaces_eq (h : Before source r line number) :
    r.namespaces = Namespaces.root.after (r.model.members Model.document) := by
  obtain ⟨before, rest, -, rfl⟩ := h
  obtain ⟨items, hitems⟩ := delivers_steps wellFormed_start before
  have hm : (start.steps before).model.members Model.document = items := hitems.members
  rw [hm]
  exact hitems.namespaces

theorem Before.members_eq (h : Before source r line number) (hp : r.Puts line number item) :
    ∃ items, (start.steps source).model.members Model.document =
      r.model.members Model.document ++ item :: items := by
  have hw := h.wellFormed
  obtain ⟨before, rest, rfl, rfl⟩ := h
  rw [steps_append]
  exact hp.drop_members hw rest

/-- The item of a line is the one that the frame takes next. -/
theorem Meets.rest_eq {f : Frame} (hf : r.Meets (start.steps source).model f)
    (h : Before source r line number) (hp : r.Puts line number item) :
    ∃ items, f.rest = item :: items := by
  obtain ⟨items, hitems⟩ := h.members_eq hp
  refine ⟨items, ?_⟩
  rw [hf.2, hitems, List.drop_left]

theorem getElem?_members_iff {i : Nat} :
    ((start.steps source).model.members Model.document)[i]? = some item ↔
      ∃ r line number, Before source r line number ∧
        (r.model.members Model.document).length = i ∧ r.Puts line number item := by
  constructor
  · intro hi
    obtain ⟨before, line, number, rest, rfl, hlen, hp⟩ :=
      exists_puts wellFormed_start source (Nat.zero_le i) hi
    exact ⟨_, line, number, ⟨before, rest, rfl, rfl⟩, hlen, hp⟩
  · rintro ⟨r, line, number, hb, rfl, hp⟩
    obtain ⟨items, hitems⟩ := hb.members_eq hp
    rw [hitems, List.getElem?_append_right (Nat.le_refl _), Nat.sub_self]
    rfl

/-! ## Directly in the document -/

theorem puts_of_obey {d : Directive} {after : Reading} (hd : Directive.ofLine line = .ok d)
    (ho : r.obey line.comment number d = .ok after)
    (hm : after.model.members Model.document = r.model.members Model.document ++ [item]) :
    r.Puts line number item := by
  rw [Puts, step_of_ok hd, ho]
  exact hm

theorem members_place (h : r.WellFormed) (hs : r.scopes = [Model.document]) (item : Item) :
    (r.place item).model.members Model.document = r.model.members Model.document ++ [item] := by
  have hscope : r.scope = Model.document := by
    rw [scope, hs]
    rfl
  rw [place, hscope, Model.members_push _ _ h.model.document_lt, if_pos rfl]

theorem puts_assignment (h : r.WellFormed) (hs : r.scopes = [Model.document]) {name : String} {operand : Operand}
    (hd : Directive.ofLine line = .ok (.assign name operand)) :
    r.Puts line number (.assignment name (r.namespaces.value operand) line.comment) :=
  puts_of_obey hd rfl (members_place h hs _)

theorem puts_field (h : r.WellFormed) (hs : r.scopes = [Model.document]) {name : String} {size : UInt64}
    (hd : Directive.ofLine line = .ok (.field name size)) :
    r.Puts line number (.member ⟨name, line.comment, some size, none, number⟩) :=
  puts_of_obey hd rfl (members_place h hs _)

/-! ## Agreement -/

theorem wellFormed_model (source : List (Line × UInt32)) : (start.steps source).model.WellFormed :=
  (wellFormed_steps wellFormed_start source).model

theorem namespaces_of_meets (h : Before source r line number) (hp : r.Puts line number item)
    {e e' : Emitter} {top : Frame} {outer : List Frame} {path : List GroupId}
    (hg : Walk.OfDocument (start.steps source).model e (.inside top outer path e'))
    (hf : r.Meets (start.steps source).model top) : e'.namespaces = r.namespaces := by
  have hm := wellFormed_model source
  have hs := Walk.within_of_reaches hm hg (Walk.within_ofGroup _ _ _ _)
  obtain ⟨-, -, done, htaken, hns⟩ := Walk.Stacked.document hm hf.1 hs
  obtain ⟨items, hitems⟩ := h.members_eq hp
  -- what has been taken is as long as what the reading had given, and so is that
  have hlen : done.length = (r.model.members Model.document).length := by
    have htotal := congrArg List.length htaken
    rw [hf.2, List.length_append, List.length_drop, hitems, List.length_append,
      List.length_cons] at htotal
    omega
  have hdone := (List.append_inj (htaken.symm.trans hitems) hlen).1
  rw [hns, h.namespaces_eq, hdone]
  rfl

theorem exists_meets (h : Before source r line number) (hp : r.Puts line number item)
    (e : Emitter) :
    ∃ top e', Walk.OfDocument (start.steps source).model e
        (.inside top [] [Model.document] e') ∧
      r.Meets (start.steps source).model top := by
  have hle : (r.model.members Model.document).length ≤
      ((start.steps source).model.members Model.document).length := by
    obtain ⟨items, hitems⟩ := h.members_eq hp
    rw [hitems, List.length_append]
    exact Nat.le_add_right ..
  obtain ⟨top, e', hr, hgroup, hrest⟩ :=
    Walk.reaches_drop (wellFormed_model source).wellNested Model.document none e.clear _ hle
  exact ⟨top, e', hr, hgroup, hrest⟩

end

/-- How the layouts of the model of a source agree with the reading of the source. -/
structure Agreement (source : List (Line × UInt32)) (m : Model) (e : Emitter) : Prop where
  /-- The items of the document are those that lines gave it, each at its place. -/
  origin {i item} : (m.members Model.document)[i]? = some item ↔
    ∃ r line number, Before source r line number ∧
      (r.model.members Model.document).length = i ∧ r.Puts line number item
  /-- The layout of the document gets to each item, -/
  reached {r line number item} : Before source r line number → r.Puts line number item →
    ∃ top e', Walk.OfDocument m e (.inside top [] [Model.document] e') ∧ r.Meets m top
  /-- and there the open namespaces are those in which the line of the item was read. -/
  namespaces {r line number item top outer path e'} : Before source r line number →
    r.Puts line number item → Walk.OfDocument m e (.inside top outer path e') → r.Meets m top →
    e'.namespaces = r.namespaces
  /-- What is assigned directly in the document is emitted under these, a reference as well. -/
  assigned {r line number name operand} : Before source r line number →
    r.scopes = [Model.document] →
    Directive.ofLine line = .ok (.assign name operand) →
    (∃ item, r.Puts line number item) ∧
      ∀ {top outer path e'}, Walk.OfDocument m e (.inside top outer path e') → r.Meets m top →
        (Walk.step m top outer path e').emitter.lines = e'.lines.push
          (.symbol (r.namespaces.qualify name) (r.namespaces.value operand) line.comment)
  /-- A field directly in the document is emitted under these, where there is an address. -/
  field {r line number name size} : Before source r line number →
    r.scopes = [Model.document] →
    Directive.ofLine line = .ok (.field name size) →
    (∃ item, r.Puts line number item) ∧
      ∀ {top outer path e'}, Walk.OfDocument m e (.inside top outer path e') → r.Meets m top →
        (Walk.step m top outer path e').emitter.lines =
          match top.childStart with
          | some address => e'.lines.push
            (.symbol (r.namespaces.qualify name) (.number address) line.comment)
          | none => e'.lines
  /-- A step that leaves a namespace leaves one that is open, -/
  leaves {id start e₀ top outer path e'} : (id = Model.document → e₀.namespaces = .root) →
    Walk.Reaches m (.ofGroup m id start e₀) (.inside top outer path e') → top.leaves →
    ∃ name, e'.namespaces = (Walk.step m top outer path e').emitter.namespaces.enter name
  /-- and any other step leaves none. -/
  keeps {top outer path e'} : ¬ top.leaves →
    e'.namespaces.names <:+ (Walk.step m top outer path e').emitter.namespaces.names
  /-- At the end of the document the namespaces are those at the end of the source. -/
  document : (e.document m).2.namespaces = (start.steps source).namespaces
  /-- After any other group they are as before it. -/
  group {id} : id ≠ Model.document → ∀ (start : Cursor) (e : Emitter),
    (e.group m id start).2.namespaces = e.namespaces

/-- **Agreement.** For every source, sound or not, and every emitter, the layouts of its model
agree with its reading on the namespaces at each item of the document, on the names that are
emitted there, and on what is open in the end. -/
theorem namespaces_agree (source : List (Line × UInt32)) (e : Emitter) :
    Agreement source (start.steps source).finish.model e := by
  rw [finish_model]
  have hm := wellFormed_model source
  obtain ⟨items, hitems⟩ := delivers_steps wellFormed_start source
  have hmembers : (start.steps source).model.members Model.document = items := hitems.members
  refine ⟨getElem?_members_iff, fun h hp => exists_meets h hp e,
    fun h hp => namespaces_of_meets h hp, ?assigned, ?field, ?leaves,
    fun hl => Walk.suffix_step_of_not_leaves hl _ _, ?document, ?group⟩
  case assigned =>
    intro r line number name operand h hs hd
    have hp : r.Puts line number _ := puts_assignment h.wellFormed hs hd
    refine ⟨⟨_, hp⟩, fun hg hf => ?_⟩
    obtain ⟨rest, hrest⟩ := hf.rest_eq h hp
    rw [Walk.lines_step_of_assignment hrest, namespaces_of_meets h hp hg hf]
  case field =>
    intro r line number name size h hs hd
    have hp : r.Puts line number _ := puts_field h.wellFormed hs hd
    refine ⟨⟨_, hp⟩, fun hg hf => ?_⟩
    obtain ⟨rest, hrest⟩ := hf.rest_eq h hp
    rw [Walk.lines_step_of_field hrest, namespaces_of_meets h hp hg hf]
  case leaves =>
    intro id start e₀ top outer path e' hid hr hl
    have hs := Walk.within_of_reaches hm hr (Walk.within_ofGroup ..)
    have hne : e'.namespaces ≠ .root :=
      Walk.Stacked.ne_root_of_leaves hm (fun hd => hid hd ▸ hmembers ▸ hitems.admits) hs hl
    obtain ⟨name, hname⟩ := Namespaces.exists_eq_enter_leave hne
    exact ⟨name, by rw [Walk.namespaces_step_of_leaves hl, ← hname]⟩
  case document =>
    rw [Emitter.document, Walk.namespaces_group hm, hmembers]
    exact hitems.namespaces.symm
  case group =>
    intro id hid start e
    rw [Walk.namespaces_group hm, Walk.after_members hm hid]

end Reading
end HeaderSymbols
