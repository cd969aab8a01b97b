import HeaderSymbols.Proofs.Agreement
import HeaderSymbols.Proofs.File.Transaction
import HeaderSymbols.Proofs.Order
import HeaderSymbols.Proofs.Source.Insertion
import HeaderSymbols.Proofs.Source.Single

/-!
# Lines without words

A line without words says nothing to a reading but its comment, and that goes to the document
wherever the line stands, inside of open structures and namespaces as well. So one more of them
changes nothing but the numbers of the lines after it, and puts one more line into the output, at
the place that the document has got to by then.

* `exists_ofModel_of_text`: a text that the document has is passed on where it stands, and the rest
  of the layout does not notice.
* `numbered_inserted`: the numbers of the lines after one that was put in.
* `ofLines_inserted`: what is read.
* `wordless_line_inert`: so the source converts alike.
-/
namespace HeaderSymbols

/-! ## Layouts -/

/-- The document as the first frame of its walk, with these items still to come. -/
def Frame.ofDocument (items : List Item) (cursor : Cursor) : Frame :=
  ⟨Model.document, .struct, items, none, cursor, false⟩

section
variable {m m' : Model} (hm : m.WellFormed)

include hm

theorem Model.WellFormed.kind_document : m.kind Model.document = .struct := by
  simp [Model.kind, hm.top]

theorem Walk.ofGroup_document (e : Emitter) :
    ofGroup m Model.document none e =
      .inside (.ofDocument (m.members Model.document) none) [] [Model.document] e := by
  rw [ofGroup, Frame.new, hm.kind_document, Frame.ofDocument]

/-- The first items of the document are laid out in the same way whatever comes after them. -/
theorem Walk.exists_reaches_front {xs : List Item} (hxs : ∀ i ∈ xs, i ∈ m.members Model.document)
    (cursor : Cursor) (e : Emitter) : ∃ cursor' e', ∀ rest,
      Reaches m (.inside (.ofDocument (xs ++ rest) cursor) [] [Model.document] e)
        (.inside (.ofDocument rest cursor') [] [Model.document] e') :=
  let laid := Descent.members hm.wellNested [Model.document] Model.document none xs hxs cursor e
  ⟨laid.1, laid.2, fun rest => Descent.reaches_front hm.wellNested
    (f := .ofDocument (xs ++ rest) cursor) hm.kind_document.symm xs rest rfl hxs [] e⟩

/-- The last items of the document are laid out in the same way whatever was emitted before. -/
theorem Walk.exists_reaches_ended {ys : List Item} (hys : ∀ i ∈ ys, i ∈ m.members Model.document)
    (cursor : Cursor) (ns : Namespaces) : ∃ finish later, ∀ base : Emitter, base.namespaces = ns →
      Reaches m (.inside (.ofDocument ys cursor) [] [Model.document] base)
        (.ended finish (base.after later)) := by
  obtain ⟨finish, later, h⟩ := exists_reaches_front hm hys cursor (.within ns)
  have hends := (h []).trans (.step (.refl _))
  rw [List.append_nil] at hends
  refine ⟨finish, later, fun base hns => ?_⟩
  subst hns
  have hafter := hends.after base
  simp only [Walk.after, Emitter.after_within] at hafter
  exact hafter

/-- A model is laid out like one that has in its document one text more, but for the line of the
text, which comes after everything that is emitted for the items before it. -/
theorem Emitter.exists_ofModel_of_text (h : m.Beside m') {xs ys : List Item}
    {comment : Option String} (hd : m.members Model.document = xs ++ ys)
    (hd' : m'.members Model.document = xs ++ .text comment :: ys) :
    ∃ top e later, Walk.OfDocument m .new (.inside top [] [Model.document] e) ∧
      top.group = Model.document ∧ top.rest = ys ∧ ofModel m = e.after later ∧
      ofModel m' = (e.emit (.text comment)).after later := by
  have hxs : ∀ i ∈ xs, i ∈ m.members Model.document := fun i hi => hd ▸ List.mem_append_left ys hi
  have hys : ∀ i ∈ ys, i ∈ m.members Model.document := fun i hi => hd ▸ List.mem_append_right xs hi
  obtain ⟨cursor, e, hfront⟩ := Walk.exists_reaches_front hm hxs none new
  obtain ⟨finish, later, hback⟩ := Walk.exists_reaches_ended hm hys cursor e.namespaces
  have hroot := Walk.ofGroup_document hm new
  rw [hd] at hroot
  have hroot' : Walk.ofGroup m' Model.document none new =
      .inside (.ofDocument (xs ++ .text comment :: ys) none) [] [Model.document] new := by
    rw [Walk.ofGroup, Frame.new, h.kind, hm.kind_document, hd', Frame.ofDocument]
  have hreaches : Walk.OfDocument m new (.inside (.ofDocument ys cursor) [] [Model.document] e) := by
    rw [Walk.OfDocument, show new.clear = new from rfl, hroot]
    exact hfront ys
  -- the other walk passes the text on and is then where this one is
  have hapart : (Frame.ofDocument (xs ++ .text comment :: ys) none).Apart := fun hmem => by
    have hnests : m.Nests Model.document Model.document := by
      rw [Model.Nests, hd]
      simpa [Frame.ofDocument] using hmem
    exact Walk.ne_document_of_nests hm hnests rfl
  have hreaches' := ((hfront (.text comment :: ys)).trans
    (.step (hback (e.emit (.text comment)) rfl))).of_beside hm h
    (List.forall_mem_singleton.2 hapart)
  refine ⟨_, e, later.trailers m, hreaches, rfl, rfl, ?_, ?_⟩
  · rw [ofModel, ← after_trailers hm.wellNested]
    exact congrArg (trailers m ·.2) (Walk.run_eq_of_reaches (hreaches.trans (hback e rfl)))
  · rw [ofModel, trailers_of_beside hm h, ← after_trailers hm.wellNested]
    exact congrArg (trailers m ·.2) (Walk.run_eq_of_reaches (hroot' ▸ hreaches'))

end

/-! ## Numbers of lines -/

/-- The number that a line has once another one was put in after the first `k` lines. -/
def inserted (k : Nat) (number : UInt32) : UInt32 :=
  if k < number.toNat then number + 1 else number

namespace Reading

/-- The lines of a source in which a line was put in. -/
theorem numbered_inserted {before after : List Line} (line : Line)
    (h : (before ++ after).length < UInt32.size - 1) :
    numbered (before ++ line :: after) =
      (numbered before).map (Line.renameNumbered (.renumber (inserted before.length))) ++
        (line, UInt32.ofNat before.length + 1) ::
          (numberedFrom before.length after).map
            (Line.renameNumbered (.renumber (inserted before.length))) := by
  rw [List.length_append] at h
  have hbefore : (numberedFrom 0 before).map
      (Line.renameNumbered (.renumber (inserted before.length))) = numberedFrom 0 before :=
    map_numberedFrom fun i hi => by
      rw [inserted, toNat_number (by omega), if_neg (by omega)]
  have hafter : (numberedFrom before.length after).map
      (Line.renameNumbered (.renumber (inserted before.length))) =
        numberedFrom (before.length + 1) after :=
    map_numberedFrom fun i hi => by
      rw [inserted, toNat_number (by omega), if_pos (by omega),
        show before.length + 1 + i = before.length + i + 1 by omega, UInt32.ofNat_add _ 1]
      rfl
  rw [show numbered before = numberedFrom 0 before from rfl, hbefore, hafter]
  show numberedFrom 0 _ = _
  rw [numberedFrom_append, Nat.zero_add]
  rfl

/-! ## Readings -/

section
variable {before after : List Line} {line : Line}

/-- A source with one more line without words is read like the source, but for the numbers of the
lines after it and the text that the document gets. -/
theorem ofLines_inserted (hline : line.words = [])
    (hlength : (before ++ after).length < UInt32.size - 1) :
    let r := start.steps (numbered before)
    ofLines (before ++ line :: after) =
      ((ofLines (before ++ after)).insert (r.model.members Model.document).length
        (.text line.comment)).rename (.renumber (inserted before.length)) := by
  intro r
  have hr : r.WellFormed := wellFormed_steps wellFormed_start _
  have hρ := Renaming.inPlace_renumber (inserted before.length)
  have hblank (r : Reading) (number : UInt32) :
      r.step line number = r.note (.text line.comment) := by
    rw [step_of_ok ((Directive.ofLine_eq_blank_iff line).2 hline)]
    rfl
  have hsource :
      numbered (before ++ after) = numbered before ++ numberedFrom before.length after := by
    show numberedFrom 0 _ = _
    rw [numberedFrom_append, Nat.zero_add]
    rfl
  have hnote : (r.rename (.renumber (inserted before.length))).note (.text line.comment) =
      (r.note (.text line.comment)).rename (.renumber (inserted before.length)) :=
    (rename_note r (.text line.comment)).symm
  rw [ofLines, ofLines, numbered_inserted line hlength, steps_append, steps_cons, hblank,
    ← rename_start (ρ := .renumber (inserted before.length)), steps_rename hρ, hnote,
    steps_rename hρ, note_eq_insert, steps_insert hr (Nat.le_refl _), ← rename_finish,
    insert_finish, rename_start, hsource, steps_append]

/-- So it is laid out like the source, but for the line of that text. -/
theorem exists_layout_inserted (hline : line.words = [])
    (hlength : (before ++ after).length < UInt32.size - 1) :
    let m := (ofLines (before ++ after)).model
    ∃ top e later, Walk.OfDocument m .new (.inside top [] [Model.document] e) ∧
      (start.steps (numbered before)).Meets m top ∧ Emitter.ofModel m = e.after later ∧
      Emitter.ofModel (ofLines (before ++ line :: after)).model =
        ((e.emit (.text line.comment)).after later).rename
          (.renumber (inserted before.length)) := by
  intro m
  have hm : m.WellFormed := wellFormed_ofLines _
  have hmembers := Model.members_insert hm
    ((start.steps (numbered before)).model.members Model.document).length (.text line.comment)
  obtain ⟨top, e, later, hreaches, hgroup, hrest, hlaid, hlaid'⟩ :=
    Emitter.exists_ofModel_of_text hm (Model.beside_insert m _ _)
      (List.take_append_drop _ (m.members Model.document)).symm hmembers
  refine ⟨top, e, later, hreaches, ⟨hgroup, hrest⟩, hlaid, ?_⟩
  rw [ofLines_inserted hline hlength, ← hlaid']
  exact Emitter.rename_ofModel (Model.renames_rename (Renaming.inPlace_renumber _) _)
    (Model.wellNested_insert_text hm _ _)

end

end Reading

/-! ## Sources -/

theorem Emitter.output_emit {e : Emitter} (line : OutputLine) :
    (e.emit line).output = e.output ++ (line.render ++ "\n") := by
  simp [output, emit, OutputLine.renderAll, String.join_append]

/-- The second output is the first with one line more, of this comment or of nothing, after all that
is emitted for the items that a reading had given to the document. -/
structure Conversion.Gains (o : Options) (m : Model) (r : Reading) (comment : Option String)
    (c c' : Conversion) : Prop where
  output : ∃ top e later, Walk.OfDocument m .new (.inside top [] [Model.document] e) ∧
    r.Meets m top ∧ c.output = o.prologue ++ e.output ++ later ∧
    c'.output = o.prologue ++ e.output ++ (comment.getD "" ++ "\n") ++ later
  single : Single (comment.getD "")
  lines : c'.lines = c.lines + 1
  symbols : c'.symbols = c.symbols

/-- **Lines without words.** A line without words may be put in anywhere. A source converts with it
if and only if it does without. The output then has one line more, the comment of the line or an
empty one, after everything that is emitted for the items that the lines before it gave to the
document. A failure has the same diagnostics, with the lines after it counted one further. -/
theorem wordless_line_inert (o : Options) (file : String) {source source' : String}
    {before after : List Line} {line : Line} (hsource : Line.ofSource source = before ++ after)
    (hsource' : Line.ofSource source' = before ++ line :: after) (hline : line.words = [])
    (hlength : (before ++ after).length < UInt32.size - 1) :
    Alike
      (Conversion.Gains o (Reading.ofLines (before ++ after)).model
        (Reading.start.steps (Reading.numbered before)) line.comment)
      (Failure.Renumbers (inserted before.length)) (convert o file source)
      (convert o file source') := by
  obtain ⟨top, e, later, hreaches, hmeets, hlaid, hlaid'⟩ :=
    Reading.exists_layout_inserted hline hlength
  have hread := congrArg Reading.findings (Reading.ofLines_inserted hline hlength)
  rw [← hsource] at hread hlaid hreaches hmeets ⊢
  rw [← hsource'] at hread hlaid'
  have hfound : foundIn source' =
      (foundIn source).map (·.rename (.renumber (inserted before.length))) := by
    rw [foundIn, foundIn, layoutOf, layoutOf, hread, hlaid, hlaid']
    simp [Reading.rename, Reading.insert, Emitter.rename, Emitter.after, Emitter.emit]
  refine alike_convert o file ?nothing ?success ?failure
  case nothing => rw [hfound, List.map_eq_nil_iff]
  case success =>
    have houtput : (layoutOf source).output = e.output ++ later.output := by
      rw [layoutOf, hlaid, Emitter.output_after]
    have houtput' : (layoutOf source').output =
        e.output ++ (line.comment.getD "" ++ "\n") ++ later.output := by
      rw [layoutOf, hlaid', Emitter.output_rename fun _ => rfl, Emitter.output_after,
        Emitter.output_emit]
      rfl
    have hmem : line ∈ Line.ofSource source' := by simp [hsource']
    refine ⟨⟨top, e, later.output, hreaches, hmeets, ?_, ?_⟩,
      (Line.single_of_mem_ofSource hmem).getD_comment, ?_, ?_⟩
    · simp only [houtput, String.append_assoc]
    · simp only [houtput', String.append_assoc]
    · simp only [hsource, hsource', List.length_append, List.length_cons, Nat.add_assoc]
    · dsimp only
      rw [layoutOf, layoutOf, hlaid, hlaid', Emitter.symbols_rename, Emitter.symbols_after,
        Emitter.symbols_after]
      simp [Emitter.emit]
  case failure =>
    rw [hfound]
    exact Failure.renumbers_of_map_rename file _ _

/-- A header still converts with a comment inside of its first structure. -/
theorem wordless_line_inert_specimen :
    let source := "kernel_event_event_t .struct\n; an event\n.ends\nkernel_time_t .struct\n.ends\n"
    ∃ before line after, Line.ofSource specimenHeader = before ++ after ∧
      Line.ofSource source = before ++ line :: after ∧ line.words = [] ∧
      line.comment = some "; an event" ∧ (before ++ after).length < UInt32.size - 1 ∧
      ∃ c, convert .standard "api.asm" source = .ok c ∧ c.lines = 5 ∧ c.symbols = 0 := by
  intro source
  let before : List Line :=
    [⟨"kernel_event_event_t .struct", ["kernel_event_event_t", ".struct"], none⟩]
  let line : Line := ⟨"; an event", [], some "; an event"⟩
  let after : List Line :=
    [⟨".ends", [".ends"], none⟩, ⟨"kernel_time_t .struct", ["kernel_time_t", ".struct"], none⟩,
      ⟨".ends", [".ends"], none⟩]
  have hheader : Line.ofSource specimenHeader = before ++ after := by decide +kernel
  have hsource : Line.ofSource source = before ++ line :: after := by decide +kernel
  refine ⟨before, line, after, hheader, hsource, rfl, rfl, by decide, ?_⟩
  have halike := wordless_line_inert .standard "api.asm" hheader hsource rfl (by decide)
  rw [convert_specimenHeader] at halike
  generalize convert .standard "api.asm" source = outcome at halike ⊢
  cases halike with
  | ok h => exact ⟨_, rfl, h.lines, h.symbols⟩

end HeaderSymbols
