import HeaderSymbols.Proofs.Layout.Recursion
import HeaderSymbols.Proofs.Order
import HeaderSymbols.Proofs.Source.Origin

/-!
# The lines that findings are about

A layout meets a line of the source long after it was read, and often far from where it stands: a
structure is laid out where it is expanded. Yet each finding of a layout is about one item, and has
the number of the line which that item comes from.

* `Item.Blames`: what an item can be found to be wrong.
* `blames_visit`, `blames_layout`: each finding of a layout is about an item of the model.
* `blames_ofModel`: or about a structure that the output must have and the source does not.
* `findings_have_lines`: so it names the line that is at fault, and no other.
-/
namespace HeaderSymbols

/-! ## Items -/

/-- What can be found to be wrong with an item of a model. -/
inductive Item.Blames (m : Model) : Item → Finding → Prop where
  | skipOutside {amount line} : Blames m (.skip amount line) ⟨some line, .skipOutsideRegion⟩
  | skipTooFar {amount line} : Blames m (.skip amount line) ⟨some line, .addressOverflow⟩
  | memberOutside {mem} : Blames m (.member mem) ⟨some mem.line, .memberOutsideRegion⟩
  | fieldTooFar {mem} (plain : mem.layout = none) :
    Blames m (.member mem) ⟨some mem.line, .addressOverflow⟩
  | unsized {mem name} (plain : mem.layout = none) (unsized : mem.size = none) :
    Blames m (.member mem) ⟨some mem.line, .unsizedMember name⟩
  | unknown {mem name} (layout : mem.layout = some name) (nowhere : m.lookup name = none) :
    Blames m (.member mem) ⟨some mem.line, .unknownStructure name⟩
  | recursive {mem name} (layout : mem.layout = some name) :
    Blames m (.member mem) ⟨some mem.line, .recursiveStructure name⟩

namespace Emitter

variable {m : Model} {e e' : Emitter} {f : Finding}

theorem mem_findings_report {line : Option UInt32} {fault : Fault}
    (h : f ∈ (e.report line fault).findings) : f ∈ e.findings ∨ f = ⟨line, fault⟩ := by
  simpa [report] using h

theorem mem_findings_advance {address amount : UInt64} {line : UInt32}
    (h : f ∈ (e.advance address amount line).1.findings) :
    f ∈ e.findings ∨ f = ⟨some line, .addressOverflow⟩ := by
  unfold advance at h
  split at h
  · exact .inl h
  · exact mem_findings_report h

/-- What is met at a field is about the field. -/
theorem blames_field {mem : Member} (hl : mem.layout = none) (start : Cursor) (e : Emitter)
    (h : f ∈ (e.field mem start).1.findings) : f ∈ e.findings ∨ (Item.member mem).Blames m f := by
  cases start with
  | none =>
    rcases mem_findings_report h with h | rfl
    · exact .inl h
    · exact .inr .memberOutside
  | some address =>
    simp only [field] at h
    cases hs : mem.size with
    | none =>
      rw [hs] at h
      rcases mem_findings_report h with h | rfl
      · exact .inl h
      · exact .inr (.unsized hl hs)
    | some size =>
      rw [hs] at h
      rcases mem_findings_advance h with h | rfl
      · exact .inl h
      · exact .inr (.fieldTooFar hl)

/-- What is met at an item is about the item. -/
theorem blames_visit (path : List GroupId) (start : Cursor) (e : Emitter) (i : Item)
    (h : f ∈ (e.visit m path start i).1.findings) : f ∈ e.findings ∨ i.Blames m f := by
  cases i with
  | skip amount line =>
    cases start with
    | none =>
      rcases mem_findings_report h with h | rfl
      · exact .inl h
      · exact .inr .skipOutside
    | some address =>
      rcases mem_findings_advance h with h | rfl
      · exact .inl h
      · exact .inr .skipTooFar
  | member mem =>
    simp only [visit, member] at h
    cases hl : mem.layout with
    | none =>
      rw [hl] at h
      exact blames_field hl start e h
    | some name =>
      simp only [hl] at h
      split at h
      · exact .inl h
      · rename_i hr
        rcases mem_findings_report h with h | rfl
        · exact .inl h
        · rcases resolve_eq_error hr with ⟨-, rfl⟩ | ⟨hn, rfl⟩ | ⟨-, -, -, rfl⟩
          · exact .inr .memberOutside
          · exact .inr (.unknown hl hn)
          · exact .inr (.recursive hl)
  | _ => exact .inl h

end Emitter

/-! ## Layouts -/

/-- Whatever is found between two emitters is about an item of the model. -/
def Emitter.Blames (m : Model) (e e' : Emitter) : Prop :=
  ∀ f ∈ e'.findings, f ∈ e.findings ∨ ∃ id, ∃ i ∈ m.members id, i.Blames m f

theorem Emitter.Blames.trans {m : Model} {e₁ e₂ e₃ : Emitter} (h : Blames m e₁ e₂)
    (h' : Blames m e₂ e₃) : Blames m e₁ e₃ :=
  fun f hf => (h' f hf).elim (h f) .inr

namespace Descent

theorem blames_layout {m : Model} (hm : m.WellNested) (path : List GroupId) (id : GroupId) :
    Yields hm (fun _ _ e _ _ e' => e.Blames m e') (fun _ _ _ _ _ e _ e' => e.Blames m e')
      (fun _ _ _ e _ e' => e.Blames m e') path id := by
  refine induct hm (fun {path id start e i c e'} hi hv f hf => ?finish) (fun _ _ hg => hg)
    (fun _ _ _ hg => hg) (fun f hf => .inl hf) (fun _ _ hi _ hr => hi.trans hr) (fun h => h) path id
  have hblames := Emitter.blames_visit (m := m) path start e i (f := f) (by rw [hv]; exact hf)
  exact hblames.imp_right fun hb => ⟨id, i, hi, hb⟩

end Descent

namespace Emitter

variable {m : Model} (hm : m.WellNested)

include hm

theorem blames_group (e : Emitter) (id : GroupId) (start : Cursor) :
    e.Blames m (e.group m id start).2 := by
  rw [Descent.group_eq hm]
  exact (Descent.blames_layout hm [id] id).group rfl

theorem blames_named (e : Emitter) (namespaceName key : String) (start : UInt64) :
    ∀ f ∈ (e.named m namespaceName key start).2.findings,
      f ∈ e.findings ∨ f = ⟨none, .missingStructure key⟩ ∨
        ∃ id, ∃ i ∈ m.members id, i.Blames m f := by
  intro f hf
  unfold named at hf
  cases hl : m.lookup key with
  | none =>
    rw [hl] at hf
    exact (mem_findings_report hf).imp_right .inl
  | some id =>
    rw [hl] at hf
    exact (blames_group hm (e.clear.enter namespaceName) id (some start) f hf).imp_right .inr

/-- Each finding of the layout of a model is about an item of it, or about one of the structures
that every output has. -/
theorem blames_ofModel : ∀ f ∈ (ofModel m).findings,
    (∃ t ∈ HeaderSymbols.trailers, f = ⟨none, .missingStructure t.2⟩) ∨
      ∃ id, ∃ i ∈ m.members id, i.Blames m f := by
  intro f hf
  simp only [ofModel, trailers, HeaderSymbols.trailers, List.foldl_cons, List.foldl_nil] at hf
  rcases blames_named hm _ _ _ _ f hf with hf | rfl | hf
  · rcases blames_named hm _ _ _ _ f hf with hf | rfl | hf
    · rcases blames_group hm _ _ _ f hf with hf | hf
      · exact absurd hf (Array.not_mem_empty f)
      · exact .inr hf
    · exact .inl ⟨_, .head _, rfl⟩
    · exact .inr hf
  · exact .inl ⟨_, .tail _ (.head _), rfl⟩
  · exact .inr hf

end Emitter

/-! ## Lines -/

/-- A skip of two words. -/
def Line.Skips (line : Line) : Prop :=
  ∃ word argument amount, (word = ".word" ∨ word = ".fill") ∧ line.words = [word, argument] ∧
    Directive.ofLine line = .ok (.skip amount)

/-- A member with a size of its own. -/
def Line.Sizes (line : Line) : Prop :=
  ∃ name word argument size, word ∈ [".byte", ".word", ".dword", ".fill"] ∧
    line.words = [name, word, argument] ∧ Directive.ofLine line = .ok (.field name size)

/-- A member that refers to a structure. -/
def Line.Refers (line : Line) (reference : String) : Prop :=
  ∃ name, line.words = [name, ".dstruct", reference] ∧
    Directive.ofLine line = .ok (.instantiate name reference)

theorem Line.skips_of_ofLine {line : Line} {amount : UInt64}
    (h : Directive.ofLine line = .ok (.skip amount)) : line.Skips := by
  have hs := Directive.spelled_ofLine h
  generalize hw : line.words = words at hs
  cases hs with
  | alone listed => simp [Directive.alone] at listed
  | skipWord word => exact ⟨_, word, 2, .inl rfl, hw, h⟩
  | skipFill reads => exact ⟨_, _, amount, .inr rfl, hw, h⟩

theorem Line.sizes_of_ofLine {line : Line} {name : String} {size : UInt64}
    (h : Directive.ofLine line = .ok (.field name size)) : line.Sizes := by
  have hs := Directive.spelled_ofLine h
  generalize hw : line.words = words at hs
  cases hs with
  | alone listed => simp [Directive.alone] at listed
  | field name word listed =>
    refine ⟨name, _, word, size, ?_, hw, h⟩
    simp only [List.mem_cons, Prod.mk.injEq, List.not_mem_nil, or_false] at listed
    rcases listed with ⟨rfl, -⟩ | ⟨rfl, -⟩ | ⟨rfl, -⟩ <;> decide
  | fill name reads => exact ⟨name, _, _, size, by decide, hw, h⟩

theorem Line.refers_of_ofLine {line : Line} {name reference : String}
    (h : Directive.ofLine line = .ok (.instantiate name reference)) : line.Refers reference := by
  have hs := Directive.spelled_ofLine h
  generalize hw : line.words = words at hs
  cases hs with
  | alone listed => simp [Directive.alone] at listed
  | instantiate => exact ⟨name, hw, h⟩

/-- What can be found to be wrong when a line is laid out, which was read in these namespaces. -/
inductive Line.Blamed (source : List (Line × UInt32)) (ns : Namespaces) (line : Line) :
    Fault → Prop where
  | skipOutside (skips : line.Skips) : Blamed source ns line .skipOutsideRegion
  | memberOutside (member : line.Sizes ∨ ∃ reference, line.Refers reference) :
    Blamed source ns line .memberOutsideRegion
  | tooFar (moves : line.Skips ∨ line.Sizes) : Blamed source ns line .addressOverflow
  | unknown {reference} (refers : line.Refers reference)
      (nowhere : ¬ Reading.Registers source (ns.structureName reference)) :
    Blamed source ns line (.unknownStructure (ns.structureName reference))
  | recursive {reference} (refers : line.Refers reference) :
    Blamed source ns line (.recursiveStructure (ns.structureName reference))

namespace Reading

variable {r : Reading} {line : Line} {number : UInt32}

/-- The lines before a line of a source, and its number. -/
theorem Before.exists_eq {lines : List Line} (h : Before (numbered lines) r line number) :
    ∃ before after, lines = before ++ line :: after ∧ r = start.steps (numbered before) ∧
      number = UInt32.ofNat before.length + 1 := by
  obtain ⟨xs, ys, hlines, rfl⟩ := h
  have hfst : lines = xs.map Prod.fst ++ line :: ys.map Prod.fst := by
    rw [← numbered_fst lines, hlines, List.map_append, List.map_cons]
  have hnumbered : numbered lines = numbered (xs.map Prod.fst) ++
      numberedFrom (xs.map Prod.fst).length (line :: ys.map Prod.fst) := by
    rw [hfst]
    show numberedFrom 0 _ = _
    rw [numberedFrom_append, Nat.zero_add]
    rfl
  obtain ⟨hxs, hrest⟩ := List.append_inj (hlines.symm.trans hnumbered) (by simp [numbered])
  exact ⟨_, _, hfst, congrArg start.steps hxs, (Prod.mk.inj (List.cons.inj hrest).1).2⟩

/-- What is wrong with the item of a line is wrong with the line. -/
theorem Gives.blamed {source : List (Line × UInt32)} {item : Item} {f : Finding}
    (h : r.Gives line number item)
    (hsized : ∀ mem, item = .member mem → mem.layout = none → ∃ size, mem.size = some size)
    (hb : item.Blames (start.steps source).model f) :
    f.line = some number ∧ line.Blamed source r.namespaces f.fault := by
  cases hb with
  | skipOutside | skipTooFar =>
    obtain ⟨rfl, hd⟩ := h.skip
    have hskips := Line.skips_of_ofLine hd
    first
    | exact ⟨rfl, .skipOutside hskips⟩
    | exact ⟨rfl, .tooFar (.inl hskips)⟩
  | memberOutside =>
    obtain ⟨hline, ⟨size, hd, -⟩ | ⟨reference, hd, -⟩⟩ := h.member
    · exact ⟨congrArg some hline, .memberOutside (.inl (Line.sizes_of_ofLine hd))⟩
    · exact ⟨congrArg some hline, .memberOutside (.inr ⟨_, Line.refers_of_ofLine hd⟩)⟩
  | fieldTooFar plain =>
    obtain ⟨hline, ⟨size, hd, -⟩ | ⟨reference, hd, hl⟩⟩ := h.member
    · exact ⟨congrArg some hline, .tooFar (.inr (Line.sizes_of_ofLine hd))⟩
    · rw [plain] at hl
      cases hl
  | unsized plain unsized =>
    obtain ⟨size, hsize⟩ := hsized _ rfl plain
    cases unsized.symm.trans hsize
  | unknown layout nowhere | recursive layout =>
    obtain ⟨hline, ⟨size, -, hl⟩ | ⟨reference, hd, hl⟩⟩ := h.member
    · rw [layout] at hl
      cases hl
    · rw [layout] at hl
      cases hl
      first
      | exact ⟨congrArg some hline,
          .unknown (Line.refers_of_ofLine hd) (lookup_eq_none_iff.1 nowhere)⟩
      | exact ⟨congrArg some hline, .recursive (Line.refers_of_ofLine hd)⟩

end Reading

/-- **Findings.** Each finding of the layout of a source is that a structure is missing which every
output has, and has no line, or it has the number of a line of the source, and is one that this line
can be to blame for. -/
theorem findings_have_lines (source : String)
    (hlength : (Line.ofSource source).length < UInt32.size) :
    ∀ f ∈ (layoutOf source).findings,
      (∃ t ∈ trailers, f = ⟨none, .missingStructure t.2⟩) ∨
        ∃ before line after number, Line.ofSource source = before ++ line :: after ∧
          f.line = some number ∧ number.toNat = before.length + 1 ∧
          line.Blamed (Reading.numbered (Line.ofSource source))
            (Reading.start.steps (Reading.numbered before)).namespaces f.fault := by
  intro f hf
  have hforest := Reading.forest_steps (Reading.numbered (Line.ofSource source))
  rw [layoutOf, Reading.ofLines, Reading.finish_model] at hf
  refine (Emitter.blames_ofModel hforest.wellNested f hf).imp_right ?_
  rintro ⟨id, i, hi, hblames⟩
  have hplain : i.isGroup = false := by
    cases hblames <;> rfl
  obtain ⟨r, line, number, hbefore, hgives⟩ := Reading.exists_gives hi hplain
  obtain ⟨hline, hblamed⟩ := hgives.blamed (fun mem hmem => hforest.exists_size (hmem ▸ hi)) hblames
  obtain ⟨before, after, hsource, rfl, rfl⟩ := hbefore.exists_eq
  rw [hsource, List.length_append, List.length_cons] at hlength
  exact ⟨before, line, after, _, hsource, hline, Reading.toNat_number (by omega), hblamed⟩

/-- A reference to a structure that is nowhere is found at the line that refers to it. -/
theorem findings_have_lines_specimen :
    let source := ".virtual 0\nkey .dstruct event.id\n"
    let f : Finding := ⟨some 2, .unknownStructure "event_id"⟩
    (Line.ofSource source).length < UInt32.size ∧ f ∈ (layoutOf source).findings ∧
      ∃ before line after, Line.ofSource source = before ++ line :: after ∧ before.length = 1 ∧
        line.Blamed (Reading.numbered (Line.ofSource source))
          (Reading.start.steps (Reading.numbered before)).namespaces f.fault := by
  intro source f
  let m : Model := ⟨#[⟨.struct, #[.region (some 0),
    .member ⟨"key", none, none, some "event_id", 2⟩]⟩], []⟩
  have hmodel : (Reading.ofLines (Line.ofSource source)).model = m := by decide +kernel
  have hdocument : Emitter.new.document m = (some 0, Emitter.new.report (some 2) f.fault) :=
    Walk.run_eq_of_reaches (.step (.step (.step (.refl _))))
  have hlength : (Line.ofSource source).length < UInt32.size := by decide +kernel
  have hf : f ∈ (layoutOf source).findings := by
    rw [layoutOf, hmodel, Emitter.ofModel, hdocument]
    simp [Emitter.trailers, trailers, Emitter.named, m, Model.lookup, Emitter.report, Emitter.clear,
      f]
  refine ⟨hlength, hf, ?_⟩
  rcases findings_have_lines source hlength f hf with ⟨t, -, ht⟩ | ⟨before, line, after, number,
    hsource, hnumber, hbefore, hblamed⟩
  · simp [f] at ht
  · refine ⟨before, line, after, hsource, ?_, hblamed⟩
    cases hnumber
    exact (Nat.succ.inj hbefore).symm

end HeaderSymbols
