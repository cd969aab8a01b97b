import HeaderSymbols.Proofs.Conversion
import HeaderSymbols.Proofs.Source.Single

/-!
# The lines passed on

A line without words is passed on: its comment, or an empty line, is in the output, once and in its
place among the others, wherever the line stands. The document has all of these texts and no other
group has any, so that a structure that is expanded again and again, or never, has no part in this.
All other lines of an output are symbols, and as none goes over a line, the ends of lines count them
all.

* `passes_layout`, `passes_document`: the texts that a group and the document pass on.
* `texts_step`, `texts_ofLines`: the texts that the document has.
* `count_renderAll`, `count_prologue`: the ends of lines.
* `texts_are_passed_on`: so the texts and the lines of an output.
-/
namespace HeaderSymbols

/-! ## Items -/

/-- The lines that an item passes on. -/
def Item.texts : Item → List OutputLine
  | text comment => [.text comment]
  | _ => []

/-- The lines that are passed on for source lines: a comment or an empty line for each of those
without words. -/
def Line.texts (lines : List Line) : List OutputLine :=
  (lines.filter (·.words.isEmpty)).map fun line => .text line.comment

theorem Item.texts_of_isPlaced {i : Item} (h : i.isPlaced = true) : i.texts = [] := by
  cases i <;> first | rfl | cases h

theorem Model.WellFormed.texts_members {m : Model} (hm : m.WellFormed) {id : GroupId}
    (hid : id ≠ Model.document) : (m.members id).flatMap Item.texts = [] := by
  rw [List.flatMap_eq_nil_iff]
  exact fun i hi => Item.texts_of_isPlaced (hm.placed id hid i hi)

/-! ## Layouts -/

/-- The second emitter has emitted more lines than the first, symbols and these texts. -/
def Emitter.Passes (e e' : Emitter) (texts : List OutputLine) : Prop :=
  ∃ added, e'.lines.toList = e.lines.toList ++ added ∧ added.filter (!·.isSymbol) = texts

namespace Emitter

variable {m : Model} {e e' : Emitter}

theorem Passes.of_lines_eq (h : e'.lines = e.lines) : e.Passes e' [] := ⟨[], by simp [h], rfl⟩

theorem Passes.trans {e₁ e₂ e₃ : Emitter} {xs ys : List OutputLine} (h : e₁.Passes e₂ xs)
    (h' : e₂.Passes e₃ ys) : e₁.Passes e₃ (xs ++ ys) := by
  obtain ⟨added, he, rfl⟩ := h
  obtain ⟨added', he', rfl⟩ := h'
  exact ⟨added ++ added', by rw [he', he, List.append_assoc], List.filter_append ..⟩

theorem passes_emit (e : Emitter) (line : OutputLine) :
    e.Passes (e.emit line) ([line].filter (!·.isSymbol)) := ⟨[line], by simp [emit], rfl⟩

theorem passes_field (e : Emitter) (mem : Member) (start : Cursor) :
    e.Passes (e.field mem start).1 [] := by
  cases start with
  | none => exact .of_lines_eq rfl
  | some address =>
    have hdefine : e.Passes (e.define mem.name (.number address) mem.comment) [] :=
      passes_emit ..
    refine hdefine.trans (.of_lines_eq ?_)
    simp only [field]
    split
    · exact lines_advance ..
    · rfl

theorem passes_visit (path : List GroupId) (start : Cursor) (e : Emitter) (i : Item) :
    e.Passes (e.visit m path start i).1 i.texts := by
  cases i with
  | text | assignment => exact passes_emit ..
  | enter | leave | region | group => exact .of_lines_eq rfl
  | skip amount line =>
    cases start with
    | none => exact .of_lines_eq rfl
    | some address => exact .of_lines_eq (lines_advance ..)
  | member mem =>
    simp only [visit, member]
    split
    · exact passes_field e mem start
    · split <;> exact .of_lines_eq rfl

end Emitter

section
variable {m : Model} (hm : m.WellFormed)

include hm

theorem Descent.passes_layout (path : List GroupId) (id : GroupId) :
    Yields hm.wellNested (fun _ _ e i _ e' => e.Passes e' i.texts)
      (fun _ _ _ items _ e _ e' => e.Passes e' (items.flatMap Item.texts))
      (fun _ id _ e _ e' => e.Passes e' ((m.members id).flatMap Item.texts)) path id := by
  refine induct hm.wellNested (fun {path id start e i c e'} _ hv => ?finish)
    (fun hc _ hg => ?nest) (fun _ hr _ hg => ?expand) (.of_lines_eq rfl)
    (fun _ _ hi _ hr => hi.trans hr) (fun h => h) path id
  case finish =>
    have hvisit := Emitter.passes_visit (m := m) path start e i
    rwa [hv] at hvisit
  case nest => rwa [hm.texts_members (Walk.ne_document_of_nests hm hc)] at hg
  case expand =>
    have hlookup := (Emitter.resolve_eq_ok hr).2.1
    rw [hm.texts_members (Walk.ne_document_of_lookup hm hlookup)] at hg
    exact hg

namespace Emitter

/-- The document passes its texts on, and all other groups none. -/
theorem passes_group (e : Emitter) (id : GroupId) (start : Cursor) :
    e.Passes (e.group m id start).2 ((m.members id).flatMap Item.texts) := by
  rw [Descent.group_eq hm.wellNested]
  exact (Descent.passes_layout hm [id] id).group rfl

theorem passes_trailers (e : Emitter) : e.Passes (e.trailers m) [] := by
  have hnamed (namespaceName key : String) (start : UInt64) (e : Emitter) :
      e.Passes (e.named m namespaceName key start).2 [] := by
    unfold named
    cases hl : m.lookup key with
    | none => exact .of_lines_eq rfl
    | some id =>
      have hgroup := passes_group hm (e.clear.enter namespaceName) id (some start)
      rwa [hm.texts_members (Walk.ne_document_of_lookup hm hl)] at hgroup
  simp only [trailers, HeaderSymbols.trailers, List.foldl_cons, List.foldl_nil]
  exact (hnamed ..).trans (hnamed ..)

/-- A layout of a model passes on what the document does. -/
theorem filter_lines_ofModel :
    (ofModel m).lines.toList.filter (!·.isSymbol) =
      (m.members Model.document).flatMap Item.texts := by
  obtain ⟨added, hlines, htexts⟩ :=
    (passes_group hm new Model.document none).trans (passes_trailers hm _)
  rw [show (ofModel m).lines.toList = added from hlines, htexts, List.append_nil]

end Emitter

end

/-! ## Readings -/

namespace Outline

/-- The texts that a part gives to the document. -/
def Part.texts : Part → List OutputLine
  | note item => item.texts
  | _ => []

theorem Part.texts_ofLine (ns : Namespaces) (line : Line) (number : UInt32) :
    (Part.ofLine ns line number).1.texts = Line.texts [line] := by
  have hblank := Directive.ofLine_eq_blank_iff line
  unfold Part.ofLine
  cases hd : Directive.ofLine line with
  | error fault =>
    have hwords : line.words ≠ [] := by simpa [hd] using hblank
    simp [Part.texts, Line.texts, hwords]
  | ok d =>
    cases d with
    | blank =>
      have hwords : line.words = [] := by simpa [hd] using hblank
      simp [Part.texts, Line.texts, Item.texts, hwords]
    | leave =>
      have hwords : line.words ≠ [] := by simpa [hd] using hblank
      cases hr : ns.isRoot <;> simp [Part.texts, Line.texts, Item.texts, hwords]
    | _ =>
      have hwords : line.words ≠ [] := by simpa [hd] using hblank
      simp [Part.texts, Line.texts, Item.texts, hwords]

theorem Part.texts_of_place {ns : Namespaces} {line : Line} {number : UInt32} {item : Item}
    (h : (Part.ofLine ns line number).1 = .place item) : item.texts = [] := by
  unfold Part.ofLine at h
  split at h <;> first
  | cases h; rfl
  | cases h
  | (split at h <;> cases h)

end Outline

namespace Reading

open Outline (Part)

variable {r : Reading}

/-- A line gives its text to the document, if it has no words. -/
theorem texts_step (h : r.WellFormed) (line : Line) (number : UInt32) :
    ((r.step line number).model.members Model.document).flatMap Item.texts =
      (r.model.members Model.document).flatMap Item.texts ++ Line.texts [line] := by
  rw [(step_part r line number).1, ← Part.texts_ofLine r.namespaces line number]
  cases hp : (Part.ofLine r.namespaces line number).1 with
  | note item =>
    rw [Part.obey, Model.members_push _ _ h.model.document_lt, if_pos rfl]
    simp [Part.texts]
  | place item =>
    have hitem := Part.texts_of_place hp
    have hmembers := Model.members_push r.model item h.scope_lt Model.document
    rw [show ((Part.place item).obey r.model r.scopes).1 = r.model.push r.scope item from rfl,
      hmembers]
    split <;> simp [Part.texts, hitem]
  | opens kind =>
    have hs : r.scope < (r.model.addGroup kind).2.groups.size := by
      rw [Model.size_addGroup]
      exact Nat.lt_succ_of_lt h.scope_lt
    have hmembers := Model.members_push _ (.group r.model.groups.size) hs Model.document
    rw [Model.members_addGroup] at hmembers
    rw [show ((Part.opens kind).obey r.model r.scopes).1 = (r.model.addGroup kind).2.push r.scope
      (.group r.model.groups.size) from rfl, hmembers]
    split <;> simp [Part.texts, Item.texts]
  | declares name =>
    have hmembers : ((Part.declares name).obey r.model r.scopes).1.members Model.document = _ :=
      Model.members_addGroup r.model .struct Model.document
    rw [hmembers]
    simp [Part.texts]
  | closes closer => simp [obey_closes, Part.texts]
  | nothing => simp [Part.obey, Part.texts]

theorem texts_steps (h : r.WellFormed) (lines : List (Line × UInt32)) :
    ((r.steps lines).model.members Model.document).flatMap Item.texts =
      (r.model.members Model.document).flatMap Item.texts ++ Line.texts (lines.map Prod.fst) := by
  induction lines generalizing r with
  | nil => simp [Line.texts]
  | cons l rest ih =>
    have hcons : Line.texts ((l :: rest).map Prod.fst) =
        Line.texts [l.1] ++ Line.texts (rest.map Prod.fst) := by
      simp only [Line.texts, List.map_cons, ← List.map_append, ← List.filter_append]
      rfl
    rw [steps_cons, ih (wellFormed_step h l.1 l.2), texts_step h, hcons, List.append_assoc]

/-- The document has the texts of all lines without words, in their order. -/
theorem texts_ofLines (lines : List Line) :
    ((ofLines lines).model.members Model.document).flatMap Item.texts = Line.texts lines := by
  rw [ofLines, finish_model, texts_steps wellFormed_start, numbered_fst]
  rfl

end Reading

/-! ## Ends of lines -/

/-- The number of lines that a text ends. -/
def newlines (s : String) : Nat := s.toList.count '\n'

theorem newlines_append (s t : String) : newlines (s ++ t) = newlines s + newlines t := by
  rw [newlines, String.toList_append, List.count_append]
  rfl

theorem Single.newlines_eq_zero {s : String} (h : Single s) : newlines s = 0 :=
  List.count_eq_zero_of_not_mem h

theorem OutputLine.newlines_renderAll {lines : List OutputLine}
    (h : ∀ l ∈ lines, HeaderSymbols.Single l.render) :
    newlines (renderAll lines) = lines.length := by
  induction lines with
  | nil => rfl
  | cons l rest ih =>
    obtain ⟨hl, hrest⟩ := List.forall_mem_cons.1 h
    have hcons : renderAll (l :: rest) = l.render ++ "\n" ++ renderAll rest := by
      simp [renderAll]
    rw [hcons, newlines_append, newlines_append, hl.newlines_eq_zero, ih hrest, List.length_cons]
    show 0 + 1 + rest.length = rest.length + 1
    omega

/-- The options are on one line each. -/
structure Options.Single (o : Options) : Prop where
  tool : HeaderSymbols.Single o.tool
  target : HeaderSymbols.Single o.target
  visibility : HeaderSymbols.Single o.visibility

theorem Options.newlines_prologue {o : Options} (h : o.Single) : newlines o.prologue = 7 := by
  unfold prologue
  simp only [newlines_append, h.tool.newlines_eq_zero, h.target.newlines_eq_zero,
    h.visibility.newlines_eq_zero]
  decide +kernel

/-- An output ends in the end of a line, be it that of its prologue. -/
theorem getLast?_output (o : Options) (e : Emitter) :
    (o.prologue ++ e.output).toList.getLast? = some '\n' := by
  have hends (text : String) : (text ++ "\n").toList.getLast? = some '\n' := by simp
  rw [Emitter.output]
  rcases List.eq_nil_or_concat e.lines.toList with hnil | ⟨lines, l, hlines⟩
  · rw [hnil, show OutputLine.renderAll [] = "" from rfl, String.append_empty]
    exact hends _
  · have hrender : OutputLine.renderAll (lines ++ [l]) =
        OutputLine.renderAll lines ++ (l.render ++ "\n") := by
      simp [OutputLine.renderAll, String.join_append]
    rw [hlines, List.concat_eq_append, hrender, ← String.append_assoc, ← String.append_assoc]
    exact hends _

/-! ## Sources -/

/-- An emitter has counted the symbols among the lines that it has emitted besides. -/
theorem Emitter.Extends.symbols_eq_add {e e' : Emitter} {added : List OutputLine}
    (h : e.Extends e') (hlines : e'.lines.toList = e.lines.toList ++ added) :
    e'.symbols = e.symbols + (added.filter (·.isSymbol)).length := by
  have hcount : countSymbols e'.lines =
      countSymbols e.lines + (added.filter (·.isSymbol)).length := by
    rw [countSymbols, countSymbols, ← Array.countP_toList, hlines, List.countP_append,
      Array.countP_toList, List.countP_eq_length_filter (l := added)]
  have hsymbols := h.symbols
  omega

theorem OutputLine.length_eq (lines : List OutputLine) :
    lines.length = (lines.filter (!·.isSymbol)).length + lines.countP isSymbol := by
  have h := List.length_eq_countP_add_countP isSymbol (l := lines)
  simp only [Bool.not_eq_true, Bool.decide_eq_false] at h
  rw [h, ← List.countP_eq_length_filter, Nat.add_comm]

theorem newlines_layoutOf (source : String) :
    newlines (layoutOf source).output = (layoutOf source).lines.toList.length := by
  have hsingle : (layoutOf source).Single := by
    unfold layoutOf
    exact Emitter.single_ofModel (Reading.wellNested_ofLines _) (Reading.single_members source)
  exact OutputLine.newlines_renderAll fun l hl => hsingle.lines l (Array.mem_toList_iff.1 hl)

/-- The texts of an output are those of all lines of the source without words. -/
theorem filter_lines_layoutOf (source : String) :
    (layoutOf source).lines.toList.filter (!·.isSymbol) = Line.texts (Line.ofSource source) := by
  unfold layoutOf
  rw [Emitter.filter_lines_ofModel (Reading.wellFormed_ofLines _), Reading.texts_ofLines]

/-- **Texts.** Among the lines that the document of a source emits are the comments of all lines
without words, or empty lines for them, each once and in their order. All others are symbols, and
they are counted; and the trailers emit symbols only. So the output of a source that converts ends
where a line does, and has a line for each of the seven of the prologue, for each source line
without words, and for each symbol. -/
theorem texts_are_passed_on (source : String) :
    let lines := Line.ofSource source
    let m := (Reading.ofLines lines).model
    (∀ e : Emitter, ∃ added, (e.document m).2.lines.toList = e.lines.toList ++ added ∧
      added.filter (!·.isSymbol) =
        (lines.filter (·.words.isEmpty)).map (fun line => .text line.comment) ∧
      (e.document m).2.symbols = e.symbols + (added.filter (·.isSymbol)).length) ∧
    (∀ e : Emitter, ∃ added, (e.trailers m).lines.toList = e.lines.toList ++ added ∧
      (∀ l ∈ added, l.isSymbol = true) ∧ (e.trailers m).symbols = e.symbols + added.length) ∧
    ∀ (o : Options) (file : String) (c : Conversion), o.Single → convert o file source = .ok c →
      c.output.toList.getLast? = some '\n' ∧
        newlines c.output = 7 + lines.countP (·.words.isEmpty) + c.symbols := by
  intro lines m
  have hm : m.WellFormed := Reading.wellFormed_ofLines lines
  refine ⟨fun e => ?document, fun e => ?trailers, fun o file c ho hc => ?conversion⟩
  case document =>
    obtain ⟨added, hlines, htexts⟩ := Emitter.passes_group hm e.clear Model.document none
    rw [Reading.texts_ofLines] at htexts
    have hextends := Emitter.extends_document hm.wellNested e
    exact ⟨added, hlines, htexts, hextends.symbols_eq_add hlines⟩
  case trailers =>
    obtain ⟨added, hlines, htexts⟩ := Emitter.passes_trailers hm e
    have hall : ∀ l ∈ added, l.isSymbol = true := by simpa using htexts
    refine ⟨added, hlines, hall, ?_⟩
    have hsymbols := (Emitter.extends_trailers hm.wellNested e).symbols_eq_add hlines
    rw [hsymbols, List.filter_eq_self.2 hall]
  case conversion =>
    rw [convert_eq] at hc
    split at hc
    · cases hc
      have hcount : (Line.texts lines).length = lines.countP (·.words.isEmpty) := by
        rw [Line.texts, List.length_map, List.countP_eq_length_filter]
      dsimp only
      refine ⟨getLast?_output o (layoutOf source), ?_⟩
      have hsymbols : (layoutOf source).symbols = Emitter.countSymbols (layoutOf source).lines :=
        Emitter.symbols_ofModel hm.wellNested
      rw [newlines_append, o.newlines_prologue ho, newlines_layoutOf, OutputLine.length_eq,
        filter_lines_layoutOf, hcount, hsymbols, Emitter.countSymbols, ← Array.countP_toList,
        Nat.add_assoc]
    · cases hc

/-- A comment inside of a structure is a line of its own, beside the one for the field. -/
theorem texts_are_passed_on_specimen :
    let source := "kernel_event_event_t .struct\n; what it is\ntype .byte ?\n.ends\n" ++
      "kernel_time_t .struct\n.ends\n"
    Options.standard.Single ∧ ∃ c, convert .standard "api.asm" source = .ok c ∧ c.symbols = 1 ∧
      newlines c.output = 9 := by
  intro source
  let m : Model := ⟨#[⟨.struct, #[.text (some "; what it is")]⟩,
    ⟨.struct, #[.member ⟨"type", none, some 1, none, 3⟩]⟩, ⟨.struct, #[]⟩],
    [("kernel_time_t", 2), ("kernel_event_event_t", 1)]⟩
  have hreading : Reading.ofLines (Line.ofSource source) = ⟨m, .root, [0], #[]⟩ := by decide +kernel
  have hblank : (Line.ofSource source).countP (·.words.isEmpty) = 1 := by decide +kernel
  let text : OutputLine := .text (some "; what it is")
  let field : OutputLine := .symbol "kernel_event_type" (.number 0) none
  have hdocument : Emitter.new.document m = (none, ⟨.root, #[text], #[], 0⟩) :=
    Walk.run_eq_of_reaches (.step (.step (.refl _)))
  have hevent : Emitter.named m ⟨.root, #[text], #[], 0⟩ "kernel_event" "kernel_event_event_t" 0 =
      (some 1, ⟨.root, #[text, field], #[], 1⟩) := by
    have hgroup : Emitter.group m ⟨⟨["kernel_event"]⟩, #[text], #[], 0⟩ 1 (some 0) =
        (some 1, ⟨⟨["kernel_event"]⟩, #[text, field], #[], 1⟩) :=
      Walk.run_eq_of_reaches (.step (.step (.refl _)))
    exact congrArg (fun r : Cursor × Emitter => (r.1, r.2.clear)) hgroup
  have htime : Emitter.named m ⟨.root, #[text, field], #[], 1⟩ "kernel_time" "kernel_time_t" 0 =
      (some 0, ⟨.root, #[text, field], #[], 1⟩) := by
    have hgroup : Emitter.group m ⟨⟨["kernel_time"]⟩, #[text, field], #[], 1⟩ 2 (some 0) =
        (some 0, ⟨⟨["kernel_time"]⟩, #[text, field], #[], 1⟩) :=
      Walk.run_eq_of_reaches (.step (.refl _))
    exact congrArg (fun r : Cursor × Emitter => (r.1, r.2.clear)) hgroup
  have hlaid : layoutOf source = ⟨.root, #[text, field], #[], 1⟩ := by
    rw [layoutOf, hreading]
    simp only [Emitter.ofModel, Emitter.trailers, trailers, List.foldl_cons, List.foldl_nil,
      hdocument, hevent, htime]
  obtain ⟨c, hc, hsymbols⟩ :
      ∃ c, convert .standard "api.asm" source = .ok c ∧ c.symbols = 1 := by
    rw [convert_eq, if_pos (by rw [foundIn, hlaid, hreading]; rfl), hlaid]
    exact ⟨_, rfl, rfl⟩
  have hsingle : Options.standard.Single := ⟨by decide, by decide, by decide⟩
  have hlines := ((texts_are_passed_on source).2.2 .standard "api.asm" c hsingle hc).2
  refine ⟨hsingle, c, hc, hsymbols, ?_⟩
  rw [hlines, hblank, hsymbols]

end HeaderSymbols
