import HeaderSymbols.Proofs.Conversion
import HeaderSymbols.Proofs.File.Transaction
import HeaderSymbols.Proofs.Rereading
import HeaderSymbols.Proofs.Source.Renaming
import Mathlib.Data.List.Forall2

/-!
# Comments and blanks decide nothing

Two sources whose lines have the same words are read and laid out alike, whatever their comments
and the blanks between their words. Without their comments, the lines are the same; so are the
layouts without their comments. A comment that is put back at the end of a line changes none of the
words before it.

* `rename_ofLines`: lines with other comments are read and laid out as the lines, with the other
  comments.
* `isComment_of_mem_lines`: the comments of an output are comments of its source.
* `words_renderAll`: the words of lines that are written, whatever comments they have.
* `comments_inert`: so two such sources convert alike.
-/
namespace HeaderSymbols

/-! ## Other comments -/

namespace Renaming

/-- All groups and lines keep their numbers. -/
def commentary (comment : Option String → Option String) (text : String → String) : Renaming :=
  inPlace id comment text

theorem inPlace_commentary (comment : Option String → Option String) (text : String → String) :
    (commentary comment text).InPlace := fun _ => rfl

/-- There is no comment, and no line is quoted. -/
def silence : Renaming := commentary (fun _ => none) fun _ => ""

end Renaming

section
variable (comment : Option String → Option String) (text : String → String)

theorem Reading.rename_ofLines (lines : List Line) :
    ofLines (lines.map (·.rename (.commentary comment text))) =
      (ofLines lines).rename (.commentary comment text) := by
  have hnumbered : numbered (lines.map (·.rename (.commentary comment text))) =
      (numbered lines).map (Line.renameNumbered (.commentary comment text)) := by
    simp [numbered, List.zipIdx_map, Line.renameNumbered, Renaming.commentary, Renaming.inPlace,
      Function.comp_def]
  have hsteps := steps_rename (Renaming.inPlace_commentary comment text) start (numbered lines)
  rw [rename_start] at hsteps
  rw [ofLines, hnumbered, hsteps, ← rename_finish, ofLines]

theorem Emitter.rename_ofLines (lines : List Line) :
    ofModel (Reading.ofLines (lines.map (·.rename (.commentary comment text)))).model =
      (ofModel (Reading.ofLines lines).model).rename (.commentary comment text) := by
  rw [Reading.rename_ofLines]
  exact rename_ofModel (Model.renames_rename (Renaming.inPlace_commentary _ _) _)
    (Reading.wellNested_ofLines lines)

variable {comment text} in
/-- Sources whose lines are the same with other comments are read and laid out alike, with other
comments. -/
theorem found_and_layout_eq {source source' : String}
    (h : (Line.ofSource source).map (·.rename (.commentary comment text)) =
      (Line.ofSource source').map (·.rename (.commentary comment text))) :
    (foundIn source).map (·.rename (.commentary comment text)) =
        (foundIn source').map (·.rename (.commentary comment text)) ∧
      (layoutOf source).rename (.commentary comment text) =
        (layoutOf source').rename (.commentary comment text) := by
  have hread : (Reading.ofLines (Line.ofSource source)).rename (.commentary comment text) =
      (Reading.ofLines (Line.ofSource source')).rename (.commentary comment text) := by
    rw [← Reading.rename_ofLines, h, Reading.rename_ofLines]
  have hlaid : (layoutOf source).rename (.commentary comment text) =
      (layoutOf source').rename (.commentary comment text) := by
    rw [layoutOf, ← Emitter.rename_ofLines, h, Emitter.rename_ofLines, layoutOf]
  refine ⟨?_, hlaid⟩
  have hr := congrArg (fun r => r.findings.toList) hread
  have he := congrArg (fun e => e.findings.toList) hlaid
  simp only [Reading.rename, Emitter.rename, Array.toList_map] at hr he
  rw [foundIn, foundIn, Array.toList_append, Array.toList_append, List.map_append, List.map_append,
    hr, he]

end

/-! ## The comments of an output -/

theorem OutputLine.comment_rename (ρ : Renaming) (line : OutputLine) :
    (line.rename ρ).comment = ρ.comment line.comment := by
  cases line <;> rfl

/-- The comment, if a source can have it. -/
noncomputable def Line.soundComment (comment : Option String) : Option String :=
  open Classical in if ∀ c ∈ comment, Line.IsComment c then comment else none

theorem Line.isComment_of_soundComment_eq {comment : Option String}
    (h : soundComment comment = comment) : ∀ c ∈ comment, Line.IsComment c := by
  unfold soundComment at h
  split at h
  · assumption
  · subst h
    exact nofun

/-- Comments that no source can have may be dropped from the lines of a source, as there are none;
and then none are in the output. -/
theorem isComment_of_mem_lines (source : String) :
    ∀ line ∈ (layoutOf source).lines.toList, ∀ c ∈ line.comment, Line.IsComment c := by
  intro line h
  unfold layoutOf at h
  have hsound : ∀ l ∈ Line.ofSource source, l.rename (.commentary Line.soundComment id) = id l := by
    intro l hl
    obtain ⟨raw, hraw, rfl⟩ := List.mem_map.1 hl
    have hc := Line.isComment_of_mem_comment (Text.not_newline_of_mem_splitLines hraw)
    simp only [Line.rename, Renaming.commentary, Renaming.inPlace, Line.soundComment, if_pos hc, id]
  have hsame := Emitter.rename_ofLines Line.soundComment id (Line.ofSource source)
  rw [List.map_congr_left hsound, List.map_id] at hsame
  have hlines := congrArg (fun e => e.lines.toList.map id) hsame
  simp only [Emitter.rename, Array.toList_map, List.map_map] at hlines
  have hline := congrArg OutputLine.comment (List.map_inj_left.1 hlines line h)
  rw [Function.comp_apply, id, id, OutputLine.comment_rename] at hline
  exact Line.isComment_of_soundComment_eq hline.symm

/-! ## The words of a line that is written -/

namespace Line

/-- Blanks, up to a comment mark, on one line. -/
structure Silent (cs : List Char) : Prop where
  blank : ∀ c ∈ code commentMark cs, Text.isBlank c = true
  single : '\n' ∉ cs

theorem words_code_append (mark : Char) (xs : List Char) {ys : List Char}
    (h : ∀ c ∈ code mark ys, Text.isBlank c = true) :
    Text.words (code mark (xs ++ ys)) = Text.words (code mark xs) := by
  unfold code at h ⊢
  rw [List.takeWhile_append]
  split
  · rename_i hall
    rw [Text.words_append_of_blank xs h, (List.takeWhile_prefix _).eq_of_length hall]
  · rfl

/-- The blanks at the end of a text are not in its words. -/
theorem words_ofChars (mark : Char) (raw : List Char) :
    (ofChars mark raw).words = (Text.words (code mark raw)).map String.ofList := by
  obtain ⟨blanks, hraw, hblank⟩ := Text.exists_eq_trimEnd_append raw
  have hcode := words_code_append mark (Text.trimEnd raw)
    fun c hc => hblank c (List.takeWhile_subset _ hc)
  rw [← hraw] at hcode
  rw [ofChars, hcode]

theorem words_dropReturn (mark : Char) (raw : List Char) :
    (ofChars mark (Text.dropReturn raw)).words = (ofChars mark raw).words := by
  obtain ⟨blanks, hraw, hblank⟩ := Text.exists_eq_dropReturn_append raw
  have hcode := words_code_append mark (Text.dropReturn raw)
    fun c hc => hblank c (List.takeWhile_subset _ hc)
  rw [← hraw] at hcode
  rw [words_ofChars, words_ofChars, hcode]

/-- What is said after a comment mark adds no words to a line. -/
theorem words_append_silent (text : List Char) {cs : List Char} (h : Silent cs) :
    ((Text.splitLines (text ++ cs ++ ['\n'])).map fun l => (ofChars commentMark l).words) =
      (Text.splitLines (text ++ ['\n'])).map fun l => (ofChars commentMark l).words := by
  obtain ⟨pieces, last, hsplit, hlonger, -⟩ := Text.exists_splitOn_append text h.single
  rw [Text.splitLines_append_newline, Text.splitLines_append_newline, hsplit, hlonger]
  simp only [List.map_append, List.map_map, Function.comp_def, words_dropReturn, List.map_cons]
  rw [words_ofChars, words_code_append _ last h.blank, ← words_ofChars]

theorem silent_nil : Silent [] := ⟨nofun, nofun⟩

theorem IsComment.silent {c : String} (h : IsComment c) : Silent c.toList where
  blank := by
    obtain ⟨cs, hc⟩ := List.head?_eq_some_iff.1 h.marked
    simp [hc, code]
  single := h.single

theorem Silent.spaced {cs : List Char} (h : Silent cs) : Silent (' ' :: ' ' :: cs) where
  blank := by
    have hcode : code commentMark (' ' :: ' ' :: cs) = ' ' :: ' ' :: code commentMark cs := rfl
    rw [hcode]
    exact List.forall_mem_cons.2 ⟨rfl, List.forall_mem_cons.2 ⟨rfl, h.blank⟩⟩
  single := by simp [h.single]

/-- The lines of a source, each as its words. -/
def sourceWords (source : String) : List (List String) := (ofSource source).map words

theorem sourceWords_append_silent (text : String) {cs : List Char} (h : Silent cs) :
    sourceWords (text ++ String.ofList cs ++ "\n") = sourceWords (text ++ "\n") := by
  have hwords := words_append_silent text.toList h
  simpa [sourceWords, ofSource, Function.comp_def] using hwords

theorem sourceWords_append (s t : String) :
    sourceWords (s ++ "\n" ++ t) = sourceWords (s ++ "\n") ++ sourceWords t := by
  have hsplit := Text.splitLines_append s.toList t.toList
  simp only [sourceWords, ofSource, String.toList_append]
  simp [hsplit]

end Line

namespace OutputLine

/-- A line that is written ends in its comment, which is silent. -/
theorem exists_render_eq {line : OutputLine} (h : ∀ c ∈ line.comment, Line.IsComment c) :
    ∃ cs, Line.Silent cs ∧ line.render = (line.rename .silence).render ++ String.ofList cs := by
  cases line with
  | text comment =>
    cases comment with
    | none =>
      refine ⟨[], Line.silent_nil, ?_⟩
      simp [render, rename, Renaming.silence, Renaming.commentary, Renaming.inPlace]
    | some c =>
      refine ⟨c.toList, (h c rfl).silent, ?_⟩
      simp [render, rename, Renaming.silence, Renaming.commentary, Renaming.inPlace]
  | symbol name value comment =>
    cases comment with
    | none =>
      refine ⟨[], Line.silent_nil, ?_⟩
      simp [render, rename, Renaming.silence, Renaming.commentary, Renaming.inPlace]
    | some c =>
      refine ⟨' ' :: ' ' :: c.toList, (h c rfl).silent.spaced, ?_⟩
      have hc : String.ofList (' ' :: ' ' :: c.toList) = "  " ++ c := by
        rw [← String.toList_inj]
        simp
      simp [render, rename, Renaming.silence, Renaming.commentary, Renaming.inPlace, hc]

theorem sourceWords_renderAll {lines : List OutputLine}
    (h : ∀ l ∈ lines, ∀ c ∈ l.comment, Line.IsComment c) :
    Line.sourceWords (renderAll lines) =
      Line.sourceWords (renderAll (lines.map (·.rename .silence))) := by
  induction lines with
  | nil => rfl
  | cons l rest ih =>
    obtain ⟨hl, hrest⟩ := List.forall_mem_cons.1 h
    obtain ⟨cs, hcs, hrender⟩ := exists_render_eq hl
    have hcons (l : OutputLine) (rest : List OutputLine) :
        renderAll (l :: rest) = l.render ++ "\n" ++ renderAll rest := by
      simp [renderAll]
    rw [List.map_cons, hcons, hcons, Line.sourceWords_append, Line.sourceWords_append, ih hrest,
      hrender, Line.sourceWords_append_silent _ hcs]

end OutputLine

/-! ## Two sources -/

/-- Outputs with the same words in their lines, and the same numbers of lines and symbols. -/
structure Conversion.Agrees (c c' : Conversion) : Prop where
  words : Line.sourceWords c.output = Line.sourceWords c'.output
  lines : c.lines = c'.lines
  symbols : c.symbols = c'.symbols

/-- The same diagnostics, but for the line that is quoted where none is recognized. -/
structure Diagnostic.Agrees (d d' : Diagnostic) : Prop where
  file : d.file = d'.file
  line : d.line = d'.line
  category : d.problem.category = d'.problem.category
  code : d.code = d'.code
  message : d.problem.message = d'.problem.message ∨
    ∃ text text', d.problem.message = (Fault.unrecognizedLine text).message ∧
      d'.problem.message = (Fault.unrecognizedLine text').message

structure Failure.Agrees (f f' : Failure) : Prop where
  summary : f.summary = f'.summary
  diagnostics : List.Forall₂ Diagnostic.Agrees f.diagnostics f'.diagnostics

theorem Fault.rename_eq_or (ρ : Renaming) (fault : Fault) :
    fault.rename ρ = fault ∨ ∃ text, fault = .unrecognizedLine text := by
  cases fault with
  | unrecognizedLine text => exact .inr ⟨text, rfl⟩
  | _ => exact .inl rfl

/-- Faults that are the same without the lines quoted are the same, or quote a line each. -/
theorem Fault.eq_or_of_rename_eq {ρ : Renaming} {fault fault' : Fault}
    (h : fault.rename ρ = fault'.rename ρ) : fault = fault' ∨
      ∃ text text', fault = .unrecognizedLine text ∧ fault' = .unrecognizedLine text' := by
  rcases fault.rename_eq_or ρ with hf | ⟨text, rfl⟩ <;>
    rcases fault'.rename_eq_or ρ with hf' | ⟨text', rfl⟩
  · exact .inl (hf ▸ hf' ▸ h)
  · exact .inr ⟨_, text', hf ▸ h, rfl⟩
  · exact .inr ⟨text, _, rfl, hf' ▸ h.symm⟩
  · exact .inr ⟨text, text', rfl, rfl⟩

theorem Finding.agrees_of_rename_eq (file : String) {f f' : Finding}
    (h : f.rename .silence = f'.rename .silence) :
    Diagnostic.Agrees ⟨file, f.line, f.fault.problem⟩ ⟨file, f'.line, f'.fault.problem⟩ := by
  obtain ⟨line, fault⟩ := f
  obtain ⟨line', fault'⟩ := f'
  have hline := congrArg Finding.line h
  simp only [rename, Renaming.silence, Renaming.commentary, Renaming.inPlace, Option.map_id] at hline
  obtain rfl : line = line' := hline
  rcases Fault.eq_or_of_rename_eq (congrArg Finding.fault h) with rfl | ⟨text, text', rfl, rfl⟩
  · exact ⟨rfl, rfl, rfl, rfl, .inl rfl⟩
  · exact ⟨rfl, rfl, rfl, rfl, .inr ⟨text, text', rfl, rfl⟩⟩

/-- Failures from findings that are the same without the lines quoted. -/
theorem Failure.agrees_of_map_rename_eq (file : String) {found found' : List Finding}
    (h : found.map (·.rename .silence) = found'.map (·.rename .silence)) :
    (Failure.ofLog (.ofFindings file found)).Agrees (.ofLog (.ofFindings file found')) where
  summary := by
    have hlength := congrArg List.length h
    rw [List.length_map, List.length_map] at hlength
    simp only [ofLog, Log.size, Log.ofFindings, List.length_map, hlength]
  diagnostics := by
    have hpairs : List.Forall₂ Eq (found.map (·.rename .silence))
        (found'.map (·.rename .silence)) := List.forall₂_eq_eq_eq ▸ h
    rw [List.forall₂_map_left_iff, List.forall₂_map_right_iff] at hpairs
    refine List.forall₂_map_left_iff.2 (List.forall₂_map_right_iff.2 (hpairs.imp fun f f' he => ?_))
    exact Finding.agrees_of_rename_eq file he

/-- The prologue ends a line. -/
theorem Options.exists_prologue_eq (o : Options) : ∃ text, o.prologue = text ++ "\n" := ⟨_, rfl⟩

/-- Lines with the same words are the same without their comments, and if their comments are the
same too they are the same but for their texts. -/
theorem Line.map_rename_eq {lines lines' : List Line} (h : lines.map words = lines'.map words) :
    lines.map (·.rename .silence) = lines'.map (·.rename .silence) ∧
      (lines.map comment = lines'.map comment →
        lines.map (·.rename (.commentary id fun _ => "")) =
          lines'.map (·.rename (.commentary id fun _ => ""))) := by
  constructor
  · have hmute (lines : List Line) :
        lines.map (·.rename .silence) = (lines.map words).map fun words => ⟨"", words, none⟩ := by
      rw [List.map_map]
      rfl
    rw [hmute, hmute, h]
  · intro hc
    refine List.ext_getElem? fun i => ?_
    have hwords := congrArg (fun l : List (List String) => l[i]?) h
    have hcomment := congrArg (fun l : List (Option String) => l[i]?) hc
    simp only [List.getElem?_map] at hwords hcomment ⊢
    cases hl : lines[i]? <;> cases hl' : lines'[i]? <;> rw [hl, hl'] at hwords hcomment <;>
      simp_all [Line.rename, Renaming.commentary, Renaming.inPlace]

/-- **Comments and blanks.** Two sources with as many lines, and with the same words in each of
them, both convert or both fail. Where they convert, the lines of the outputs have the same words,
the numbers of lines and symbols are the same, and so are the outputs if the comments of the
sources are. Where they fail, they fail with the same diagnostics, but for the lines quoted. -/
theorem comments_inert (o : Options) (file source source' : String)
    (hwords : Line.sourceWords source = Line.sourceWords source') :
    Alike
      (fun c c' => c.Agrees c' ∧
        ((Line.ofSource source).map Line.comment = (Line.ofSource source').map Line.comment →
          c.output = c'.output))
      Failure.Agrees (convert o file source) (convert o file source') := by
  obtain ⟨hsilent, htexts⟩ := Line.map_rename_eq hwords
  obtain ⟨hfound, hlaid⟩ : (foundIn source).map (·.rename .silence) =
        (foundIn source').map (·.rename .silence) ∧
      (layoutOf source).rename .silence = (layoutOf source').rename .silence :=
    found_and_layout_eq hsilent
  refine alike_convert o file ?nothing ?success (Failure.agrees_of_map_rename_eq file hfound)
  case nothing => rw [← List.map_eq_nil_iff, ← hfound, List.map_eq_nil_iff]
  refine ⟨⟨?words, ?lines, ?symbols⟩, fun hcomments => ?output⟩
  case words =>
    have hlines := congrArg (fun e => e.lines.toList) hlaid
    simp only [Emitter.rename, Array.toList_map] at hlines
    obtain ⟨text, htext⟩ := o.exists_prologue_eq
    simp only [htext, Line.sourceWords_append, Emitter.output]
    rw [OutputLine.sourceWords_renderAll (isComment_of_mem_lines source),
      OutputLine.sourceWords_renderAll (isComment_of_mem_lines source'), hlines]
  case lines => simpa [Line.sourceWords] using congrArg List.length hwords
  case symbols =>
    dsimp only
    rw [← Emitter.symbols_rename .silence, hlaid, Emitter.symbols_rename]
  case output =>
    have houtput := congrArg Emitter.output (found_and_layout_eq (htexts hcomments)).2
    rw [Emitter.output_rename fun _ => rfl, Emitter.output_rename fun _ => rfl] at houtput
    simp only [houtput]

/-- A header that converts still does with comments and other blanks. -/
theorem comments_inert_specimen :
    let source := "kernel_event_event_t\t.struct ; an event\r\n  .ends;\n" ++
      " kernel_time_t .struct\n.ends ; a time\n"
    Line.sourceWords specimenHeader = Line.sourceWords source ∧
      ∃ c, convert .standard "api.asm" source = .ok c ∧ c.lines = 4 ∧ c.symbols = 0 := by
  intro source
  have hwords : Line.sourceWords specimenHeader = Line.sourceWords source := by decide +kernel
  have halike := comments_inert .standard "api.asm" specimenHeader source hwords
  rw [convert_specimenHeader] at halike
  generalize convert .standard "api.asm" source = outcome at halike ⊢
  cases halike with
  | ok h => exact ⟨hwords, _, rfl, h.1.lines.symm, h.1.symbols.symm⟩

end HeaderSymbols
