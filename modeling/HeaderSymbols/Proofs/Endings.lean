import HeaderSymbols.Command.Session
import HeaderSymbols.Proofs.Source.Tokens

/-!
# Ends of lines

What stands behind a line, up to the line feed that ends it, is not part of its text: a line may
have blanks there and a carriage return, and the last one may do without a line feed. So a source is
read by its lines, however their ends are written, and comes to the same conversion or the same
diagnostics. And what ends a line closes it for good: the lines of two texts, one behind the other,
are the lines of the first and then those of the second.

* `Written`: a text with these lines, whatever the ends of the lines are.
* `Written.trimEnd_splitLines`: up to the blanks behind them, these are the lines of the text.
* `ofSource_append`: a text that ends a line is read apart from what follows.
* `line_ends_inert`: so ends of lines are inert.
-/
namespace HeaderSymbols

namespace Text

/-! ## Blanks at the end -/

/-- Blanks behind a text are trimmed, together with those that it has itself. -/
theorem trimEnd_append_blanks (cs : List Char) {blanks : List Char}
    (hb : ∀ c ∈ blanks, isBlank c = true) : trimEnd (cs ++ blanks) = trimEnd cs := by
  obtain ⟨own, hcs, hown⟩ := exists_eq_trimEnd_append cs
  have hall : ∀ c ∈ own ++ blanks, isBlank c = true := List.forall_mem_append.2 ⟨hown, hb⟩
  calc trimEnd (cs ++ blanks)
      = trimEnd (trimEnd cs ++ (own ++ blanks)) := by rw [← List.append_assoc, ← hcs]
    _ = trimEnd cs := trimEnd_append_of_blank (trimmed_trimEnd cs) hall

theorem trimEnd_dropReturn (line : List Char) : trimEnd (dropReturn line) = trimEnd line := by
  obtain ⟨blanks, hline, hb⟩ := exists_eq_dropReturn_append line
  have htrim := trimEnd_append_blanks (dropReturn line) hb
  rwa [← hline, eq_comm] at htrim

/-! ## Texts and their lines -/

/-- What can stand before the line feed that ends a line, and is part of the ending. -/
def returns : List (List Char) := [[], ['\r']]

/-- A text with these lines. Behind each there may be blanks, and then a line feed, with or without
a carriage return before it. The last line need not be ended if there is anything in it. -/
inductive Written : List (List Char) → List Char → Prop where
  | nil : Written [] []
  | unended {l blanks} (single : '\n' ∉ l ++ blanks) (blank : ∀ c ∈ blanks, isBlank c = true)
      (ne_nil : l ++ blanks ≠ []) : Written [l] (l ++ blanks)
  | ended {l blanks ending ls rest} (single : '\n' ∉ l ++ blanks)
      (blank : ∀ c ∈ blanks, isBlank c = true) (ends : ending ∈ returns) (later : Written ls rest) :
      Written (l :: ls) (l ++ blanks ++ ending ++ '\n' :: rest)

theorem blank_of_mem_returns {ending : List Char} (h : ending ∈ returns) :
    '\n' ∉ ending ∧ ∀ c ∈ ending, isBlank c = true := by
  simp only [returns, List.mem_cons, List.not_mem_nil, or_false] at h
  obtain rfl | rfl := h
  · exact ⟨List.not_mem_nil, List.forall_mem_nil _⟩
  · exact ⟨by decide, List.forall_mem_singleton.2 rfl⟩

/-- A line that is ended is read first, with what stands behind it. -/
theorem splitLines_line {l : List Char} (h : '\n' ∉ l) (rest : List Char) :
    splitLines (l ++ '\n' :: rest) = dropReturn l :: splitLines rest := by
  rw [splitLines_append_newline, List.splitOn_eq_singleton h]
  rfl

theorem splitLines_unended {l : List Char} (h : '\n' ∉ l) (hne : l ≠ []) : splitLines l = [l] := by
  rw [splitLines, List.splitOn_eq_singleton h]
  simp [ofPieces, hne]

/-- Up to the blanks behind them, the lines of a text are those that are written in it. -/
theorem Written.trimEnd_splitLines {ls : List (List Char)} {text : List Char} (h : Written ls text) :
    (splitLines text).map trimEnd = ls.map trimEnd := by
  induction h with
  | nil => rfl
  | unended single blank ne_nil =>
    rw [splitLines_unended single ne_nil, List.map_singleton, trimEnd_append_blanks _ blank]
    rfl
  | @ended l blanks ending ls rest single blank ends later ih =>
    obtain ⟨hsingle, hblank⟩ := blank_of_mem_returns ends
    have hline : '\n' ∉ l ++ blanks ++ ending := List.not_mem_append single hsingle
    rw [splitLines_line hline, List.map_cons, ih, trimEnd_dropReturn, trimEnd_append_blanks _ hblank,
      trimEnd_append_blanks _ blank, List.map_cons]

/-- A text with nothing behind its lines but a line feed each. -/
theorem written_flatMap {ls : List (List Char)} (h : ∀ l ∈ ls, '\n' ∉ l) :
    Written ls (ls.flatMap (· ++ ['\n'])) := by
  induction ls with
  | nil => exact .nil
  | cons l ls ih =>
    obtain ⟨hl, hls⟩ := List.forall_mem_cons.1 h
    have hsingle : '\n' ∉ l ++ [] := by rwa [List.append_nil]
    have hwritten := Written.ended hsingle (List.forall_mem_nil _) (.head _ : [] ∈ returns) (ih hls)
    simpa using hwritten

theorem Written.not_newline {ls : List (List Char)} {text : List Char} (h : Written ls text) :
    ∀ l ∈ ls, '\n' ∉ l := by
  induction h with
  | nil => exact List.forall_mem_nil _
  | unended single => exact List.forall_mem_singleton.2 (mt (List.mem_append_left _) single)
  | ended single blank ends later ih =>
    exact List.forall_mem_cons.2 ⟨mt (List.mem_append_left _) single, ih⟩

end Text

namespace Line

theorem ofChars_trimEnd (mark : Char) (raw : List Char) :
    ofChars mark (Text.trimEnd raw) = ofChars mark raw := by
  rw [ofChars, ofChars, Text.trimEnd_of_trimmed (Text.trimmed_trimEnd raw)]

/-- A source is read by the lines that are written in it. -/
theorem ofSource_of_written {lines : List String} {source : String}
    (h : Text.Written (lines.map String.toList) source.toList) : ofSource source = lines.map read := by
  have hread (raws : List (List Char)) :
      raws.map (ofChars commentMark) = (raws.map Text.trimEnd).map (ofChars commentMark) := by
    simp only [List.map_map, Function.comp_def, ofChars_trimEnd]
  rw [ofSource, hread, h.trimEnd_splitLines, ← hread, List.map_map]
  rfl

/-- A text that ends a line, or is empty, is read apart from what follows. -/
theorem ofSource_append {first : String} (h : first = "" ∨ first.toList.getLast? = some '\n')
    (second : String) : ofSource (first ++ second) = ofSource first ++ ofSource second := by
  rcases h with rfl | h
  · rw [String.empty_append]
    rfl
  · obtain ⟨front, hfirst⟩ := List.getLast?_eq_some_iff.1 h
    have hcut := Text.splitLines_append front second.toList
    simp only [ofSource, String.toList_append, hfirst, List.append_assoc, List.singleton_append, hcut,
      List.map_append]

end Line

theorem toList_unlines (lines : List String) :
    (unlines lines).toList = (lines.map String.toList).flatMap (· ++ ['\n']) := by
  simp [unlines, String.toList_join, List.flatMap_map]

/-- A conversion knows its source by the lines of it. -/
theorem convert_congr {source source' : String} (h : Line.ofSource source = Line.ofSource source')
    (o : Options) (file : String) : convert o file source = convert o file source' := by
  rw [convert, convert, h]

/-- **Ends of lines.** However the lines of a source are ended, and whatever blanks are behind them,
the source is read line by line as if each was ended by a line feed alone, and comes to the same
conversion, or fails with the same diagnostics. Two texts are read one after the other, unless the
first leaves a line open. -/
theorem line_ends_inert :
    (∀ (lines : List String) (source : String),
      Text.Written (lines.map String.toList) source.toList →
        Line.ofSource source = lines.map Line.read ∧
        Line.ofSource (unlines lines) = lines.map Line.read ∧
        ∀ (o : Options) (file : String), convert o file source = convert o file (unlines lines)) ∧
    ∀ first second : String, first = "" ∨ first.toList.getLast? = some '\n' →
      Line.ofSource (first ++ second) = Line.ofSource first ++ Line.ofSource second := by
  refine ⟨fun lines source h => ?_, fun first second h => Line.ofSource_append h second⟩
  have hplain : Text.Written (lines.map String.toList) (unlines lines).toList := by
    rw [toList_unlines]
    exact Text.written_flatMap h.not_newline
  have hsource := Line.ofSource_of_written h
  have hunlines := Line.ofSource_of_written hplain
  exact ⟨hsource, hunlines, convert_congr (hsource.trans hunlines.symm)⟩

/-- Blanks that are no line feeds do not end a line, be it U+0085, U+2028 or a carriage return. -/
theorem line_ends_inert_specimen :
    let lines := ["a .word\u2028 ?\r", "", "; b\rc"]
    let source := "a .word\u2028 ?\r\u0085\r\n \n; b\rc\u3000"
    Text.Written (lines.map String.toList) source.toList ∧
      Line.ofSource source =
        [⟨"a .word\u2028 ?", ["a", ".word", "?"], none⟩, ⟨"", [], none⟩,
          ⟨"; b\rc", [], some "; b\rc"⟩] ∧
      convert .standard "api.asm" source = convert .standard "api.asm" (unlines lines) ∧
      Line.ofSource ("a\r\n" ++ source) = Line.ofSource "a\r\n" ++ Line.ofSource source := by
  intro lines source
  have hwritten : Text.Written (lines.map String.toList) source.toList := by
    have hsource : source.toList = "a .word\u2028 ?\r".toList ++ ['\u0085'] ++ ['\r'] ++
        '\n' :: ([] ++ [' '] ++ [] ++ '\n' :: ("; b\rc".toList ++ ['\u3000'])) := by decide
    rw [hsource]
    refine .ended (by decide) (List.forall_mem_singleton.2 rfl) (by decide) ?_
    refine .ended (by decide) (List.forall_mem_singleton.2 rfl) (by decide) ?_
    exact .unended (by decide) (List.forall_mem_singleton.2 rfl) (by decide)
  obtain ⟨hread, -, hconvert⟩ := line_ends_inert.1 lines source hwritten
  refine ⟨hwritten, ?_, hconvert _ _, line_ends_inert.2 _ source (.inr rfl)⟩
  rw [hread]
  decide

end HeaderSymbols
