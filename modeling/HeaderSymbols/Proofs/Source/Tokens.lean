import HeaderSymbols.Proofs.Source.Wording

/-!
# A line and its tokens

What a line is cut into can be told without cutting it: the text and the blanks that were at its
end, the code and the comment that begins at the first mark, the words and the blanks around them.
There is one way only to put a line together like this, so that nothing but spacing is lost.

* `Runs`, `runs_iff`: the words of a text are its longest runs without blanks.
* `Marked`, `marked_iff`: the code of a text is what stands before its first mark.
* `Cut`, `cut_iff`: the line that is cut from a raw one.
* `Cut.canonical`: its words and its comment with single spaces between them are cut into the same.
* `tokens_keep_all_but_spacing`: so all that a line holds is in its text, and all of that which is
  no blank is in its words and its comment.
-/
namespace HeaderSymbols

namespace Text

/-! ## Runs -/

/-- The longest runs without blanks in a text, in order: each has blanks or nothing before it, and
ends where a blank stands or the text ends. -/
inductive Runs : List Char → List (List Char) → Prop where
  | none {blanks} (blank : ∀ c ∈ blanks, isBlank c = true) : Runs blanks []
  | run {blanks w rest ws} (blank : ∀ c ∈ blanks, isBlank c = true) (ne_nil : w ≠ [])
      (solid : ∀ c ∈ w, isBlank c = false) (ends : ∀ c ∈ rest.head?, isBlank c = true)
      (later : Runs rest ws) : Runs (blanks ++ w ++ rest) (w :: ws)

variable {cs blanks : List Char} {ws : List (List Char)} {c : Char}

theorem Runs.cons_blank (h : Runs cs ws) (hc : isBlank c = true) : Runs (c :: cs) ws := by
  cases h with
  | none blank => exact .none (List.forall_mem_cons.2 ⟨hc, blank⟩)
  | run blank ne_nil solid ends later =>
    exact .run (List.forall_mem_cons.2 ⟨hc, blank⟩) ne_nil solid ends later

/-- A run at the start of a text. -/
theorem Runs.first {w : List Char} (ne_nil : w ≠ []) (solid : ∀ c ∈ w, isBlank c = false)
    (ends : ∀ c ∈ cs.head?, isBlank c = true) (later : Runs cs ws) : Runs (w ++ cs) (w :: ws) :=
  .run (List.forall_mem_nil _) ne_nil solid ends later

/-- A character that is no blank makes the first run longer, or is a run by itself where a blank
follows. -/
theorem Runs.exists_cons_solid (h : Runs cs ws) (hc : isBlank c = false) :
    ∃ ws, Runs (c :: cs) ws := by
  have hsingle : ∀ d ∈ [c], isBlank d = false := List.forall_mem_singleton.2 hc
  cases h with
  | none blank =>
    have hends : ∀ d ∈ cs.head?, isBlank d = true := fun d hd => blank d (List.mem_of_mem_head? hd)
    exact ⟨_, .first (List.cons_ne_nil c []) hsingle hends (.none blank)⟩
  | @run blanks w rest ws blank ne_nil solid ends later =>
    cases blanks with
    | nil =>
      exact ⟨_, .first (List.cons_ne_nil c w) (List.forall_mem_cons.2 ⟨hc, solid⟩) ends later⟩
    | cons b blanks =>
      have hends : ∀ d ∈ (b :: blanks ++ w ++ rest).head?, isBlank d = true := by
        simpa using blank b (.head _)
      exact ⟨_, .first (List.cons_ne_nil c []) hsingle hends (.run blank ne_nil solid ends later)⟩

theorem exists_runs (cs : List Char) : ∃ ws, Runs cs ws := by
  induction cs with
  | nil => exact ⟨[], .none (List.forall_mem_nil _)⟩
  | cons c cs ih =>
    obtain ⟨ws, h⟩ := ih
    cases hc : isBlank c with
    | true => exact ⟨ws, h.cons_blank hc⟩
    | false => exact h.exists_cons_solid hc

theorem words_blank_append (h : ∀ c ∈ blanks, isBlank c = true) (cs : List Char) :
    words (blanks ++ cs) = words cs := by
  induction blanks with
  | nil => rfl
  | cons c blanks ih =>
    obtain ⟨hc, hblanks⟩ := List.forall_mem_cons.1 h
    exact (words_append_blank [] (blanks ++ cs) hc).trans (ih hblanks)

theorem Runs.words_eq (h : Runs cs ws) : words cs = ws := by
  induction h with
  | none blank => exact words_append_of_blank [] blank
  | @run blanks w rest ws blank ne_nil solid ends later ih =>
    have hw : words w = [w] := words_of_not_blank ne_nil solid
    rw [List.append_assoc, words_blank_append blank]
    cases rest with
    | nil => rw [List.append_nil, hw, ← ih]; rfl
    | cons c rest =>
      -- the blank that ends the run is in none of the words after it
      have hc : isBlank c = true := ends c rfl
      have hrest : words rest = ws := (words_append_blank [] rest hc).symm.trans ih
      rw [words_append_blank w rest hc, hw, hrest]
      rfl

/-- **Runs.** The words of a text are its longest runs without blanks. -/
theorem runs_iff : Runs cs ws ↔ words cs = ws := by
  refine ⟨Runs.words_eq, fun h => ?_⟩
  obtain ⟨ws', hruns⟩ := exists_runs cs
  rw [← h, hruns.words_eq]
  exact hruns

/-! ## Words put together -/

theorem mem_of_mem_intercalate {sep : List Char} (h : c ∈ sep.intercalate ws) :
    c ∈ sep ∨ ∃ w ∈ ws, c ∈ w := by
  induction ws with
  | nil => simp at h
  | cons w ws ih =>
    cases ws with
    | nil => exact .inr ⟨w, .head _, by simpa using h⟩
    | cons v ws =>
      rw [List.intercalate_cons_cons, List.append_assoc, List.mem_append, List.mem_append] at h
      rcases h with h | h | h
      · exact .inr ⟨w, .head _, h⟩
      · exact .inl h
      · rcases ih h with h | ⟨u, hu, h⟩
        · exact .inl h
        · exact .inr ⟨u, .tail _ hu, h⟩

/-- Words with single spaces between them are cut into the words. -/
theorem words_intercalate (h : ∀ w ∈ ws, w ≠ [] ∧ ∀ c ∈ w, isBlank c = false) :
    words ([' '].intercalate ws) = ws := by
  induction ws with
  | nil => rfl
  | cons w ws ih =>
    obtain ⟨⟨hne, hsolid⟩, hws⟩ := List.forall_mem_cons.1 h
    have hw : words w = [w] := words_of_not_blank hne hsolid
    cases ws with
    | nil => simpa using hw
    | cons v ws =>
      have hspace : isBlank ' ' = true := by decide
      rw [List.intercalate_cons_cons, List.append_assoc, List.singleton_append,
        words_append_blank w _ hspace, hw, ih hws]
      rfl

/-- Words with single spaces between them end in a word. -/
theorem trimmed_intercalate (h : ∀ w ∈ ws, w ≠ [] ∧ ∀ c ∈ w, isBlank c = false) :
    Trimmed ([' '].intercalate ws) := by
  induction ws with
  | nil => simp [Trimmed]
  | cons w ws ih =>
    obtain ⟨⟨-, hsolid⟩, hws⟩ := List.forall_mem_cons.1 h
    cases ws with
    | nil => simpa using trimmed_of_not_blank hsolid
    | cons v ws =>
      have hne : [' '].intercalate (v :: ws) ≠ [] := by
        intro hnil
        have hwords := words_intercalate hws
        rw [hnil] at hwords
        cases hwords
      rw [List.intercalate_cons_cons]
      exact (trimmed_append_iff hne _).2 (ih hws)

/-- What is before the blanks at the end of a text is left of it. -/
theorem trimEnd_append_of_blank (ht : Trimmed cs) (hb : ∀ c ∈ blanks, isBlank c = true) :
    trimEnd (cs ++ blanks) = cs := by
  have hrev : ∀ c ∈ blanks.reverse, isBlank c = true := fun c hc => hb c (List.mem_reverse.1 hc)
  rw [trimEnd, List.reverse_append, List.dropWhile_append_of_pos hrev]
  exact trimEnd_of_trimmed ht

end Text

namespace Line

/-! ## Code and comment -/

/-- A text without the mark is code and has no comment; any other has code up to its first mark, and
a comment from there on. -/
inductive Marked (mark : Char) : List Char → List Char → Option String → Prop where
  | plain {text} (unmarked : mark ∉ text) : Marked mark text text none
  | commented {before after} (unmarked : mark ∉ before) :
      Marked mark (before ++ mark :: after) before (some (String.ofList (mark :: after)))

variable {mark : Char} {text part : List Char} {comment : Option String}

theorem Marked.not_mem (h : Marked mark text part comment) : mark ∉ part := by
  cases h with
  | plain unmarked | commented unmarked => exact unmarked

/-- The comment of a text is there exactly if the mark is. -/
theorem Marked.eq_none_iff (h : Marked mark text part comment) : comment = none ↔ mark ∉ text := by
  cases h with
  | plain unmarked => exact iff_of_true rfl unmarked
  | commented => simp

theorem marked_iff : Marked mark text part comment ↔ part = code mark text ∧
    comment = if (remark mark text).isEmpty then none else some (String.ofList (remark mark text)) := by
  constructor
  · intro h
    cases h with
    | plain unmarked =>
      obtain ⟨hcode, hremark⟩ := code_remark_append unmarked [] (by simp)
      rw [List.append_nil] at hcode hremark
      rw [hcode, hremark]
      exact ⟨rfl, rfl⟩
    | @commented _ after unmarked =>
      obtain ⟨hcode, hremark⟩ := code_remark_append unmarked (mark :: after) (by simp)
      rw [hcode, hremark]
      exact ⟨rfl, rfl⟩
  · rintro ⟨rfl, rfl⟩
    have htext := code_append_remark mark text
    cases hr : remark mark text with
    | nil =>
      rw [hr, List.append_nil] at htext
      rw [htext]
      exact .plain (htext ▸ not_mem_code mark text)
    | cons c after =>
      have hhead : (remark mark text).head? = some mark := head?_remark (by simp [hr])
      rw [hr, List.head?_cons, Option.some.injEq] at hhead
      subst hhead
      rw [hr] at htext
      have hmarked : Marked c (code c text ++ c :: after) _ _ := .commented (not_mem_code c text)
      rwa [htext] at hmarked

/-! ## Lines -/

/-- The line is cut from the raw one: its text goes up to the longest row of blanks at the end, the
comment of the text is its comment, and the longest runs in the code are its words. -/
structure Cut (mark : Char) (raw : List Char) (l : Line) : Prop where
  text : ∃ blanks, raw = l.text.toList ++ blanks ∧ ∀ c ∈ blanks, Text.isBlank c = true
  trimmed : Text.Trimmed l.text.toList
  code : ∃ part, Marked mark l.text.toList part l.comment ∧
    Text.Runs part (l.words.map String.toList)

variable {raw : List Char} {l : Line}

/-- **Cuts.** One line only is cut from a raw one. -/
theorem cut_iff : Cut mark raw l ↔ l = ofChars mark raw := by
  constructor
  · rintro ⟨⟨blanks, rfl, hblanks⟩, htrimmed, part, hmarked, hruns⟩
    obtain ⟨rfl, hcomment⟩ := marked_iff.1 hmarked
    obtain ⟨text, words, comment⟩ := l
    have hwords : (Text.words (Line.code mark text.toList)).map String.ofList = words := by
      rw [hruns.words_eq, List.map_map]
      simp [Function.comp_def]
    simp only [ofChars, Text.trimEnd_append_of_blank htrimmed hblanks, hwords, String.ofList_toList]
    exact congrArg (Line.mk text words) hcomment
  · rintro rfl
    obtain ⟨blanks, hraw, hblanks⟩ := Text.exists_eq_trimEnd_append raw
    refine ⟨⟨blanks, ?_, hblanks⟩, ?_, Line.code mark (Text.trimEnd raw), ?_, ?_⟩
    · rw [ofChars, String.toList_ofList]
      exact hraw
    · rw [ofChars, String.toList_ofList]
      exact Text.trimmed_trimEnd raw
    · rw [ofChars, String.toList_ofList]
      exact marked_iff.2 ⟨rfl, rfl⟩
    · refine Text.runs_iff.2 ?_
      simp [ofChars, Function.comp_def]

/-- A text that is cut once more is cut into the same. -/
theorem Cut.again (h : Cut mark raw l) : Cut mark l.text.toList l :=
  ⟨⟨[], (List.append_nil _).symm, nofun⟩, h.trimmed, h.code⟩

theorem Cut.words (h : Cut mark raw l) :
    ∀ w ∈ l.words, w.toList ≠ [] ∧ (∀ c ∈ w.toList, Text.isBlank c = false) ∧ mark ∉ w.toList := by
  intro w hw
  obtain ⟨part, hmarked, hruns⟩ := h.code
  have hmem : w.toList ∈ Text.words part := hruns.words_eq ▸ List.mem_map_of_mem hw
  exact ⟨Text.ne_nil_of_mem_words hmem, Text.not_blank_of_mem_words hmem,
    fun hm => hmarked.not_mem (Text.mem_of_mem_words hmem _ hm)⟩

/-- The words with single spaces between them, and the comment after one more. -/
def canonical (l : Line) : String :=
  " ".intercalate l.words ++ l.comment.elim "" (" " ++ ·)

theorem toList_canonical (l : Line) :
    l.canonical.toList = [' '].intercalate (l.words.map String.toList) ++
      l.comment.elim [] (' ' :: ·.toList) := by
  rw [canonical, String.toList_append, String.toList_intercalate]
  cases l.comment <;> simp

/-- The line written with single spaces is cut into the same words and the same comment. -/
theorem Cut.canonical (hmark : Text.isBlank mark = false) (h : Cut mark raw l) :
    Cut mark l.canonical.toList ⟨l.canonical, l.words, l.comment⟩ := by
  have hspace : mark ≠ ' ' := by
    rintro rfl
    cases hmark
  have hwords : ∀ w ∈ l.words.map String.toList, w ≠ [] ∧ ∀ c ∈ w, Text.isBlank c = false := by
    intro w hw
    obtain ⟨word, hword, rfl⟩ := List.mem_map.1 hw
    exact ⟨(h.words word hword).1, (h.words word hword).2.1⟩
  have hunmarked : mark ∉ [' '].intercalate (l.words.map String.toList) := by
    intro hm
    rcases Text.mem_of_mem_intercalate hm with hm | ⟨w, hw, hm⟩
    · exact hspace (List.mem_singleton.1 hm)
    · obtain ⟨word, hword, rfl⟩ := List.mem_map.1 hw
      exact (h.words word hword).2.2 hm
  obtain ⟨part, hmarked, -⟩ := h.code
  have htrimmed := h.trimmed
  refine ⟨⟨[], (List.append_nil _).symm, List.forall_mem_nil _⟩, ?_, ?_⟩ <;>
    rw [toList_canonical] <;> generalize l.text.toList = text at hmarked htrimmed <;>
    generalize l.comment = comment at hmarked
  · cases hmarked with
    | plain =>
      rw [Option.elim_none, List.append_nil]
      exact Text.trimmed_intercalate hwords
    | @commented _ after =>
      have hafter : Text.Trimmed (mark :: after) :=
        (Text.trimmed_append_iff (List.cons_ne_nil _ _) _).1 htrimmed
      rw [Option.elim_some, String.toList_ofList, List.append_cons]
      exact (Text.trimmed_append_iff (List.cons_ne_nil _ _) _).2 hafter
  · cases hmarked with
    | plain =>
      rw [Option.elim_none, List.append_nil]
      exact ⟨_, .plain hunmarked, Text.runs_iff.2 (Text.words_intercalate hwords)⟩
    | @commented _ after =>
      rw [Option.elim_some, String.toList_ofList, List.append_cons]
      refine ⟨_, .commented (by simp [hunmarked, hspace]), Text.runs_iff.2 ?_⟩
      rw [Text.words_append_of_blank _ (List.forall_mem_singleton.2 (by decide))]
      exact Text.words_intercalate hwords

end Line

/-- **Tokens.** Whatever the mark is, so long as it is no blank, a raw line is cut in one way: its
text is what is before the longest row of blanks at its end; there is a comment exactly if the mark
is in the text, and it begins at the first one; the words are the longest runs without blanks
before that, and have no mark. The text is cut into the same again, and the words and the comment,
written with single spaces, into the same words and the same comment. -/
theorem tokens_keep_all_but_spacing (mark : Char) (hmark : Text.isBlank mark = false)
    (raw : String) :
    let l := Line.ofChars mark raw.toList
    (∀ l', Line.Cut mark raw.toList l' ↔ l' = l) ∧
      (l.comment = none ↔ mark ∉ l.text.toList) ∧
      (∀ w ∈ l.words, w ≠ "" ∧ (∀ c ∈ w.toList, Text.isBlank c = false) ∧ mark ∉ w.toList) ∧
      Line.ofChars mark l.text.toList = l ∧
      (Line.ofChars mark l.canonical.toList).words = l.words ∧
      (Line.ofChars mark l.canonical.toList).comment = l.comment := by
  intro l
  have hcut : Line.Cut mark raw.toList l := Line.cut_iff.2 rfl
  have hcanonical := Line.cut_iff.1 (hcut.canonical hmark)
  obtain ⟨part, hmarked, -⟩ := hcut.code
  refine ⟨fun l' => Line.cut_iff, hmarked.eq_none_iff, fun w hw => ?_,
    (Line.cut_iff.1 hcut.again).symm, ?_, ?_⟩
  · obtain ⟨hne, hwords⟩ := hcut.words w hw
    exact ⟨fun he => hne (he ▸ rfl), hwords⟩
  · rw [← hcanonical]
  · rw [← hcanonical]

/-- A mark of its own, straight after a word, and a blank that is no space. -/
theorem tokens_keep_all_but_spacing_specimen :
    let l := Line.ofChars '#' "\ta\u2003 .byte ?#note  1 \r".toList
    Text.isBlank '#' = false ∧ l = ⟨"\ta\u2003 .byte ?#note  1", ["a", ".byte", "?"], some "#note  1"⟩ ∧
      l.canonical = "a .byte ? #note  1" ∧
      (Line.ofChars '#' l.canonical.toList).words = ["a", ".byte", "?"] ∧
      (Line.ofChars '#' l.canonical.toList).comment = some "#note  1" := by
  intro l
  have hmark : Text.isBlank '#' = false := by decide
  have hl : l = ⟨"\ta\u2003 .byte ?#note  1", ["a", ".byte", "?"], some "#note  1"⟩ := by decide
  obtain ⟨-, -, -, -, hwords, hcomment⟩ :=
    tokens_keep_all_but_spacing '#' hmark "\ta\u2003 .byte ?#note  1 \r"
  exact ⟨hmark, hl, by rw [hl]; decide, hwords.trans (congrArg Line.words hl),
    hcomment.trans (congrArg Line.comment hl)⟩

end HeaderSymbols
