import HeaderSymbols.Proofs.Command.Precedence
import HeaderSymbols.Proofs.Command.Reports
import HeaderSymbols.Proofs.Texts

/-!
# The lines of a prologue

The target and the visibility are put into the prologue as they are. Since both are words, neither
ends the line that it is put into, nor closes the quotes around it or begins another word, so that
the prologue has its seven lines, whatever was asked for, and tells what was asked for.

* `Options.lines`, `Options.isLines_prologue`: the lines of a prologue.
* `Options.splitOn_targetLine`, `Options.words_visibilityLine`: what is read back from two of them.
* `prologue_keeps_its_lines`: so no option that is accepted adds a line or a word.
-/
namespace HeaderSymbols

theorem IsLines.unique {text : String} {lines lines' : List String} (h : IsLines text lines)
    (h' : IsLines text lines') : lines = lines' :=
  (List.map_inj_right fun _ _ => String.toList_injective).1 (List.append_cancel_right (h.symm.trans h'))

namespace Options

variable {o o' : Options}

/-- The line that names the target, between quotes. -/
def targetLine (o : Options) : String := ".target \"" ++ o.target ++ "\""

def visibilityLine (o : Options) : String := ".visibility " ++ o.visibility

/-- The lines of a prologue. -/
def lines (o : Options) : List String :=
  ["; This file is automatically converted to Accelerate syntax by " ++ o.tool ++ ".",
   "; Do not edit manually.",
   "; Comments describing structures lost their spot in conversion.",
   "",
   o.targetLine,
   o.visibilityLine,
   ""]

theorem prologue_eq_unlines (o : Options) : o.prologue = unlines o.lines := by
  have hdot : ".\n" = "." ++ "\n" := by decide +kernel
  have hmanual : "; Do not edit manually.\n" = "; Do not edit manually." ++ "\n" := by decide +kernel
  have hspot : "; Comments describing structures lost their spot in conversion.\n" =
      "; Comments describing structures lost their spot in conversion." ++ "\n" := by decide +kernel
  have hquote : "\"\n" = "\"" ++ "\n" := by decide +kernel
  have hnone : unlines [] = "" := rfl
  unfold lines targetLine visibilityLine prologue
  simp only [unlines_cons, hnone, String.append_assoc, String.append_empty, String.empty_append, hdot,
    hmanual, hspot, hquote]

theorem isLines_prologue (h : o.Single) : IsLines o.prologue o.lines := by
  have hsingle : ∀ l ∈ o.lines, HeaderSymbols.Single l := by
    have htool := ((by decide : HeaderSymbols.Single
      "; This file is automatically converted to Accelerate syntax by ").append h.tool).append
        (by decide : HeaderSymbols.Single ".")
    have htarget : HeaderSymbols.Single o.targetLine :=
      ((by decide : HeaderSymbols.Single ".target \"").append h.target).append (by decide)
    have hvisibility : HeaderSymbols.Single o.visibilityLine :=
      (by decide : HeaderSymbols.Single ".visibility ").append h.visibility
    simp only [lines, List.forall_mem_cons, htool, htarget, hvisibility, true_and]
    exact ⟨by decide, by decide, by decide, by decide, List.forall_mem_nil _⟩
  rw [prologue_eq_unlines]
  exact isLines_unlines hsingle

/-- The target stands between the two quotes of its line. -/
theorem splitOn_targetLine (h : '"' ∉ o.target.toList) :
    o.targetLine.toList.splitOn '"' = [".target ".toList, o.target.toList, []] := by
  have hline : o.targetLine.toList = ".target ".toList ++ '"' :: (o.target.toList ++ '"' :: []) := by
    simp [targetLine, String.toList_append]
  have hopening : '"' ∉ ".target ".toList := by decide
  rw [hline, List.splitOn_append_cons_self, List.splitOn_append_cons_self,
    List.splitOn_eq_singleton hopening, List.splitOn_eq_singleton h]
  rfl

/-- The visibility is the second of two words on its line. -/
theorem words_visibilityLine (hne : o.visibility.toList ≠ [])
    (h : ∀ c ∈ o.visibility.toList, Text.isBlank c = false) :
    Text.words o.visibilityLine.toList = [".visibility".toList, o.visibility.toList] := by
  have hline : o.visibilityLine.toList = ".visibility".toList ++ ' ' :: o.visibility.toList := by
    simp [visibilityLine, String.toList_append]
  have hdirective : ∀ c ∈ ".visibility".toList, Text.isBlank c = false := fun c hc =>
    ((Settings.isWord_iff.1 (by decide : Settings.isWord ".visibility" = true)).2 c hc).1
  rw [hline, Text.words_append_blank _ _ (by decide), Text.words_of_not_blank (by decide) hdirective,
    Text.words_of_not_blank hne h]
  rfl

/-- What follows the prologue of an output is the same, whatever the options are. -/
theorem exists_body {file source : String} {c : Conversion} (h : convert o file source = .ok c) :
    ∃ body, ∀ o' : Options,
      convert o' file source = .ok ⟨o'.prologue ++ body, c.lines, c.symbols⟩ := by
  rw [convert_eq] at h
  split at h
  · rename_i hnothing
    cases h
    refine ⟨(layoutOf source).output, fun o' => ?_⟩
    rw [convert_eq, if_pos hnothing]
  · cases h

end Options

namespace Settings.Sound

variable {s s' : Settings}

theorem single (h : s.Sound) : s.options.Single := by
  have hword {w : String} (hw : isWord w = true) : HeaderSymbols.Single w := fun hn =>
    Bool.false_ne_true ((isWord_iff.1 hw).2 _ hn).1.symm
  exact ⟨h.tool ▸ by decide, hword h.target, hword h.visibility⟩

theorem splitOn_targetLine (h : s.Sound) :
    s.options.targetLine.toList.splitOn '"' = [".target ".toList, s.options.target.toList, []] :=
  Options.splitOn_targetLine fun hq => ((isWord_iff.1 h.target).2 _ hq).2 rfl

theorem words_visibilityLine (h : s.Sound) :
    Text.words s.options.visibilityLine.toList =
      [".visibility".toList, s.options.visibility.toList] := by
  obtain ⟨hne, hword⟩ := isWord_iff.1 h.visibility
  exact Options.words_visibilityLine (by simpa using hne) fun c hc => (hword c hc).1

/-- What settings ask for is read back from their prologue. -/
theorem eq_of_prologue_eq (h : s.Sound) (h' : s'.Sound)
    (hsame : s'.options.prologue = s.options.prologue) :
    s'.options.target = s.options.target ∧ s'.options.visibility = s.options.visibility := by
  have hlines : s'.options.lines = s.options.lines :=
    (hsame ▸ Options.isLines_prologue h'.single).unique (Options.isLines_prologue h.single)
  simp only [Options.lines, List.cons.injEq] at hlines
  obtain ⟨-, -, -, -, htarget, hvisibility, -⟩ := hlines
  have hquoted := h'.splitOn_targetLine
  have hwords := h'.words_visibilityLine
  rw [htarget, h.splitOn_targetLine] at hquoted
  rw [hvisibility, h.words_visibilityLine] at hwords
  simp only [List.cons.injEq, true_and, and_true] at hquoted hwords
  exact ⟨String.toList_injective hquoted.symm, String.toList_injective hwords.symm⟩

end Settings.Sound

/-- **Prologue.** Whatever stands on the command line and in the environment, settings that are
accepted have a prologue of seven lines. The fifth has two quotes, with the target between them, and
the sixth has two words, of which the visibility is the second; so both are read back from the
prologue. And they are nowhere else in an output: what follows is the same for all options. -/
theorem prologue_keeps_its_lines {a : Arguments} {env : Environment} {s : Settings}
    (h : Settings.resolve a env = .ok s) :
    IsLines s.options.prologue s.options.lines ∧ s.options.lines.length = 7 ∧
    (∃ line, s.options.lines[4]? = some line ∧ line = ".target \"" ++ s.options.target ++ "\"" ∧
      line.toList.splitOn '"' = [".target ".toList, s.options.target.toList, []]) ∧
    (∃ line, s.options.lines[5]? = some line ∧ line = ".visibility " ++ s.options.visibility ∧
      Text.words line.toList = [".visibility".toList, s.options.visibility.toList]) ∧
    (∀ (a' : Arguments) (env' : Environment) (s' : Settings), Settings.resolve a' env' = .ok s' →
      s'.options.prologue = s.options.prologue →
        s'.options.target = s.options.target ∧ s'.options.visibility = s.options.visibility) ∧
    ∀ file source c, convert s.options file source = .ok c → ∃ body, ∀ o : Options,
      convert o file source = .ok ⟨o.prologue ++ body, c.lines, c.symbols⟩ := by
  have hsound := Settings.sound_of_resolve h
  refine ⟨Options.isLines_prologue hsound.single, rfl,
    ⟨_, rfl, rfl, hsound.splitOn_targetLine⟩, ⟨_, rfl, rfl, hsound.words_visibilityLine⟩,
    fun a' env' s' h' hsame => ?_, fun _ _ _ => Options.exists_body⟩
  exact hsound.eq_of_prologue_eq (Settings.sound_of_resolve h') hsame

/-- A visibility from the environment, with blanks around it that do not count. -/
theorem prologue_keeps_its_lines_specimen :
    let a : Arguments := { Arguments.none with target := some "f256\u00e9" }
    let env : Environment := fun v =>
      if v = .visibility then some (Text.Utf8.encode "\u2028private\n") else none
    ∃ s, Settings.resolve a env = .ok s ∧ s.options.targetLine = ".target \"f256\u00e9\"" ∧
      s.options.visibilityLine = ".visibility private" ∧
      IsLines s.options.prologue s.options.lines ∧ s.options.lines.length = 7 := by
  intro a env
  let s : Settings := ⟨Settings.standardInput, Settings.standardOutput,
    ⟨"f256conv", "f256\u00e9", "private"⟩, false, false, .text, .stderr⟩
  have hresolve : Settings.resolve a env = .ok s := eq_ok_of_toOption (by decide +kernel)
  obtain ⟨hlines, hcount, -⟩ := prologue_keeps_its_lines hresolve
  exact ⟨s, hresolve, by decide +kernel, by decide +kernel, hlines, hcount⟩

end HeaderSymbols
