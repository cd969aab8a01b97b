import HeaderSymbols.Text.Blank
import HeaderSymbols.Text.Lines

/-!
# Words and lines put together and cut apart

* `words_of_not_blank`: a text without blanks is one word.
* `words_append_of_blank`: blanks at the end of a text make no word.
* `trimEnd_of_trimmed`, `trimmed_trimEnd`: what trimming leaves as it is, and what it leaves.
* `splitLines_flatMap`: lines that are each ended by a line feed are the lines of the text.
-/
namespace HeaderSymbols.Text

/-! ## Words -/

theorem words_of_not_blank {w : List Char} (hne : w ≠ []) (h : ∀ c ∈ w, isBlank c = false) :
    words w = [w] := by
  rw [words, List.splitOnP_eq_singleton h]
  simp [hne]

theorem words_append_of_blank (xs : List Char) {ys : List Char}
    (h : ∀ c ∈ ys, isBlank c = true) : words (xs ++ ys) = words xs := by
  have hblank : words ys = [] := by
    induction ys with
    | nil => rfl
    | cons c rest ih =>
      obtain ⟨hc, hrest⟩ := List.forall_mem_cons.1 h
      exact (words_append_blank [] rest hc).trans (ih hrest)
  cases ys with
  | nil => rw [List.append_nil]
  | cons c rest =>
    obtain ⟨hc, -⟩ := List.forall_mem_cons.1 h
    have hrest : words rest = [] := (words_append_blank [] rest hc).symm.trans hblank
    rw [words_append_blank xs rest hc, hrest, List.append_nil]

/-! ## Ends -/

/-- Nothing blank is at the end of a text. -/
def Trimmed (cs : List Char) : Prop := ∀ c ∈ cs.getLast?, isBlank c = false

theorem trimEnd_of_trimmed {cs : List Char} (h : Trimmed cs) : trimEnd cs = cs := by
  rw [Trimmed, List.getLast?_eq_head?_reverse] at h
  rw [trimEnd]
  cases hr : cs.reverse with
  | nil => simpa using hr.symm
  | cons c rest =>
    rw [hr] at h
    rw [List.dropWhile_cons_of_neg (by simp [h c rfl]), ← hr, List.reverse_reverse]

theorem trimmed_trimEnd (cs : List Char) : Trimmed (trimEnd cs) := by
  rw [Trimmed, trimEnd, List.getLast?_reverse]
  intro c hc
  have hhead := List.head?_dropWhile_not isBlank cs.reverse
  rw [Option.mem_def] at hc
  simpa [hc] using hhead

theorem trimmed_append_iff {ys : List Char} (hne : ys ≠ []) (xs : List Char) :
    Trimmed (xs ++ ys) ↔ Trimmed ys := by
  obtain ⟨c, hc⟩ := Option.isSome_iff_exists.1 (List.getLast?_isSome.2 hne)
  rw [Trimmed, Trimmed, List.getLast?_append, hc, Option.some_or]

theorem trimmed_of_not_blank {cs : List Char} (h : ∀ c ∈ cs, isBlank c = false) : Trimmed cs :=
  fun c hc => h c (List.mem_of_getLast? hc)

theorem trimEnd_prefix (cs : List Char) : trimEnd cs <+: cs := by
  have h := List.dropWhile_suffix isBlank (l := cs.reverse)
  rw [← List.reverse_prefix, List.reverse_reverse] at h
  exact h

theorem exists_eq_trimEnd_append (cs : List Char) :
    ∃ blanks, cs = trimEnd cs ++ blanks ∧ ∀ c ∈ blanks, isBlank c = true := by
  refine ⟨(cs.reverse.takeWhile isBlank).reverse, ?_, fun c hc => ?_⟩
  · rw [trimEnd, ← List.reverse_append, List.takeWhile_append_dropWhile, List.reverse_reverse]
  · exact List.all_eq_true.1 List.all_takeWhile c (List.mem_reverse.1 hc)

/-! ## Lines -/

/-- What is put at the end of a text belongs to its last piece, which is empty only where the text
ends. -/
theorem exists_splitOn_append {α : Type} [BEq α] [LawfulBEq α] {a : α} (xs : List α) {ys : List α}
    (h : a ∉ ys) : ∃ pieces last, xs.splitOn a = pieces ++ [last] ∧
      (xs ++ ys).splitOn a = pieces ++ [last ++ ys] ∧
      (last = [] → xs = [] ∨ xs.getLast? = some a) := by
  by_cases ha : a ∈ xs
  · -- the piece begins after the last of the separators, the first from the end
    obtain ⟨post, pre, hxs, hpost⟩ := List.eq_append_cons_of_mem (List.mem_reverse.2 ha)
    have hxs : xs = pre.reverse ++ a :: post.reverse := by
      rw [← List.reverse_reverse xs, hxs]
      simp
    have hlast : a ∉ post.reverse := by simpa using hpost
    have hlonger : a ∉ post.reverse ++ ys := by simp [hpost, h]
    subst hxs
    refine ⟨pre.reverse.splitOn a, post.reverse, ?_, ?_, fun hnil => .inr ?_⟩
    · rw [List.splitOn_append_cons_self, List.splitOn_eq_singleton hlast]
    · rw [List.append_assoc, List.cons_append, List.splitOn_append_cons_self,
        List.splitOn_eq_singleton hlonger]
    · rw [hnil, List.getLast?_concat]
  · exact ⟨[], xs, List.splitOn_eq_singleton ha, List.splitOn_eq_singleton (by simp [ha, h]), .inl⟩

theorem dropReturn_of_trimmed {line : List Char} (h : Trimmed line) : dropReturn line = line := by
  rw [dropReturn, if_neg]
  intro hr
  have hb := h _ hr
  cases hb

theorem splitLines_flatMap {lines : List (List Char)} (h : ∀ l ∈ lines, '\n' ∉ l ∧ Trimmed l) :
    splitLines (lines.flatMap (· ++ ['\n'])) = lines := by
  induction lines with
  | nil => rfl
  | cons l rest ih =>
    obtain ⟨hn, ht⟩ := h l (.head _)
    rw [List.flatMap_cons, List.append_assoc, List.singleton_append, splitLines_append_newline,
      List.splitOn_eq_singleton hn, ih fun l' hl => h l' (.tail _ hl)]
    simp [dropReturn_of_trimmed ht]

theorem exists_eq_dropReturn_append (line : List Char) :
    ∃ blanks, line = dropReturn line ++ blanks ∧ ∀ c ∈ blanks, isBlank c = true := by
  unfold dropReturn
  split
  · rename_i h
    obtain ⟨front, rfl⟩ := List.getLast?_eq_some_iff.1 h
    refine ⟨['\r'], by rw [List.dropLast_concat], fun c hc => ?_⟩
    rw [List.mem_singleton.1 hc]
    rfl
  · exact ⟨[], (List.append_nil _).symm, nofun⟩

/-- A text that ends a line is read apart from what follows. -/
theorem splitLines_append (xs ys : List Char) :
    splitLines (xs ++ '\n' :: ys) = splitLines (xs ++ ['\n']) ++ splitLines ys := by
  rw [splitLines_append_newline, splitLines_append_newline, splitLines_nil, List.append_nil]

theorem dropReturn_prefix (line : List Char) : dropReturn line <+: line := by
  rw [dropReturn]
  split
  · exact List.dropLast_prefix line
  · exact List.prefix_refl line

theorem exists_prefix_of_mem_ofPieces {pieces : List (List Char)} {l : List Char}
    (h : l ∈ ofPieces pieces) : ∃ piece ∈ pieces, l <+: piece := by
  fun_induction ofPieces pieces with
  | case1 => cases h
  | case2 last he => cases h
  | case3 last he => exact ⟨l, h, List.prefix_refl l⟩
  | case4 piece pieces _ ih =>
    rcases List.mem_cons.1 h with rfl | h
    · exact ⟨piece, .head _, dropReturn_prefix piece⟩
    · obtain ⟨other, ho, hl⟩ := ih h
      exact ⟨other, .tail _ ho, hl⟩

theorem not_newline_of_mem_splitLines {cs l : List Char} (h : l ∈ splitLines cs) : '\n' ∉ l := by
  obtain ⟨piece, hp, hl⟩ := exists_prefix_of_mem_ofPieces h
  rw [List.splitOn_eq_splitOnP] at hp
  intro hn
  have hcut := (of_mem_splitOnP hp _ (hl.subset hn)).2
  simp at hcut

end HeaderSymbols.Text
