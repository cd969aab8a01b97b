/-!
# Blank characters and words

A character is blank when it has the Unicode property White_Space. Text is cut
at blanks in three ways: `trimEnd` and `trim` drop the blanks around a text, and
`words` lists its maximal runs without blanks.

Main statements: every word is non-empty and free of blanks (`ne_nil_of_mem_words`,
`not_blank_of_mem_words`), and a blank between two texts separates their words
(`words_append_blank`).
-/
namespace HeaderSymbols.Text

/-- Whether a scalar value lies in one of the closed ranges. -/
def inRanges (ranges : List (Nat × Nat)) (c : Char) : Bool :=
  ranges.any fun r => r.1 ≤ c.toNat && c.toNat ≤ r.2

/-- The property White_Space. -/
def blankRanges : List (Nat × Nat) :=
  [(0x09, 0x0D), (0x20, 0x20), (0x85, 0x85), (0xA0, 0xA0), (0x1680, 0x1680), (0x2000, 0x200A),
   (0x2028, 0x2029), (0x202F, 0x202F), (0x205F, 0x205F), (0x3000, 0x3000)]

def isBlank (c : Char) : Bool := inRanges blankRanges c

/-- The text without the blanks at its end. -/
def trimEnd (cs : List Char) : List Char := (cs.reverse.dropWhile isBlank).reverse

/-- The text without the blanks at either end. -/
def trim (cs : List Char) : List Char := trimEnd (cs.dropWhile isBlank)

/-- The maximal runs without blanks, in order. -/
def words (cs : List Char) : List (List Char) :=
  (cs.splitOnP isBlank).filter fun w => !w.isEmpty

/-! ## Laws -/

theorem isBlank_of_isWhitespace {c : Char} (h : c.isWhitespace = true) : isBlank c = true := by
  simp only [Char.isWhitespace, Bool.or_eq_true, decide_eq_true_eq] at h
  rcases h with ((rfl | rfl) | rfl) | rfl <;> decide

@[simp] theorem words_nil : words [] = [] := rfl

theorem words_append_blank (xs ys : List Char) {c : Char} (h : isBlank c = true) :
    words (xs ++ c :: ys) = words xs ++ words ys := by
  simp [words, List.splitOnP_append_cons xs ys h]

theorem ne_nil_of_mem_words {w cs : List Char} (h : w ∈ words cs) : w ≠ [] := by
  simp only [words, List.mem_filter] at h
  rintro rfl
  simp at h

/-- What is in a piece is in the text, and not what the text was cut at. -/
theorem of_mem_splitOnP {α : Type} {p : α → Bool} {xs piece : List α}
    (h : piece ∈ xs.splitOnP p) : ∀ x ∈ piece, x ∈ xs ∧ p x = false := by
  induction xs generalizing piece with
  | nil => simp_all
  | cons x xs ih =>
    have hlater {piece : List α} (h : piece ∈ xs.splitOnP p) :
        ∀ y ∈ piece, y ∈ x :: xs ∧ p y = false :=
      fun y hy => ⟨.tail _ (ih h y hy).1, (ih h y hy).2⟩
    rw [List.splitOnP_cons_eq_if_modifyHead] at h
    split at h
    · rcases List.mem_cons.1 h with rfl | h
      · simp
      · exact hlater h
    · rename_i hx
      obtain ⟨first, others, hs⟩ := List.exists_cons_of_ne_nil (List.splitOnP_ne_nil p xs)
      rw [hs, List.modifyHead_cons] at h
      rcases List.mem_cons.1 h with rfl | h
      · exact List.forall_mem_cons.2 ⟨⟨.head _, by simpa using hx⟩, hlater (by simp [hs])⟩
      · exact hlater (by simp [hs, h])

theorem not_blank_of_mem_words {w cs : List Char} (h : w ∈ words cs) :
    ∀ c ∈ w, isBlank c = false :=
  fun c hc => (of_mem_splitOnP (List.mem_filter.1 h).1 c hc).2

theorem mem_of_mem_words {w cs : List Char} (h : w ∈ words cs) : ∀ c ∈ w, c ∈ cs :=
  fun c hc => (of_mem_splitOnP (List.mem_filter.1 h).1 c hc).1

end HeaderSymbols.Text
