import HeaderSymbols.Text.Number

/-!
# Numbers read back

What is printed for a number reads as that number. The printer makes its digits from the last one
on, so the value of digits is told by the last of them.

* `value?_concat`: one digit more at the end.
* `range_of_isSome_digit?`: the characters that are digits.
* `toDigits_induction`: how the digits that are printed come about.
* `parse?_hex`: a number that was printed is read.
-/
namespace HeaderSymbols.Number

theorem value?_concat (base : Nat) (digits : List Char) (c : Char) :
    value? base (digits ++ [c]) =
      (value? base digits).bind fun value => (digit? base c).map (value * base + ·) := by
  simp [value?, List.foldlM_append]

theorem digit?_digitChar : ∀ d < 16, digit? 16 d.digitChar = some d := by decide

/-- Only ASCII characters are digits, those from `0` to `9` and the first letters of either case. -/
theorem range_of_isSome_digit? {base : Nat} {c : Char} (h : (digit? base c).isSome = true) :
    (48 ≤ c.toNat ∧ c.toNat ≤ 57) ∨ (97 ≤ c.toNat ∧ c.toNat ≤ 102) ∨
      (65 ≤ c.toNat ∧ c.toNat ≤ 70) := by
  have hle {a b : Char} (h : a ≤ b) : a.toNat ≤ b.toNat := h
  unfold digit? at h
  split at h
  · rename_i hd
    exact .inl ⟨hle hd.1, hle hd.2⟩
  · split at h
    · rename_i hd
      exact .inr (.inl ⟨hle hd.1, hle hd.2⟩)
    · split at h
      · rename_i hd
        exact .inr (.inr ⟨hle hd.1, hle hd.2⟩)
      · simp at h

/-- Induction on what is printed for a number: one digit, or a digit more than for a number that is
not zero. -/
theorem toDigits_induction {P : Nat → List Char → Prop} (one : ∀ d < 16, P d [d.digitChar])
    (more : ∀ n d, 0 < n → d < 16 → P n (Nat.toDigits 16 n) →
      P (n * 16 + d) (Nat.toDigits 16 n ++ [d.digitChar]))
    (n : Nat) : P n (Nat.toDigits 16 n) := by
  induction n using Nat.strongRecOn with
  | ind n ih =>
    by_cases hn : n < 16
    · rw [Nat.toDigits_of_lt_base hn]
      exact one n hn
    · have hpos : 0 < n / 16 := Nat.div_pos (Nat.le_of_not_lt hn) (by decide)
      have hlt : n / 16 < n := Nat.div_lt_self (by omega) (by decide)
      rw [Nat.toDigits_of_base_le (by decide) (Nat.le_of_not_lt hn)]
      have hmore := more (n / 16) (n % 16) hpos (Nat.mod_lt _ (by decide)) (ih _ hlt)
      rwa [Nat.div_add_mod'] at hmore

theorem value?_toDigits (n : Nat) : value? 16 (Nat.toDigits 16 n) = some n := by
  refine toDigits_induction (P := fun n digits => value? 16 digits = some n) (fun d hd => ?_)
    (fun n d _ hd ih => ?_) n
  · simp [value?, digit?_digitChar d hd]
  · rw [value?_concat, ih, digit?_digitChar d hd]
    rfl

theorem parse?_hex (n : UInt64) : parse? (hex n) = some n := by
  simp only [parse?, hex, String.toList_ofList, ofDigits?]
  rw [if_neg (by simp [Nat.toDigits_ne_nil]), value?_toDigits, Option.bind_some, word?_toNat]

end HeaderSymbols.Number
