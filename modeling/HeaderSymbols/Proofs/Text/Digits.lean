import HeaderSymbols.Proofs.Text.Numeral
import Mathlib.Data.List.Forall2
import Mathlib.Data.List.Induction
import Mathlib.Data.Nat.Digits.Defs

/-!
# Numbers and their digits

Which texts are numbers, told by tables of the digits and by the values of their places, and which
of the texts that are the same number is the one that is printed. Zeros may stand before a number,
and hexadecimal digits may be of either case; every spelling in lower case is what is printed with
zeros before its digits.

* `digit?_eq_some_iff`, `value?_eq_some_iff`: digits are read as the tables and their places say.
* `parse?_eq_some_iff`, `map_toNat_parse?`: so a text is read exactly if it spells a number that fits
  64 bits, and as that number.
* `SpellsLower.exists_zeros`: the spellings in lower case.
* `canonical_hex`: so what is printed is the only one of them that is so short.
-/
namespace HeaderSymbols.Number

/-! ## Spellings -/

def lowerDigits : List Char := "0123456789abcdef".toList

def upperDigits : List Char := "0123456789ABCDEF".toList

/-- The character is the digit of this value in the base. -/
def IsDigit (base : Nat) (c : Char) (d : Nat) : Prop :=
  d < base ∧ (lowerDigits[d]? = some c ∨ upperDigits[d]? = some c)

/-- Digits, at least one, whose places count from the last one on to this number. -/
def Denotes (base : Nat) (digits : List Char) (n : Nat) : Prop :=
  digits ≠ [] ∧ ∃ ds, List.Forall₂ (IsDigit base) digits.reverse ds ∧ Nat.ofDigits base ds = n

/-- The text is this number: hexadecimal digits after a dollar sign, or decimal digits. -/
def Spells (text : String) (n : Nat) : Prop :=
  (∃ digits, text.toList = '$' :: digits ∧ Denotes 16 digits n) ∨ Denotes 10 text.toList n

/-- The text is this number, in hexadecimal digits of lower case after a dollar sign. -/
def SpellsLower (text : String) (n : Nat) : Prop :=
  ∃ digits, text.toList = '$' :: digits ∧ Denotes 16 digits n ∧ ∀ c ∈ digits, c ∈ lowerDigits

/-- Of the spellings of this number in lower case, the one to be printed. -/
structure Canonical (text : String) (n : Nat) : Prop where
  spells : SpellsLower text n
  /-- There is no zero before the other digits, and only zero is written with a zero alone. -/
  leading : text.toList.take 2 = ['$', '0'] → text = "$0" ∧ n = 0
  shortest : ∀ other, SpellsLower other n → other = text ∨ text.length < other.length

/-! ## Digits -/

theorem digit?_sixteen_iff {base : Nat} (hb : base ≤ 16) {c : Char} {d : Nat} :
    digit? base c = some d ↔ digit? 16 c = some d ∧ d < base := by
  have hvalue (value : Nat) : (if value < base then some value else none) = some d ↔
      (if value < 16 then some value else none) = some d ∧ d < base := by
    grind
  unfold digit?
  split
  · exact hvalue _
  · split
    · exact hvalue _
    · split
      · exact hvalue _
      · simp

theorem digit?_eq_some_iff {base : Nat} (hb : base ≤ 16) {c : Char} {d : Nat} :
    digit? base c = some d ↔ IsDigit base c d := by
  rw [digit?_sixteen_iff hb, IsDigit, and_comm]
  refine and_congr_right fun hd => ⟨fun h => ?_, fun h => ?_⟩
  · have htables : ∀ n < 128, ∀ d ∈ digit? 16 (Char.ofNat n),
        lowerDigits[d]? = some (Char.ofNat n) ∨ upperDigits[d]? = some (Char.ofNat n) := by decide
    have hrange := range_of_isSome_digit? (h ▸ Option.isSome_some)
    have hc := htables c.toNat (by omega) d
    rw [Char.ofNat_toNat] at hc
    exact hc h
  · have htables : ∀ d < 16, lowerDigits[d]?.bind (digit? 16) = some d ∧
        upperDigits[d]?.bind (digit? 16) = some d := by decide
    obtain ⟨hlower, hupper⟩ := htables d (Nat.lt_of_lt_of_le hd hb)
    rcases h with h | h
    · rwa [h, Option.bind_some] at hlower
    · rwa [h, Option.bind_some] at hupper

/-- Digits are read by their places: those before the last one count `base` times as much. -/
theorem value?_eq_some_iff {base : Nat} (hb : base ≤ 16) {digits : List Char} {n : Nat} :
    value? base digits = some n ↔
      ∃ ds, List.Forall₂ (IsDigit base) digits.reverse ds ∧ Nat.ofDigits base ds = n := by
  rw [← digits.reverse_reverse]
  generalize digits.reverse = places
  rw [List.reverse_reverse]
  induction places generalizing n with
  | nil => simp [value?, Nat.ofDigits_nil, eq_comm]
  | cons c rest ih =>
    rw [List.reverse_cons, value?_concat]
    simp only [Option.bind_eq_some_iff, Option.map_eq_some_iff, digit?_eq_some_iff hb, ih,
      List.forall₂_cons_left_iff]
    constructor
    · rintro ⟨m, ⟨ds, hds, rfl⟩, d, hd, rfl⟩
      refine ⟨d :: ds, ⟨d, ds, hd, hds, rfl⟩, ?_⟩
      rw [Nat.ofDigits_cons, Nat.mul_comm, Nat.add_comm]
    · rintro ⟨_, ⟨d, ds, hd, hds, rfl⟩, rfl⟩
      refine ⟨_, ⟨ds, hds, rfl⟩, d, hd, ?_⟩
      rw [Nat.ofDigits_cons, Nat.mul_comm, Nat.add_comm]

theorem denotes_iff {base : Nat} (hb : base ≤ 16) {digits : List Char} {n : Nat} :
    Denotes base digits n ↔ digits ≠ [] ∧ value? base digits = some n := by
  rw [Denotes, value?_eq_some_iff hb]

theorem ofDigits?_eq_some_iff {base : Nat} (hb : base ≤ 16) {digits : List Char} {v : UInt64} :
    ofDigits? base digits = some v ↔ Denotes base digits v.toNat := by
  rw [denotes_iff hb, ofDigits?]
  cases digits with
  | nil => simp
  | cons c rest => simp [Option.bind_eq_some_iff, word?_eq_some_iff]

/-! ## Reading -/

theorem not_denotes_dollar (digits : List Char) (n : Nat) : ¬ Denotes 10 ('$' :: digits) n := by
  rw [denotes_iff (by decide)]
  rintro ⟨-, hv⟩
  have hdollar := isSome_digit?_of_value? hv '$' (.head _)
  cases hdollar

/-- **Reading.** A text is read as a number exactly if it spells that number. -/
theorem parse?_eq_some_iff {text : String} {v : UInt64} :
    parse? text = some v ↔ Spells text v.toNat := by
  unfold parse? Spells
  split
  · rename_i digits ht
    simp only [ht, List.cons.injEq, true_and, exists_eq_left', not_denotes_dollar, or_false]
    exact ofDigits?_eq_some_iff (by decide)
  · rename_i hd
    have hnot : ¬ ∃ digits, text.toList = '$' :: digits ∧ Denotes 16 digits v.toNat :=
      fun ⟨digits, ht, _⟩ => hd digits ht
    rw [or_iff_right hnot]
    exact ofDigits?_eq_some_iff (by decide)

/-- A number is read if it fits 64 bits. -/
theorem map_toNat_parse? {text : String} {n : Nat} :
    (parse? text).map UInt64.toNat = some n ↔ Spells text n ∧ n < UInt64.size := by
  simp only [Option.map_eq_some_iff, parse?_eq_some_iff]
  constructor
  · rintro ⟨v, hv, rfl⟩
    exact ⟨hv, v.toNat_lt_size⟩
  · rintro ⟨hn, hlt⟩
    refine ⟨UInt64.ofNatLT n hlt, ?_⟩
    rw [UInt64.toNat_ofNatLT]
    exact ⟨hn, rfl⟩

theorem parse?_eq_none_iff {text : String} :
    parse? text = none ↔ ∀ n < UInt64.size, ¬ Spells text n := by
  rw [← Option.map_eq_none_iff (f := UInt64.toNat), Option.eq_none_iff_forall_ne_some]
  simp only [ne_eq, map_toNat_parse?]
  grind

/-! ## Printing -/

theorem mem_lowerDigits_of_mem_toDigits (n : Nat) : ∀ c ∈ Nat.toDigits 16 n, c ∈ lowerDigits := by
  have hdigit : ∀ d < 16, d.digitChar ∈ lowerDigits := by decide
  refine toDigits_induction (P := fun _ digits => ∀ c ∈ digits, c ∈ lowerDigits)
    (fun d hd => ?_) (fun n d _ hd ih => ?_) n
  · simpa using hdigit d hd
  · exact List.forall_mem_append.2 ⟨ih, by simpa using hdigit d hd⟩

/-- Only what is printed for zero begins with a zero. -/
theorem head?_toDigits {n : Nat} (h : (Nat.toDigits 16 n).head? = some '0') : n = 0 := by
  have hzero : ∀ d < 16, d.digitChar = '0' → d = 0 := by decide
  revert h
  refine toDigits_induction (P := fun n digits => digits.head? = some '0' → n = 0)
    (fun d hd h => ?_) (fun n d hn _ ih h => ?_) n
  · exact hzero d hd (by simpa using h)
  · rw [List.head?_append_of_ne_nil _ Nat.toDigits_ne_nil] at h
    exact absurd (ih h) (Nat.ne_of_gt hn)

/-- In lower case there is one character for each digit, the one that is printed. -/
theorem eq_digitChar {c : Char} {d : Nat} (hc : c ∈ lowerDigits) (h : digit? 16 c = some d) :
    d < 16 ∧ c = d.digitChar := by
  have hprinted : lowerDigits.map (fun c => (digit? 16 c).map Nat.digitChar) =
      lowerDigits.map some := by decide
  have hchar := List.map_inj_left.1 hprinted c hc
  rw [h, Option.map_some, Option.some.injEq] at hchar
  exact ⟨((digit?_eq_some_iff (Nat.le_refl 16)).1 h).1, hchar.symm⟩

/-- Digits in lower case are those that are printed for their number, with zeros before them. -/
theorem exists_zeros_toDigits {digits : List Char} (hne : digits ≠ [])
    (hl : ∀ c ∈ digits, c ∈ lowerDigits) {n : Nat} (h : value? 16 digits = some n) :
    ∃ zeros, digits = List.replicate zeros '0' ++ Nat.toDigits 16 n := by
  induction digits using List.reverseRecOn generalizing n with
  | nil => exact absurd rfl hne
  | append_singleton before c ih =>
    obtain ⟨hbefore, hc⟩ := List.forall_mem_append.1 hl
    rw [value?_concat] at h
    obtain ⟨m, hm, hlast⟩ := Option.bind_eq_some_iff.1 h
    obtain ⟨d, hd, rfl⟩ := Option.map_eq_some_iff.1 hlast
    obtain ⟨hlt, rfl⟩ := eq_digitChar (hc c (.head _)) hd
    by_cases hnil : before = []
    · subst hnil
      cases hm
      exact ⟨0, by simp [Nat.toDigits_of_lt_base hlt]⟩
    obtain ⟨zeros, hzeros⟩ := ih hnil hbefore hm
    rcases Nat.eq_zero_or_pos m with rfl | hpos
    · refine ⟨zeros + 1, ?_⟩
      rw [hzeros, Nat.zero_mul, Nat.zero_add, Nat.toDigits_of_lt_base hlt, List.replicate_succ']
      rfl
    · refine ⟨zeros, ?_⟩
      rw [hzeros, List.append_assoc, Nat.mul_comm m,
        ← Nat.toDigits_append_toDigits (by decide) hpos hlt, Nat.toDigits_of_lt_base hlt]

theorem toList_hex (v : UInt64) : (hex v).toList = '$' :: Nat.toDigits 16 v.toNat :=
  String.toList_ofList

/-- A spelling in lower case has zeros before the digits that are printed. -/
theorem SpellsLower.exists_zeros {text : String} {v : UInt64} (h : SpellsLower text v.toNat) :
    ∃ zeros, text.toList = '$' :: (List.replicate zeros '0' ++ Nat.toDigits 16 v.toNat) := by
  obtain ⟨digits, htext, hdenotes, hlower⟩ := h
  obtain ⟨hne, hvalue⟩ := (denotes_iff (Nat.le_refl 16)).1 hdenotes
  obtain ⟨zeros, hzeros⟩ := exists_zeros_toDigits hne hlower hvalue
  exact ⟨zeros, htext.trans (congrArg _ hzeros)⟩

/-- **Printing.** What is printed for a number is its canonical spelling. -/
theorem canonical_hex (v : UInt64) : Canonical (hex v) v.toNat where
  spells := ⟨_, toList_hex v,
    (denotes_iff (Nat.le_refl 16)).2 ⟨Nat.toDigits_ne_nil, value?_toDigits _⟩,
    mem_lowerDigits_of_mem_toDigits _⟩
  leading h := by
    rw [toList_hex] at h
    have hv : v.toNat = 0 := by
      refine head?_toDigits ?_
      have hne : Nat.toDigits 16 v.toNat ≠ [] := Nat.toDigits_ne_nil
      obtain ⟨c, rest, hdigits⟩ := List.exists_cons_of_ne_nil hne
      rw [hdigits] at h ⊢
      simpa using h
    refine ⟨?_, hv⟩
    rw [hex, hv]
    rfl
  shortest other h := by
    obtain ⟨zeros, hother⟩ := h.exists_zeros
    cases zeros with
    | zero =>
      refine .inl (String.toList_injective ?_)
      rw [hother, toList_hex]
      rfl
    | succ zeros =>
      right
      rw [← String.length_toList, ← String.length_toList, hother, toList_hex]
      simp

end HeaderSymbols.Number
