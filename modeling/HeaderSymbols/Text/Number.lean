/-!
# Numbers as text

A number is written in decimal digits, or in hexadecimal digits of either case after
a dollar sign; leading zeros are allowed and the value fits 64 bits. Numbers are
printed in one form only: a dollar sign and the fewest lower-case hexadecimal digits.

Main statement: whatever reads as a number also looks like one (`isLiteral_of_parse?`).
-/
namespace HeaderSymbols.Number

/-- The value of an ASCII digit of the base, letters counting from ten in either case. -/
def digit? (base : Nat) (c : Char) : Option Nat :=
  let value :=
    if '0' ≤ c ∧ c ≤ '9' then c.toNat - '0'.toNat
    else if 'a' ≤ c ∧ c ≤ 'f' then c.toNat - 'a'.toNat + 10
    else if 'A' ≤ c ∧ c ≤ 'F' then c.toNat - 'A'.toNat + 10
    else base
  if value < base then some value else none

/-- The positional value of the digits; of no digits it is 0. -/
def value? (base : Nat) (digits : List Char) : Option Nat :=
  digits.foldlM (fun value c => (digit? base c).map (value * base + ·)) 0

def word? (n : Nat) : Option UInt64 :=
  if h : n < UInt64.size then some (UInt64.ofNatLT n h) else none

/-- Digits of the base, at least one, whose value fits 64 bits. -/
def ofDigits? (base : Nat) (digits : List Char) : Option UInt64 :=
  if digits.isEmpty then none else (value? base digits).bind word?

def parse? (text : String) : Option UInt64 :=
  match text.toList with
  | '$' :: digits => ofDigits? 16 digits
  | digits => ofDigits? 10 digits

/-- Whether a text is meant as a number, well written or not: it begins with a dollar sign,
or consists of decimal digits. -/
def isLiteral (text : String) : Bool :=
  match text.toList with
  | '$' :: _ => true
  | digits => !digits.isEmpty && digits.all fun c => (digit? 10 c).isSome

def hex (n : UInt64) : String := String.ofList ('$' :: Nat.toDigits 16 n.toNat)

/-! ## Laws -/

@[simp] theorem word?_toNat (n : UInt64) : word? n.toNat = some n := by
  simp [word?, UInt64.toNat_lt_size]

theorem word?_eq_some_iff {n : Nat} {w : UInt64} : word? n = some w ↔ w.toNat = n := by
  unfold word?
  split
  · rw [Option.some.injEq, ← UInt64.toNat_inj, UInt64.toNat_ofNatLT]
    exact eq_comm
  · rename_i h
    have := w.toNat_lt_size
    simp only [reduceCtorEq, false_iff]
    omega

theorem isSome_digit?_of_value? {base : Nat} {digits : List Char} {v : Nat}
    (h : value? base digits = some v) : ∀ c ∈ digits, (digit? base c).isSome = true := by
  unfold value? at h
  generalize (0 : Nat) = acc at h
  induction digits generalizing acc with
  | nil => simp
  | cons d ds ih =>
    rw [List.foldlM_cons] at h
    cases hd : digit? base d with
    | none => simp [hd] at h
    | some n =>
      simp only [hd, Option.map_some, Option.bind_eq_bind, Option.bind_some] at h
      intro c hc
      rcases List.mem_cons.1 hc with rfl | hc
      · simp [hd]
      · exact ih _ h c hc

theorem isLiteral_of_parse? {text : String} {n : UInt64} (h : parse? text = some n) :
    isLiteral text = true := by
  unfold parse? at h
  unfold isLiteral
  split at h
  · simp
  · unfold ofDigits? at h
    split at h
    · simp at h
    · rename_i hne
      obtain ⟨v, hv, -⟩ := Option.bind_eq_some_iff.1 h
      simp only [Bool.and_eq_true, List.all_eq_true]
      exact ⟨by simpa using hne, isSome_digit?_of_value? hv⟩

end HeaderSymbols.Number
