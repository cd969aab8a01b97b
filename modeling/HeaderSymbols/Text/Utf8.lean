/-!
# UTF-8

`encode` writes a text as bytes. `decode` reads bytes one at a time: a well-formed
sequence gives its character, and every maximal run of bytes that begins a
well-formed sequence without completing it, or byte that begins none, gives `none`.
A strict reader (`decode?`) refuses any `none`; a lossy one (`decodeLossy`) shows it
as U+FFFD.
-/
namespace HeaderSymbols

abbrev Bytes := List UInt8

namespace Text.Utf8

def encode (s : String) : Bytes := s.toList.flatMap String.utf8EncodeChar

/-- A sequence begun: its value so far, the bytes it still needs, and the range in
which the next of them must lie. -/
structure Sequence where
  value : Nat
  owed : Nat
  low : UInt8
  high : UInt8
  deriving DecidableEq

/-- What a byte can begin. -/
inductive Lead where
  | char (c : Char)
  | sequence (s : Sequence)
  | invalid

/-- The second byte of a sequence is bounded where a longer form of a smaller value,
a surrogate or a value above U+10FFFF would follow. -/
def lead (b : UInt8) : Lead :=
  if b < 0x80 then .char (Char.ofNat b.toNat)
  else if b < 0xC2 then .invalid
  else if b < 0xE0 then .sequence ⟨b.toNat - 0xC0, 1, 0x80, 0xBF⟩
  else if b < 0xF0 then
    .sequence ⟨b.toNat - 0xE0, 2, if b = 0xE0 then 0xA0 else 0x80, if b = 0xED then 0x9F else 0xBF⟩
  else if b < 0xF5 then
    .sequence ⟨b.toNat - 0xF0, 3, if b = 0xF0 then 0x90 else 0x80, if b = 0xF4 then 0x8F else 0xBF⟩
  else .invalid

/-- A reader between two bytes: what it found, newest first, and the sequence it is in. -/
structure Reader where
  found : List (Option Char)
  begun : Option Sequence

def Reader.start (found : List (Option Char)) (b : UInt8) : Reader :=
  match lead b with
  | .char c => ⟨some c :: found, none⟩
  | .sequence s => ⟨found, some s⟩
  | .invalid => ⟨none :: found, none⟩

/-- A byte that cannot continue the sequence ends it as malformed and is read anew. -/
def Reader.feed (r : Reader) (b : UInt8) : Reader :=
  match r.begun with
  | none => start r.found b
  | some s =>
    if s.low ≤ b ∧ b ≤ s.high then
      let value := s.value * 64 + (b.toNat - 0x80)
      if s.owed ≤ 1 then ⟨some (Char.ofNat value) :: r.found, none⟩
      else ⟨r.found, some ⟨value, s.owed - 1, 0x80, 0xBF⟩⟩
    else start (none :: r.found) b

def Reader.finish (r : Reader) : List (Option Char) :=
  (if r.begun.isSome then none :: r.found else r.found).reverse

def decode (bytes : Bytes) : List (Option Char) :=
  (bytes.foldl Reader.feed ⟨[], none⟩).finish

/-- The text that the bytes encode, if they encode one. -/
def decode? (bytes : Bytes) : Option String :=
  ((decode bytes).mapM id).map String.ofList

/-- The text with U+FFFD for each malformed part. -/
def decodeLossy (bytes : Bytes) : String :=
  String.ofList ((decode bytes).map fun c => c.getD (Char.ofNat 0xFFFD))

@[simp] theorem encode_append (s t : String) : encode (s ++ t) = encode s ++ encode t := by
  simp [encode]

theorem encode_ne_nil {s : String} (h : s.toList ≠ []) : encode s ≠ [] := by
  obtain ⟨c, cs, hs⟩ := List.exists_cons_of_ne_nil h
  intro hn
  have hlen := congrArg List.length hn
  have hc := c.utf8Size_pos
  simp only [encode, hs, List.flatMap_cons, List.length_append, String.length_utf8EncodeChar,
    List.length_nil] at hlen
  omega

theorem head?_encode_append {s t : String} {b : UInt8} (h : (encode s).head? = some b) :
    (encode (s ++ t)).head? = some b := by
  rw [encode_append, List.head?_append, h, Option.some_or]

end Text.Utf8
end HeaderSymbols
