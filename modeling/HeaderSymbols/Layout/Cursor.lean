import HeaderSymbols.Model

/-!
# Moving a cursor

A cursor moves by an amount as long as the address fits 64 bits (`advance?`), and of
two cursors the one further on counts, an address before none (`furthest`). The kind of a
group says where its members start (`start`) and how far it has got after one (`next`).

Main statements, on natural numbers: `advance?_eq_some_iff` and `toNat_max`; `furthest`
is commutative and associative with `none` as its unit.
-/
namespace HeaderSymbols

namespace Cursor

/-- The address by this amount further on, if there is one. -/
def advance? (address amount : UInt64) : Option UInt64 :=
  Number.word? (address.toNat + amount.toNat)

def furthest : Cursor → Cursor → Cursor
  | some a, some b => some (max a b)
  | some a, none => some a
  | none, b => b

/-! ## Laws -/

theorem advance?_eq_some_iff {address amount next : UInt64} :
    advance? address amount = some next ↔ next.toNat = address.toNat + amount.toNat :=
  Number.word?_eq_some_iff

theorem toNat_max (a b : UInt64) : (max a b).toNat = max a.toNat b.toNat := by
  show (if a ≤ b then b else a).toNat = _
  split
  · rename_i h
    rw [UInt64.le_iff_toNat_le] at h
    omega
  · rename_i h
    rw [UInt64.le_iff_toNat_le] at h
    omega

@[simp] theorem furthest_none_left (c : Cursor) : furthest none c = c := rfl

@[simp] theorem furthest_none_right (c : Cursor) : furthest c none = c := by cases c <;> rfl

theorem furthest_comm (a b : Cursor) : furthest a b = furthest b a := by
  cases a <;> cases b <;> simp [furthest]
  rw [← UInt64.toNat_inj, toNat_max, toNat_max, Nat.max_comm]

theorem furthest_assoc (a b c : Cursor) :
    furthest (furthest a b) c = furthest a (furthest b c) := by
  cases a <;> cases b <;> cases c <;> simp [furthest]
  rw [← UInt64.toNat_inj]
  simp only [toNat_max, Nat.max_assoc]

@[simp] theorem furthest_self (a : Cursor) : furthest a a = a := by
  cases a <;> simp [furthest]
  rw [← UInt64.toNat_inj, toNat_max, Nat.max_self]

end Cursor

namespace GroupKind

/-- Where a member starts in a group that was entered at `entry` and has got to `cursor`. -/
def start (kind : GroupKind) (entry cursor : Cursor) : Cursor :=
  match kind with
  | .struct => cursor
  | .union => entry

/-- How far a group has got after a member that ends at `finish`. -/
def next (kind : GroupKind) (cursor finish : Cursor) : Cursor :=
  match kind with
  | .struct => finish
  | .union => Cursor.furthest cursor finish

end GroupKind
end HeaderSymbols
