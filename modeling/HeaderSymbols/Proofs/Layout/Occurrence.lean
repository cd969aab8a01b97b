import HeaderSymbols.Layout.Emitter
import Mathlib.Logic.Basic

/-!
# Where things are laid out

What a group is laid out as is a tree. Its leaves are constants and fields, and inside are the
groups that are laid out on the way, for an item that is one or for a member that is expanded.
Fields and groups have extents: a field from its address on for as far as its size says, a group from where it
is entered to where it ends.

* `InRow`, `Fills`: how the extents of the parts of a group are placed in that of the group.
* `Tiled`: every group of a tree is filled by its parts.
* `Tiled.inside`: then what is in a tree is inside of the extent of the whole.
* `Tiled.forks_of_mem`: and two fields have an address in common only if the innermost group that
  both are in is a union.
-/
namespace HeaderSymbols

/-! ## Trees -/

/-- The addresses from `start` on, up to the one before `finish`. -/
structure Extent where
  start : Nat
  finish : Nat
  deriving DecidableEq, Repr

namespace Extent

instance : Membership Nat Extent := ⟨fun x n => x.start ≤ n ∧ n < x.finish⟩

/-- An extent that begins and ends no sooner and no later than another one. -/
structure Inside (x y : Extent) : Prop where
  start : y.start ≤ x.start
  le : x.start ≤ x.finish
  finish : x.finish ≤ y.finish

theorem Inside.trans {x y z : Extent} (h : x.Inside y) (h' : y.Inside z) : x.Inside z :=
  ⟨Nat.le_trans h'.start h.start, h.le, Nat.le_trans h.finish h'.finish⟩

theorem Inside.mem {x y : Extent} (h : x.Inside y) {n : Nat} (hn : n ∈ x) : n ∈ y :=
  ⟨Nat.le_trans h.start hn.1, Nat.lt_of_lt_of_le hn.2 h.finish⟩

theorem not_mem_of_le {x y : Extent} (h : x.finish ≤ y.start) {n : Nat} (hn : n ∈ x) : n ∉ y := by
  intro hn'
  have hfinish : n < x.finish := hn.2
  have hstart : y.start ≤ n := hn'.1
  omega

end Extent

/-- What an item has been laid out as. -/
inductive Occurrence where
  | constant (name : String) (value : Value) (comment : Option String)
  | field (m : Member) (address size : UInt64)
  /-- A group, in the namespace of the member that it is the expansion of, if it is one. -/
  | group (id : GroupId) (kind : GroupKind) (name : Option String) (start finish : UInt64)
    (parts : List Occurrence)
  deriving Repr

namespace Occurrence

/-- What the items of a group have been laid out as. -/
def parts : Occurrence → List Occurrence
  | group _ _ _ _ _ parts => parts
  | _ => []

def extent? : Occurrence → Option Extent
  | constant .. => none
  | field _ address size => some ⟨address.toNat, address.toNat + size.toNat⟩
  | group _ _ _ start finish _ => some ⟨start.toNat, finish.toNat⟩

/-- What is at a place in a tree: the first number says in which of the parts. -/
def at? : List Nat → Occurrence → Option Occurrence
  | [], o => some o
  | i :: place, o => o.parts[i]?.bind (at? place)

mutual

/-- The lines that are emitted, in these namespaces. -/
def lines (ns : Namespaces) : Occurrence → List OutputLine
  | constant name value comment => [.symbol (ns.qualify name) value comment]
  | field m address _ => [.symbol (ns.qualify m.name) (.number address) m.comment]
  | group _ _ none _ _ parts => linesAll ns parts
  | group _ _ (some name) _ _ parts => linesAll (ns.enter name) parts

def linesAll (ns : Namespaces) : List Occurrence → List OutputLine
  | [] => []
  | o :: rest => o.lines ns ++ linesAll ns rest

end

/-! ## Extents in a group -/

/-- The extents of parts follow each other from one address to another, without a gap. -/
def InRow : Nat → List Occurrence → Nat → Prop
  | start, [], finish => start = finish
  | start, o :: rest, finish =>
    match o.extent? with
    | none => InRow start rest finish
    | some x => x.start = start ∧ x.start ≤ x.finish ∧ InRow x.finish rest finish

/-- The parts of a group of this kind, which has this extent. -/
inductive Fills (x : Extent) (parts : List Occurrence) : GroupKind → Prop where
  | struct (row : InRow x.start parts x.finish) : Fills x parts .struct
  | union (together : ∀ o ∈ parts, ∀ y ∈ o.extent?, y.start = x.start ∧ y.Inside x)
      (reached : (∃ o ∈ parts, ∃ y ∈ o.extent?, y.finish = x.finish) ∨
        (∀ o ∈ parts, o.extent? = none) ∧ x.start = x.finish) : Fills x parts .union

variable {o o' : Occurrence} {parts : List Occurrence} {x y : Extent} {start finish : Nat}

theorem InRow.le (h : InRow start parts finish) : start ≤ finish := by
  induction parts generalizing start with
  | nil => exact Nat.le_of_eq h
  | cons o rest ih =>
    unfold InRow at h
    split at h
    · exact ih h
    · obtain ⟨rfl, hle, hrest⟩ := h
      exact Nat.le_trans hle (ih hrest)

theorem InRow.inside (h : InRow start parts finish) (ho : o ∈ parts) (hx : o.extent? = some x) :
    x.Inside ⟨start, finish⟩ := by
  induction parts generalizing start with
  | nil => cases ho
  | cons first rest ih =>
    unfold InRow at h
    rcases List.mem_cons.1 ho with rfl | ho
    · rw [hx] at h
      obtain ⟨hs, hle, hrest⟩ := h
      exact ⟨Nat.le_of_eq hs.symm, hle, hrest.le⟩
    · split at h
      · exact ih h ho
      · obtain ⟨rfl, hle, hrest⟩ := h
        exact (ih hrest ho).trans ⟨hle, hrest.le, Nat.le_refl _⟩

/-- Of two parts in a row, the first ends before the second starts. -/
theorem InRow.finish_le (h : InRow start parts finish) {i j : Nat} (hij : i < j)
    (ho : parts[i]? = some o) (ho' : parts[j]? = some o') (hx : o.extent? = some x)
    (hy : o'.extent? = some y) : x.finish ≤ y.start := by
  induction parts generalizing start i j with
  | nil => simp at ho
  | cons first rest ih =>
    obtain ⟨j, rfl⟩ : ∃ k, j = k + 1 := ⟨j - 1, by omega⟩
    rw [List.getElem?_cons_succ] at ho'
    unfold InRow at h
    cases i with
    | zero =>
      rw [List.getElem?_cons_zero] at ho
      cases ho
      rw [hx] at h
      exact (h.2.2.inside (List.mem_of_getElem? ho') hy).start
    | succ i =>
      rw [List.getElem?_cons_succ] at ho
      have hij : i < j := Nat.lt_of_succ_lt_succ hij
      split at h
      · exact ih h hij ho ho'
      · exact ih h.2.2 hij ho ho'

theorem Fills.le {kind : GroupKind} (h : Fills x parts kind) : x.start ≤ x.finish := by
  cases h with
  | struct row => exact row.le
  | union together reached =>
    rcases reached with ⟨o, ho, y, hy, hfinish⟩ | ⟨-, heq⟩
    · obtain ⟨hstart, hinside⟩ := together o ho y hy
      rw [← hstart, ← hfinish]
      exact hinside.le
    · exact Nat.le_of_eq heq

theorem Fills.inside {kind : GroupKind} (h : Fills x parts kind) (ho : o ∈ parts)
    (hy : o.extent? = some y) : y.Inside x := by
  cases h with
  | struct row => exact row.inside ho hy
  | union together reached => exact (together o ho y hy).2

/-- Two parts of a group have an address in common only if it is a union. -/
theorem Fills.eq_union {kind : GroupKind} (h : Fills x parts kind) {i j : Nat} (hij : i ≠ j)
    (ho : parts[i]? = some o) (ho' : parts[j]? = some o') {y z : Extent} (hy : o.extent? = some y)
    (hz : o'.extent? = some z) {n : Nat} (hny : n ∈ y) (hnz : n ∈ z) : kind = .union := by
  cases h with
  | union => rfl
  | struct row =>
    -- one of the two parts ends before the other one starts
    rcases Nat.lt_or_gt_of_ne hij with hlt | hlt
    · exact absurd hnz (Extent.not_mem_of_le (row.finish_le hlt ho ho' hy hz) hny)
    · exact absurd hny (Extent.not_mem_of_le (row.finish_le hlt ho' ho hz hy) hnz)

/-- What starts and ends here, and stays where it is if it has no extent. -/
structure Spans (o : Occurrence) (start finish : Nat) : Prop where
  le : start ≤ finish
  extent : ∀ x ∈ o.extent?, x = ⟨start, finish⟩
  still : o.extent? = none → finish = start

theorem spans_constant (name : String) (value : Value) (comment : Option String) (start : Nat) :
    (constant name value comment).Spans start start where
  le := Nat.le_refl _
  extent x hx := by cases hx
  still _ := rfl

theorem spans_field (m : Member) (address size : UInt64) :
    (field m address size).Spans address.toNat (address.toNat + size.toNat) where
  le := Nat.le_add_right ..
  extent x hx := by
    cases hx
    rfl
  still hx := by cases hx

theorem spans_group {id : GroupId} {kind : GroupKind} {name : Option String}
    {start finish : UInt64} (hle : start.toNat ≤ finish.toNat) :
    (group id kind name start finish parts).Spans start.toNat finish.toNat where
  le := hle
  extent x hx := by
    cases hx
    rfl
  still hx := by cases hx

theorem InRow.cons {next : Nat} (ho : o.Spans start next) (h : InRow next parts finish) :
    InRow start (o :: parts) finish := by
  unfold InRow
  cases hx : o.extent? with
  | none =>
    rw [ho.still hx] at h
    exact h
  | some x =>
    obtain rfl := ho.extent x hx
    exact ⟨rfl, ho.le, h⟩

/-- Parts that start together at `entry`, in a group that has got from `cursor` to `finish` with
them. -/
structure Together (entry cursor : Nat) (parts : List Occurrence) (finish : Nat) : Prop where
  le : cursor ≤ finish
  inside : ∀ o ∈ parts, ∀ y ∈ o.extent?, y.start = entry ∧ y.Inside ⟨entry, finish⟩
  reached : finish = cursor ∨ ∃ o ∈ parts, ∃ y ∈ o.extent?, y.finish = finish

theorem together_nil (entry cursor : Nat) : Together entry cursor [] cursor where
  le := Nat.le_refl _
  inside o ho := by cases ho
  reached := .inl rfl

theorem Together.cons {entry cursor last : Nat} (hle : entry ≤ cursor) (ho : o.Spans entry last)
    (h : Together entry (max cursor last) parts finish) :
    Together entry cursor (o :: parts) finish where
  le := Nat.le_trans (Nat.le_max_left ..) h.le
  inside := by
    refine List.forall_mem_cons.2 ⟨fun y hy => ?_, h.inside⟩
    obtain rfl := ho.extent y hy
    exact ⟨rfl, Nat.le_refl _, ho.le, Nat.le_trans (Nat.le_max_right ..) h.le⟩
  reached := by
    rcases h.reached with hfinish | ⟨other, hother, hreached⟩
    · cases hx : o.extent? with
      | none =>
        left
        rw [hfinish, ho.still hx]
        omega
      | some x =>
        obtain rfl := ho.extent x hx
        by_cases hlast : last ≤ cursor
        · left
          omega
        · right
          refine ⟨o, .head _, _, hx, ?_⟩
          show last = finish
          omega
    · exact .inr ⟨other, .tail _ hother, hreached⟩

/-- The parts of a group of this kind, which was entered at `entry`, from where it has got to on. -/
def Advances (entry cursor : Nat) (parts : List Occurrence) (finish : Nat) : GroupKind → Prop
  | .struct => InRow cursor parts finish
  | .union => Together entry cursor parts finish

theorem advances_nil (entry cursor : Nat) (kind : GroupKind) :
    Advances entry cursor [] cursor kind := by
  cases kind with
  | struct => exact rfl
  | union => exact together_nil entry cursor

/-- All parts of a group fill it. -/
theorem fills_of_advances {kind : GroupKind} (h : Advances start start parts finish kind) :
    Fills ⟨start, finish⟩ parts kind := by
  cases kind with
  | struct => exact .struct h
  | union =>
    refine .union h.inside ?_
    rcases h.reached with rfl | hreached
    · by_cases hnone : ∀ o ∈ parts, o.extent? = none
      · exact .inr ⟨hnone, rfl⟩
      · -- all extents are empty, so that each of them reaches the end
        left
        simp only [not_forall] at hnone
        obtain ⟨o, ho, hx⟩ := hnone
        obtain ⟨y, hy⟩ := Option.ne_none_iff_exists'.1 hx
        obtain ⟨hstart, hinside⟩ := h.inside o ho y hy
        exact ⟨o, ho, y, hy, Nat.le_antisymm hinside.finish (hstart ▸ hinside.le)⟩
    · exact .inl hreached

/-! ## Extents in a tree -/

/-- Every group of a tree is filled by its parts. -/
def Tiled (t : Occurrence) : Prop :=
  ∀ place id kind name start finish parts,
    t.at? place = some (.group id kind name start finish parts) →
      Fills ⟨start.toNat, finish.toNat⟩ parts kind

/-- A member with a size, as it is laid out at an address. -/
def IsField (o : Occurrence) : Prop := ∃ m address size, o = field m address size

theorem at?_cons_eq_some {t : Occurrence} {i : Nat} {place : List Nat}
    (h : t.at? (i :: place) = some o) : ∃ part, t.parts[i]? = some part ∧ part.at? place = some o :=
  Option.bind_eq_some_iff.1 h

/-- What has parts is a group. -/
theorem exists_eq_group {t : Occurrence} {i : Nat} (h : t.parts[i]? = some o) :
    ∃ id kind name start finish, t = group id kind name start finish t.parts := by
  cases t with
  | group => exact ⟨_, _, _, _, _, rfl⟩
  | _ => simp [parts] at h

/-- What has something with an extent in it has an extent. -/
theorem exists_extent_of_at? {t : Occurrence} {place : List Nat} (h : t.at? place = some o)
    (hx : o.extent? = some x) : ∃ y, t.extent? = some y := by
  cases t with
  | constant =>
    cases place with
    | nil =>
      cases h
      cases hx
    | cons i place => simp [at?, parts] at h
  | _ => exact ⟨_, rfl⟩

variable {t : Occurrence}

theorem tiled_constant (name : String) (value : Value) (comment : Option String) :
    (constant name value comment).Tiled
  | [], _, _, _, _, _, _, h => by cases h
  | i :: place, _, _, _, _, _, _, h => by simp [at?, parts] at h

theorem tiled_field (m : Member) (address size : UInt64) : (field m address size).Tiled
  | [], _, _, _, _, _, _, h => by cases h
  | i :: place, _, _, _, _, _, _, h => by simp [at?, parts] at h

theorem tiled_group {id : GroupId} {kind : GroupKind} {name : Option String}
    {start finish : UInt64} (hparts : ∀ o ∈ parts, o.Tiled)
    (hfills : Fills ⟨start.toNat, finish.toNat⟩ parts kind) :
    (group id kind name start finish parts).Tiled
  | [], _, _, _, _, _, _, h => by
    cases h
    exact hfills
  | i :: place, _, _, _, _, _, _, h => by
    obtain ⟨part, hpart, ho⟩ := at?_cons_eq_some h
    exact hparts part (List.mem_of_getElem? hpart) place _ _ _ _ _ _ ho

theorem Tiled.part (h : t.Tiled) {i : Nat} (hi : t.parts[i]? = some o) : o.Tiled := by
  intro place id kind name start finish parts ho
  refine h (i :: place) id kind name start finish parts ?_
  rw [at?, hi]
  exact ho

theorem Tiled.fills (h : t.Tiled) {i : Nat} (hi : t.parts[i]? = some o) (hx : t.extent? = some x) :
    ∃ kind, Fills x t.parts kind := by
  obtain ⟨id, kind, name, start, finish, ht⟩ := exists_eq_group hi
  rw [ht] at hx
  cases hx
  exact ⟨kind, h [] id kind name start finish t.parts (congrArg some ht)⟩

theorem Tiled.le (h : t.Tiled) (hx : t.extent? = some x) : x.start ≤ x.finish := by
  cases t with
  | constant => cases hx
  | field =>
    cases hx
    exact Nat.le_add_right ..
  | group =>
    cases hx
    exact (h [] _ _ _ _ _ _ rfl).le

/-- **Inside.** What is in a tree is inside of the extent of the whole. -/
theorem Tiled.inside (h : t.Tiled) {place : List Nat} (ho : t.at? place = some o)
    (hx : o.extent? = some x) (hy : t.extent? = some y) : x.Inside y := by
  induction place generalizing t y with
  | nil =>
    cases ho
    cases hx.symm.trans hy
    exact ⟨Nat.le_refl _, h.le hx, Nat.le_refl _⟩
  | cons i place ih =>
    obtain ⟨part, hpart, ho⟩ := at?_cons_eq_some ho
    obtain ⟨z, hz⟩ := exists_extent_of_at? ho hx
    obtain ⟨kind, hfills⟩ := h.fills hpart hy
    exact (ih (h.part hpart) ho hz).trans (hfills.inside (List.mem_of_getElem? hpart) hz)

/-- The group at this place is a union, and two places go on from there in different parts. -/
def ForksAt (t : Occurrence) (p q place : List Nat) : Prop :=
  ∃ i j p' q', p = place ++ i :: p' ∧ q = place ++ j :: q' ∧ i ≠ j ∧
    ∃ id name start finish parts, t.at? place = some (.group id .union name start finish parts)

theorem ForksAt.cons {i : Nat} {p q place : List Nat} (hi : t.parts[i]? = some o)
    (h : o.ForksAt p q place) : t.ForksAt (i :: p) (i :: q) (i :: place) := by
  obtain ⟨j, k, p', q', rfl, rfl, hjk, id, name, start, finish, parts, ho⟩ := h
  refine ⟨j, k, p', q', rfl, rfl, hjk, id, name, start, finish, parts, ?_⟩
  rw [at?, hi]
  exact ho

/-- **Overlap.** Two fields of a tree have an address in common only if the innermost group that
both are in is a union. -/
theorem Tiled.forks_of_mem (h : t.Tiled) {p q : List Nat} (hpq : p ≠ q) (ho : t.at? p = some o)
    (ho' : t.at? q = some o') (hfield : o.IsField) (hfield' : o'.IsField) (hx : o.extent? = some x)
    (hy : o'.extent? = some y) {n : Nat} (hnx : n ∈ x) (hny : n ∈ y) :
    ∃ place, t.ForksAt p q place := by
  induction p generalizing t q with
  | nil =>
    -- nothing is inside of a field
    cases q with
    | nil => exact absurd rfl hpq
    | cons j q =>
      obtain ⟨m, address, size, rfl⟩ := hfield
      cases ho
      simp [at?, parts] at ho'
  | cons i p ih =>
    cases q with
    | nil =>
      obtain ⟨m, address, size, rfl⟩ := hfield'
      cases ho'
      simp [at?, parts] at ho
    | cons j q =>
      obtain ⟨part, hpart, ho⟩ := at?_cons_eq_some ho
      obtain ⟨part', hpart', ho'⟩ := at?_cons_eq_some ho'
      by_cases hij : i = j
      · subst hij
        cases hpart.symm.trans hpart'
        obtain ⟨place, hforks⟩ :=
          ih (h.part hpart) (fun he => hpq (congrArg (i :: ·) he)) ho ho'
        exact ⟨i :: place, hforks.cons hpart⟩
      · obtain ⟨id, kind, name, start, finish, ht⟩ := exists_eq_group hpart
        have hfills := h [] id kind name start finish t.parts (congrArg some ht)
        obtain ⟨z, hz⟩ := exists_extent_of_at? ho hx
        obtain ⟨z', hz'⟩ := exists_extent_of_at? ho' hy
        have hnz : n ∈ z := ((h.part hpart).inside ho hx hz).mem hnx
        have hnz' : n ∈ z' := ((h.part hpart').inside ho' hy hz').mem hny
        obtain rfl := hfills.eq_union hij hpart hpart' hz hz' hnz hnz'
        exact ⟨[], i, j, p, q, rfl, rfl, hij, id, name, start, finish, t.parts, congrArg some ht⟩

end Occurrence
end HeaderSymbols
