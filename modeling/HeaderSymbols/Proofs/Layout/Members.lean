import HeaderSymbols.Proofs.Layout.Descent

/-!
# Where members end

Where a member ends can be told without the layout that it is met in: it is the end of its own, in
which no emitter has a say. A group that is entered at a cursor has got, after some of its members,
to what their ends come to, which is the last of them in a structure and the furthest in a union.

* `fst_layout`: where a layout ends does not depend on the emitter.
* `finishOf`, `finishOf_eq`: a member ends there whatever was emitted before it.
* `Frame.ends`, `Frame.reached`: the ends of members one after the other, and how far a group has
  got with them.
* `Frame.fst_group`: so far a layout of the group gets.
* `Frame.Accounts`, `Frame.accounts`: what that is for a structure and for a union.
-/
namespace HeaderSymbols

/-! ## Layouts without an emitter -/

namespace Emitter

theorem snd_advance (e : Emitter) (address amount : UInt64) (line : UInt32) :
    (e.advance address amount line).2 = Cursor.advance? address amount := by
  unfold advance
  cases Cursor.advance? address amount <;> rfl

/-- What becomes of an item does not depend on the emitter. -/
theorem snd_visit (m : Model) (path : List GroupId) (start : Cursor) (e e' : Emitter) (i : Item) :
    (e.visit m path start i).2 = (e'.visit m path start i).2 := by
  cases i with
  | skip amount line =>
    cases start with
    | none => rfl
    | some address => simp only [visit, skip, Prod.map_snd, snd_advance]
  | member mem =>
    simp only [visit, member]
    cases mem.layout with
    | none =>
      cases start with
      | none => rfl
      | some address =>
        simp only [field]
        cases mem.size with
        | none => rfl
        | some size => simp only [Prod.map_snd, snd_advance]
    | some name =>
      dsimp only
      cases resolve m path start name <;> rfl
  | _ => rfl

theorem exists_visit_eq {m : Model} {path : List GroupId} {start : Cursor} {e e₁ : Emitter}
    {i : Item} {move : Move} (h : e.visit m path start i = (e₁, move)) (e' : Emitter) :
    ∃ e₂, e'.visit m path start i = (e₂, move) :=
  ⟨(e'.visit m path start i).1, Prod.ext rfl (by rw [snd_visit m path start e' e, h])⟩

end Emitter

namespace Descent

variable {m : Model} (hm : m.WellNested)

/-- Where a layout ends does not depend on the emitter. -/
theorem fst_layout (path : List GroupId) (id : GroupId) :
    Yields hm
      (fun path start _ i c _ => ∀ id (hi : i ∈ m.members id) e',
        (item hm path id start e' i hi).1 = c)
      (fun path id entry items cursor _ c _ => ∀ (hsub : ∀ i ∈ items, i ∈ m.members id) e',
        (members hm path id entry items hsub cursor e').1 = c)
      (fun path id start _ c _ => ∀ e', (group hm path id start e').1 = c) path id := by
  refine induct hm ?finish ?nest ?expand ?nil ?cons ?opened path id
  case finish =>
    intro path _ start e i c e₁ _ hv id hi e'
    obtain ⟨e₂, hv'⟩ := Emitter.exists_visit_eq hv e'
    rw [item_eq_visit, hv']
  case nest =>
    intro path _ start e child c e₁ _ _ hg id hi e'
    rw [item_eq_visit]
    exact hg e'
  case expand =>
    intro path start e mem name target c e₁ hl hr _ hg id hi e'
    rw [item_eq_visit]
    simp only [Emitter.visit, Emitter.member, hl, hr]
    exact hg _
  case nil =>
    intro path id entry cursor e hsub e'
    rw [members_nil]
  case cons =>
    intro path id entry i rest cursor e c₁ e₁ c e₂ hsub _ hfirst _ hrest hsub' e'
    rw [members_cons]
    simp only [hfirst id (hsub i (.head _)) e']
    exact hrest _ _
  case opened =>
    intro path id start e c e₁ hmembers e'
    rw [group]
    exact hmembers _ _

end Descent

namespace Walk

/-- Where an item that starts here, inside the expansions of `path`, ends: there where it is
finished at once, or where a walk of the group that it opens comes to. -/
def finishOf (m : Model) (path : List GroupId) (start : Cursor) (i : Item) : Cursor :=
  match Emitter.new.visit m path start i with
  | (_, .finish finish) => finish
  | (e, .nest id) => (run m (.inside (.new m id start false) [] path e)).1
  | (e, .expand id) => (run m (.inside (.new m id start true) [] (id :: path) e)).1

variable {m : Model} (hm : m.WellNested)

include hm in
theorem fst_run_new (path : List GroupId) (id : GroupId) (start : Cursor) (expands : Bool)
    (e e' : Emitter) :
    (run m (.inside (.new m id start expands) [] path e)).1 =
      (Descent.group hm path id start e').1 := by
  have hend : Reaches m (.inside (.new m id start expands) [] path e)
      (.ended (Descent.group hm path id start e).1 _) :=
    (Descent.reaches_spent hm path id start e expands []).trans (.step (.refl _))
  rw [run_eq_of_reaches hend]
  exact (Descent.fst_layout hm path id).group (c := (Descent.group hm path id start e').1) rfl e

theorem finishOf_of_visit {path : List GroupId} {start c : Cursor} {e e' : Emitter} {i : Item}
    (h : e.visit m path start i = (e', .finish c)) : finishOf m path start i = c := by
  obtain ⟨e₁, hnew⟩ := Emitter.exists_visit_eq h .new
  rw [finishOf, hnew]

/-- A member ends where its layout does, whatever was emitted before it. -/
theorem finishOf_eq {path : List GroupId} {id : GroupId} {i : Item} (hi : i ∈ m.members id)
    (start : Cursor) (e : Emitter) :
    finishOf m path start i = (Descent.item hm path id start e i hi).1 := by
  have hnew := (Descent.fst_layout hm path id).item hi
    (c := (Descent.item hm path id start e i hi).1) rfl id hi .new
  rw [← hnew, Descent.item_eq_visit]
  unfold finishOf
  cases Emitter.new.visit m path start i with
  | mk e₁ move =>
    cases move with
    | finish c => rfl
    | nest child => exact fst_run_new hm path child start false e₁ e₁
    | expand target => exact fst_run_new hm (target :: path) target start true e₁ e₁

end Walk

/-! ## Ends of members -/

namespace Cursor

/-- Of an address and any cursor the address is not the further one. -/
theorem exists_furthest_eq (a : UInt64) (c : Cursor) :
    ∃ b, furthest (some a) c = some b ∧ a ≤ b := by
  cases c with
  | none => exact ⟨a, rfl, UInt64.le_refl a⟩
  | some c =>
    refine ⟨max a c, rfl, ?_⟩
    rw [UInt64.le_iff_toNat_le, toNat_max]
    exact Nat.le_max_left ..

theorem exists_foldl_furthest_eq (a : UInt64) (ends : List Cursor) :
    ∃ b, ends.foldl furthest (some a) = some b ∧ a ≤ b := by
  induction ends generalizing a with
  | nil => exact ⟨a, rfl, UInt64.le_refl a⟩
  | cons c rest ih =>
    obtain ⟨b, hb, hle⟩ := exists_furthest_eq a c
    obtain ⟨last, hlast, hle'⟩ := ih b
    exact ⟨last, by rw [List.foldl_cons, hb, hlast], UInt64.le_trans hle hle'⟩

end Cursor

namespace Frame

/-- How far the frame has got after members with these ends. -/
def reached (f : Frame) (ends : List Cursor) : Cursor := ends.foldl f.kind.next f.entry

/-- The ends of these members of the frame, laid out one after the other inside of the expansions
of `path`. -/
def ends (m : Model) (f : Frame) (path : List GroupId) (items : List Item) : List Cursor :=
  items.foldl
    (fun ends i => ends ++ [Walk.finishOf m path (f.kind.start f.entry (f.reached ends)) i]) []

/-- How far the frame has got is what these ends of members come to: in a structure the last of
them, in a union the furthest, and no less than where it was entered. -/
structure Accounts (f : Frame) (ends : List Cursor) : Prop where
  struct : f.kind = .struct → f.cursor = ends.getLast?.getD f.entry
  union : f.kind = .union → f.cursor = ends.foldl Cursor.furthest f.entry
  entry_le : f.kind = .union → ∀ address, f.entry = some address →
    ∃ furthest, f.cursor = some furthest ∧ address ≤ furthest

variable {m : Model} {f : Frame}

theorem reached_concat (f : Frame) (ends : List Cursor) (finish : Cursor) :
    f.reached (ends ++ [finish]) = f.kind.next (f.reached ends) finish := by
  rw [reached, List.foldl_append]
  rfl

theorem ends_concat (m : Model) (f : Frame) (path : List GroupId) (items : List Item) (i : Item) :
    f.ends m path (items ++ [i]) = f.ends m path items ++
      [Walk.finishOf m path (f.kind.start f.entry (f.reached (f.ends m path items))) i] := by
  rw [ends, List.foldl_append]
  rfl

theorem reached_of_struct (hk : f.kind = .struct) (ends : List Cursor) :
    f.reached ends = ends.getLast?.getD f.entry := by
  rcases List.eq_nil_or_concat ends with rfl | ⟨before, finish, rfl⟩
  · rfl
  · rw [List.concat_eq_append, reached_concat, hk, List.getLast?_concat]
    rfl

theorem reached_of_union (hk : f.kind = .union) (ends : List Cursor) :
    f.reached ends = ends.foldl Cursor.furthest f.entry := by
  rw [reached, hk]
  rfl

theorem accounts {ends : List Cursor} (h : f.cursor = f.reached ends) : f.Accounts ends where
  struct hk := h.trans (reached_of_struct hk ends)
  union hk := h.trans (reached_of_union hk ends)
  entry_le hk address he := by
    rw [h, reached_of_union hk, he]
    exact Cursor.exists_foldl_furthest_eq address ends

/-- A layout of members gets as far as their ends say. -/
theorem fst_members (hm : m.WellNested) (hk : f.kind = m.kind f.group) (path : List GroupId)
    (rest : List Item) (hsub : ∀ i ∈ rest, i ∈ m.members f.group) (done : List Item) (e : Emitter) :
    (Descent.members hm path f.group f.entry rest hsub (f.reached (f.ends m path done)) e).1 =
      f.reached (f.ends m path (done ++ rest)) := by
  induction rest generalizing done e with
  | nil => rw [Descent.members_nil, List.append_nil]
  | cons i rest ih =>
    have hnext := ih (fun j hj => hsub j (.tail _ hj)) (done ++ [i])
    rw [ends_concat, reached_concat, Walk.finishOf_eq hm (hsub i (.head _)) _ e,
      List.append_assoc] at hnext
    rw [Descent.members_cons, ← hk]
    exact hnext _

theorem fst_group (hm : m.WellNested) (hk : f.kind = m.kind f.group) (path : List GroupId)
    (e : Emitter) :
    (Descent.group hm path f.group f.entry e).1 = f.reached (f.ends m path (m.members f.group)) := by
  rw [Descent.group]
  exact fst_members hm hk path _ _ [] e

end Frame

end HeaderSymbols
