import HeaderSymbols.Proofs.Layout.Effects
import HeaderSymbols.Proofs.Layout.History
import HeaderSymbols.Proofs.Layout.Wrapping
import HeaderSymbols.Proofs.Source.Representation

/-!
# The order of the members of a union

The members of a union are laid out one after the other with one emitter and one path, and yet each
of them as if it were alone: they all start where the union does, each leaves the namespaces as it
found them, and no name stands for a union, so it does not matter for what a member refers to which
union it stands in. A union ends at the furthest of their ends, whatever their order.

* `group?_addFilled`, `wellNested_addFilled`: a group added with members that stand elsewhere too.
* `group_addFilled`, `item_addFilled`: it changes no layout but its own, and the members are laid
  out in it as where they stood before.
* `item_eq_block`, `members_passed`: a member of a union comes to what it comes to alone, and so all
  of them to what each comes to.
* `union_members_commute`: so the members of a union may be taken in any order.
-/
namespace HeaderSymbols

/-! ## One more group -/

namespace Model

/-- The model with one more group, which has these members, and the group's identity. -/
def addFilled (m : Model) (kind : GroupKind) (items : List Item) : GroupId × Model :=
  let (id, m) := m.addGroup kind
  (id, items.foldl (fun m item => m.push id item) m)

/-- The same groups among those that have a name are on both paths. -/
def SamePath (m : Model) (path path' : List GroupId) : Prop :=
  ∀ name id, m.lookup name = some id → (id ∈ path' ↔ id ∈ path)

theorem SamePath.cons {m : Model} {path path' : List GroupId} (h : m.SamePath path path')
    (target : GroupId) : m.SamePath (target :: path) (target :: path') :=
  fun name id hl => by simp only [List.mem_cons, h name id hl]

theorem kind_of_kind? {m : Model} {id : GroupId} {kind : GroupKind} (h : m.kind? id = some kind) :
    m.kind id = kind := by
  rw [Model.kind, h]
  rfl

/-- No name stands for a union, nor for a group that is yet to be added. -/
theorem Forest.samePath_size {m : Model} (hm : m.Forest) {u : GroupId}
    (hu : m.kind? u = some .union) : m.SamePath [u] [m.groups.size] := by
  intro name id hl
  have hsize : id ≠ m.groups.size := Nat.ne_of_lt (hm.registered name id hl).2
  have hunion : id ≠ u := fun he => by
    have hk := hm.structs hl
    rw [he, hu] at hk
    cases hk
  simp only [List.mem_singleton, hsize, hunion]

variable (m : Model) (kind : GroupKind) (items : List Item)

theorem group?_pushes (id other : GroupId) :
    (items.foldl (fun m item => m.push id item) m).group? other =
      if id = other then (m.group? other).map fun g => { g with items := g.items ++ items.toArray }
      else m.group? other := by
  induction items generalizing m with
  | nil => simp
  | cons item rest ih =>
    rw [List.foldl_cons, ih, group?_push]
    split
    · simp [Function.comp_def]
    · rfl

theorem lookup_pushes (id : GroupId) (name : String) :
    (items.foldl (fun m item => m.push id item) m).lookup name = m.lookup name := by
  induction items generalizing m with
  | nil => rfl
  | cons item rest ih => exact ih _

theorem group?_addFilled (other : GroupId) :
    (m.addFilled kind items).2.group? other =
      if other = m.groups.size then some ⟨kind, items.toArray⟩ else m.group? other := by
  show (items.foldl (fun m' item => m'.push m.groups.size item) (m.addGroup kind).2).group? other = _
  rw [group?_pushes, group?_addGroup]
  by_cases h : other = m.groups.size
  · simp [h]
  · simp [h, Ne.symm h]

theorem lookup_addFilled (name : String) :
    (m.addFilled kind items).2.lookup name = m.lookup name :=
  lookup_pushes ..

theorem kind_addFilled (id : GroupId) :
    (m.addFilled kind items).2.kind id = if id = m.groups.size then kind else m.kind id := by
  simp only [Model.kind, kind?, group?_addFilled]
  split <;> rfl

theorem members_addFilled (id : GroupId) :
    (m.addFilled kind items).2.members id = if id = m.groups.size then items else m.members id := by
  simp only [members, group?_addFilled]
  split <;> rfl

variable {m items}

/-- A group whose members nest none but groups that were there before does not nest without end. -/
theorem wellNested_addFilled (hm : m.WellFormed)
    (h : ∀ child, .group child ∈ items → child < m.groups.size) :
    (m.addFilled kind items).2.WellNested := by
  have hold (id : GroupId) : id ≠ m.groups.size → Acc (m.addFilled kind items).2.Nests id := by
    induction id using hm.wellNested.induction with
    | _ id ih =>
      refine fun hid => ⟨_, fun child hc => ?_⟩
      rw [Nests, members_addFilled, if_neg hid] at hc
      exact ih child hc (Nat.ne_of_lt (hm.nests id child hc).2)
  refine ⟨fun id => ?_⟩
  by_cases hid : id = m.groups.size
  · refine ⟨_, fun child hc => ?_⟩
    rw [Nests, members_addFilled, if_pos hid] at hc
    exact hold child (Nat.ne_of_lt (h child hc))
  · exact hold id hid

theorem wellNested_addFilled_of_subset (hm : m.WellFormed) {id : GroupId}
    (h : ∀ i ∈ items, i ∈ m.members id) : (m.addFilled kind items).2.WellNested :=
  wellNested_addFilled kind hm fun child hc => (hm.nests id child (h _ hc)).2

end Model

namespace Descent

variable {m : Model} (hm : m.WellFormed) {kind : GroupKind} {items : List Item}
  (hadded : (m.addFilled kind items).2.WellNested)

include hm in
/-- A group that was there before is laid out as before, on any path with the same names. -/
theorem group_addFilled (path : List GroupId) (id : GroupId) :
    ∀ path', m.SamePath path path' → id ≠ m.groups.size → ∀ start e,
      group hadded path' id start e = group hm.wellNested path id start e := by
  refine hm.wellNested.descend (P := fun path id => ∀ path', m.SamePath path path' →
    id ≠ m.groups.size → ∀ start e,
      group hadded path' id start e = group hm.wellNested path id start e)
    (fun path id hnest hexpand path' hpath hid start e => ?_) path id
  have hkind : (m.addFilled kind items).2.kind id = m.kind id := by
    rw [Model.kind_addFilled, if_neg hid]
  have hmembers : (m.addFilled kind items).2.members id = m.members id := by
    rw [Model.members_addFilled, if_neg hid]
  rw [group_eq_members hadded hmembers, group_eq_members hm.wellNested rfl]
  refine members_of_items hm.wellNested hadded hkind _ _ _ _ _ fun i hi => ?_
  refine item_of_groups hm.wellNested hadded (Model.lookup_addFilled m kind items) hpath
    (fun child hc => ?nest) (fun target name ht hl => ?expand) hi _
  case nest => exact hnest child hc path' hpath (Nat.ne_of_lt (hm.nests id child hc).2)
  case expand =>
    exact hexpand target ht (List.ne_nil_of_mem hi) _ (hpath.cons target)
      (Nat.ne_of_lt (hm.registered name target hl).2)

/-- An item is laid out as where it stood before, in whatever group of the new model it stands. -/
theorem item_addFilled {path path' : List GroupId} (hpath : m.SamePath path path')
    {id id' : GroupId} {i : Item} (hi : i ∈ m.members id)
    (hi' : i ∈ (m.addFilled kind items).2.members id') (start : Cursor) (e : Emitter) :
    item hadded path' id' start e i hi' = item hm.wellNested path id start e i hi := by
  refine item_of_groups hm.wellNested hadded (Model.lookup_addFilled m kind items) hpath
    (fun child hc => ?nest) (fun target name _ hl => ?expand) hi hi' start e
  case nest =>
    exact group_addFilled hm hadded path child path' hpath (Nat.ne_of_lt (hm.nests id child hc).2)
  case expand =>
    exact group_addFilled hm hadded _ target _ (hpath.cons target)
      (Nat.ne_of_lt (hm.registered name target hl).2)

end Descent

/-! ## Blocks -/

/-- What one member comes to: where it ends, and what is emitted, reported and counted on the
way. -/
structure Block where
  finish : Cursor
  lines : List OutputLine
  findings : List Finding
  symbols : Nat
  deriving DecidableEq, Repr

/-- How far a union has got after members with these blocks, if it had got to the cursor before. -/
def Block.furthest (cursor : Cursor) (blocks : List Block) : Cursor :=
  blocks.foldl (fun cursor b => Cursor.furthest cursor b.finish) cursor

theorem Block.furthest_of_perm {blocks blocks' : List Block} (h : blocks.Perm blocks')
    (cursor : Cursor) : Block.furthest cursor blocks = Block.furthest cursor blocks' := by
  refine h.foldl_eq' (fun a _ b _ cursor => ?_) cursor
  rw [Cursor.furthest_assoc, Cursor.furthest_assoc, Cursor.furthest_comm a.finish]

namespace Emitter

/-- The emitter after members with these blocks, which left the namespaces as they were. -/
def passed (e : Emitter) (blocks : List Block) : Emitter where
  namespaces := e.namespaces
  lines := e.lines ++ (blocks.flatMap Block.lines).toArray
  findings := e.findings ++ (blocks.flatMap Block.findings).toArray
  symbols := blocks.foldl (fun n b => n + b.symbols) e.symbols

theorem passed_nil (e : Emitter) : e.passed [] = e := by simp [passed]

theorem passed_append (e : Emitter) (before after : List Block) :
    e.passed (before ++ after) = (e.passed before).passed after := by
  simp [passed]

/-- What an item comes to when nothing else stands in its group, and nothing was emitted before. -/
def block (m : Model) (ns : Namespaces) (start : Cursor) (i : Item) : Block :=
  let (id, alone) := m.addFilled .struct [i]
  let (finish, e) := (within ns).group alone id start
  ⟨finish, e.lines.toList, e.findings.toList, e.symbols⟩

end Emitter

/-- A layout of a group that comes to the blocks of its members, one after the other, each of
which starts where the group does. -/
structure Walk.Blockwise (m : Model) (id : GroupId) (start : Cursor) (e : Emitter)
    (block : Item → Block) : Prop where
  /-- Between any two members the walk has come to the blocks of those before, and no further. -/
  passes : ∀ before after, m.members id = before ++ after →
    Reaches m (.ofGroup m id start e)
      (.inside { Frame.new m id start false with
        rest := after
        cursor := Block.furthest start (before.map block) } [] [id] (e.passed (before.map block)))
  result : e.group m id start =
    (Block.furthest start ((m.members id).map block), e.passed ((m.members id).map block))

namespace Descent

variable {m : Model}

/-- Each member of a union comes to what it comes to alone. -/
theorem item_eq_block (hm : m.Forest) {u : GroupId} (hu : m.kind? u = some .union) {i : Item}
    (hi : i ∈ m.members u) (start : Cursor) (e : Emitter) :
    item hm.wellNested [u] u start e i hi =
      ((Emitter.block m e.namespaces start i).finish,
        e.passed [Emitter.block m e.namespaces start i]) := by
  have halone : (m.addFilled .struct [i]).2.WellNested :=
    Model.wellNested_addFilled_of_subset _ hm.toWellFormed fun j hj =>
      List.mem_singleton.1 hj ▸ hi
  have hsame (e : Emitter) : e.group (m.addFilled .struct [i]).2 m.groups.size start =
      item hm.wellNested [u] u start e i hi := by
    have hkind : (m.addFilled .struct [i]).2.kind m.groups.size = .struct := by
      rw [Model.kind_addFilled, if_pos rfl]
    have hmembers : (m.addFilled .struct [i]).2.members m.groups.size = [i] := by
      rw [Model.members_addFilled, if_pos rfl]
    rw [group_eq halone, group_eq_members halone hmembers, members_cons, members_nil, hkind]
    exact item_addFilled hm.toWellFormed halone (hm.samePath_size hu) hi _ start e
  have hne : u ≠ Model.document := fun he => by
    rw [he, hm.top] at hu
    cases hu
  let r := (Emitter.within e.namespaces).group (m.addFilled .struct [i]).2 m.groups.size start
  have hns : r.2.namespaces = e.namespaces := by
    have hr : item hm.wellNested [u] u start (.within e.namespaces) i hi = (r.1, r.2) :=
      (hsame _).symm
    show r.2.namespaces = (Emitter.within e.namespaces).namespaces
    exact (namespaces_layout hm.toWellFormed [u] u).item hi hr (hm.placed u hne i hi)
  have hafter : e.group (m.addFilled .struct [i]).2 m.groups.size start = (r.1, e.after r.2) := by
    have h := Emitter.after_group halone e (.within e.namespaces) m.groups.size start
    rwa [Emitter.after_within] at h
  rw [← hsame e, hafter]
  show (r.1, e.after r.2) =
    (r.1, e.passed [⟨r.1, r.2.lines.toList, r.2.findings.toList, r.2.symbols⟩])
  simp [Emitter.after, Emitter.passed, hns]

/-- Members of a union that each come to a block come to all the blocks. -/
theorem members_passed {m : Model} (hm : m.WellNested) {path : List GroupId} {id : GroupId}
    (hk : m.kind id = .union) {start : Cursor} {ns : Namespaces} {block : Item → Block}
    (hitem : ∀ i (hi : i ∈ m.members id) e, e.namespaces = ns →
      item hm path id start e i hi = ((block i).finish, e.passed [block i]))
    (items : List Item) (hsub : ∀ i ∈ items, i ∈ m.members id) (cursor : Cursor) (e : Emitter)
    (he : e.namespaces = ns) :
    members hm path id start items hsub cursor e =
      (Block.furthest cursor (items.map block), e.passed (items.map block)) := by
  induction items generalizing cursor e with
  | nil =>
    rw [members_nil, List.map_nil, Emitter.passed_nil]
    rfl
  | cons i rest ih =>
    rw [members_cons, hk]
    simp only [GroupKind.start, GroupKind.next, hitem i (hsub i (.head _)) e he]
    rw [ih _ _ (e.passed [block i]) he, ← Emitter.passed_append]
    rfl

/-- A union whose members each come to a block is laid out by blocks. -/
theorem blockwise {m : Model} (hm : m.WellNested) {id : GroupId} (hk : m.kind id = .union)
    {start : Cursor} {e : Emitter} {block : Item → Block}
    (hitem : ∀ i (hi : i ∈ m.members id) e', e'.namespaces = e.namespaces →
      item hm [id] id start e' i hi = ((block i).finish, e'.passed [block i])) :
    Walk.Blockwise m id start e block where
  passes before after h := by
    have hsub : ∀ i ∈ before, i ∈ m.members id := fun i hi => h ▸ List.mem_append_left _ hi
    have hfront : Walk.Reaches m (.ofGroup m id start e)
        (.inside { Frame.new m id start false with
          rest := after
          cursor := (members hm [id] id start before hsub start e).1 } [] [id]
          (members hm [id] id start before hsub start e).2) :=
      reaches_front hm rfl before after h hsub [] e
    rwa [members_passed hm hk hitem before hsub start e rfl] at hfront
  result := by
    rw [group_eq hm, group_eq_members hm rfl]
    exact members_passed hm hk hitem _ _ _ e rfl

theorem blockwise_of_forest (hm : m.Forest) {u : GroupId} (hu : m.kind? u = some .union)
    (start : Cursor) (e : Emitter) :
    Walk.Blockwise m u start e (Emitter.block m e.namespaces start) :=
  blockwise hm.wellNested (Model.kind_of_kind? hu) fun _ hi e' he =>
    he ▸ item_eq_block hm hu hi start e'

/-- A union in which no other members stand than in `u` comes to the same blocks as `u`. -/
theorem blockwise_addFilled (hm : m.Forest) {u : GroupId} (hu : m.kind? u = some .union)
    {kind : GroupKind} {items : List Item} (hadded : (m.addFilled kind items).2.WellNested)
    {id : GroupId} (hk : (m.addFilled kind items).2.kind id = .union)
    (hpath : m.SamePath [u] [id])
    (hsub : ∀ i ∈ (m.addFilled kind items).2.members id, i ∈ m.members u)
    (start : Cursor) (e : Emitter) :
    Walk.Blockwise (m.addFilled kind items).2 id start e (Emitter.block m e.namespaces start) :=
  blockwise hadded hk fun i hi e' he =>
    (item_addFilled hm.toWellFormed hadded hpath (hsub i hi) hi start e').trans
      (he ▸ item_eq_block hm hu (hsub i hi) start e')

end Descent

/-! ## Unions -/

/-- **Unions.** In the model of any lines, each member of a union is laid out as if it were alone, so
that a union comes to the blocks of its members, be they sound or not. Let a union be added whose
members are the same in some other order: from every cursor, in all namespaces and after whatever
was emitted before, it ends at the same cursor, and comes to the same blocks in its own order. -/
theorem union_members_commute (lines : List Line) {u : GroupId} {items : List Item}
    (hu : (Reading.ofLines lines).model.kind? u = some .union)
    (hitems : items.Perm ((Reading.ofLines lines).model.members u)) (start : Cursor) (e : Emitter) :
    let m := (Reading.ofLines lines).model
    let u' := (m.addFilled .union items).1
    let m' := (m.addFilled .union items).2
    let block := Emitter.block m e.namespaces start
    (∀ id, m'.group? id = if id = u' then some ⟨.union, items.toArray⟩ else m.group? id) ∧
      (∀ name, m'.lookup name = m.lookup name) ∧ m.group? u' = none ∧
      Walk.Blockwise m u start e block ∧ Walk.Blockwise m' u start e block ∧
      Walk.Blockwise m' u' start e block ∧
      (e.group m' u' start).1 = (e.group m u start).1 := by
  intro m u' m'
  have hm : m.Forest := Reading.forest_ofLines lines
  have hadded : m'.WellNested :=
    Model.wellNested_addFilled_of_subset _ hm.toWellFormed fun i hi => hitems.subset hi
  have hlt : u ≠ m.groups.size := fun he => by
    have hnone := Model.kind?_eq_none_iff.2 (Nat.le_of_eq he.symm)
    rw [hnone] at hu
    cases hu
  have hmembers : m'.members u' = items := (Model.members_addFilled ..).trans (if_pos rfl)
  have hmembers_u : m'.members u = m.members u :=
    (Model.members_addFilled ..).trans (if_neg hlt)
  have hkind : m'.kind u' = .union := (Model.kind_addFilled ..).trans (if_pos rfl)
  have hkind_u : m'.kind u = .union :=
    (Model.kind_addFilled ..).trans ((if_neg hlt).trans (Model.kind_of_kind? hu))
  have hold := Descent.blockwise_of_forest hm hu start e
  have hstill := Descent.blockwise_addFilled hm hu hadded hkind_u (fun _ _ _ => Iff.rfl)
    (fun _ hi => hmembers_u ▸ hi) start e
  have hnew := Descent.blockwise_addFilled hm hu hadded hkind (hm.samePath_size hu)
    (fun _ hi => hitems.subset (hmembers ▸ hi)) start e
  refine ⟨Model.group?_addFilled m .union items, Model.lookup_addFilled m .union items,
    by simp [Model.group?, u', Model.addFilled, Model.addGroup], hold, hstill, hnew, ?_⟩
  rw [hnew.result, hold.result, hmembers]
  exact Block.furthest_of_perm (hitems.map _) start

/-- A union with a point, which is expanded, a member that overflows and one that is not defined. -/
theorem union_members_commute_specimen :
    let source := "point .struct\nx .byte ?\ny .byte ?\n.ends\nkey .struct\n.union\n" ++
      "at .dstruct point\nfar .fill $ffffffffffffffff\nlost .dstruct none\n.endu\n.ends\n"
    let m := (Reading.ofLines (Line.ofSource source)).model
    let m' := (m.addFilled .union (m.members 3).reverse).2
    m.kind? 3 = some .union ∧ (m.members 3).reverse.Perm (m.members 3) ∧
      (Emitter.new.group m' 4 (some 16)).1 = (Emitter.new.group m 3 (some 16)).1 ∧
      Emitter.new.group m 3 (some 16) = (some 18, ⟨.root,
        #[.symbol "at_x" (.number 16) none, .symbol "at_y" (.number 17) none,
          .symbol "far" (.number 16) none],
        #[⟨some 8, .addressOverflow⟩, ⟨some 9, .unknownStructure "none"⟩], 3⟩) ∧
      Emitter.new.group m' 4 (some 16) = (some 18, ⟨.root,
        #[.symbol "far" (.number 16) none, .symbol "at_x" (.number 16) none,
          .symbol "at_y" (.number 17) none],
        #[⟨some 9, .unknownStructure "none"⟩, ⟨some 8, .addressOverflow⟩], 3⟩) := by
  intro source m m'
  have hmodel : m = ⟨#[⟨.struct, #[]⟩,
      ⟨.struct, #[.member ⟨"x", none, some 1, none, 2⟩, .member ⟨"y", none, some 1, none, 3⟩]⟩,
      ⟨.struct, #[.group 3]⟩,
      ⟨.union, #[.member ⟨"at", none, none, some "point", 7⟩,
        .member ⟨"far", none, some 0xffffffffffffffff, none, 8⟩,
        .member ⟨"lost", none, none, some "none", 9⟩]⟩],
    [("key", 2), ("point", 1)]⟩ := by decide +kernel
  have hu : m.kind? 3 = some .union := by
    rw [hmodel]
    rfl
  have hitems : (m.members 3).reverse.Perm (m.members 3) := List.reverse_perm _
  refine ⟨hu, hitems, ?_, ?_, ?_⟩
  · obtain ⟨-, -, -, -, -, -, hends⟩ :=
      union_members_commute (Line.ofSource source) hu hitems (some 16) .new
    have hsize : (m.addFilled .union (m.members 3).reverse).1 = 4 := by
      rw [hmodel]
      rfl
    exact hsize ▸ hends
  all_goals
    simp only [m', hmodel]
    exact Walk.run_eq_of_reaches
      (.step (.step (.step (.step (.step (.step (.step (.refl _))))))))

end HeaderSymbols
