import HeaderSymbols.Proofs.Layout.Adequacy
import HeaderSymbols.Proofs.Layout.Effects
import HeaderSymbols.Proofs.Layout.Occurrence
import HeaderSymbols.Proofs.Source.Representation

/-!
# Fields overlap in unions only

A layout that finds nothing wrong unfolds a group into a tree: each item of a group becomes a part
of it, and a group nested there and a member that is expanded have parts of their own. The parts of
a structure are placed one after the other and fill it, those of a union are placed together and one
of them reaches its end. So where two fields have an address in common, it is for a union that both
are in.

* `Unfolds`, `UnfoldsAll`: what an item and the items of a group are laid out as, and where.
* `unfolds_layout`: each layout from an address that finds nothing wrong unfolds into a tree.
* `Unfolds.emits`: whose lines are what is emitted.
* `Unfolds.tiled`: every group in the tree is filled by its parts.
* `fields_overlap_in_unions`: all of this for every source, and what it says about two fields.
-/
namespace HeaderSymbols

/-! ## Unfolding -/

mutual

/-- `Unfolds m path start e item o finish e'`: inside of the expansions of `path`, an item that
starts at an address is laid out as `o` and ends at another one. -/
inductive Unfolds (m : Model) : List GroupId → UInt64 → Emitter → Item → Occurrence → UInt64 →
    Emitter → Prop where
  | constant {path start e name value comment} :
      Unfolds m path start e (.assignment name value comment) (.constant name value comment) start
        (e.define name value comment)
  | field {path address e mem size finish} (plain : mem.layout = none)
      (sized : mem.size = some size) (moves : Cursor.advance? address size = some finish) :
      Unfolds m path address e (.member mem) (.field mem address size) finish
        (e.define mem.name (.number address) mem.comment)
  | nested {path start e id parts finish e'}
      (body : UnfoldsAll m path (m.kind id) start (m.members id) start e parts finish e') :
      Unfolds m path start e (.group id) (.group id (m.kind id) none start finish parts) finish e'
  | expanded {path start e mem name id parts finish e'} (layout : mem.layout = some name)
      (resolved : Emitter.resolve m path (some start) name = .ok id)
      (body : UnfoldsAll m (id :: path) (m.kind id) start (m.members id) start (e.enter mem.name)
        parts finish e') :
      Unfolds m path start e (.member mem)
        (.group id (m.kind id) (some mem.name) start finish parts) finish e'.leave

/-- `UnfoldsAll m path kind entry items cursor e parts finish e'`: the same for items of a group of
this kind, which was entered at `entry` and has got to `cursor`. -/
inductive UnfoldsAll (m : Model) : List GroupId → GroupKind → UInt64 → List Item → UInt64 →
    Emitter → List Occurrence → UInt64 → Emitter → Prop where
  | nil {path kind entry cursor e} : UnfoldsAll m path kind entry [] cursor e [] cursor e
  | cons {path kind entry i rest cursor e o start finish next e₁ parts last e'}
      (starts : kind.start (some entry) (some cursor) = some start)
      (head : Unfolds m path start e i o finish e₁)
      (reaches : kind.next (some cursor) (some finish) = some next)
      (tail : UnfoldsAll m path kind entry rest next e₁ parts last e') :
      UnfoldsAll m path kind entry (i :: rest) cursor e (o :: parts) last e'

end

namespace GroupKind

theorem exists_start (kind : GroupKind) (entry cursor : UInt64) :
    ∃ start, kind.start (some entry) (some cursor) = some start := by
  cases kind <;> exact ⟨_, rfl⟩

theorem exists_next (kind : GroupKind) (cursor finish : UInt64) :
    ∃ next, kind.next (some cursor) (some finish) = some next := by
  cases kind <;> exact ⟨_, rfl⟩

end GroupKind

/-! ## Layouts -/

section
variable {m : Model} {path : List GroupId} {a : UInt64} {e e' : Emitter} {c : Cursor}

/-- A field at an address moves on by its size, if nothing is wrong with it. -/
theorem unfolds_field {mem : Member} {size : UInt64} (hl : mem.layout = none)
    (hsize : mem.size = some size)
    (hfree : (e.field mem (some a)).1.findings = e.findings) :
    ∃ o finish, (e.field mem (some a)).2 = some finish ∧
      Unfolds m path a e (.member mem) o finish (e.field mem (some a)).1 := by
  simp only [Emitter.field, hsize, Emitter.advance] at hfree ⊢
  split at hfree
  · rename_i finish hmoves
    exact ⟨_, finish, rfl, .field hl hsize hmoves⟩
  · exact absurd hfree (Emitter.findings_report_ne _ _ _)

/-- An item that ends at once unfolds into itself. -/
theorem unfolds_visit {i : Item} (hv : e.visit m path (some a) i = (e', .finish c))
    (hp : i.isPlaced = true)
    (hs : ∀ mem, i = .member mem → mem.layout = none → ∃ size, mem.size = some size)
    (hfree : e'.findings = e.findings) :
    ∃ o finish, c = some finish ∧ Unfolds m path a e i o finish e' := by
  cases i with
  | text | enter | leave | region | skip => cases hp
  | group => cases hv
  | assignment name value comment =>
    cases hv
    exact ⟨_, a, rfl, .constant⟩
  | member mem =>
    simp only [Emitter.visit, Emitter.member] at hv
    split at hv
    · rename_i hl
      cases hv
      obtain ⟨size, hsize⟩ := hs mem rfl hl
      exact unfolds_field hl hsize hfree
    · split at hv
      · cases hv
      · cases hv
        exact absurd hfree (Emitter.findings_report_ne _ _ _)

end

namespace Descent

/-- **Unfolding.** In the model of a source, what is laid out from an address on unfolds into a
tree, if nothing is found wrong. -/
theorem unfolds_layout {m : Model} (hm : m.Forest) (path : List GroupId) (id : GroupId) :
    Yields hm.wellNested
      (fun path start e i c e' => i.isPlaced = true → ∀ a, start = some a →
        e'.findings = e.findings → ∃ o finish, c = some finish ∧ Unfolds m path a e i o finish e')
      (fun path id entry items cursor e c e' => (∀ i ∈ items, i.isPlaced = true) →
        ∀ a b, entry = some a → cursor = some b → e'.findings = e.findings →
          ∃ parts finish, c = some finish ∧
            UnfoldsAll m path (m.kind id) a items b e parts finish e')
      (fun path id start e c e' => id ≠ Model.document → ∀ a, start = some a →
        e'.findings = e.findings → ∃ parts finish, c = some finish ∧
          UnfoldsAll m path (m.kind id) a (m.members id) a e parts finish e') path id := by
  refine induct hm.wellNested ?finish ?nest ?expand ?nil ?cons ?opened path id
  case finish =>
    rintro path id _ e i c e' hi hv hp a rfl hfree
    exact unfolds_visit hv hp (fun mem hmem => hm.exists_size (hmem ▸ hi)) hfree
  case nest =>
    rintro path id _ e child c e' hnests - hg - a rfl hfree
    obtain ⟨parts, finish, rfl, hbody⟩ :=
      hg (Walk.ne_document_of_nests hm.toWellFormed hnests) a rfl hfree
    exact ⟨_, finish, rfl, .nested hbody⟩
  case expand =>
    rintro path _ e mem name target c e' hl hr - hg - a rfl hfree
    have hlookup := (Emitter.resolve_eq_ok hr).2.1
    obtain ⟨parts, finish, rfl, hbody⟩ :=
      hg (Walk.ne_document_of_lookup hm.toWellFormed hlookup) a rfl hfree
    exact ⟨_, finish, rfl, .expanded hl hr hbody⟩
  case nil =>
    rintro path id _ _ e - a b rfl rfl -
    exact ⟨[], b, rfl, .nil⟩
  case cons =>
    rintro path id _ i rest _ e c₁ e₁ c e' hsub hitem hfirst hmembers hrest hp a b rfl rfl hfree
    -- what is found between the two ends is found in the first item or after it
    have hx := (extends_layout hm.wellNested path id).item (hsub i (.head _)) hitem
    have hx' := (extends_layout hm.wellNested path id).members _ hmembers
    have hfree₁ := hx.findings_eq hx' hfree
    obtain ⟨start, hstart⟩ := (m.kind id).exists_start a b
    obtain ⟨o, finish, rfl, ho⟩ := hfirst (hp i (.head _)) start hstart hfree₁
    obtain ⟨next, hnext⟩ := (m.kind id).exists_next b finish
    obtain ⟨parts, last, rfl, htail⟩ :=
      hrest (fun j hj => hp j (.tail _ hj)) a next rfl hnext (hfree.trans hfree₁.symm)
    exact ⟨o :: parts, last, rfl, .cons hstart ho hnext htail⟩
  case opened =>
    rintro path id _ e c e' h hid a rfl hfree
    exact h (hm.placed id hid) a a rfl rfl hfree

end Descent

/-! ## What a tree says -/

section
variable {m : Model}

mutual

/-- The lines of a tree are what is emitted, and the namespaces are as before. -/
theorem Unfolds.emits {path : List GroupId} {start finish : UInt64} {e e' : Emitter} {i : Item}
    {o : Occurrence} : Unfolds m path start e i o finish e' →
      e'.namespaces = e.namespaces ∧
        e'.lines.toList = e.lines.toList ++ o.lines e.namespaces
  | .constant => ⟨rfl, by simp [Emitter.define, Emitter.emit, Occurrence.lines]⟩
  | .field .. => ⟨rfl, by simp [Emitter.define, Emitter.emit, Occurrence.lines]⟩
  | .nested body => by
    rw [Occurrence.lines]
    exact body.emits
  | .expanded _ _ body => by
    obtain ⟨hns, hlines⟩ := body.emits
    rw [Occurrence.lines]
    exact ⟨by rw [Emitter.leave, hns, Emitter.enter, Namespaces.leave_enter], hlines⟩
termination_by structural h => h

theorem UnfoldsAll.emits {path : List GroupId} {kind : GroupKind} {entry cursor last : UInt64}
    {e e' : Emitter} {items : List Item} {parts : List Occurrence} :
    UnfoldsAll m path kind entry items cursor e parts last e' →
      e'.namespaces = e.namespaces ∧
        e'.lines.toList = e.lines.toList ++ Occurrence.linesAll e.namespaces parts
  | .nil => ⟨rfl, (List.append_nil _).symm⟩
  | .cons _ head _ tail => by
    obtain ⟨hns, hlines⟩ := head.emits
    obtain ⟨hns', hlines'⟩ := tail.emits
    rw [hns] at hlines'
    rw [Occurrence.linesAll, ← List.append_assoc, ← hlines]
    exact ⟨hns'.trans hns, hlines'⟩
termination_by structural h => h

end

/-- A group that has a tree for each of its items is filled by them. -/
theorem Occurrence.tiled_of_advances {id : GroupId} {kind : GroupKind} {name : Option String}
    {start finish : UInt64} {parts : List Occurrence} (hparts : ∀ o ∈ parts, o.Tiled)
    (h : Advances start.toNat start.toNat parts finish.toNat kind) :
    (group id kind name start finish parts).Tiled ∧
      (group id kind name start finish parts).Spans start.toNat finish.toNat := by
  have hfills := fills_of_advances h
  exact ⟨tiled_group hparts hfills, spans_group hfills.le⟩

/-- One more part in front, which starts and reaches on as it does in a group of this kind. -/
theorem Occurrence.advances_cons {kind : GroupKind} {entry cursor start finish next : UInt64}
    {last : Nat} {o : Occurrence} {parts : List Occurrence}
    (starts : kind.start (some entry) (some cursor) = some start)
    (reaches : kind.next (some cursor) (some finish) = some next) (hle : entry.toNat ≤ cursor.toNat)
    (ho : o.Spans start.toNat finish.toNat) :
    entry.toNat ≤ next.toNat ∧ (Advances entry.toNat next.toNat parts last kind →
      Advances entry.toNat cursor.toNat (o :: parts) last kind) := by
  cases kind with
  | struct =>
    cases starts
    cases reaches
    exact ⟨Nat.le_trans hle ho.le, InRow.cons ho⟩
  | union =>
    cases starts
    cases reaches
    rw [Cursor.toNat_max]
    exact ⟨Nat.le_trans hle (Nat.le_max_left ..), Together.cons hle ho⟩

mutual

/-- A tree starts and ends where it is laid out, and every group in it is filled. -/
theorem Unfolds.tiled {path : List GroupId} {start finish : UInt64} {e e' : Emitter} {i : Item}
    {o : Occurrence} : Unfolds m path start e i o finish e' →
      o.Tiled ∧ o.Spans start.toNat finish.toNat
  | .constant => ⟨Occurrence.tiled_constant _ _ _, Occurrence.spans_constant _ _ _ _⟩
  | .field _ _ moves => by
    rw [Cursor.advance?_eq_some_iff.1 moves]
    exact ⟨Occurrence.tiled_field _ _ _, Occurrence.spans_field _ _ _⟩
  | .nested body => by
    obtain ⟨hparts, hbody⟩ := body.tiled (Nat.le_refl _)
    exact Occurrence.tiled_of_advances hparts hbody
  | .expanded _ _ body => by
    obtain ⟨hparts, hbody⟩ := body.tiled (Nat.le_refl _)
    exact Occurrence.tiled_of_advances hparts hbody
termination_by structural h => h

theorem UnfoldsAll.tiled {path : List GroupId} {kind : GroupKind} {entry cursor last : UInt64}
    {e e' : Emitter} {items : List Item} {parts : List Occurrence} :
    UnfoldsAll m path kind entry items cursor e parts last e' → entry.toNat ≤ cursor.toNat →
      (∀ o ∈ parts, o.Tiled) ∧
        Occurrence.Advances entry.toNat cursor.toNat parts last.toNat kind
  | .nil, _ => ⟨fun o ho => (by cases ho), Occurrence.advances_nil _ _ _⟩
  | .cons starts head reaches tail, hle => by
    obtain ⟨htiled, hspans⟩ := head.tiled
    obtain ⟨hnext, hadvances⟩ := Occurrence.advances_cons starts reaches hle hspans
    obtain ⟨hparts, hrest⟩ := tail.tiled hnext
    exact ⟨List.forall_mem_cons.2 ⟨htiled, hparts⟩, hadvances hrest⟩
termination_by structural h => h

end

end

/-! ## Sources -/

/-- **Overlap.** In the model of any lines, a layout of a group at an address that finds nothing
wrong is a tree that fills all of its groups and whose lines are what is emitted. Each of its fields
is inside of the extent of the whole, and of two fields with an address in common, the innermost
group that both are in is a union. -/
theorem fields_overlap_in_unions (lines : List Line) (id : GroupId) (hid : id ≠ Model.document)
    (start : UInt64) (e : Emitter)
    (hfree : (e.group (Reading.ofLines lines).model id (some start)).2.findings = e.findings) :
    let m := (Reading.ofLines lines).model
    let e' := (e.group m id (some start)).2
    ∃ finish t, (e.group m id (some start)).1 = some finish ∧
      Unfolds m [id] start e (.group id) t finish e' ∧
      e'.lines.toList = e.lines.toList ++ t.lines e.namespaces ∧
      t.extent? = some ⟨start.toNat, finish.toNat⟩ ∧
      (∀ place id kind name start finish parts,
        t.at? place = some (.group id kind name start finish parts) →
          Occurrence.Fills ⟨start.toNat, finish.toNat⟩ parts kind) ∧
      (∀ place mem address size, t.at? place = some (.field mem address size) →
        start ≤ address ∧ address.toNat + size.toNat ≤ finish.toNat) ∧
      ∀ p q o o' x y n, p ≠ q → t.at? p = some o → t.at? q = some o' → o.IsField → o'.IsField →
        o.extent? = some x → o'.extent? = some y → n ∈ x → n ∈ y →
          ∃ place, t.ForksAt p q place := by
  intro m e'
  have hm : m.Forest := Reading.forest_ofLines lines
  have heq : e.group m id (some start) = Descent.group hm.wellNested [id] id (some start) e :=
    Descent.group_eq hm.wellNested id (some start) e
  obtain ⟨parts, finish, hfinish, hbody⟩ :=
    (Descent.unfolds_layout hm [id] id).group heq.symm hid start rfl hfree
  have hunfolds := Unfolds.nested hbody
  obtain ⟨htiled, -⟩ := hunfolds.tiled
  refine ⟨finish, _, hfinish, hunfolds, hunfolds.emits.2, rfl, htiled, ?inside, ?forks⟩
  case inside =>
    intro place mem address size ho
    have hinside := htiled.inside ho rfl rfl
    exact ⟨UInt64.le_iff_toNat_le.2 hinside.start, hinside.finish⟩
  case forks =>
    intro p q o o' x y n hpq ho ho' hfield hfield' hx hy
    exact htiled.forks_of_mem hpq ho ho' hfield hfield' hx hy

/-- A key code and the two bytes that it consists of have the address 0 in common. -/
theorem fields_overlap_in_unions_specimen :
    let source := "key .struct\n.union\ncode .word ?\n.struct\nlow .byte ?\nhigh .byte ?\n" ++
      ".ends\n.endu\n.ends\n"
    let m := (Reading.ofLines (Line.ofSource source)).model
    let e := Emitter.new.group m 1 (some 0)
    1 ≠ Model.document ∧ e.2.findings = #[] ∧
      ∃ t : Occurrence, t.Tiled ∧ t.extent? = some ⟨0, 2⟩ ∧
        t.lines Namespaces.root =
          [.symbol "code" (.number 0) none, .symbol "low" (.number 0) none,
            .symbol "high" (.number 1) none] := by
  intro source m e
  have hmodel : m = ⟨#[⟨.struct, #[]⟩, ⟨.struct, #[.group 2]⟩,
      ⟨.union, #[.member ⟨"code", none, some 2, none, 3⟩, .group 3]⟩,
      ⟨.struct, #[.member ⟨"low", none, some 1, none, 5⟩,
        .member ⟨"high", none, some 1, none, 6⟩]⟩],
    [("key", 1)]⟩ := by decide +kernel
  have hrun : e = (some 2, ⟨.root, #[.symbol "code" (.number 0) none,
      .symbol "low" (.number 0) none, .symbol "high" (.number 1) none], #[], 3⟩) := by
    show Emitter.new.group m 1 (some 0) = _
    rw [hmodel]
    exact Walk.run_eq_of_reaches
      (.step (.step (.step (.step (.step (.step (.step (.step (.refl _)))))))))
  have hid : (1 : GroupId) ≠ Model.document := by decide
  have hfree : e.2.findings = #[] := by rw [hrun]
  obtain ⟨finish, t, hfinish, -, hlines, hextent, htiled, -⟩ :=
    fields_overlap_in_unions (Line.ofSource source) 1 hid 0 .new hfree
  refine ⟨hid, hfree, t, htiled, ?_, ?_⟩
  · change e.1 = some finish at hfinish
    rw [hrun] at hfinish
    cases hfinish
    exact hextent
  · change e.2.lines.toList = _ at hlines
    rw [hrun] at hlines
    exact hlines.symm

end HeaderSymbols
