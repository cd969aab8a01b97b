import HeaderSymbols.Proofs.Layout.Shape

/-!
# A structure is laid out alike everywhere

A structure is expanded by itself, under a name, or for a member that refers to it, at whatever
depth. From whatever address and in whatever namespaces, it has the same shape there.

* `spine_step`, `Reaches.unique`: a walk never comes back to frames with as many members left, so
  what a walk has laid out by the end of a structure is one thing.
* `Model.Expands`: the expansions of a group, and what is there before and after them.
* `Expands.exists_group`: each of them is the layout of the group on some path.
* `relocation`: so any two of them have one shape.
-/
namespace HeaderSymbols

namespace Walk

/-! ## Walks do not come back -/

/-- How many members are left in each group, the outermost first. -/
def spine : Walk → List Nat
  | .inside top outer _ _ => ((top :: outer).map fun f => f.rest.length).reverse
  | .ended .. => []

variable {m : Model} {u v w : Walk}

theorem spine_inside (top : Frame) (outer : List Frame) (path : List GroupId) (e : Emitter) :
    (Walk.inside top outer path e).spine =
      (outer.map fun f => f.rest.length).reverse ++ [top.rest.length] := by
  simp [spine]

/-- A step takes a member off, or goes on outside of a group that has none left. -/
theorem spine_step (m : Model) (top : Frame) (outer : List Frame) (path : List GroupId)
    (e : Emitter) : (step m top outer path e).spine < (Walk.inside top outer path e).spine := by
  rw [spine_inside]
  unfold step
  cases hr : top.rest with
  | nil =>
    cases outer with
    | nil => exact List.nil_lt_cons ..
    | cons parent outer =>
      have hshorter (xs : List Nat) : xs < xs ++ [0] := by
        simpa only [List.append_nil] using List.append_left_lt (List.nil_lt_cons 0 [])
      exact hshorter ((parent :: outer).map fun f => f.rest.length).reverse
  | cons i rest =>
    -- whatever is opened for the member, there is one less in the group
    have htaken (more : List Nat) :
        (outer.map fun f => f.rest.length).reverse ++ rest.length :: more <
          (outer.map fun f => f.rest.length).reverse ++ [(i :: rest).length] :=
      List.append_left_lt (List.cons_lt_cons_iff.2 (.inl (Nat.lt_succ_self _)))
    cases hv : e.visit m path top.childStart i with
    | mk e' move =>
      simp only [hv]
      cases move with
      | finish finish =>
        rw [proceed, spine_inside]
        exact htaken []
      | nest id | expand id =>
        rw [proceed, spine_inside, List.map_cons, List.reverse_cons, List.append_assoc]
        exact htaken [(m.members id).length]

theorem eq_or_spine_lt_of_reaches (h : Reaches m u v) : v = u ∨ v.spine < u.spine := by
  induction h with
  | refl => exact .inl rfl
  | @step top outer path e w _ ih =>
    have hstep := spine_step m top outer path e
    rcases ih with rfl | hlt
    · exact .inr hstep
    · exact .inr (List.lt_trans hlt hstep)

/-- A walk comes to frames with so many members left in one way. -/
theorem Reaches.unique (hu : Reaches m w u) (hv : Reaches m w v) (hs : u.spine = v.spine) :
    u = v := by
  induction hu with
  | refl w =>
    rcases eq_or_spine_lt_of_reaches hv with rfl | hlt
    · rfl
    · exact absurd (hs ▸ hlt) (List.lt_irrefl _)
  | @step top outer path e u hu ih =>
    cases hv with
    | refl =>
      have hstep := spine_step m top outer path e
      rcases eq_or_spine_lt_of_reaches hu with rfl | hlt
      · exact absurd (hs ▸ hstep) (List.lt_irrefl _)
      · exact absurd (hs ▸ List.lt_trans hlt hstep) (List.lt_irrefl _)
    | step hv => exact ih hv hs

end Walk

/-! ## Expansions -/

/-- The group is laid out from an address on, between these emitters, and ends at a cursor. The
namespaces that it is in are those of the first emitter. -/
inductive Model.Expands (m : Model) (id : GroupId) (start : UInt64) :
    Emitter → Cursor → Emitter → Prop where
  /-- A group by itself. -/
  | group (e : Emitter) :
      Expands m id start e (e.group m id (some start)).1 (e.group m id (some start)).2
  /-- A structure under its name, in a namespace of its own. -/
  | named (e : Emitter) (namespaceName : String) {key : String}
      (registered : m.lookup key = some id) :
      Expands m id start (e.clear.enter namespaceName) (e.named m namespaceName key start).1
        (e.named m namespaceName key start).2
  /-- A structure for a member that a walk has come to, up to where no member of the structure is
  left. -/
  | member {f top : Frame} {outer : List Frame} {path path' : List GroupId} {e e' : Emitter}
      {mem : Member} {name : String} {rest : List Item} (item : f.rest = .member mem :: rest)
      (layout : mem.layout = some name) (starts : f.childStart = some start)
      (resolved : Emitter.resolve m path (some start) name = .ok id)
      (reaches : Walk.Reaches m (.inside f outer path e)
        (.inside top ({ f with rest := rest } :: outer) path' e'))
      (spent : top.rest = []) :
      Expands m id start (e.enter mem.name) top.cursor e'

namespace Model

variable {m : Model} {id : GroupId} {start : UInt64} {e e' : Emitter} {finish : Cursor}

/-- Every expansion is the layout of the group on some path, but for the namespaces after it. -/
theorem Expands.exists_group (hm : m.WellNested) (h : m.Expands id start e finish e') :
    ∃ path e₁, Descent.group hm path id (some start) e = (finish, e₁) ∧
      e'.lines = e₁.lines ∧ e'.findings = e₁.findings := by
  cases h with
  | group =>
    rw [Descent.group_eq hm]
    exact ⟨[id], _, rfl, rfl, rfl⟩
  | named e₀ namespaceName registered =>
    simp only [Emitter.named, registered, Descent.group_eq hm]
    exact ⟨[id], _, rfl, rfl, rfl⟩
  | @member f top outer path path' e₀ _ mem name rest item layout starts resolved reaches spent =>
    -- the walk goes into the structure and comes to its end as the recursion does
    have hstep : Walk.step m f outer path e₀ =
        .inside (.new m id (some start) true) ({ f with rest := rest } :: outer) (id :: path)
          (e₀.enter mem.name) := by
      simp only [Walk.step, item, Emitter.visit, Emitter.member, layout, resolved, Walk.proceed,
        starts]
    have hspent := Descent.reaches_spent hm (id :: path) id (some start) (e₀.enter mem.name) true
      ({ f with rest := rest } :: outer)
    rw [← hstep] at hspent
    have hsame := reaches.unique (.step hspent)
      (by simp only [Walk.spine_inside, spent, Frame.spent])
    cases hsame
    exact ⟨id :: path, _, rfl, rfl, rfl⟩

/-- An expansion lays out the shape of its group, if no address overflows there and nothing is found
recursive. -/
theorem Expands.exists_shape (hm : m.Forest) (hid : id ≠ document)
    (h : m.Expands id start e finish e') (hfree : ∀ f ∈ e.met e', ¬ f.Situated) :
    ∃ s, Shape.OfGroup m id s ∧ s.Placed start e finish e' := by
  obtain ⟨path, e₁, hgroup, hlines, hfindings⟩ := h.exists_group hm.wellNested
  rw [Emitter.met, hfindings] at hfree
  obtain ⟨s, hs, hplaced⟩ := (Descent.placed_layout hm path id).group hgroup hid start rfl hfree
  exact ⟨s, hs, hlines ▸ hplaced.lines, hfindings ▸ hplaced.findings, hplaced.finish⟩

end Model

/-- **Relocation.** Whatever lines were read, any two expansions of a group that is not the
document, in which no address overflows and nothing is found recursive, lay out one shape, each at
its address and in its namespaces. So they add lines with the same names after their namespaces,
the same values and comments, fields as far from their starts, and the same findings, and they end
as far from their starts. -/
theorem relocation (lines : List Line) {id : GroupId} (hid : id ≠ Model.document)
    {start start' : UInt64} {finish finish' : Cursor} {before after before' after' : Emitter}
    (h : (Reading.ofLines lines).model.Expands id start before finish after)
    (h' : (Reading.ofLines lines).model.Expands id start' before' finish' after')
    (hfree : ∀ f ∈ before.met after, ¬ f.Situated)
    (hfree' : ∀ f ∈ before'.met after', ¬ f.Situated) :
    ∃ s, Shape.OfGroup (Reading.ofLines lines).model id s ∧
      s.Placed start before finish after ∧ s.Placed start' before' finish' after' := by
  have hm := Reading.forest_ofLines lines
  obtain ⟨s, hs, hplaced⟩ := h.exists_shape hm hid hfree
  obtain ⟨t, ht, hplaced'⟩ := h'.exists_shape hm hid hfree'
  cases Shape.ofGroup_unique hs ht
  exact ⟨s, hs, hplaced, hplaced'⟩

/-- A structure with a union and an unknown structure inside, by itself and for a member of the
document at an address. -/
theorem relocation_specimen :
    let m := (Reading.ofLines (Line.ofSource <|
      "p .struct\na .byte ?\n.union\nx .word ?\ny .dword ?\n.endu\nb .dstruct q\n.ends\n" ++
      ".virtual $20\nv .dstruct p\n.endv\n")).model
    let after : Emitter := ⟨.root, #[.symbol "a" (.number 0) none, .symbol "x" (.number 1) none,
      .symbol "y" (.number 1) none], #[⟨some 7, .unknownStructure "q"⟩], 3⟩
    let after' : Emitter := ⟨⟨["v"]⟩, #[.symbol "v_a" (.number 32) none,
      .symbol "v_x" (.number 33) none, .symbol "v_y" (.number 33) none],
      #[⟨some 7, .unknownStructure "q"⟩], 3⟩
    (1 : GroupId) ≠ Model.document ∧ m.Expands 1 0 .new (some 5) after ∧
      m.Expands 1 32 (Emitter.new.enter "v") (some 37) after' ∧
      ∃ s, Shape.OfGroup m 1 s ∧ s.Placed 0 .new (some 5) after ∧
        s.Placed 32 (Emitter.new.enter "v") (some 37) after' := by
  intro m after after'
  let groups : Array Group := #[
    ⟨.struct, #[.region (some 32), .member ⟨"v", none, none, some "p", 10⟩, .region none]⟩,
    ⟨.struct, #[.member ⟨"a", none, some 1, none, 2⟩, .group 2,
      .member ⟨"b", none, none, some "q", 7⟩]⟩,
    ⟨.union, #[.member ⟨"x", none, some 2, none, 4⟩, .member ⟨"y", none, some 4, none, 5⟩]⟩]
  have hm : m = ⟨groups, [("p", 1)]⟩ := by decide +kernel
  have hid : (1 : GroupId) ≠ Model.document := by decide
  have halone : m.Expands 1 0 .new (some 5) after := by
    have hgroup : Emitter.new.group m 1 (some 0) = (some 5, after) := by
      rw [hm]
      refine Walk.run_eq_of_reaches ?_
      iterate 7 apply Walk.Reaches.step
      exact .refl _
    have h : m.Expands 1 0 .new _ _ := .group Emitter.new
    rwa [hgroup] at h
  have hmember : m.Expands 1 32 (Emitter.new.enter "v") (some 37) after' := by
    let site : Frame := ⟨0, .struct, [.member ⟨"v", none, none, some "p", 10⟩, .region none], none,
      some 32, false⟩
    let top : Frame := ⟨1, .struct, [], some 32, some 37, true⟩
    have hreaches : Walk.Reaches m (.inside site [] [0] .new)
        (.inside top [{ site with rest := [.region none] }] [1, 0] after') := by
      rw [hm]
      iterate 7 apply Walk.Reaches.step
      exact .refl _
    have hresolved : Emitter.resolve m [0] (some 32) "p" = .ok 1 := by
      rw [hm]
      rfl
    exact .member (f := site) (e := .new) rfl rfl rfl hresolved hreaches rfl
  have hmet : ∀ f ∈ [Fault.unknownStructure "q"], ¬ f.Situated := by simp [Fault.Situated]
  exact ⟨hid, halone, hmember, relocation _ hid halone hmember hmet hmet⟩

end HeaderSymbols
