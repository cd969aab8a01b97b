import HeaderSymbols.Proofs.Layout.History

/-!
# One layout after another

An emitter is asked for one layout after another: the document, structures by their names, the
trailers, or a group. Whatever it has emitted and reported before stays where it is, and the
namespaces that are open are all that a layout can see of it. All layouts but those of a group begin
with no namespace open, so that they are the same whatever was laid out before.

* `perform_after`, `perform_eq_after`: an emission goes on after what was emitted before, and where
  it begins with no namespace open it goes on as from a new emitter.
* `extends_perform`, `extends_performAll`: nothing is taken back by an emission, and so nothing by a
  sequence of them.
* `emission_independent_of_history`: so an emission depends on nothing that came before.
-/
namespace HeaderSymbols

/-- What an emitter can be asked for. -/
inductive Emission where
  | document
  | named (namespaceName key : String) (start : UInt64)
  | group (id : GroupId) (start : Cursor)
  | trailers
  deriving DecidableEq, Repr

/-- Whether all namespaces are left before anything is laid out. -/
def Emission.clears : Emission → Bool
  | group .. => false
  | document | named .. | trailers => true

namespace Emitter

/-- Where the emission ends, where that is told, and the emitter after it. -/
def perform (m : Model) (e : Emitter) : Emission → Option Cursor × Emitter
  | .document => (e.document m).map some id
  | .named namespaceName key start => (e.named m namespaceName key start).map some id
  | .group g start => (e.group m g start).map some id
  | .trailers => (none, e.trailers m)

/-- The emitter after one emission after another. -/
def performAll (m : Model) (e : Emitter) (emissions : List Emission) : Emitter :=
  emissions.foldl (fun e x => (e.perform m x).2) e

/-! ## Before and after -/

theorem after_new (e : Emitter) : e.after new = e.clear := by
  simp [after, new, clear]

/-- What is emitted by name leaves no namespace open, be the name registered or not. -/
theorem namespaces_named (m : Model) (e : Emitter) (namespaceName key : String) (start : UInt64) :
    (e.named m namespaceName key start).2.namespaces = .root := by
  unfold named
  cases m.lookup key <;> rfl

section
variable {m : Model} (hm : m.WellNested) (e : Emitter) {x : Emission}

/-- The namespaces that are open are all that an emission can see of the emitter, and it sees none
where it leaves them. -/
theorem perform_clear (h : x.clears = true) : e.clear.perform m x = e.perform m x := by
  cases x with
  | document | named | trailers => rfl
  | group => cases h

include hm

theorem perform_after (base : Emitter) (x : Emission) :
    (base.after e).perform m x = ((e.perform m x).1, base.after (e.perform m x).2) := by
  cases x with
  | document =>
    have hgroup := after_group hm base e.clear Model.document none
    exact congrArg (Prod.map some id) hgroup
  | named namespaceName key start =>
    exact congrArg (Prod.map some id) (after_named hm base e namespaceName key start)
  | group g start => exact congrArg (Prod.map some id) (after_group hm base e g start)
  | trailers => exact congrArg ((none : Option Cursor), ·) (after_trailers hm base e)

/-- **History.** Where it leaves all namespaces, an emission goes on after whatever was emitted
before as it does from a new emitter. -/
theorem perform_eq_after (h : x.clears = true) :
    e.perform m x = ((new.perform m x).1, e.after (new.perform m x).2) := by
  rw [← perform_clear e h, ← after_new]
  exact perform_after hm new e x

/-- Whatever is emitted comes after what was emitted before, and its symbols are counted. -/
theorem extends_perform (x : Emission) : e.Extends (e.perform m x).2 := by
  cases x with
  | document => exact extends_document hm e
  | named => exact extends_named hm e ..
  | group => exact extends_group hm e ..
  | trailers => exact extends_trailers hm e

theorem extends_performAll (xs : List Emission) : e.Extends (e.performAll m xs) := by
  induction xs generalizing e with
  | nil => exact .refl e
  | cons x xs ih => exact (extends_perform hm e x).trans (ih _)

end

end Emitter

/-- **Independence.** In a well nested model, after whatever emissions of one emitter, groups
included, the document, a structure by its name and the trailers are laid out as they are first of
all: with the same end, the same lines, symbols and findings, which come after all that there was.
Nothing is taken back by any later emissions, and a structure that was laid out by its name, or is
missing, leaves no namespace open. -/
theorem emission_independent_of_history {m : Model} (hm : m.WellNested) (history : List Emission) :
    let e := Emitter.new.performAll m history
    (∀ next : Emission, next.clears = true →
      let alone := Emitter.new.perform m next
      let r := e.perform m next
      r.1 = alone.1 ∧ r.2.lines = e.lines ++ alone.2.lines ∧
        r.2.output = e.output ++ alone.2.output ∧ r.2.symbols = e.symbols + alone.2.symbols ∧
        r.2.findings = e.findings ++ alone.2.findings) ∧
      (∀ namespaceName key start, (e.named m namespaceName key start).2.namespaces = .root) ∧
      ∀ later, e.Extends (e.performAll m later) := by
  intro e
  refine ⟨fun next hnext => ?_, e.namespaces_named m, Emitter.extends_performAll hm e⟩
  intro alone r
  have hr : r = (alone.1, e.after alone.2) := Emitter.perform_eq_after hm e hnext
  rw [hr]
  exact ⟨rfl, rfl, Emitter.output_after, Emitter.symbols_after, rfl⟩

/-- A document that leaves a namespace open, and a structure that leaves one and enters another. -/
def Model.unbalanced : Model where
  groups := #[⟨.struct, #[.enter "k", .region (some 3)]⟩,
    ⟨.struct, #[.leave, .enter "z", .member ⟨"b", none, some 1, none, 7⟩]⟩]
  registry := [("t", 1)]

/-- After the document and the structure, in the namespaces that they left open, the structure is
laid out by its name. -/
theorem emission_independent_of_history_unbalanced :
    let e := Emitter.new.performAll .unbalanced [.document, .group 1 (some 9), .trailers]
    let r := e.named .unbalanced "n" "t" 5
    Model.unbalanced.WellNested ∧ (Emission.named "n" "t" 5).clears = true ∧ r.1 = some 6 ∧
      r.2.output = e.output ++ "z_b = $5\n" ∧ r.2.symbols = e.symbols + 1 ∧
      r.2.findings = e.findings ∧ r.2.namespaces = .root := by
  intro e r
  have hm : Model.unbalanced.WellNested := Model.wellNested_of_nestsLater (by decide)
  have hwalk : (Emitter.within ⟨["n"]⟩).group .unbalanced 1 (some 5) =
      (some 6, ⟨⟨["z"]⟩, #[.symbol "z_b" (.number 5) none], #[], 1⟩) := by
    refine Walk.run_eq_of_reaches ?_
    iterate 4 apply Walk.Reaches.step
    exact .refl _
  have halone : Emitter.new.perform .unbalanced (.named "n" "t" 5) =
      (some (some 6), ⟨.root, #[.symbol "z_b" (.number 5) none], #[], 1⟩) := by
    have hnamed : Emitter.new.named .unbalanced "n" "t" 5 =
        (some 6, ⟨.root, #[.symbol "z_b" (.number 5) none], #[], 1⟩) :=
      congrArg (fun r : Cursor × Emitter => (r.1, r.2.clear)) hwalk
    exact congrArg (Prod.map some id) hnamed
  obtain ⟨hnext, hroot, -⟩ :=
    emission_independent_of_history hm [.document, .group 1 (some 9), .trailers]
  obtain ⟨hend, -, houtput, hsymbols, hfindings⟩ := hnext (.named "n" "t" 5) rfl
  rw [halone] at hend houtput hsymbols hfindings
  exact ⟨hm, rfl, Option.some.inj hend, houtput, hsymbols, hfindings.trans (Array.append_empty ..),
    hroot "n" "t" 5⟩

end HeaderSymbols
