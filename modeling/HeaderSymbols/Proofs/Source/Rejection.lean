import HeaderSymbols.Proofs.Source.Directive

/-!
# Rejected lines

A line is rejected where it leaves a finding, and then it does nothing else. A step is not written
that way: it goes on with whatever it has done to the reading so far. But each of its ways comes to
that (`step_eq`). So the lines that a reading rejects may as well not be there: the others alone are
read with the same result and without a finding, until the end of the source is judged.

* `step_of_rejects`, `step_of_accepts`: what a line does in either case.
* `steps_accepted`: the accepted lines alone are read as all lines are.
* `findings_steps`: a reading finds one fault at each line it rejects, in their order.
* `rejected_leave_no_trace`: all of this for a source up to its end.
-/
namespace HeaderSymbols.Reading

/-- Whether a line leaves a finding. -/
def rejects (r : Reading) (l : Line × UInt32) : Bool := (r.step l.1 l.2).findings ≠ r.findings

/-- The lines that leave no finding where they stand. -/
def accepted (r : Reading) : List (Line × UInt32) → List (Line × UInt32)
  | [] => []
  | l :: rest =>
    if r.rejects l then (r.step l.1 l.2).accepted rest else l :: (r.step l.1 l.2).accepted rest

/-- The lines that leave a finding where they stand. -/
def rejected (r : Reading) : List (Line × UInt32) → List (Line × UInt32)
  | [] => []
  | l :: rest =>
    if r.rejects l then l :: (r.step l.1 l.2).rejected rest else (r.step l.1 l.2).rejected rest

/-- The reading without what it has found. -/
def forget (r : Reading) : Reading := { r with findings := #[] }

/-! ## One line -/

variable {r : Reading} {l : Line × UInt32}

theorem findings_record_ne (r : Reading) (line : Option UInt32) (fault : Fault) :
    (r.record line fault).findings ≠ r.findings := by
  intro h
  have := congrArg Array.size h
  simp [record] at this

theorem step_of_rejects (h : r.rejects l = true) :
    ∃ fault, r.step l.1 l.2 = r.record (some l.2) fault := by
  rcases step_eq_record_or_findings_eq r l.1 l.2 with hr | hf
  · exact hr
  · simp [rejects, hf] at h

theorem rejects_of_record {fault : Fault} (h : r.step l.1 l.2 = r.record (some l.2) fault) :
    r.rejects l = true := by
  simp [rejects, h, findings_record_ne]

theorem findings_of_accepts (h : r.rejects l = false) : (r.step l.1 l.2).findings = r.findings := by
  simpa [rejects] using h

/-- A directive is obeyed, or cannot be, whatever was found before it. -/
theorem obey_forget (r : Reading) (comment : Option String) (line : UInt32) (d : Directive) :
    r.forget.obey comment line d = (r.obey comment line d).map forget := by
  cases d with
  | leave => obtain ⟨m, ⟨_ | ⟨name, outer⟩⟩, scopes, findings⟩ := r <;> rfl
  | close | closeNamed =>
    rw [obey, obey, apply_ite (Except.map forget)]
    rfl
  | _ => rfl

theorem step_of_accepts (h : r.rejects l = false) :
    r.forget.step l.1 l.2 = (r.step l.1 l.2).forget := by
  have hf := findings_of_accepts h
  cases hd : Directive.ofLine l.1 with
  | error fault =>
    rw [step_of_error hd] at hf
    exact absurd hf (findings_record_ne _ _ _)
  | ok d =>
    rw [step_of_ok hd] at hf
    rw [step_of_ok hd, step_of_ok hd, obey_forget]
    cases ho : r.obey l.1.comment l.2 d with
    | error fault =>
      rw [ho] at hf
      exact absurd hf (findings_record_ne _ _ _)
    | ok after => rfl

/-! ## Lines -/

/-- The accepted lines alone, read from a reading that has found nothing, come to the same as all
lines, and find nothing. -/
theorem steps_accepted (r : Reading) (lines : List (Line × UInt32)) :
    r.forget.steps (r.accepted lines) = (r.steps lines).forget := by
  induction lines generalizing r with
  | nil => rfl
  | cons l rest ih =>
    rw [steps_cons, ← ih, accepted]
    cases h : r.rejects l with
    | true =>
      obtain ⟨fault, hr⟩ := step_of_rejects h
      rw [if_pos rfl, hr]
      rfl
    | false =>
      rw [if_neg Bool.false_ne_true, steps_cons, step_of_accepts h]

theorem rejected_cons_eq_nil_iff {rest : List (Line × UInt32)} :
    r.rejected (l :: rest) = [] ↔ r.rejects l = false ∧ (r.step l.1 l.2).rejected rest = [] := by
  rw [rejected]
  cases r.rejects l <;> simp

theorem rejected_sublist (r : Reading) (lines : List (Line × UInt32)) :
    (r.rejected lines).Sublist lines := by
  induction lines generalizing r with
  | nil => exact List.Sublist.slnil
  | cons l rest ih =>
    rw [rejected]
    split
    · exact (ih _).cons_cons l
    · exact (ih _).cons l

/-- There is one finding for each line rejected, at its number. -/
theorem findings_steps (r : Reading) (lines : List (Line × UInt32)) :
    ∃ found, (r.steps lines).findings.toList = r.findings.toList ++ found ∧
      found.map Finding.line = (r.rejected lines).map fun l => some l.2 := by
  induction lines generalizing r with
  | nil => exact ⟨[], (List.append_nil _).symm, rfl⟩
  | cons l rest ih =>
    obtain ⟨found, hfound, hlines⟩ := ih (r.step l.1 l.2)
    rw [steps_cons, hfound, rejected]
    cases h : r.rejects l with
    | true =>
      obtain ⟨fault, hr⟩ := step_of_rejects h
      rw [hr] at hlines ⊢
      exact ⟨⟨some l.2, fault⟩ :: found, by simp [record], by simp [hlines]⟩
    | false =>
      rw [findings_of_accepts h]
      exact ⟨found, rfl, by simpa using hlines⟩

theorem findings_steps_eq_iff (r : Reading) (lines : List (Line × UInt32)) :
    (r.steps lines).findings = r.findings ↔ r.rejected lines = [] := by
  obtain ⟨found, hfound, hlines⟩ := findings_steps r lines
  rw [← Array.toList_inj, hfound, List.append_right_eq_self, ← List.map_eq_nil_iff, hlines,
    List.map_eq_nil_iff]

/-- **Rejection.** A line either leaves one finding, at its number, and model, namespaces and open
groups as they were, or it leaves no finding. So in every source the accepted lines alone are read
into the same model, with the same namespaces and groups open at the end, and without a finding
before the end, where the same things are left unclosed. In the source itself the rejected lines
leave a finding each, in their order, and those at the end, which have no number, come last. -/
theorem rejected_leave_no_trace :
    (∀ (r : Reading) (line : Line) (number : UInt32),
      (∃ fault, (r.step line number).findings = r.findings.push ⟨some number, fault⟩ ∧
        (r.step line number).model = r.model ∧
        (r.step line number).namespaces = r.namespaces ∧
        (r.step line number).scopes = r.scopes) ∨
      (r.step line number).findings = r.findings) ∧
    ∀ lines : List (Line × UInt32),
      let whole := start.steps lines
      let kept := start.steps (start.accepted lines)
      let atEnd := whole.unclosed.map (Finding.mk none)
      kept.model = whole.model ∧ kept.namespaces = whole.namespaces ∧ kept.scopes = whole.scopes ∧
        kept.findings = #[] ∧ kept.finish.findings.toList = atEnd ∧
        ∃ found, whole.finish.findings.toList = found ++ atEnd ∧
          found.map Finding.line = (start.rejected lines).map (fun l => some l.2) ∧
          (start.rejected lines).Sublist lines := by
  refine ⟨fun r line number => ?_, fun lines => ?_⟩
  · rcases step_eq_record_or_findings_eq r line number with ⟨fault, hr⟩ | hf
    · rw [hr]
      exact .inl ⟨fault, rfl, rfl, rfl, rfl⟩
    · exact .inr hf
  · have hkept : start.steps (start.accepted lines) = (start.steps lines).forget :=
      steps_accepted start lines
    obtain ⟨found, hfound, hlines⟩ := findings_steps start lines
    dsimp only
    rw [hkept, findings_finish, findings_finish, hfound]
    exact ⟨rfl, rfl, rfl, rfl, rfl, found, rfl, hlines, rejected_sublist start lines⟩

end HeaderSymbols.Reading
