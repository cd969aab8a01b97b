import HeaderSymbols.Proofs.Source.Acceptance

/-!
# Readings in the same place

What a line does to namespaces and open groups, and what is found there, is told by the namespaces
and the kinds of the open groups before it, and by nothing else that was read. So two readings that
have the same namespaces and the same kinds of groups open go on in parallel: the same lines lead
both to the same place again, with the same findings on the way.

* `Parallel.step`, `Parallel.steps`: a line and lines.
* `Parallel.unclosed`: what is left open.
* `model_steps`: outside of all groups lines add their block to the document.
-/
namespace HeaderSymbols.Reading

/-- The namespaces are the same, and so are the kinds of the open groups. -/
structure Parallel (r r' : Reading) : Prop where
  namespaces : r'.namespaces = r.namespaces
  groups : ∃ o, r.Views o ∧ r'.Views o

variable {r r' : Reading}

theorem parallel_of_scopes_eq (hs : r.scopes = [Model.document])
    (hs' : r'.scopes = [Model.document]) (hn : r'.namespaces = r.namespaces) : r.Parallel r' := by
  refine ⟨hn, ⟨[], r.namespaces.names.map fun _ => ()⟩, ⟨?_, rfl⟩, ⟨?_, by rw [hn]⟩⟩
  · rw [hs]
    exact .document
  · rw [hs']
    exact .document

theorem Parallel.scopes_eq_iff (h : r.Parallel r') :
    r'.scopes = [Model.document] ↔ r.scopes = [Model.document] := by
  obtain ⟨o, hv, hv'⟩ := h.groups
  rw [hv.groups.eq_document_iff, hv'.groups.eq_document_iff]

/-- A directive that cannot be obeyed is refused for a fault of its own. -/
theorem obey_error_unique {comment : Option String} {number : UInt32} {d : Directive}
    {fault fault' : Fault} (h : r.obey comment number d = .error fault)
    (h' : r'.obey comment number d = .error fault') : fault = fault' := by
  cases d with
  | leave | close | closeNamed =>
    simp only [obey] at h h'
    split at h <;> split at h' <;> cases h <;> cases h'
    rfl
  | _ => cases h

/-- The readings come to be in parallel again, after the same findings. -/
structure Together (r r' after after' : Reading) : Prop where
  parallel : after.Parallel after'
  found : ∃ found, after.findings.toList = r.findings.toList ++ found ∧
    after'.findings.toList = r'.findings.toList ++ found

theorem Parallel.record (h : r.Parallel r') (line : Option UInt32) (fault : Fault) :
    r.Together r' (r.record line fault) (r'.record line fault) := by
  obtain ⟨o, hv, hv'⟩ := h.groups
  exact ⟨⟨h.namespaces, o, ⟨hv.groups, hv.namespaces⟩, hv'.groups, hv'.namespaces⟩,
    [⟨line, fault⟩], by simp [Reading.record], by simp [Reading.record]⟩

/-- **Lines.** A line does the same to readings in parallel. -/
theorem Parallel.step (h : r.Parallel r') (line : Line) (number : UInt32) :
    r.Together r' (r.step line number) (r'.step line number) := by
  obtain ⟨-, -, hns⟩ := step_part r line number
  obtain ⟨-, -, hns'⟩ := step_part r' line number
  have hnamespaces : (r'.step line number).namespaces = (r.step line number).namespaces := by
    rw [hns, hns', h.namespaces]
  cases hd : Directive.ofLine line with
  | error fault =>
    rw [step_of_error hd, step_of_error hd]
    exact h.record ..
  | ok d =>
    obtain ⟨o, hv, hv'⟩ := h.groups
    have hb := views_step hv hd number
    have hb' := views_step hv' hd number
    cases hn : d.role.next? o with
    | some o' =>
      rw [hn] at hb hb'
      exact ⟨⟨hnamespaces, o', hb.2, hb'.2⟩, [], by rw [hb.1, List.append_nil],
        by rw [hb'.1, List.append_nil]⟩
    | none =>
      rw [hn] at hb hb'
      obtain ⟨fault, hb⟩ := hb
      obtain ⟨fault', hb'⟩ := hb'
      have hrefused {r : Reading} {fault : Fault}
          (hb : r.step line number = r.record (some number) fault) :
          r.obey line.comment number d = .error fault := by
        rw [step_of_ok hd] at hb
        cases ho : r.obey line.comment number d with
        | ok after =>
          rw [ho] at hb
          have hfound := obey_findings ho
          rw [show after = r.record (some number) fault from hb] at hfound
          exact absurd hfound (findings_record_ne r _ fault)
        | error other =>
          rw [ho] at hb
          have hlast := congrArg (fun r => r.findings.back?) hb
          obtain rfl : other = fault := by simpa [Reading.record] using hlast
          rfl
      rw [hb, hb', obey_error_unique (hrefused hb) (hrefused hb')]
      exact h.record ..

theorem Parallel.steps (h : r.Parallel r') (lines : List (Line × UInt32)) :
    r.Together r' (r.steps lines) (r'.steps lines) := by
  induction lines generalizing r r' with
  | nil => exact ⟨h, [], (List.append_nil _).symm, (List.append_nil _).symm⟩
  | cons l rest ih =>
    obtain ⟨hfirst, found, hf, hf'⟩ := h.step l.1 l.2
    obtain ⟨hrest, more, hm, hm'⟩ := ih hfirst
    refine ⟨hrest, found ++ more, ?_, ?_⟩
    · rw [steps_cons, hm, hf, List.append_assoc]
    · rw [steps_cons, hm', hf', List.append_assoc]

theorem Parallel.unclosed (h : r.Parallel r') : r'.unclosed = r.unclosed := by
  obtain ⟨o, hv, hv'⟩ := h.groups
  have hlength : r'.scopes.length = r.scopes.length := by
    rw [hv.groups.length_eq, hv'.groups.length_eq]
  rw [Reading.unclosed, hlength, h.namespaces, Reading.unclosed]

/-- The block that lines outside of all groups are read as. -/
def block (ns : Namespaces) (lines : List (Line × UInt32)) : Outline.Block :=
  (Outline.read none (Outline.parts ns lines)).block

/-- Lines outside of all groups add to a model what their block adds to the document. -/
theorem model_steps (hs : r.scopes = [Model.document]) (lines : List (Line × UInt32)) :
    (r.steps lines).model = r.model.absorb Model.document (block r.namespaces lines) := by
  have hread := Outline.run_read none (Outline.parts r.namespaces lines) r.model r.scopes hs
  rw [Outline.rest_read_none] at hread
  rw [steps_parts, hread, hs]
  rfl

end HeaderSymbols.Reading
