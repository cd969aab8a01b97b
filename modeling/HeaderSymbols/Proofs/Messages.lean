import HeaderSymbols.Proofs.Findings
import HeaderSymbols.Proofs.Source.Single

/-!
# Messages on one line

A fault that quotes its source quotes a line of it, a word, or a name made of words, and each of
these is on one line. So the message of whatever is found in a source is on one line as well.

* `eq_of_ofLine_eq_error`: what is quoted of a line that asks for nothing.
* `single_findings_step`, `single_findings_steps`: what is found by reading.
* `Item.Blames.single`: what is found in a layout.
* `single_foundIn`: so both, for every source.
-/
namespace HeaderSymbols

/-- The message is on one line. -/
def Fault.Single (fault : Fault) : Prop := HeaderSymbols.Single fault.message

instance (fault : Fault) : Decidable fault.Single :=
  inferInstanceAs (Decidable (HeaderSymbols.Single fault.message))

theorem Line.single_text_of_mem_ofSource {source : String} {line : Line}
    (h : line ∈ ofSource source) : HeaderSymbols.Single line.text := by
  obtain ⟨raw, hraw, rfl⟩ := List.mem_map.1 h
  intro hn
  have hmem : '\n' ∈ Text.trimEnd raw := by simpa [ofChars, HeaderSymbols.Single] using hn
  exact Text.not_newline_of_mem_splitLines hraw ((Text.trimEnd_prefix raw).subset hmem)

/-! ## Reading -/

namespace Directive

theorem eq_of_number_map_eq_error {α : Type} {text : String} {f : UInt64 → α} {fault : Fault}
    (h : (number text).map f = .error fault) : fault = .invalidNumber text := by
  unfold number at h
  split at h
  · cases h
  · cases h
    rfl

theorem eq_of_operand_map_eq_error {α : Type} {text : String} {f : Operand → α} {fault : Fault}
    (h : (operand text).map f = .error fault) : fault = .invalidNumber text := by
  unfold operand at h
  split at h
  · cases hn : number text with
    | ok n => rw [hn] at h; cases h
    | error fault' =>
      rw [hn] at h
      cases h
      exact eq_of_number_map_eq_error (f := id) (by rw [hn]; rfl)
  · cases h

theorem exists_of_ofPair_eq_error {first second : String} {fault : Fault}
    (h : ofPair first second = some (.error fault)) :
    ∃ w ∈ [first, second], fault = .invalidNumber w := by
  unfold ofPair at h
  split at h
  · cases h
  split at h
  · exact ⟨second, by simp, eq_of_number_map_eq_error (Option.some.inj h)⟩
  split at h
  · cases h
  split at h
  · cases h
  split at h
  · exact ⟨second, by simp, eq_of_number_map_eq_error (Option.some.inj h)⟩
  split at h <;> cases h

theorem exists_of_ofTriple_eq_error {name keyword argument : String} {fault : Fault}
    (h : ofTriple name keyword argument = some (.error fault)) :
    ∃ w ∈ [name, keyword, argument], fault = .invalidNumber w := by
  unfold ofTriple at h
  split at h
  · exact ⟨argument, by simp, eq_of_operand_map_eq_error (Option.some.inj h)⟩
  split at h
  · cases h
  split at h
  · cases h
  split at h
  · cases h
  split at h
  · exact ⟨argument, by simp, eq_of_number_map_eq_error (Option.some.inj h)⟩
  split at h <;> cases h

/-- A line that asks for nothing is quoted, or a word of it that is no number. -/
theorem eq_of_ofLine_eq_error {line : Line} {fault : Fault} (h : ofLine line = .error fault) :
    fault = .unrecognizedLine line.text ∨ ∃ w ∈ line.words, fault = .invalidNumber w := by
  unfold ofLine at h
  cases hw : ofWords? line.words with
  | none =>
    rw [hw] at h
    cases h
    exact .inl rfl
  | some answer =>
    rw [hw] at h
    obtain rfl : answer = .error fault := h
    right
    generalize line.words = words at hw
    unfold ofWords? at hw
    split at hw
    · cases hw
    · rename_i word
      cases hl : alone.lookup word with
      | none => rw [hl] at hw; cases hw
      | some d => rw [hl] at hw; cases hw
    · exact exists_of_ofPair_eq_error hw
    · exact exists_of_ofTriple_eq_error hw
    · cases hw

theorem single_of_ofLine_eq_error {line : Line} (hl : line.Single)
    (ht : HeaderSymbols.Single line.text) {fault : Fault} (h : ofLine line = .error fault) :
    fault.Single := by
  rcases eq_of_ofLine_eq_error h with rfl | ⟨w, hw, rfl⟩
  · exact ((show HeaderSymbols.Single "unrecognized line '" by decide).append ht).append (by decide)
  · exact ((show HeaderSymbols.Single "invalid number '" by decide).append (hl.words w hw)).append
      (by decide)

end Directive

namespace Reading

variable {r : Reading} {line : Line} {number : UInt32}

/-- What cannot be obeyed is not quoted. -/
theorem single_of_obey_eq_error {comment : Option String} {d : Directive} {fault : Fault}
    (h : r.obey comment number d = .error fault) : fault.Single := by
  have hclose (kind : GroupKind) : (closeFault kind).Single := by
    cases kind <;> decide
  cases d with
  | leave | closeNamed =>
    simp only [obey] at h
    split at h
    · cases h
      decide
    · cases h
  | close kind =>
    simp only [obey] at h
    split at h
    · cases h
      exact hclose kind
    · cases h
  | _ => cases h

theorem forall_findings_record {P : Finding → Prop} (h : ∀ f ∈ r.findings, P f)
    {line : Option UInt32} {fault : Fault} (hf : P ⟨line, fault⟩) :
    ∀ f ∈ (r.record line fault).findings, P f := by
  intro f hmem
  rcases Array.mem_push.1 hmem with hmem | rfl
  · exact h f hmem
  · exact hf

theorem single_findings_step (hl : line.Single) (ht : HeaderSymbols.Single line.text)
    (h : ∀ f ∈ r.findings, f.fault.Single) :
    ∀ f ∈ (r.step line number).findings, f.fault.Single := by
  cases hd : Directive.ofLine line with
  | error fault =>
    rw [step_of_error hd]
    exact forall_findings_record h (Directive.single_of_ofLine_eq_error hl ht hd)
  | ok d =>
    rw [step_of_ok hd]
    cases ho : r.obey line.comment number d with
    | ok after => exact obey_findings ho ▸ h
    | error fault => exact forall_findings_record h (single_of_obey_eq_error ho)

theorem single_findings_steps {lines : List (Line × UInt32)}
    (hl : ∀ l ∈ lines, l.1.Single ∧ HeaderSymbols.Single l.1.text)
    (h : ∀ f ∈ r.findings, f.fault.Single) : ∀ f ∈ (r.steps lines).findings, f.fault.Single := by
  induction lines generalizing r with
  | nil => exact h
  | cons l rest ih =>
    obtain ⟨⟨hline, htext⟩, hrest⟩ := List.forall_mem_cons.1 hl
    exact ih hrest (single_findings_step hline htext h)

/-- What is left open at the end of a source is not quoted. -/
theorem single_findings_finish (h : ∀ f ∈ r.findings, f.fault.Single) :
    ∀ f ∈ r.finish.findings, f.fault.Single := by
  have hunclosed : ∀ fault ∈ r.unclosed, fault.Single := by
    intro fault hf
    rcases List.mem_append.1 hf with hf | hf <;> split at hf
    · cases hf
    · rw [List.mem_singleton.1 hf]
      decide
    · cases hf
    · rw [List.mem_singleton.1 hf]
      decide
  intro f hf
  rw [finish_eq] at hf
  rcases Array.mem_append.1 hf with hf | hf
  · exact h f hf
  · obtain ⟨fault, hfault, rfl⟩ := List.mem_map.1 (List.mem_toArray.1 hf)
    exact hunclosed fault hfault

theorem single_findings_ofLines (source : String) :
    ∀ f ∈ (ofLines (Line.ofSource source)).findings, f.fault.Single := by
  refine single_findings_finish (single_findings_steps (fun l hl => ?_) (by simp [start]))
  have hmem : l.1 ∈ Line.ofSource source :=
    numbered_fst (Line.ofSource source) ▸ List.mem_map_of_mem hl
  exact ⟨Line.single_of_mem_ofSource hmem, Line.single_text_of_mem_ofSource hmem⟩

end Reading

/-! ## Layout -/

/-- What is wrong with an item quotes the name of its structure, if anything. -/
theorem Item.Blames.single {m : Model} {i : Item} {f : Finding} (h : i.Blames m f) (hi : i.Single)
    (hsized : ∀ mem, i = .member mem → mem.layout = none → ∃ size, mem.size = some size) :
    f.fault.Single := by
  cases h with
  | skipOutside => exact (by decide : Fault.skipOutsideRegion.Single)
  | skipTooFar | fieldTooFar => exact (by decide : Fault.addressOverflow.Single)
  | memberOutside => exact (by decide : Fault.memberOutsideRegion.Single)
  | unsized plain unsized =>
    obtain ⟨size, hsize⟩ := hsized _ rfl plain
    cases unsized.symm.trans hsize
  | unknown layout nowhere =>
    exact ((show HeaderSymbols.Single "unknown struct '" by decide).append
      (hi.2.2 _ layout)).append (by decide)
  | recursive layout =>
    exact ((show HeaderSymbols.Single "recursive struct '" by decide).append
      (hi.2.2 _ layout)).append (by decide)

theorem single_findings_layoutOf (source : String) :
    ∀ f ∈ (layoutOf source).findings, f.fault.Single := by
  intro f hf
  have hforest := Reading.forest_steps (Reading.numbered (Line.ofSource source))
  have hitems := Reading.single_members source
  rw [layoutOf] at hf
  rw [Reading.ofLines, Reading.finish_model] at hf hitems
  rcases Emitter.blames_ofModel hforest.wellNested f hf with ⟨t, ht, rfl⟩ | ⟨id, i, hi, hblames⟩
  · simp only [trailers, List.mem_cons, List.not_mem_nil, or_false] at ht
    rcases ht with rfl | rfl <;> decide
  · exact hblames.single (hitems id i hi) fun mem hmem => hforest.exists_size (hmem ▸ hi)

/-- **Messages.** Whatever is found in a source, when it is read or when it is laid out, is said on
one line. -/
theorem single_foundIn (source : String) : ∀ f ∈ foundIn source, f.fault.Single := by
  intro f hf
  rw [foundIn, Array.toList_append, List.mem_append, Array.mem_toList_iff, Array.mem_toList_iff]
    at hf
  exact hf.elim (Reading.single_findings_ofLines source f) (single_findings_layoutOf source f)

end HeaderSymbols
