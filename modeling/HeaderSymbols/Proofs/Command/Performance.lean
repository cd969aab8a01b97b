import HeaderSymbols.Proofs.Command.Output
import HeaderSymbols.Proofs.Command.Reports
import HeaderSymbols.Proofs.File.Opened

/-!
# What a conversion comes to

A conversion of a file reads it, converts what it reads and publishes the output, and ends at the
first of these that fails. It comes to the same once a file for diagnostics was opened that it
neither reads nor writes; only where the file was missing, and a path goes through its place, the
system gives another reason. What it has to report of a failure is said in lines.

* `perform_eq`, `perform_eq_ok_iff`: what a conversion comes to, and when it succeeds.
* `agree_perform`: what it comes to once a file for diagnostics was opened.
* `worded_file`, `worded_publish`: what the system says.
* `reportable_of_perform`: what there is to report of a failure.
-/
namespace HeaderSymbols

open Disk (Opened)

/-! ## Conversions -/

/-- The paths that a conversion reads and writes. -/
def Settings.paths (s : Settings) : List Path := [s.input, s.output.staging, s.output]

/-- The input is read and converted, and the output is published unless it is only checked. -/
structure Settings.Succeeds (s : Settings) (d : Disk) (c : Conversion) : Prop where
  converts : ∃ source, (readSource (m := StateM Disk) s.input d).1 = .ok source ∧
    convert s.options s.input.display source = .ok c
  publishes : s.check = false → (publish (m := StateM Disk) s.output c.output d).1 = .ok ()

section
variable {s : Settings} {d d₁ : Disk}

/-- The steps of a conversion. -/
theorem perform_eq (s : Settings) (d : Disk) :
    s.perform (m := StateM Disk) d =
      match (readSource (m := StateM Disk) s.input d).1 with
      | .error failure => (.error failure, d)
      | .ok source =>
        match convert s.options s.input.display source with
        | .error failure => (.error failure, d)
        | .ok c =>
          if s.check then (.ok c, d)
          else
            match publish (m := StateM Disk) s.output c.output d with
            | (.error e, d₁) =>
              (.error (.ofSystem s.input.display "Error writing output file" e.text), d₁)
            | (.ok (), d₁) => (.ok c, d₁) := by
  have hchecked : checkFile (m := StateM Disk) s.options s.input d =
      ((readSource (m := StateM Disk) s.input d).1.bind (convert s.options s.input.display), d) := by
    rw [checkFile_eq, readSource_snd]
    rfl
  cases hc : s.check with
  | true =>
    rw [Settings.perform_of_check hc, hchecked]
    cases (readSource (m := StateM Disk) s.input d).1 with
    | error => rfl
    | ok source =>
      simp only [Except.bind, if_true]
      cases convert s.options s.input.display source <;> rfl
  | false =>
    rw [Settings.perform_of_not_check hc, convertFile_eq, hchecked]
    cases (readSource (m := StateM Disk) s.input d).1 with
    | error => rfl
    | ok source =>
      simp only [Except.bind, Bool.false_eq_true, if_false]
      cases convert s.options s.input.display source with
      | error => rfl
      | ok c =>
        simp only [publishChecked_ok]
        rcases publish (m := StateM Disk) s.output c.output d with ⟨_ | _, _⟩ <;> rfl

theorem perform_eq_ok_iff {c : Conversion} :
    (s.perform (m := StateM Disk) d).1 = .ok c ↔ s.Succeeds d c := by
  rw [perform_eq]
  constructor
  · intro h
    split at h
    · cases h
    · rename_i source hread
      split at h
      · cases h
      · rename_i c' hc
        split at h
        · rename_i hcheck
          cases h
          exact ⟨⟨source, hread, hc⟩, fun hno => by rw [hcheck] at hno; cases hno⟩
        · split at h
          · cases h
          · rename_i hp
            cases h
            exact ⟨⟨source, hread, hc⟩, fun _ => congrArg Prod.fst hp⟩
  · rintro ⟨⟨source, hread, hc⟩, hpublish⟩
    simp only [hread, hc]
    cases hcheck : s.check with
    | true => rfl
    | false =>
      have hp := hpublish hcheck
      rw [if_neg Bool.false_ne_true]
      generalize publish (m := StateM Disk) s.output c.output d = published at hp
      obtain ⟨answer, d₁⟩ := published
      cases hp
      rfl

theorem perform_of_publish_error {source : String} {c : Conversion} {e : OsError}
    (hcheck : s.check = false)
    (hread : (readSource (m := StateM Disk) s.input d).1 = .ok source)
    (hconvert : convert s.options s.input.display source = .ok c)
    (hpublish : publish (m := StateM Disk) s.output c.output d = (.error e, d₁)) :
    s.perform (m := StateM Disk) d =
      (.error (.ofSystem s.input.display "Error writing output file" e.text), d₁) := by
  rw [perform_eq, hread]
  simp only [hconvert, hcheck, Bool.false_eq_true, if_false, hpublish]

end

/-! ## After a file was opened -/

/-- The failure is the same, or the system's reason for it is that what was missing on the way is no
directory now. -/
inductive Failure.Restated (file : String) (blocked : Prop) : Failure → Failure → Prop where
  | same (failure : Failure) : Restated file blocked failure failure
  | blocked (task : String) (h : blocked) :
    Restated file blocked (.ofSystem file task OsError.notFound.text)
      (.ofSystem file task OsError.notDirectory.text)

theorem Failure.Restated.mono {file : String} {blocked blocked' : Prop} {f f' : Failure}
    (h : Failure.Restated file blocked f f') (hb : blocked → blocked') :
    Failure.Restated file blocked' f f' := by
  cases h with
  | same => exact .same f
  | blocked task h => exact .blocked task (hb h)

theorem OsError.Restated.failure {blocked : Prop} {e e' : OsError}
    (h : OsError.Restated blocked e e') (file task : String) :
    Failure.Restated file blocked (.ofSystem file task e.text) (.ofSystem file task e'.text) := by
  cases h with
  | same => exact .same _
  | blocked h => exact .blocked task h

section
variable {s : Settings} {d d' : Disk} {l : Location}

theorem agree_readSource (h : Opened l d d') {input : Path} (hp : ¬ d.Leads input l) :
    Agree (Failure.Restated input.display (d.Blocks l input)) Eq
      (readSource (m := StateM Disk) input d).1 (readSource (m := StateM Disk) input d').1 := by
  have hread := h.agree_read hp
  rw [readSource_eq, readSource_eq]
  generalize d.read input = x at hread
  generalize d'.read input = y at hread
  cases hread with
  | error he => exact .error (he.failure _ _)
  | ok h =>
    cases h
    simp only
    split
    · exact .ok rfl
    · exact .error (.same _)

/-- A conversion comes out as it would have before the file for diagnostics was opened. -/
theorem agree_perform (h : Opened l d d') (hapart : ∀ p ∈ s.paths, ¬ d.Leads p l) :
    Agree (Failure.Restated s.input.display (∃ p ∈ s.paths, d.Blocks l p)) Eq
        (s.perform (m := StateM Disk) d).1 (s.perform (m := StateM Disk) d').1 ∧
      Opened l (s.perform (m := StateM Disk) d).2 (s.perform (m := StateM Disk) d').2 := by
  obtain ⟨hinput, houtputs⟩ := List.forall_mem_cons.1 hapart
  have hread := (agree_readSource h hinput).mono
    (·.mono fun hb => (⟨s.input, .head _, hb⟩ : ∃ p ∈ s.paths, d.Blocks l p))
  rw [perform_eq, perform_eq]
  generalize (readSource (m := StateM Disk) s.input d).1 = x at hread
  generalize (readSource (m := StateM Disk) s.input d').1 = y at hread
  cases hread with
  | error he => exact ⟨.error he, h⟩
  | ok hsource =>
    cases hsource
    simp only
    split
    · exact ⟨.error (.same _), h⟩
    · rename_i c _
      split
      · exact ⟨.ok rfl, h⟩
      · obtain ⟨hanswers, hdisks⟩ := tandem_publish h houtputs c.output
        generalize publish (m := StateM Disk) s.output c.output d = x at hanswers hdisks
        generalize publish (m := StateM Disk) s.output c.output d' = y at hanswers hdisks
        obtain ⟨answer, d₁⟩ := x
        obtain ⟨answer', d₁'⟩ := y
        cases hanswers with
        | ok => exact ⟨.ok rfl, hdisks⟩
        | error he =>
          exact ⟨.error ((he.failure _ _).mono fun ⟨p, hp, hb⟩ => ⟨p, .tail _ hp, hb⟩), hdisks⟩

/-- A source that is read and not converted is read alike, and fails in the same way. -/
theorem perform_of_opened (h : Opened l d d') (hp : ¬ d.Leads s.input l) {source : String}
    {failure : Failure} (hread : (readSource (m := StateM Disk) s.input d).1 = .ok source)
    (hconvert : convert s.options s.input.display source = .error failure) :
    (s.perform (m := StateM Disk) d').1 = .error failure := by
  have hagree := agree_readSource h hp
  rw [hread] at hagree
  rw [perform_eq]
  generalize (readSource (m := StateM Disk) s.input d').1 = y at hagree
  cases hagree with
  | ok hsource =>
    cases hsource
    simp only [hconvert]

end

/-! ## What there is to report -/

theorem OsError.single_text {e : OsError} (h : Single e.description) : Single e.text :=
  ((h.append (by decide)).append (single_toString _)).append (by decide)

/-- A refusal has its reason on one line. -/
def Worded {α : Type} (answer : Except OsError α) : Prop :=
  ∀ e, answer = .error e → Single e.description

namespace Worded

theorem ok {α : Type} (a : α) : Worded (.ok a) := nofun

theorem error {α : Type} {e : OsError} (h : Single e.description) : Worded (.error e : Except OsError α) :=
  fun _ he => Except.error.inj he ▸ h

theorem bind {α β : Type} {x : Except OsError α} {f : α → Except OsError β} (h : Worded x)
    (hf : ∀ a, Worded (f a)) : Worded (x >>= f) := by
  cases x with
  | ok a => exact hf a
  | error e => exact .error (h e rfl)

theorem map {α β : Type} {x : Except OsError α} {f : α → β} (h : Worded x) : Worded (x.map f) := by
  cases x with
  | ok a => exact .ok _
  | error e => exact .error (h e rfl)

end Worded

namespace Disk

variable {d : Disk} {p q : Path}

theorem worded_find (d : Disk) (l : Location) : Worded (d.find l) := by
  unfold find
  split
  · exact .error (by decide)
  · exact .ok _

theorem worded_descend (d : Disk) (l : Location) (name : Path.Name) :
    Worded (d.descend l name) := by
  unfold descend
  split
  · exact .ok _
  split
  · exact .ok _
  split
  · rename_i e he
    exact .error (worded_find d _ e he)
  · exact .error (by decide)
  · exact .error (by decide)
  · exact .ok _

theorem worded_follow (d : Disk) (p : Path) : Worded (d.follow p) := by
  have hdescend (names : List Path.Name) (l : Location) : Worded (names.foldlM d.descend l) := by
    induction names generalizing l with
    | nil => exact .ok l
    | cons name rest ih =>
      rw [List.foldlM_cons]
      exact (worded_descend d l name).bind ih
  unfold follow
  split
  · exact .error (by decide)
  split
  · exact .error (by decide)
  split
  · rename_i e he
    exact .error (hdescend _ _ e he)
  · split <;> exact .ok _

theorem worded_file (d : Disk) (p : Path) : Worded (d.file p) := by
  unfold file
  split
  · rename_i e he
    exact .error (worded_follow d p e he)
  · exact .error (by decide)
  · split
    · rename_i e he
      exact .error (worded_find d _ e he)
    · exact .error (by decide)
    · exact .error (by decide)
    · split
      · exact .error (by decide)
      · exact .ok _

theorem worded_writable (d : Disk) (p : Path) : Worded (d.writable p) := by
  unfold writable
  split
  · rename_i e he
    exact .error (worded_follow d p e he)
  · exact .error (by decide)
  · split
    · exact .error (by decide)
    · split
      · rename_i e he
        exact .error (worded_find d _ e he)
      · exact .error (by decide)
      · exact .ok _

theorem worded_movable (d : Disk) (p : Path) : Worded (d.movable p) := by
  unfold movable
  split
  · rename_i e he
    exact .error (worded_follow d p e he)
  · exact .error (by decide)
  · split
    · rename_i e he
      exact .error (worded_find d _ e he)
    · split
      · exact .error (by decide)
      split
      · exact .error (by decide)
      · exact .ok _

theorem worded_read (d : Disk) (p : Path) : Worded (d.read p) := (worded_file d p).map

theorem worded_write (d : Disk) (p : Path) (content : Bytes) : Worded (d.write p content) :=
  (worded_writable d p).map

theorem worded_move (d : Disk) (p q : Path) : Worded (d.move p q) :=
  (worded_file d p).bind fun _ => (worded_movable d q).bind fun _ => .ok _

theorem worded_request (act : Disk → Except OsError Disk) (h : Worded (act d)) :
    Worded (request act d).1 := by
  unfold request
  split
  · exact .ok _
  · rename_i e he
    exact .error (h e he)

end Disk

section
variable {s : Settings} {d d₁ d₂ : Disk} {failure : Failure}

theorem worded_publish (output : Path) (text : String) (d : Disk) :
    Worded (publish (m := StateM Disk) output text d).1 := by
  have hwrite := Disk.worded_request (·.write output.staging (Text.Utf8.encode text))
    (Disk.worded_write d output.staging _)
  rw [publish_eq]
  split
  · rename_i e d₁ he
    exact .error (hwrite e (congrArg Prod.fst he))
  · rename_i d₁ _
    have hmove := Disk.worded_request (·.move output.staging output)
      (Disk.worded_move d₁ output.staging output)
    split
    · rename_i e d₂ he
      exact .error (hmove e (congrArg Prod.fst he))
    · exact .ok ()

theorem reportable_ofSystem {file task reason : String} (hfile : Single file) (htask : Single task)
    (hreason : Single reason) : (Failure.ofSystem file task reason).Reportable where
  diagnosed := List.cons_ne_nil _ _
  diagnostics d hd := by
    rw [List.mem_singleton.1 hd]
    exact ⟨hfile, (htask.append (by decide)).append hreason⟩
  summary := (htask.append (by decide)).append hreason

/-- A conversion that fails has at least one diagnostic to report, and each on one line. -/
theorem reportable_of_perform (hfile : Single s.input.display)
    (h : (s.perform (m := StateM Disk) d).1 = .error failure) : failure.Reportable := by
  rw [perform_eq] at h
  split at h
  · -- the input cannot be read
    rename_i hread
    cases h
    simp only [readSource_eq] at hread
    split at hread
    · rename_i e he
      cases hread
      exact reportable_ofSystem hfile (by decide)
        (OsError.single_text (Disk.worded_read d s.input e he))
    · split at hread
      · cases hread
      · cases hread
        exact reportable_ofSystem hfile (by decide) (by decide)
  · rename_i source _
    split at h
    · -- the source does not convert
      rename_i hconvert
      cases h
      obtain ⟨hne, rfl⟩ := eq_ofFindings_of_convert hconvert
      exact reportable_ofFindings hfile hne (single_foundIn source)
    · rename_i c _
      split at h
      · cases h
      · -- the output cannot be published
        split at h
        · rename_i e d₁ he
          cases h
          exact reportable_ofSystem hfile (by decide)
            (OsError.single_text (worded_publish s.output c.output d e (congrArg Prod.fst he)))
        · cases h

end

end HeaderSymbols
