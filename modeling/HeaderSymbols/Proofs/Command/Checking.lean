import HeaderSymbols.Proofs.File.Transaction

/-!
# Checking

A conversion of a file is a check of it, and then its output is published. So a run that only checks
asks the system for nothing but the input, and tells beforehand what the run that publishes will come
to, unless the publishing itself is refused.

* `Settings.FailsToPublish`: the one way in which the two runs come apart.
* `check_agrees`: a run that checks and one that publishes, on the same files.
-/
namespace HeaderSymbols

section
variable {σ : Type} [FileAccess (StateM σ)] {st : σ}

/-- The source is read and converts, and the system refuses to publish the output. -/
def Settings.FailsToPublish (s : Settings) (st : σ) : Prop :=
  ∃ source c e, (readSource (m := StateM σ) s.input st).1 = .ok source ∧
    convert s.options s.input.display source = .ok c ∧
    (publish (m := StateM σ) s.output c.output (readSource (m := StateM σ) s.input st).2).1 = .error e

/-- What cannot be published was checked. -/
theorem Settings.failsToPublish_iff {s : Settings} : s.FailsToPublish st ↔
    ∃ c e, (checkFile (m := StateM σ) s.options s.input st).1 = .ok c ∧
      (publish (m := StateM σ) s.output c.output
        (checkFile (m := StateM σ) s.options s.input st).2).1 = .error e := by
  simp only [checkFile_eq, FailsToPublish]
  cases (readSource (m := StateM σ) s.input st).1 with
  | error failure => simp [Except.bind]
  | ok source => simp [Except.bind]

/-- **Checking.** On any files, of a system that does not change them when one is read, a run that
only checks leaves all of them as they were. It comes to the same as the run that publishes,
conversion or failure, if and only if that does not fail in publishing, and there the failure is the
system's. And where the check fails the other run fails alike, and changes nothing either. -/
theorem check_agrees {Files : Type} {files : σ → Files}
    (hread : ∀ p st, files (FileAccess.read (m := StateM σ) p st).2 = files st)
    (s : Settings) (st : σ) :
    let checked := { s with check := true }.perform (m := StateM σ) st
    let published := { s with check := false }.perform (m := StateM σ) st
    files checked.2 = files st ∧
    (checked.1 = published.1 ↔ ¬ s.FailsToPublish st) ∧
    (s.FailsToPublish st → ∃ c e, checked.1 = .ok c ∧
      published.1 = .error (.ofSystem s.input.display "Error writing output file" (OsError.text e))) ∧
    ∀ failure, checked.1 = .error failure →
      published.1 = .error failure ∧ files published.2 = files st := by
  have hchecked : { s with check := true }.perform (m := StateM σ) =
      checkFile (m := StateM σ) s.options s.input := Settings.perform_of_check rfl
  have hpublished : { s with check := false }.perform (m := StateM σ) =
      convertFile (m := StateM σ) s.options s.input s.output := Settings.perform_of_not_check rfl
  have hfiles : files (checkFile (m := StateM σ) s.options s.input st).2 = files st := by
    rw [checkFile_snd]
    exact hread s.input st
  rw [hchecked, hpublished, convertFile_eq, Settings.failsToPublish_iff]
  generalize checkFile (m := StateM σ) s.options s.input st = checked at hfiles
  refine ⟨hfiles, eq_publishChecked_iff, ?refused, ?failed⟩
  case refused =>
    rintro ⟨c, e, hc, he⟩
    refine ⟨c, e, hc, ?_⟩
    rw [hc, publishChecked_ok, he]
  case failed =>
    intro failure hfailure
    rw [hfailure]
    exact ⟨rfl, hfiles⟩

end

/-- An output in a directory that is missing passes the check, and cannot be published. -/
theorem check_agrees_specimen :
    let s : Settings := ⟨.ofString "api.asm", .ofString "out.s", .standard, false, false, .text, .stderr⟩
    let astray : Settings := { s with output := .ofString "missing/out.s" }
    (∀ p (d : Disk), (FileAccess.read (m := StateM Disk) p d).2 = d) ∧
      ({ s with check := true }.perform (m := StateM Disk) specimenDisk).1 =
        ({ s with check := false }.perform (m := StateM Disk) specimenDisk).1 ∧
      ({ astray with check := true }.perform (m := StateM Disk) specimenDisk).1 ≠
        ({ astray with check := false }.perform (m := StateM Disk) specimenDisk).1 := by
  intro s astray
  have hread : ∀ p (d : Disk), id (FileAccess.read (m := StateM Disk) p d).2 = id d := fun _ _ => rfl
  have hsource : (readSource (m := StateM Disk) s.input specimenDisk).1 = .ok specimenHeader := rfl
  have hconvert := convert_specimenHeader s.options s.input.display
  obtain ⟨-, hsame, -⟩ := check_agrees hread s specimenDisk
  obtain ⟨-, hother, -⟩ := check_agrees hread astray specimenDisk
  refine ⟨hread, hsame.2 ?_, fun h => hother.1 h ?_⟩
  · rintro ⟨source, c, e, hs, hc, hp⟩
    cases hsource.symm.trans hs
    cases hconvert.symm.trans hc
    cases hp
  · exact ⟨specimenHeader, _, .notFound, hsource, hconvert, rfl⟩

end HeaderSymbols
