import HeaderSymbols.Command.Session

/-!
# The stages of a conversion

A file is read, what is read is converted, and the output is published. A check goes as far as the
second of these; so a conversion of a file is a check of it, and then its output is published. All of
this holds on any system, whatever it answers.

* `Settings.perform_of_check`, `Settings.perform_of_not_check`: what a run does with its input.
* `readSource_snd`, `checkFile_eq`, `checkFile_snd`: a check asks the system for its input only, and is
  told by that.
* `convertFile_eq_checkFile_bind`, `convertFile_eq`: a conversion is a check and what is left to do
  after it.
* `Settings.perform_of_checkFile_eq_error`, `publishChecked_ok`, `eq_publishChecked_iff`: what that
  comes to.
-/
namespace HeaderSymbols

section
variable {m : Type → Type} [Monad m] [FileAccess m]

theorem Settings.perform_of_check {s : Settings} (h : s.check = true) :
    s.perform (m := m) = checkFile s.options s.input := by rw [perform, h, if_pos rfl]

theorem Settings.perform_of_not_check {s : Settings} (h : s.check = false) :
    s.perform (m := m) = convertFile s.options s.input s.output := by
  rw [perform, h, if_neg Bool.false_ne_true]

/-- What is left to do once a conversion was checked. -/
def publishChecked (input output : Path) :
    Except Failure Conversion → m (Except Failure Conversion)
  | .error failure => return .error failure
  | .ok c => do
    match ← publish output c.output with
    | .error e => return .error (.ofSystem input.display "Error writing output file" e.text)
    | .ok () => return .ok c

/-- A conversion of a file is a check of it, and then its output is published. -/
theorem convertFile_eq_checkFile_bind [LawfulMonad m] (o : Options) (input output : Path) :
    convertFile (m := m) o input output = checkFile o input >>= publishChecked input output := by
  unfold convertFile checkFile
  rw [bind_assoc]
  congr 1
  funext read
  cases read with
  | error failure => rw [pure_bind]; rfl
  | ok source =>
    rw [pure_bind]
    dsimp only
    cases convert o input.display source <;> rfl

end

section
variable {σ : Type} [FileAccess (StateM σ)] {st : σ} {input output : Path}

theorem readSource_snd (input : Path) (st : σ) :
    (readSource (m := StateM σ) input st).2 = (FileAccess.read (m := StateM σ) input st).2 := by
  simp only [readSource, bind, StateT.bind]
  rcases FileAccess.read (m := StateM σ) input st with ⟨e | bytes, st₁⟩
  · rfl
  · cases hd : Text.Utf8.decode? bytes with
    | none => simp only [hd]; rfl
    | some source => simp only [hd]; rfl

/-- A check is told by what is read. -/
theorem checkFile_eq (o : Options) (input : Path) (st : σ) :
    checkFile (m := StateM σ) o input st =
      ((readSource (m := StateM σ) input st).1.bind (convert o input.display),
        (readSource (m := StateM σ) input st).2) := by
  simp only [checkFile, bind, StateT.bind]
  rcases readSource (m := StateM σ) input st with ⟨failure | source, st₁⟩
  · rfl
  · simp only [Except.bind]
    rfl

theorem checkFile_fst_of_read {o : Options} {source : String}
    (h : (readSource (m := StateM σ) input st).1 = .ok source) :
    (checkFile (m := StateM σ) o input st).1 = convert o input.display source := by
  rw [checkFile_eq, h]
  simp only [Except.bind]

/-- All that a check asks of the system is its input. -/
theorem checkFile_snd (o : Options) (input : Path) (st : σ) :
    (checkFile (m := StateM σ) o input st).2 = (FileAccess.read (m := StateM σ) input st).2 := by
  rw [checkFile_eq, readSource_snd]

theorem convertFile_eq (o : Options) (input output : Path) (st : σ) :
    convertFile (m := StateM σ) o input output st =
      publishChecked (m := StateM σ) input output (checkFile (m := StateM σ) o input st).1
        (checkFile (m := StateM σ) o input st).2 := by
  rw [convertFile_eq_checkFile_bind]
  rfl

/-- What does not pass the check ends a run, of either kind. -/
theorem Settings.perform_of_checkFile_eq_error {s : Settings} {failure : Failure}
    (h : (checkFile (m := StateM σ) s.options s.input st).1 = .error failure) :
    s.perform (m := StateM σ) st =
      (.error failure, (checkFile (m := StateM σ) s.options s.input st).2) := by
  cases hc : s.check with
  | true =>
    rw [perform_of_check hc, ← h]
    rfl
  | false =>
    rw [perform_of_not_check hc, convertFile_eq, h]
    rfl

/-- What was checked is published, or the system refuses. -/
theorem publishChecked_ok (input output : Path) (c : Conversion) (st : σ) :
    publishChecked (m := StateM σ) input output (.ok c) st =
      (match (publish (m := StateM σ) output c.output st).1 with
        | .error e => .error (.ofSystem input.display "Error writing output file" e.text)
        | .ok () => .ok c, (publish (m := StateM σ) output c.output st).2) := by
  simp only [publishChecked, bind, StateT.bind]
  rcases publish (m := StateM σ) output c.output st with ⟨_ | _, st₁⟩ <;> rfl

/-- Only where the system refuses does it come to anything else. -/
theorem eq_publishChecked_iff {answer : Except Failure Conversion} :
    answer = (publishChecked (m := StateM σ) input output answer st).1 ↔
      ¬ ∃ c e, answer = .ok c ∧ (publish (m := StateM σ) output c.output st).1 = .error e := by
  cases answer with
  | error failure =>
    refine ⟨fun _ ⟨c, e, hc, _⟩ => ?_, fun _ => rfl⟩
    cases hc
  | ok c =>
    rw [publishChecked_ok]
    cases hp : (publish (m := StateM σ) output c.output st).1 <;> simp [hp]

end

end HeaderSymbols
