import HeaderSymbols.Proofs.Command.Reports
import HeaderSymbols.Proofs.File.Transaction

/-!
# Where diagnostics are told

Before anything else a run opens the place for its diagnostics, and empties the file that it is, if
it is one and is not added to. Then it converts; and the lines of a report, if there is one, go to
standard error, or behind what the file holds, or nowhere. A report is never empty, so that a file
in which a failure is told is not what it was.

* `tell_stderr`, `tell_nowhere`, `get?_tell_file`: what becomes of the lines of a report.
* `openOutlet_cases`: how the place for diagnostics is opened.
* `run_of_error`, `run_eq`: what a run comes to.
* `frame_run_of`: a run changes what its conversion and its diagnostics do.
* `log_spoils`: a failure is told in an empty file, which then is not empty.
-/
namespace HeaderSymbols

/-- The file for diagnostics, if there is to be one, can be opened. -/
def Sink.Opens (sink : Sink) (d : Disk) : Prop :=
  ∀ path append, sink = .file path append → ∃ l, d.Writable path l

/-- Diagnostics are told in the file at this place. -/
def Settings.Logs (s : Settings) (d : Disk) (l : Location) : Prop :=
  ∃ path append, s.sink = .file path append ∧ d.Writable path l

section
variable {lib : Libraries} {s : Settings} {d d₁ d₂ : Disk} {l : Location}

/-! ## Lines -/

theorem tell_stderr (lines : List String) (d : Disk) :
    Outlet.stderr.tell (m := StateM Disk) lines d = (unlines lines, d) := by
  induction lines with
  | nil => rfl
  | cons line lines ih =>
    rw [unlines_cons]
    exact congrArg (fun rest => (line ++ "\n" ++ rest.1, rest.2)) ih

theorem tell_nowhere (lines : List String) (d : Disk) :
    Outlet.nowhere.tell (m := StateM Disk) lines d = ("", d) := by
  induction lines with
  | nil => rfl
  | cons line lines ih => exact congrArg (fun rest => ("" ++ rest.1, rest.2)) ih

/-- What is told to a file is not shown. -/
theorem fst_tell_file (l : Location) (lines : List String) (d : Disk) :
    ((Outlet.file l).tell (m := StateM Disk) lines d).1 = "" := by
  induction lines generalizing d with
  | nil => rfl
  | cons line lines ih => exact (String.empty_append (s := _)).trans (ih _)

theorem frame_tell_file (hl : l ≠ []) (lines : List String) (d : Disk) :
    Disk.Frame (· = l) d ((Outlet.file l).tell (m := StateM Disk) lines d).2 := by
  induction lines generalizing d with
  | nil => exact .refl _ _
  | cons line lines ih => exact (Disk.frame_append hl _).trans (ih _)

/-- A file gets the lines that are told to it, behind what it holds. -/
theorem get?_tell_file {held : Bytes} (hl : l ≠ []) (lines : List String)
    (h : d.get? l = some (.file held)) :
    ((Outlet.file l).tell (m := StateM Disk) lines d).2.get? l =
      some (.file (held ++ Text.Utf8.encode (unlines lines))) := by
  induction lines generalizing d held with
  | nil =>
    have hnothing : Text.Utf8.encode (unlines []) = [] := rfl
    rw [hnothing, List.append_nil]
    exact h
  | cons line lines ih =>
    have hline : (d.append l (Text.Utf8.encode (line ++ "\n"))).get? l =
        some (.file (held ++ Text.Utf8.encode (line ++ "\n"))) := by
      simp only [Disk.append, h]
      rw [Disk.get?_put _ _ hl, if_pos rfl]
    rw [unlines_cons, Text.Utf8.encode_append (line ++ "\n"), ← List.append_assoc]
    exact ih hline

/-- The diagnostics are told without a file, or with one that was opened. -/
theorem openOutlet_cases (sink : Sink) (d : Disk) :
    (∃ e, sink.openOutlet (m := StateM Disk) d = (.error e, d) ∧ ¬ sink.Opens d) ∨
    (∃ outlet, sink.openOutlet (m := StateM Disk) d = (.ok outlet, d) ∧ sink.Opens d ∧
      (∀ path append, sink ≠ .file path append) ∧
      ∀ lines (d' : Disk), (outlet.tell (m := StateM Disk) lines d').2 = d') ∨
    ∃ path append l d₁, sink = .file path append ∧ d.Writable path l ∧
      sink.openOutlet (m := StateM Disk) d = (.ok (.file l), d₁) ∧
      d₁ = if append = true ∧ (d.get? l).isSome = true then d else d.put l (.file []) := by
  cases sink with
  | stderr =>
    exact .inr (.inl ⟨.stderr, rfl, nofun, nofun, fun lines d' => by rw [tell_stderr]⟩)
  | disabled =>
    exact .inr (.inl ⟨.nowhere, rfl, nofun, nofun, fun lines d' => by rw [tell_nowhere]⟩)
  | file path append =>
    cases hw : d.writable path with
    | error e =>
      refine .inl ⟨e, ?_, fun hopens => ?_⟩
      · simp only [Sink.openOutlet, bind, StateT.bind, FileAccess.openLog, Disk.openLog, hw]
        rfl
      · obtain ⟨l, hl⟩ := hopens path append rfl
        rw [← Disk.writable_eq_ok_iff, hw] at hl
        cases hl
    | ok l =>
      refine .inr (.inr ⟨path, append, l, _, rfl, Disk.writable_eq_ok_iff.1 hw, ?_, rfl⟩)
      simp only [Sink.openOutlet, bind, StateT.bind, FileAccess.openLog, Disk.openLog, hw]
      rfl

/-- A file for diagnostics that is open is the only one that was touched. -/
theorem frame_opened {path : Path} {append : Bool} (hw : d.Writable path l)
    (hd₁ : d₁ = if append = true ∧ (d.get? l).isSome = true then d else d.put l (.file [])) :
    Disk.Frame (· = l) d d₁ := by
  rw [hd₁]
  split
  · exact .refl _ _
  · exact hw.frame_put []

/-! ## Runs -/

/-- A run that cannot open its diagnostics does nothing. -/
theorem run_of_error {e : OsError}
    (h : s.sink.openOutlet (m := StateM Disk) d = (.error e, d)) :
    (s.run lib (m := StateM Disk) d).2 = d := by
  simp only [Settings.run, bind, StateT.bind, h]
  rfl

/-- What a run comes to once its diagnostics are open. -/
theorem run_eq {outlet : Outlet (FileAccess.Handle (StateM Disk))}
    (h : s.sink.openOutlet (m := StateM Disk) d = (.ok outlet, d₁)) :
    s.run lib (m := StateM Disk) d =
      match s.perform (m := StateM Disk) d₁ with
      | (.ok c, d₂) => (⟨0, if s.quiet then "" else s.summary lib c ++ "\n", ""⟩, d₂)
      | (.error failure, d₂) =>
        let told := outlet.tell (m := StateM Disk) (failure.lines lib s.format) d₂
        (⟨1, "", told.1⟩, told.2) := by
  simp only [Settings.run, bind, StateT.bind, h]
  rcases s.perform (m := StateM Disk) d₁ with ⟨_ | _, _⟩ <;> rfl

/-- A run changes what its diagnostics and, from wherever these have left the disk, its conversion
may change. -/
theorem frame_run_of {touched : Location → Prop} (hlogs : ∀ l, s.Logs d l → touched l)
    (hperform : ∀ {outlet d₁ d₂ answer}, s.sink.openOutlet (m := StateM Disk) d = (.ok outlet, d₁) →
      s.sink.Opens d → d.SameTree d₁ → s.perform (m := StateM Disk) d₁ = (answer, d₂) →
      Disk.Frame touched d₁ d₂) :
    Disk.Frame touched d (s.run lib (m := StateM Disk) d).2 := by
  rcases openOutlet_cases s.sink d with ⟨e, he, -⟩ | ⟨outlet, ho, hopens, -, htell⟩ |
    ⟨path, append, l, d₁, hs, hl, ho, hd₁⟩
  · rw [run_of_error he]
    exact .refl _ _
  · cases hp : s.perform (m := StateM Disk) d with
    | mk answer d₂ =>
      have hframe := hperform ho hopens (.refl d) hp
      rw [run_eq ho, hp]
      cases answer with
      | ok => exact hframe
      | error failure =>
        simp only [htell]
        exact hframe
  · have hlog : touched l := hlogs l ⟨path, append, hs, hl⟩
    have hopens : s.sink.Opens d := fun path' append' hs' => by
      rw [hs] at hs'
      cases hs'
      exact ⟨l, hl⟩
    have hopened := frame_opened hl hd₁
    cases hp : s.perform (m := StateM Disk) d₁ with
    | mk answer d₂ =>
      have hframe := (hopened.mono fun _ he => he ▸ hlog).trans
        (hperform ho hopens hopened.toSameTree hp)
      rw [run_eq ho, hp]
      cases answer with
      | ok => exact hframe
      | error failure =>
        exact hframe.trans ((frame_tell_file hl.leads.ne_nil _ _).mono fun _ he => he ▸ hlog)

/-- Where no diagnostics are told, a run leaves what its conversion does, begun on a disk that has the
same there. -/
theorem get?_run_of_not_logs (lib : Libraries) (hopens : s.sink.Opens d) (hlog : ¬ s.Logs d l) :
    ∃ d₁, d.SameTree d₁ ∧ d₁.get? l = d.get? l ∧
      (s.run lib (m := StateM Disk) d).2.get? l = (s.perform (m := StateM Disk) d₁).2.get? l := by
  obtain ⟨outlet, d₁, ho, htree, hget, htell⟩ : ∃ outlet d₁,
      s.sink.openOutlet (m := StateM Disk) d = (.ok outlet, d₁) ∧ d.SameTree d₁ ∧
        d₁.get? l = d.get? l ∧
        ∀ lines (d' : Disk), (outlet.tell (m := StateM Disk) lines d').2.get? l = d'.get? l := by
    rcases openOutlet_cases s.sink d with ⟨_, -, hno⟩ | ⟨outlet, ho, -, -, htell⟩ |
      ⟨path, append, l', d₁, hs, hp, ho, hd₁⟩
    · exact absurd hopens hno
    · exact ⟨outlet, d, ho, .refl d, rfl, fun lines d' => by rw [htell]⟩
    · have hne : l ≠ l' := fun he => hlog ⟨path, append, hs, he ▸ hp⟩
      have hopened := frame_opened hp hd₁
      exact ⟨.file l', d₁, ho, hopened.toSameTree, hopened.other l hne, fun lines d' =>
        (frame_tell_file hp.leads.ne_nil lines d').other l hne⟩
  refine ⟨d₁, htree, hget, ?_⟩
  cases hp : s.perform (m := StateM Disk) d₁ with
  | mk answer d₂ =>
    rw [run_eq ho, hp]
    cases answer with
    | ok => rfl
    | error failure => exact htell _ _

/-! ## Failures -/

/-- A report of a conversion is never empty. -/
theorem report_ne_nil {o : Options} {file source : String} {failure : Failure}
    (h : convert o file source = .error failure) (format : Format) :
    Text.Utf8.encode (failure.report lib format) ≠ [] := by
  have hlog {log : Log} (hlog : ¬ log.isEmpty = true) :
      Text.Utf8.encode ((Failure.ofLog log).report lib format) ≠ [] := by
    obtain ⟨file, _ | ⟨first, others⟩⟩ := log
    · exact absurd rfl hlog
    · refine Text.Utf8.encode_ne_nil ?_
      simp [Failure.report, Failure.lines, Failure.ofLog, unlines]
  unfold convert at h
  simp only at h
  split at h
  · cases h
  · cases h
    exact hlog ‹_›

/-- No output can do without the kernel's structures. -/
theorem exists_failure_of_empty (o : Options) (file : String) :
    ∃ failure, convert o file "" = .error failure := by
  have hreading : Reading.ofLines (Line.ofSource "") = .start := rfl
  have hmissing {key : String} (e : Emitter) (name : String) :
      (e.named .empty name key 0).2 = e.clear.report none (.missingStructure key) := rfl
  have hfindings : (Emitter.ofModel .empty).findings.toList ≠ [] := by
    simp only [Emitter.ofModel, Emitter.trailers, trailers, List.foldl_cons, List.foldl_nil,
      hmissing]
    simp [Emitter.report]
  unfold convert
  simp only [hreading]
  split
  · rename_i hlog
    have hlaid : (Emitter.ofModel .empty).findings = #[] :=
      ((Log.isEmpty_ofFindings _ _ _).1 hlog).2
    exact absurd (congrArg Array.toList hlaid) hfindings
  · exact ⟨_, rfl⟩

theorem disk_checkFile (o : Options) (input : Path) (d : Disk) :
    (checkFile (m := StateM Disk) o input d).2 = d := by
  rw [checkFile_snd]
  rfl

/-- A check leaves the disk as it is. -/
theorem disk_perform_of_check {answer : Except Failure Conversion} (hc : s.check = true)
    (h : s.perform (m := StateM Disk) d = (answer, d₁)) : d₁ = d := by
  rw [Settings.perform_of_check hc] at h
  have hsame := disk_checkFile s.options s.input d
  rwa [h] at hsame

theorem readSource_eq (input : Path) (d : Disk) : readSource (m := StateM Disk) input d =
    (match d.read input with
      | .error e => .error (.ofSystem input.display "Error reading input file" e.text)
      | .ok bytes =>
        match Text.Utf8.decode? bytes with
        | some text => .ok text
        | none => .error (.ofSystem input.display "Error reading input file"
            "stream did not contain valid UTF-8"), d) := by
  simp only [readSource, bind, StateT.bind, FileAccess.read]
  cases d.read input with
  | error => rfl
  | ok bytes =>
    cases hd : Text.Utf8.decode? bytes with
    | none => simp only [hd]; rfl
    | some => simp only [hd]; rfl

theorem readSource_of_get? {input : Path} {content : Bytes} {text : String}
    (hl : d.Writable input l) (hget : d.get? l = some (.file content))
    (htext : Text.Utf8.decode? content = some text) :
    readSource (m := StateM Disk) input d = (.ok text, d) := by
  rw [readSource_eq, Disk.read_of_get? hl hget]
  simp only [htext]

/-- The report of a conversion that did not come about is never empty. -/
theorem report_unconverted_ne_nil {o : Options} {input : Path} {failure : Failure}
    (h : Unconverted o input (readSource (m := StateM Disk) input d).1 failure) (format : Format) :
    Text.Utf8.encode (failure.report lib format) ≠ [] := by
  rcases h with hread | ⟨text, -, hconvert⟩
  · have hsystem (reason : String) : Text.Utf8.encode
        ((Failure.ofSystem input.display "Error reading input file" reason).report lib
          format) ≠ [] := by
      refine Text.Utf8.encode_ne_nil ?_
      simp [Failure.report, Failure.lines, Failure.ofSystem, unlines]
    rw [readSource_eq] at hread
    split at hread
    · cases hread
      exact hsystem _
    · split at hread
      · cases hread
      · cases hread
        exact hsystem _
  · exact report_ne_nil hconvert format

/-- An input that is missing or empty is never converted. -/
theorem exists_unconverted (o : Options) {input : Path}
    (hinput : ∀ l, d.Writable input l → d.get? l = some (.file [])) :
    ∃ failure, Unconverted o input (readSource (m := StateM Disk) input d).1 failure := by
  obtain ⟨failure, hfailure⟩ := exists_failure_of_empty o input.display
  cases hfile : d.file input with
  | error e =>
    rw [readSource_eq, Disk.read, hfile]
    exact ⟨_, .inl rfl⟩
  | ok found =>
    obtain ⟨l, content⟩ := found
    have hl := (Disk.file_eq_ok_iff.1 hfile).1
    rw [readSource_of_get? hl (hinput l hl) (show Text.Utf8.decode? [] = some "" from rfl)]
    exact ⟨failure, .inr ⟨"", rfl, hfailure⟩⟩

theorem perform_of_unconverted {failure : Failure}
    (h : Unconverted s.options s.input (readSource (m := StateM Disk) s.input d).1 failure) :
    s.perform (m := StateM Disk) d = (.error failure, d) := by
  have hchecked : (checkFile (m := StateM Disk) s.options s.input d).1 = .error failure := by
    rcases h with hread | ⟨text, hread, hconvert⟩
    · rw [checkFile_eq, hread]
      rfl
    · rw [checkFile_fst_of_read hread, hconvert]
  rw [Settings.perform_of_checkFile_eq_error hchecked, disk_checkFile]

/-- A file in which the diagnostics of a failure are told gets to hold them. -/
theorem log_spoils (lib : Libraries) (hlog : s.Logs d l) (hl : d.get? l = some (.file []))
    (hinput : ∀ l, d.Writable s.input l → d.get? l = some (.file [])) :
    (s.run lib (m := StateM Disk) d).1.status ≠ 0 ∧
      (s.run lib (m := StateM Disk) d).2.get? l ≠ some (.file []) := by
  obtain ⟨path, append, hs, hp⟩ := hlog
  rcases openOutlet_cases s.sink d with ⟨_, -, hopens⟩ | ⟨_, -, -, hno, -⟩ |
    ⟨path', append', l', d₁, hs', hp', ho, hd₁⟩
  · exact absurd (fun _ _ hs' => by rw [hs] at hs'; cases hs'; exact ⟨l, hp⟩) hopens
  · exact absurd hs (hno path append)
  · rw [hs] at hs'
    cases hs'
    obtain rfl : l' = l := hp'.leads.unique hp.leads
    -- opening an empty file, in whatever way, leaves each location with what it has
    have hget (l : Location) : d₁.get? l = d.get? l := by
      rw [hd₁]
      split
      · rfl
      · rw [Disk.get?_put _ _ hp.leads.ne_nil]
        split
        · rename_i he
          rw [he, hl]
        · rfl
    have htree := (frame_opened hp hd₁).toSameTree
    have hempty (l : Location) (hw : d₁.Writable s.input l) : d₁.get? l = some (.file []) :=
      (hget l).trans (hinput l (htree.writable_iff.1 hw))
    obtain ⟨failure, hfailure⟩ := exists_unconverted s.options hempty
    have hperform := perform_of_unconverted hfailure
    have htold := get?_tell_file hp.leads.ne_nil (failure.lines lib s.format) ((hget l').trans hl)
    rw [run_eq ho, hperform]
    refine ⟨(by decide : (1 : UInt32) ≠ 0), fun hsame => ?_⟩
    have hnothing := htold.symm.trans hsame
    simp only [Option.some.injEq, Entry.file.injEq] at hnothing
    exact report_unconverted_ne_nil hfailure s.format hnothing

end

end HeaderSymbols
