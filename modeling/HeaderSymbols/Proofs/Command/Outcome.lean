import HeaderSymbols.Proofs.Command.Performance

/-!
# How a run comes out

A run succeeds or fails as its conversion would without a file for diagnostics, if that file is none
of those that the conversion reads or writes. What it has to report of a failure it tells to one
place; and it has the same to report wherever that is. Only where the file for diagnostics was
missing, and a path of the conversion goes through its place, the system gives another reason.

* `outcome_run`: how a run comes out, in terms of its conversion and of how it is told.
* `outcome_of_unlogged`, `outcome_of_logs`: how it comes out without and with a file for diagnostics.
* `outcome_reported`: how every command that is accepted comes out.
-/
namespace HeaderSymbols

open Disk (Opened)

/-- What the file for diagnostics at this place has before anything is told in it. -/
def Sink.kept : Sink → Disk → Location → Bytes
  | .file _ true, d, l =>
    match d.get? l with
    | some (.file old) => old
    | _ => []
  | _, _, _ => []

/-- A path of the conversion goes through the place at which the file for diagnostics is missing. -/
def Settings.Blocked (s : Settings) (d : Disk) : Prop :=
  ∃ l, s.Logs d l ∧ ∃ p ∈ s.paths, d.Blocks l p

/-- The text is told on standard error, or at the end of the file for diagnostics, or nowhere; and
nothing is changed but that file and what the conversion changes. -/
structure Settings.Tells (s : Settings) (d : Disk) (text stderr : String) (d' : Disk) : Prop where
  stderr : stderr = if s.sink = .stderr then text else ""
  log : ∀ l, s.Logs d l → d'.get? l = some (.file (s.sink.kept d l ++ Text.Utf8.encode text))
  other : ∀ l, ¬ s.Logs d l → d'.get? l = (s.perform (m := StateM Disk) d).2.get? l

/-- What comes of a run on a disk, in terms of what comes of the conversion alone. -/
structure Settings.Outcome (lib : Libraries) (s : Settings) (d : Disk) (exit : Exit) (d' : Disk) :
    Prop where
  status : exit.status = 0 ↔ ∃ c, s.Succeeds d c
  success : ∀ c, s.Succeeds d c →
    exit.stdout = (if s.quiet then "" else s.summary lib c ++ "\n") ∧ s.Tells d "" exit.stderr d'
  failure : ∀ failure, (s.perform (m := StateM Disk) d).1 = .error failure →
    exit.stdout = "" ∧ ∃ told, Failure.Restated s.input.display (s.Blocked d) failure told ∧
      s.Tells d (told.report lib s.format) exit.stderr d' ∧
      (Single s.input.display → told.diagnostics ≠ [] ∧
        IsLines (told.report lib s.format) (told.lines lib s.format))
  unconverted : ∀ source failure, (readSource (m := StateM Disk) s.input d).1 = .ok source →
    convert s.options s.input.display source = .error failure →
      s.Tells d (failure.report lib s.format) exit.stderr d'

section
variable {lib : Libraries} {s : Settings} {d d₁ d₂ : Disk} {l : Location}

/-- It is enough that the conversion comes out as it would have before the diagnostics were open,
and that they are told as they should be. -/
theorem outcome_run (hlib : lib.Escapes) {outlet : Outlet (FileAccess.Handle (StateM Disk))}
    (h : s.sink.openOutlet (m := StateM Disk) d = (.ok outlet, d₁))
    (hperform : Agree (Failure.Restated s.input.display (s.Blocked d)) Eq
      (s.perform (m := StateM Disk) d).1 (s.perform (m := StateM Disk) d₁).1)
    (hunconverted : ∀ source failure, (readSource (m := StateM Disk) s.input d).1 = .ok source →
      convert s.options s.input.display source = .error failure →
        (s.perform (m := StateM Disk) d₁).1 = .error failure)
    (hsilent : s.Tells d "" "" (s.perform (m := StateM Disk) d₁).2)
    (htells : ∀ lines,
      let told := outlet.tell (m := StateM Disk) lines (s.perform (m := StateM Disk) d₁).2
      s.Tells d (unlines lines) told.1 told.2) :
    s.Outcome lib d (s.run lib (m := StateM Disk) d).1 (s.run lib (m := StateM Disk) d).2 := by
  have hreportable {failure : Failure} (hfile : Single s.input.display)
      (h : (s.perform (m := StateM Disk) d₁).1 = .error failure) : failure.Reportable :=
    reportable_of_perform hfile h
  rw [run_eq h]
  generalize s.perform (m := StateM Disk) d₁ = performed at *
  obtain ⟨answer, d₂⟩ := performed
  generalize hx : (s.perform (m := StateM Disk) d).1 = x at hperform
  cases hperform with
  | @ok c _ hc =>
    subst hc
    constructor
    case status => exact ⟨fun _ => ⟨c, perform_eq_ok_iff.1 hx⟩, fun _ => rfl⟩
    case success =>
      intro c' hc'
      cases hx.symm.trans (perform_eq_ok_iff.2 hc')
      exact ⟨rfl, hsilent⟩
    case failure =>
      intro failure hf
      cases hx.symm.trans hf
    case unconverted =>
      intro source failure hread hconvert
      cases hunconverted source failure hread hconvert
  | @error failure told hrestated =>
    have hfails (c : Conversion) : ¬ s.Succeeds d c := fun hc => by
      cases hx.symm.trans (perform_eq_ok_iff.2 hc)
    constructor
    case status =>
      have hone : (1 : UInt32) ≠ 0 := by decide
      exact ⟨fun h => absurd h hone, fun ⟨c, hc⟩ => absurd hc (hfails c)⟩
    case success => exact fun c hc => absurd hc (hfails c)
    case failure =>
      intro failure' hf
      cases hx.symm.trans hf
      refine ⟨rfl, told, hrestated, htells _, fun hfile => ?_⟩
      have htold := hreportable hfile rfl
      exact ⟨htold.diagnosed, htold.isLines_report hlib _⟩
    case unconverted =>
      intro source failure' hread hconvert
      cases hunconverted source failure' hread hconvert
      exact htells _

/-- A file for diagnostics that is open is there, with what it keeps. -/
theorem opened_of_openOutlet {path : Path} {append : Bool} (hs : s.sink = .file path append)
    (hw : d.Writable path l)
    (hd₁ : d₁ = if append = true ∧ (d.get? l).isSome = true then d else d.put l (.file [])) :
    Opened l d d₁ ∧ d₁.get? l = some (.file (s.sink.kept d l)) := by
  have hthere : d₁.get? l = some (.file (s.sink.kept d l)) := by
    rw [hd₁, hs]
    cases append with
    | false =>
      rw [if_neg (by simp), Disk.get?_put _ _ hw.leads.ne_nil, if_pos rfl]
      rfl
    | true =>
      cases hget : d.get? l with
      | none =>
        rw [if_neg (by simp), Disk.get?_put _ _ hw.leads.ne_nil, if_pos rfl]
        simp only [Sink.kept, hget]
      | some entry =>
        cases entry with
        | directory => exact absurd hget hw.not_directory
        | file old =>
          rw [if_pos (by simp), hget]
          simp only [Sink.kept, hget]
  exact ⟨⟨frame_opened hw hd₁, _, hthere⟩, hthere⟩

theorem outcome_of_unlogged (hlib : lib.Escapes) (outlet : Outlet (FileAccess.Handle (StateM Disk)))
    (ho : s.sink.openOutlet (m := StateM Disk) d = (.ok outlet, d))
    (hno : ∀ path append, s.sink ≠ .file path append)
    (htell : ∀ lines (d' : Disk), outlet.tell (m := StateM Disk) lines d' =
      (if s.sink = .stderr then unlines lines else "", d')) :
    s.Outcome lib d (s.run lib (m := StateM Disk) d).1 (s.run lib (m := StateM Disk) d).2 := by
  have hlogs (l : Location) : ¬ s.Logs d l := fun ⟨path, append, hs, _⟩ => hno path append hs
  have htells (text : String) : s.Tells d text (if s.sink = .stderr then text else "")
      (s.perform (m := StateM Disk) d).2 :=
    ⟨rfl, fun l hl => absurd hl (hlogs l), fun _ _ => rfl⟩
  refine outcome_run hlib ho ?_ (fun source failure hread hconvert => ?_) ?_ fun lines => ?_
  · generalize (s.perform (m := StateM Disk) d).1 = answer
    cases answer with
    | ok => exact .ok rfl
    | error => exact .error (.same _)
  · rw [perform_eq, hread]
    simp only [hconvert]
  · simpa only [ite_self] using htells ""
  · simp only [htell]
    exact htells (unlines lines)

theorem outcome_of_logs (hlib : lib.Escapes) {path : Path} {append : Bool}
    (hs : s.sink = .file path append) (hw : d.Writable path l) (ho : s.sink.openOutlet (m := StateM Disk) d = (.ok (.file l), d₁))
    (hd₁ : d₁ = if append = true ∧ (d.get? l).isSome = true then d else d.put l (.file []))
    (hapart : ∀ p ∈ s.paths, ¬ d.Leads p l) :
    s.Outcome lib d (s.run lib (m := StateM Disk) d).1 (s.run lib (m := StateM Disk) d).2 := by
  obtain ⟨hopened, hkept⟩ := opened_of_openOutlet hs hw hd₁
  have hlogs (l' : Location) : s.Logs d l' ↔ l' = l := by
    constructor
    · rintro ⟨path', append', hs', hw'⟩
      rw [hs] at hs'
      cases hs'
      exact hw'.leads.unique hw.leads
    · rintro rfl
      exact ⟨path, append, hs, hw⟩
  obtain ⟨hanswers, hdisks⟩ := agree_perform hopened hapart
  -- the conversion leaves the file for diagnostics alone
  have htold : (s.perform (m := StateM Disk) d₁).2.get? l = some (.file (s.sink.kept d l)) := by
    refine Eq.trans ((frame_perform rfl).other l ?_) hkept
    rintro ⟨-, hl | ⟨-, hl⟩⟩
    · exact hapart s.output.staging (by simp [Settings.paths]) (hopened.leads_iff.1 hl.leads)
    · exact hapart s.output (by simp [Settings.paths]) (hopened.leads_iff.1 hl.leads)
  have htells {text : String} {d' : Disk}
      (hlog : d'.get? l = some (.file (s.sink.kept d l ++ Text.Utf8.encode text)))
      (hother : ∀ l', l' ≠ l → d'.get? l' = (s.perform (m := StateM Disk) d₁).2.get? l') :
      s.Tells d text "" d' := by
    refine ⟨by simp [hs], fun l' hl' => ?_, fun l' hl' => ?_⟩
    · rwa [(hlogs l').1 hl']
    · have hne := mt (hlogs l').2 hl'
      exact (hother l' hne).trans (hdisks.other l' hne)
  refine outcome_run hlib ho (hanswers.mono (·.mono fun hb => ⟨l, (hlogs l).2 rfl, hb⟩))
    (fun source failure => perform_of_opened hopened (hapart s.input (.head _)))
    (htells ?_ fun _ _ => rfl) fun lines => ?_
  · rw [htold, show Text.Utf8.encode "" = [] from rfl, List.append_nil]
  · change s.Tells d (unlines lines) ((Outlet.file l).tell (m := StateM Disk) lines _).1 _
    rw [fst_tell_file]
    exact htells (get?_tell_file hw.leads.ne_nil lines htold)
      (frame_tell_file hw.leads.ne_nil lines _).other

/-- A run that can open its diagnostics comes out as the conversion alone does. -/
theorem outcome_of_opens (hlib : lib.Escapes) (hopens : s.sink.Opens d)
    (hapart : ∀ l, s.Logs d l → ∀ p ∈ s.paths, ¬ d.Leads p l) :
    s.Outcome lib d (s.run lib (m := StateM Disk) d).1 (s.run lib (m := StateM Disk) d).2 := by
  cases hs : s.sink with
  | stderr =>
    refine outcome_of_unlogged hlib .stderr (by rw [hs]; rfl) (by simp [hs]) fun lines d' => ?_
    rw [if_pos hs, tell_stderr]
  | disabled =>
    refine outcome_of_unlogged hlib .nowhere (by rw [hs]; rfl) (by simp [hs]) fun lines d' => ?_
    rw [if_neg (by simp [hs]), tell_nowhere]
  | file path append =>
    rcases openOutlet_cases s.sink d with ⟨_, -, hno⟩ | ⟨_, -, -, hno, -⟩ |
      ⟨path', append', l, d₁, hs', hw, ho, hd₁⟩
    · exact absurd hopens hno
    · exact absurd hs (hno path append)
    · exact outcome_of_logs hlib hs' hw ho hd₁ (hapart l ⟨path', append', hs', hw⟩)

end

/-- **Outcome.** A command that is accepted, whose file for diagnostics can be opened and is none of
the files that the conversion reads and writes, has the status 0 exactly if the conversion succeeds,
which it does or does not as it would without a file for diagnostics. A success is summed up, unless
the run is to be quiet, and nothing is told. What there is to tell of a failure is told on standard
error, at the end of the file or nowhere, and is the same in each case, but for the system's reason
where a path goes through the place at which the file was missing. It has one line for each
diagnostic, in their order, and in text form another for the summary; and a conversion that fails
has as its diagnostics all that was found in its source, and their number in its summary. Of the
library that writes JSON text it is asked that control characters are escaped. -/
theorem outcome_reported {lib : Libraries} {words : List Bytes} {env : Environment}
    {arguments : Arguments} {s : Settings} {d : Disk} (hlib : lib.Escapes)
    (hread : lib.arguments words = .ok arguments)
    (hresolve : Settings.resolve arguments env = .ok s) (hopens : s.sink.Opens d)
    (hapart : ∀ l, s.Logs d l → ∀ p ∈ s.paths, ¬ d.Leads p l) :
    (∃ exit d', lib.program (m := StateM Disk) words env d = (.ok exit, d') ∧
      s.Outcome lib d exit d') ∧
    ∀ file source failure, Single file → convert s.options file source = .error failure →
      failure.diagnostics ≠ [] ∧
      failure.diagnostics = (foundIn source).map (fun f => ⟨file, f.line, f.fault.problem⟩) ∧
      IsLines (failure.report lib .json) (failure.diagnostics.map (·.report lib .json)) ∧
      IsLines (failure.report lib .text) (failure.diagnostics.map (·.report lib .text) ++
        ["Conversion failed with " ++ toString failure.diagnostics.length ++ " error(s)"]) := by
  refine ⟨⟨_, _, program_eq hread hresolve d, outcome_of_opens hlib hopens hapart⟩,
    fun file source failure hfile h => ?_⟩
  obtain ⟨hne, rfl⟩ := eq_ofFindings_of_convert h
  have hreportable := reportable_ofFindings hfile hne (single_foundIn source)
  rw [← Failure.summary_ofLog, ← Failure.lines_text, ← Failure.lines_json]
  exact ⟨hreportable.diagnosed, diagnostics_ofFindings file _, hreportable.isLines_report hlib .json,
    hreportable.isLines_report hlib .text⟩

/-- An output in a directory that is missing is refused, and a file tells of it. -/
theorem outcome_reported_specimen :
    let words := [Text.Utf8.encode "api.asm", Text.Utf8.encode "-o", Text.Utf8.encode "d/out.s",
      Text.Utf8.encode "-E", Text.Utf8.encode "log.txt"]
    Libraries.standard.Escapes ∧
    ∃ arguments s, Arguments.read words = .ok arguments ∧
      Settings.resolve arguments (fun _ => none) = .ok s ∧ s.sink.Opens specimenDisk ∧
      (∀ l, s.Logs specimenDisk l → ∀ p ∈ s.paths, ¬ specimenDisk.Leads p l) ∧
      ∃ exit d', program (m := StateM Disk) words (fun _ => none) specimenDisk = (.ok exit, d') ∧
        s.Outcome .standard specimenDisk exit d' := by
  intro words
  let arguments : Arguments :=
    { Arguments.none with
      input := some (.ofString "api.asm")
      outfile := some (.ofString "d/out.s")
      error := some (.ofString "log.txt") }
  let s : Settings := ⟨.ofString "api.asm", .ofString "d/out.s", .standard, false, false, .text,
    .file (.ofString "log.txt") false⟩
  have hread : Libraries.standard.arguments words = .ok arguments := rfl
  have hresolve : Settings.resolve arguments (fun _ => none) = .ok s :=
    eq_ok_of_toOption (by decide +kernel)
  have hlog : specimenDisk.Writable (.ofString "log.txt") [Text.Utf8.encode "log.txt"] :=
    ⟨rfl, by decide, by decide, rfl⟩
  have hopens : s.sink.Opens specimenDisk := fun _ _ hs => by
    cases hs
    exact ⟨_, hlog⟩
  have hapart : ∀ l, s.Logs specimenDisk l → ∀ p ∈ s.paths, ¬ specimenDisk.Leads p l := by
    have helsewhere : ∀ p ∈ s.paths,
        (specimenDisk.follow p).toOption ≠ some (.entry [Text.Utf8.encode "log.txt"]) := by
      decide +kernel
    rintro l ⟨_, _, hs, hw⟩ p hp hl
    cases hs
    obtain rfl := hw.leads.unique hlog.leads
    exact helsewhere p hp (congrArg Except.toOption hl)
  exact ⟨escapes_standard, arguments, s, hread, hresolve, hopens, hapart,
    (outcome_reported escapes_standard hread hresolve hopens hapart).1⟩

/-- Standard error and a file are not told the same of that output, where the file is the very thing
that stands in the place of the directory. -/
theorem exists_outcome_unlike :
    let words := [Text.Utf8.encode "api.asm", Text.Utf8.encode "-o", Text.Utf8.encode "d/out.s"]
    let logging := words ++ [Text.Utf8.encode "-E", Text.Utf8.encode "d"]
    let env : Environment := fun _ => none
    ∃ arguments s l,
      Arguments.read logging = .ok arguments ∧ Settings.resolve arguments env = .ok s ∧
      (∃ arguments, Arguments.read words = .ok arguments ∧
        Settings.resolve arguments env = .ok { s with sink := .stderr }) ∧
      s.sink.Opens specimenDisk ∧ s.Logs specimenDisk l ∧
      (∀ p ∈ s.paths, ¬ specimenDisk.Leads p l) ∧
      ∃ exit exit' d d', program (m := StateM Disk) words env specimenDisk = (.ok exit, d) ∧
        program (m := StateM Disk) logging env specimenDisk = (.ok exit', d') ∧
        d'.get? l ≠ some (.file (Text.Utf8.encode exit.stderr)) := by
  intro words logging env
  let arguments : Arguments :=
    { Arguments.none with
      input := some (.ofString "api.asm")
      outfile := some (.ofString "d/out.s") }
  let s : Settings := ⟨.ofString "api.asm", .ofString "d/out.s", .standard, false, false, .text,
    .file (.ofString "d") false⟩
  let l : Location := [Text.Utf8.encode "d"]
  have hread : Libraries.standard.arguments words = .ok arguments := rfl
  have hresolve : Settings.resolve arguments env = .ok { s with sink := .stderr } :=
    eq_ok_of_toOption (by decide +kernel)
  have hread' : Libraries.standard.arguments logging =
      .ok { arguments with error := some (.ofString "d") } := rfl
  have hresolve' : Settings.resolve { arguments with error := some (.ofString "d") } env = .ok s :=
    eq_ok_of_toOption (by decide +kernel)
  have hlog : specimenDisk.Writable (.ofString "d") l := ⟨rfl, by decide, by decide, rfl⟩
  have hapart : ∀ p ∈ s.paths, (specimenDisk.follow p).toOption ≠ some (.entry l) := by
    decide +kernel
  have hconverts := convert_specimenHeader .standard s.input.display
  refine ⟨_, s, l, hread', hresolve', ⟨_, hread, hresolve⟩, fun _ _ hs => ?_,
    ⟨_, _, rfl, hlog⟩, fun p hp hl => hapart p hp (congrArg Except.toOption hl),
    _, _, _, _, program_eq hread hresolve _, program_eq hread' hresolve' _, ?_⟩
  · cases hs
    exact ⟨l, hlog⟩
  · have hstderr : Sink.stderr.openOutlet (m := StateM Disk) specimenDisk =
        (.ok .stderr, specimenDisk) := rfl
    have hfile : s.sink.openOutlet (m := StateM Disk) specimenDisk =
        (.ok (.file l), specimenDisk.put l (.file [])) := rfl
    rw [run_eq (s := { s with sink := .stderr }) hstderr, run_eq hfile,
      perform_of_publish_error (s := { s with sink := .stderr }) rfl rfl hconverts rfl,
      perform_of_publish_error (s := s) rfl rfl hconverts rfl]
    decide +kernel

end HeaderSymbols
