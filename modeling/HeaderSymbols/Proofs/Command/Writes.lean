import HeaderSymbols.Proofs.Command.Telling

/-!
# What a run writes

A run writes the file for its diagnostics and, unless it only checks, the file beside its output
and the output. It changes nothing else on the disk; and what it writes it does not spare, whatever
it was.

* `frame_run`: a run changes only what it writes.
* `exists_destroyed`: a source that is written is not the same after every run.
* `source_kept_iff`: so a command keeps its source, whatever the source is, exactly if the source is
  none of the files that it writes.
-/
namespace HeaderSymbols

/-- The places that a run writes. Nothing is published where diagnostics cannot be told, and an
output only where the file beside it can be written. -/
inductive Settings.Writes (s : Settings) (d : Disk) : Location → Prop where
  | log {path append l} (named : s.sink = .file path append) (there : d.Writable path l) :
    Writes s d l
  | staging {l} (opens : s.sink.Opens d) (publishes : s.check = false)
      (there : d.Writable s.output.staging l) : Writes s d l
  | output {beside l} (opens : s.sink.Opens d) (publishes : s.check = false)
      (staged : d.Writable s.output.staging beside) (there : d.Writable s.output l) : Writes s d l

namespace Settings

variable {s : Settings} {d d₁ d₂ : Disk} {l : Location}

theorem Writes.of_sameTree (h : d.SameTree d₁) (hw : s.Writes d l) : s.Writes d₁ l := by
  have hopens : s.sink.Opens d → s.sink.Opens d₁ := fun ho path append hs =>
    (ho path append hs).imp fun _ => h.writable_iff.2
  cases hw with
  | log named there => exact .log named (h.writable_iff.2 there)
  | staging opens publishes there =>
    exact .staging (hopens opens) publishes (h.writable_iff.2 there)
  | output opens publishes staged there =>
    exact .output (hopens opens) publishes (h.writable_iff.2 staged) (h.writable_iff.2 there)

end Settings

section
variable {d d₁ d₂ : Disk} {l : Location}

/-! ## What is touched -/

theorem frame_publish {output : Path} {text : String} {answer : Except OsError Unit}
    (h : publish (m := StateM Disk) output text d = (answer, d₁)) :
    Disk.Frame (fun l => d.Writable output.staging l ∨
      (∃ beside, d.Writable output.staging beside) ∧ d.Writable output l) d d₁ := by
  cases answer with
  | error e => exact (publish_error faithful_disk h).1.mono fun _ => .inl
  | ok =>
    have hframe := (publish_ok faithful_disk h).2.2
    rcases publish_cases h with ⟨_, _, _, _, _, he⟩ | ⟨_, _, _, _, _, _, _, he⟩ | ⟨_, hwrite, -⟩
    · cases he
    · cases he
    · obtain ⟨beside, hb, -⟩ := staged_of_write faithful_disk hwrite
      exact hframe.mono fun l hl => hl.symm.imp id fun ho => ⟨⟨beside, hb⟩, ho⟩

theorem frame_perform {s : Settings} {answer : Except Failure Conversion}
    (h : s.perform (m := StateM Disk) d = (answer, d₁)) :
    Disk.Frame (fun l => s.check = false ∧ (d.Writable s.output.staging l ∨
      (∃ beside, d.Writable s.output.staging beside) ∧ d.Writable s.output l)) d d₁ := by
  cases hc : s.check with
  | true =>
    obtain rfl : d₁ = d := disk_perform_of_check hc h
    exact .refl _ _
  | false =>
    rw [Settings.perform_of_not_check hc] at h
    cases hread : readSource (m := StateM Disk) s.input d with
    | mk read d₂ =>
      obtain rfl : d₂ = d := disk_readSource faithful_disk hread
      rcases convertFile_cases hread h with ⟨_, -, -, rfl⟩ | ⟨_, _, _, -, -, hp, -⟩
      · exact .refl _ _
      · exact (frame_publish hp).mono fun _ hl => ⟨rfl, hl⟩

/-- **Footprint.** A run changes only what it writes. -/
theorem frame_run (lib : Libraries) (s : Settings) (d : Disk) :
    Disk.Frame (s.Writes d) d (s.run lib (m := StateM Disk) d).2 := by
  refine frame_run_of (fun l ⟨path, append, hs, hl⟩ => .log hs hl) fun _ hopens htree hp => ?_
  refine (frame_perform hp).mono fun l ⟨hcheck, hl⟩ => ?_
  simp only [htree.writable_iff] at hl
  rcases hl with hl | ⟨⟨beside, hb⟩, hl⟩
  · exact .staging hopens hcheck hl
  · exact .output hopens hcheck hb hl

/-! ## What is not spared -/

theorem write_of_writable {p : Path} (h : d.Writable p l) (content : Bytes) :
    FileAccess.write (m := StateM Disk) p content d = (.ok (), d.put l (.file content)) := by
  show Disk.request (·.write p content) d = _
  simp only [Disk.request, Disk.write_eq_ok_iff.2 ⟨l, h, rfl⟩]

/-- Nothing is left beside an output, whether it could be published or not. -/
theorem publish_staging {output : Path} {text : String} {answer : Except OsError Unit}
    (hl : d.Writable output.staging l)
    (h : publish (m := StateM Disk) output text d = (answer, d₁)) : d₁.get? l = none := by
  rcases publish_cases h with ⟨_, _, _, hwrite, -⟩ | ⟨_, _, _, _, hwrite, hmove, hremove, -⟩ |
    ⟨_, -, -, rfl⟩
  · rw [write_of_writable hl] at hwrite
    cases hwrite
  · exact (withdrawn faithful_disk hwrite hmove hremove).2 l hl.leads
  · obtain ⟨-, hgone, hframe⟩ := publish_ok faithful_disk h
    exact Disk.get?_of_read_eq_notFound (hframe.writable_iff.2 hl) hgone

/-- An output is published where the file beside it and the output can be written. -/
theorem publish_output {output : Path} {text : String} {answer : Except OsError Unit}
    {beside : Location} (hb : d.Writable output.staging beside) (hl : d.Writable output l)
    (h : publish (m := StateM Disk) output text d = (answer, d₁)) :
    d₁.get? l = some (.file (Text.Utf8.encode text)) := by
  have hstage := hb.frame_put (Text.Utf8.encode text)
  rcases publish_cases h with ⟨_, _, _, hwrite, -⟩ | ⟨_, _, _, _, hwrite, hmove, -⟩ | ⟨_, -, -, rfl⟩
  · rw [write_of_writable hb] at hwrite
    cases hwrite
  · rw [write_of_writable hb] at hwrite
    cases hwrite
    have hget := Disk.get?_put d (.file (Text.Utf8.encode text)) hb.leads.ne_nil beside
    rw [if_pos rfl] at hget
    have hmoves := Disk.move_eq_ok_iff.2
      ⟨beside, l, _, hstage.writable_iff.2 hb, hget, hstage.writable_iff.2 hl, rfl⟩
    simp only [FileAccess.move, Disk.request, hmoves] at hmove
    cases hmove
  · obtain ⟨hread, -, hframe⟩ := publish_ok faithful_disk h
    exact Disk.get?_of_read_eq_ok (hframe.writable_iff.2 hl) hread

theorem perform_of_ok {s : Settings} {text : String} {c : Conversion} (hcheck : s.check = false)
    (hread : readSource (m := StateM Disk) s.input d = (.ok text, d))
    (h : convert s.options s.input.display text = .ok c) :
    (s.perform (m := StateM Disk) d).2 = (publish (m := StateM Disk) s.output c.output d).2 := by
  have hchecked : (checkFile (m := StateM Disk) s.options s.input d).1 = .ok c := by
    rw [checkFile_fst_of_read (congrArg Prod.fst hread), h]
  rw [Settings.perform_of_not_check hcheck, convertFile_eq, hchecked, publishChecked_ok,
    disk_checkFile]

/-- An output begins with a comment, and that header does not. -/
theorem prologue_ne_specimenHeader (o : Options) :
    Text.Utf8.encode o.prologue ≠ Text.Utf8.encode specimenHeader := by
  have hmark : (Text.Utf8.encode o.prologue).head? = some 0x3B := by
    unfold Options.prologue
    iterate 12 refine Text.Utf8.head?_encode_append ?_
    decide
  have hletter : (Text.Utf8.encode specimenHeader).head? = some 0x6B := by decide
  intro hsame
  rw [hsame, hletter] at hmark
  cases hmark

/-- A source that converts is gone, or is the output, where it is the file beside the output or the
output, and no diagnostics are told in it. -/
theorem publish_destroys (lib : Libraries) {s : Settings} (hl : d.Writable s.input l)
    (hget : d.get? l = some (.file (Text.Utf8.encode specimenHeader)))
    (hlog : ¬ s.Logs d l) (hopens : s.sink.Opens d) (hcheck : s.check = false)
    (hpublished : d.Writable s.output.staging l ∨
      (∃ beside, d.Writable s.output.staging beside) ∧ d.Writable s.output l) :
    (s.run lib (m := StateM Disk) d).2.get? l ≠ some (.file (Text.Utf8.encode specimenHeader)) := by
  obtain ⟨d₁, htree, hsame, hrun⟩ := get?_run_of_not_logs lib hopens hlog
  have hread := readSource_of_get? (htree.writable_iff.2 hl) (hsame.trans hget)
    (show Text.Utf8.decode? _ = some specimenHeader from rfl)
  have hperform := perform_of_ok hcheck hread (convert_specimenHeader s.options s.input.display)
  rw [hrun, hperform]
  simp only [← htree.writable_iff] at hpublished
  cases hp : publish (m := StateM Disk) s.output s.options.prologue d₁ with
  | mk published d₂ =>
    rcases hpublished with hstaging | ⟨⟨beside, hb⟩, houtput⟩
    · rw [publish_staging hstaging hp]
      exact nofun
    · rw [publish_output hb houtput hp]
      intro hsame
      simp only [Option.some.injEq, Entry.file.injEq] at hsame
      exact prologue_ne_specimenHeader s.options hsame

end

namespace Settings

/-- A source that is written is not spared, whatever stands in it. -/
theorem exists_destroyed (lib : Libraries) {s : Settings} {d : Disk} {l : Location} (hl : d.Writable s.input l)
    (hw : s.Writes d l) : ∃ content,
      (s.run lib (m := StateM Disk) (d.put l (.file content))).2.get? l ≠ some (.file content) := by
  have hput (content : Bytes) : (d.put l (.file content)).get? l = some (.file content) := by
    rw [Disk.get?_put _ _ hl.leads.ne_nil, if_pos rfl]
  have htree (content : Bytes) := (hl.frame_put content).toSameTree
  by_cases hlog : s.Logs d l
  · obtain ⟨path, append, hs, hp⟩ := hlog
    refine ⟨[], (log_spoils lib ⟨path, append, hs, (htree []).writable_iff.2 hp⟩ (hput [])
      fun l' hl' => ?_).2⟩
    obtain rfl := ((htree []).writable_iff.1 hl').leads.unique hl.leads
    exact hput []
  · refine ⟨Text.Utf8.encode specimenHeader, ?_⟩
    have htree := htree (Text.Utf8.encode specimenHeader)
    have hlog : ¬ s.Logs (d.put l (.file (Text.Utf8.encode specimenHeader))) l :=
      fun ⟨path, append, hs, hp⟩ => hlog ⟨path, append, hs, htree.writable_iff.1 hp⟩
    have hdestroys := publish_destroys lib (htree.writable_iff.2 hl) (hput _) hlog
    cases hw.of_sameTree htree with
    | log named there => exact absurd ⟨_, _, named, there⟩ hlog
    | staging opens publishes there => exact hdestroys opens publishes (.inl there)
    | output opens publishes staged there =>
      exact hdestroys opens publishes (.inr ⟨⟨_, staged⟩, there⟩)

end Settings

/-- A command that is accepted is run by its settings. -/
theorem program_eq {lib : Libraries} {words : List Bytes} {env : Environment}
    {arguments : Arguments} {s : Settings} (hread : lib.arguments words = .ok arguments)
    (hresolve : Settings.resolve arguments env = .ok s) (d : Disk) :
    lib.program (m := StateM Disk) words env d =
      (.ok (s.run lib (m := StateM Disk) d).1, (s.run lib (m := StateM Disk) d).2) := by
  simp only [Libraries.program, hread, hresolve, bind, StateT.bind]
  rfl

/-- **The source.** A command that is accepted keeps its source, whatever the source holds and
however the run ends, if and only if the source is none of the files that the run writes: not the
file for diagnostics and, unless the run only checks, neither the output nor the file beside it.
The settings tell these apart by their spelling only, so that an output may be the source. How
commands are read, and JSON text is written, makes no difference. -/
theorem source_kept_iff {lib : Libraries} {words : List Bytes} {env : Environment}
    {arguments : Arguments} {s : Settings} {d : Disk} {l : Location} {held : Bytes}
    (hread : lib.arguments words = .ok arguments)
    (hresolve : Settings.resolve arguments env = .ok s) (hsource : d.file s.input = .ok (l, held)) :
    (∀ content, (lib.program (m := StateM Disk) words env (d.put l (.file content))).2.get? l =
      some (.file content)) ↔ ¬ s.Writes d l := by
  have hl := (Disk.file_eq_ok_iff.1 hsource).1
  simp only [program_eq hread hresolve]
  constructor
  · intro hkept hw
    obtain ⟨content, hdestroyed⟩ := Settings.exists_destroyed lib hl hw
    exact hdestroyed (hkept content)
  · intro hw content
    have htree := (hl.frame_put content).toSameTree
    have hframe := frame_run lib s (d.put l (.file content))
    rw [hframe.other l fun hw₀ => hw (hw₀.of_sameTree htree.symm),
      Disk.get?_put _ _ hl.leads.ne_nil, if_pos rfl]

/-- An output that is spelled differently is accepted, and is the source. -/
theorem source_kept_iff_specimen :
    let words := [Text.Utf8.encode "api.asm", Text.Utf8.encode "-o", Text.Utf8.encode "./api.asm"]
    let env : Environment := fun _ => none
    ∃ arguments s l, Arguments.read words = .ok arguments ∧
      Settings.resolve arguments env = .ok s ∧
      specimenDisk.file s.input = .ok (l, Text.Utf8.encode specimenHeader) ∧
      ∃ content,
        (program (m := StateM Disk) words env (specimenDisk.put l (.file content))).2.get? l ≠
          some (.file content) := by
  intro words env
  let arguments : Arguments :=
    { Arguments.none with
      input := some (.ofString "api.asm")
      outfile := some (.ofString "./api.asm") }
  let s : Settings :=
    ⟨.ofString "api.asm", .ofString "./api.asm", .standard, false, false, .text, .stderr⟩
  have hread : Libraries.standard.arguments words = .ok arguments := rfl
  have hresolve : Settings.resolve arguments env = .ok s :=
    eq_ok_of_toOption (by decide +kernel)
  have hsource : specimenDisk.file s.input =
      .ok ([Text.Utf8.encode "api.asm"], Text.Utf8.encode specimenHeader) := rfl
  have hwrites : s.Writes specimenDisk [Text.Utf8.encode "api.asm"] :=
    .output (fun _ _ h => by cases h) rfl ⟨rfl, by decide, by decide, rfl⟩ ⟨rfl, by decide, by decide, rfl⟩
  have hkept := mt (source_kept_iff hread hresolve hsource).1 (not_not_intro hwrites)
  exact ⟨arguments, s, _, hread, hresolve, hsource, Classical.not_forall.1 hkept⟩

end HeaderSymbols
