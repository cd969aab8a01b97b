import HeaderSymbols.Proofs.Command.Writes

/-!
# What a failure leaves at the output

A run that only checks, or that fails, writes the file for its diagnostics and the file beside its
output, and nothing else. The file beside the output is never the output itself; the file for
diagnostics may be, as the settings do not compare the two paths.

* `frame_unpublished`: a run that checks or fails changes only those two files.
* `exists_spoiled`: an output in which the diagnostics are told is not the same after every failure.
* `output_kept_iff`: so every failure leaves the output as it was exactly if the diagnostics are not
  told in it.
-/
namespace HeaderSymbols

namespace Disk

variable {d d' : Disk} {p : Path}

/-- What the file at a path holds, if there is one. -/
def held? (d : Disk) (p : Path) : Option Bytes := (d.read p).toOption

/-- The directories are the same, and the path has the same file, or still none. -/
structure Keeps (d d' : Disk) (p : Path) : Prop extends SameTree d d' where
  held : d'.held? p = d.held? p

theorem held?_eq_some_iff {content : Bytes} :
    d.held? p = some content ↔ ∃ l, d.Writable p l ∧ d.get? l = some (.file content) := by
  simp only [held?, read, ← file_eq_ok_iff]
  cases d.file p with
  | error => simp [Except.map, Except.toOption]
  | ok found =>
    obtain ⟨l, held⟩ := found
    simp [Except.map, Except.toOption]

theorem held?_of_writable {l : Location} {content : Bytes} (h : d.Writable p l)
    (hget : d.get? l = some (.file content)) : d.held? p = some content :=
  held?_eq_some_iff.2 ⟨l, h, hget⟩

/-- A change elsewhere keeps what a path has. -/
theorem Frame.keeps {touched : Location → Prop} (h : Frame touched d d')
    (hp : ∀ l, d.Writable p l → ¬ touched l) : d.Keeps d' p := by
  refine ⟨h.toSameTree, Option.ext fun content => ?_⟩
  simp only [held?_eq_some_iff, h.writable_iff]
  refine exists_congr fun l => and_congr_right fun hl => ?_
  rw [h.other l (hp l hl)]

end Disk

section
variable {lib : Libraries} {s : Settings} {d d₁ d₂ : Disk} {l : Location}

/-! ## What is touched -/

/-- A conversion that is not published touches nothing but the file beside the output. -/
theorem frame_perform_unpublished {answer : Except Failure Conversion}
    (h : s.perform (m := StateM Disk) d = (answer, d₁))
    (hends : s.check = true ∨ ∃ failure, answer = .error failure) :
    Disk.Frame (d.Writable s.output.staging) d d₁ := by
  cases hc : s.check with
  | true =>
    obtain rfl : d₁ = d := disk_perform_of_check hc h
    exact .refl _ _
  | false =>
    rw [Settings.perform_of_not_check hc] at h
    obtain hcheck | ⟨failure, rfl⟩ := hends
    · rw [hc] at hcheck
      cases hcheck
    · cases hread : readSource (m := StateM Disk) s.input d with
      | mk read d₂ =>
        obtain rfl : d₂ = d := disk_readSource faithful_disk hread
        rcases convertFile_cases hread h with ⟨_, -, -, rfl⟩ | ⟨_, _, published, -, -, hp, ha⟩
        · exact .refl _ _
        · cases published with
          | ok => cases ha
          | error e => exact (publish_error faithful_disk hp).1

/-- **Footprint of a failure.** A run that only checks, or fails, changes only the file for its
diagnostics and the file beside its output. -/
theorem frame_unpublished
    (hends : s.check = true ∨ (s.run lib (m := StateM Disk) d).1.status ≠ 0) :
    Disk.Frame (fun l => s.Logs d l ∨ d.Writable s.output.staging l) d
      (s.run lib (m := StateM Disk) d).2 := by
  refine frame_run_of (fun _ => .inl) fun {_ _ _ answer} ho _ htree hp => ?_
  refine (frame_perform_unpublished hp (hends.imp_right fun hstatus => ?_)).mono
    fun _ hl => .inr (htree.writable_iff.1 hl)
  cases answer with
  | error failure => exact ⟨failure, rfl⟩
  | ok =>
    rw [run_eq ho, hp] at hstatus
    exact absurd rfl hstatus

end

/-! ## What is spoiled -/

namespace Settings

/-- An output in which the diagnostics are told is not kept by every run that fails. -/
theorem exists_spoiled (lib : Libraries) {s : Settings} {d : Disk} {l : Location} (hlog : s.Logs d l)
    (hl : d.Writable s.output l) :
    ∃ d₀, d.SameTree d₀ ∧ (s.run lib (m := StateM Disk) d₀).1.status ≠ 0 ∧
      ¬ d₀.Keeps (s.run lib (m := StateM Disk) d₀).2 s.output := by
  obtain ⟨path, append, hs, hp⟩ := hlog
  -- the input, wherever it is, and the output are emptied
  obtain ⟨d₁, htree₁, hinput₁⟩ : ∃ d₁, d.SameTree d₁ ∧
      ∀ l, d₁.Writable s.input l → d₁.get? l = some (.file []) := by
    by_cases hw : ∃ l, d.Writable s.input l
    · obtain ⟨l, hw⟩ := hw
      have htree := (hw.frame_put []).toSameTree
      refine ⟨_, htree, fun l' hw' => ?_⟩
      obtain rfl := (htree.writable_iff.1 hw').leads.unique hw.leads
      rw [Disk.get?_put _ _ hw.leads.ne_nil, if_pos rfl]
    · exact ⟨d, .refl d, fun l hl => absurd ⟨l, hl⟩ hw⟩
  have hput := (htree₁.writable_iff.2 hl).frame_put []
  have htree := htree₁.trans hput.toSameTree
  have hempty : (d₁.put l (.file [])).get? l = some (.file []) := by
    rw [Disk.get?_put _ _ hl.leads.ne_nil, if_pos rfl]
  obtain ⟨hstatus, hspoiled⟩ := log_spoils lib (s := s) ⟨path, append, hs, htree.writable_iff.2 hp⟩
    hempty fun l' hw => by
      rw [Disk.get?_put _ _ hl.leads.ne_nil]
      split
      · rfl
      · exact hinput₁ l' (hput.writable_iff.1 hw)
  refine ⟨_, htree, hstatus, fun hkept => hspoiled ?_⟩
  have hheld := Disk.held?_of_writable (htree.writable_iff.2 hl) hempty
  rw [← hkept.held, Disk.held?_eq_some_iff] at hheld
  obtain ⟨l', hl', hget⟩ := hheld
  obtain rfl := (hkept.writable_iff.1 hl').leads.unique (htree.writable_iff.2 hl).leads
  exact hget

end Settings

/-- **The previous output.** A command that is accepted leaves at its output what was there,
whatever the files hold, in every run that fails and in every run that only checks, if and only if
the file for diagnostics is not the output. The settings do not compare these two paths. How
commands are read, and JSON text is written, makes no difference. -/
theorem output_kept_iff {lib : Libraries} {words : List Bytes} {env : Environment}
    {arguments : Arguments} {s : Settings} {d : Disk} (hread : lib.arguments words = .ok arguments)
    (hresolve : Settings.resolve arguments env = .ok s) :
    (∀ d₀, d.SameTree d₀ →
      (s.check = true ∨ ∃ exit, (lib.program (m := StateM Disk) words env d₀).1 = .ok exit ∧
        exit.status ≠ 0) →
      d₀.Keeps (lib.program (m := StateM Disk) words env d₀).2 s.output) ↔
    ¬ ∃ l, s.Logs d l ∧ d.Writable s.output l := by
  simp only [program_eq hread hresolve, Except.ok.injEq, exists_eq_left']
  constructor
  · rintro hkept ⟨l, hlog, hl⟩
    obtain ⟨d₀, htree, hstatus, hspoiled⟩ := Settings.exists_spoiled lib hlog hl
    exact hspoiled (hkept d₀ htree (.inr hstatus))
  · intro hapart d₀ htree hends
    refine (frame_unpublished hends).keeps fun l hl => ?_
    rintro (⟨path, append, hs, hp⟩ | hstaging)
    · exact hapart ⟨l, ⟨path, append, hs, htree.writable_iff.1 hp⟩, htree.writable_iff.1 hl⟩
    · exact Disk.leads_staging_ne hl.not_slash hstaging.leads hl.leads rfl

/-- Diagnostics that are to be told in the output are accepted, and the output is lost. -/
theorem output_kept_iff_specimen :
    let words := [Text.Utf8.encode "api.asm", Text.Utf8.encode "-o", Text.Utf8.encode "out.s",
      Text.Utf8.encode "-E", Text.Utf8.encode "out.s"]
    let env : Environment := fun _ => none
    ∃ arguments s, Arguments.read words = .ok arguments ∧
      Settings.resolve arguments env = .ok s ∧
      ∃ d₀ exit, specimenDisk.SameTree d₀ ∧
        (program (m := StateM Disk) words env d₀).1 = .ok exit ∧ exit.status ≠ 0 ∧
        ¬ d₀.Keeps (program (m := StateM Disk) words env d₀).2 s.output := by
  intro words env
  let arguments : Arguments :=
    { Arguments.none with
      input := some (.ofString "api.asm")
      outfile := some (.ofString "out.s")
      error := some (.ofString "out.s") }
  let s : Settings := ⟨.ofString "api.asm", .ofString "out.s", .standard, false, false, .text,
    .file (.ofString "out.s") false⟩
  have hread : Libraries.standard.arguments words = .ok arguments := rfl
  have hresolve : Settings.resolve arguments env = .ok s :=
    eq_ok_of_toOption (by decide +kernel)
  have houtput : specimenDisk.Writable (.ofString "out.s") [Text.Utf8.encode "out.s"] :=
    ⟨rfl, by decide, by decide, rfl⟩
  have hlost := mt (output_kept_iff (d := specimenDisk) hread hresolve).1
    (not_not_intro ⟨_, ⟨_, _, rfl, houtput⟩, houtput⟩)
  simp only [Classical.not_forall] at hlost
  obtain ⟨d₀, htree, hends, hspoiled⟩ := hlost
  obtain hcheck | ⟨exit, hexit, hstatus⟩ := hends
  · cases hcheck
  · exact ⟨arguments, s, hread, hresolve, d₀, exit, htree, hexit, hstatus, hspoiled⟩

end HeaderSymbols
