import HeaderSymbols.Proofs.File.Footprint
import HeaderSymbols.Proofs.File.Stages

/-!
# Converting a file is a transaction

Whatever a system refuses on the way, a conversion of a file ends with the output written and
nothing else changed, or with nothing changed but the file beside the output, which may be gone.
All that is asked of the system is that it does what a disk does, or refuses and does nothing, and
that it does not refuse to remove a file just written. A disk is of files and directories alone:
systems with links, where a file can be written under another name, are not spoken of.

* `Faithful`: what is asked of a system; a disk in memory keeps it (`faithful_disk`).
* `publish_cases`: how publishing can go.
* `publish_ok`, `publish_error`: what holds of the disk after it.
* `convertFile_transaction`: the same for a conversion, which changes nothing at all where the
  input does not read or does not convert.
-/
namespace HeaderSymbols

/-! ## Systems -/

/-- One disk holds what the other does, and is used from the same directory. -/
structure Disk.Same (d d' : Disk) : Prop where
  here : d'.here = d.here
  get?_eq : ∀ l, d'.get? l = d.get? l

theorem Disk.Same.refl (d : Disk) : d.Same d := ⟨rfl, fun _ => rfl⟩

theorem Disk.Same.frame {d d' : Disk} (h : d.Same d') (touched : Location → Prop) :
    Disk.Frame touched d d' :=
  ⟨⟨h.here, fun l => by rw [h.get?_eq]⟩, fun l _ => h.get?_eq l⟩

/-- A request does what it would do to the disk, or is refused and does nothing. -/
def Obeys {σ : Type} (disk : σ → Disk) (request : StateM σ (Except OsError Unit))
    (act : Disk → Except OsError Disk) : Prop :=
  ∀ {s s' : σ} {answer}, request s = (answer, s') →
    match answer with
    | .ok () => ∃ d, act (disk s) = .ok d ∧ d.Same (disk s')
    | .error _ => disk s' = disk s

/-- A system, seen as a disk, that does what a disk does, or refuses. It may refuse anything, but
not to remove a file that was just written and could not be moved. -/
structure Faithful {σ : Type} [FileAccess (StateM σ)] (disk : σ → Disk) : Prop where
  read : ∀ {p : Path} {s s' : σ} {answer}, FileAccess.read (m := StateM σ) p s = (answer, s') →
    disk s' = disk s
  write : ∀ p content, Obeys disk (FileAccess.write p content) (·.write p content)
  move : ∀ p q, Obeys disk (FileAccess.move p q) (·.move p q)
  remove : ∀ p, Obeys disk (FileAccess.remove p) (·.remove p)
  withdraw : ∀ {p q : Path} {content : Bytes} {s s₁ s₂ : σ} {e : OsError},
    FileAccess.write (m := StateM σ) p content s = (.ok (), s₁) →
    FileAccess.move (m := StateM σ) p q s₁ = (.error e, s₂) →
    ∃ s₃, FileAccess.remove (m := StateM σ) p s₂ = (.ok (), s₃)

theorem obeys_request (act : Disk → Except OsError Disk) : Obeys id (Disk.request act) act := by
  intro d d' answer h
  unfold Disk.request at h
  split at h
  · rename_i hd
    cases h
    exact ⟨_, hd, .refl _⟩
  · cases h
    rfl

/-- A disk in memory does what it does. -/
theorem faithful_disk : Faithful (id : Disk → Disk) where
  read h := by cases h; rfl
  write p content := obeys_request (·.write p content)
  move p q := obeys_request (·.move p q)
  remove p := obeys_request (·.remove p)
  withdraw {p q content d d₁ d₂ e} hwrite hmove := by
    obtain ⟨_, hw, hsame⟩ := obeys_request (·.write p content) hwrite
    obtain ⟨l, hl, rfl⟩ := Disk.write_eq_ok_iff.1 hw
    have hmoved : d₂ = d₁ := obeys_request (·.move p q) hmove
    have hframe := (hl.frame_put content).trans (hsame.frame _)
    have hget : d₁.get? l = some (.file content) := by
      have hput := hsame.get?_eq l
      rwa [Disk.get?_put _ _ hl.leads.ne_nil, if_pos rfl] at hput
    have hremove : d₁.remove p = .ok (d₁.erase l) :=
      Disk.remove_eq_ok_iff.2 ⟨l, content, hframe.writable_iff.2 hl, hget, rfl⟩
    refine ⟨d₁.erase l, ?_⟩
    rw [hmoved]
    show Disk.request (·.remove p) d₁ = _
    simp only [Disk.request, hremove]

section
variable {σ : Type} [FileAccess (StateM σ)] {disk : σ → Disk} {o : Options} {input output : Path}
  {text : String} {s s' : σ}

/-- Publishing ends where the file beside the output cannot be written, where it cannot be moved, or
with both done. -/
theorem publish_cases {answer : Except OsError Unit}
    (h : publish (m := StateM σ) output text s = (answer, s')) :
    let staged := FileAccess.write (m := StateM σ) output.staging (Text.Utf8.encode text) s
    (∃ e s₁ removed, staged = (.error e, s₁) ∧
      FileAccess.remove (m := StateM σ) output.staging s₁ = (removed, s') ∧ answer = .error e) ∨
    (∃ e s₁ s₂ removed, staged = (.ok (), s₁) ∧
      FileAccess.move (m := StateM σ) output.staging output s₁ = (.error e, s₂) ∧
      FileAccess.remove (m := StateM σ) output.staging s₂ = (removed, s') ∧ answer = .error e) ∨
    ∃ s₁, staged = (.ok (), s₁) ∧
      FileAccess.move (m := StateM σ) output.staging output s₁ = (.ok (), s') ∧
      answer = .ok () := by
  intro staged
  unfold publish at h
  simp only [bind, StateT.bind] at h
  cases hw : FileAccess.write (m := StateM σ) output.staging (Text.Utf8.encode text) s with
  | mk written s₁ =>
    rw [hw] at h
    cases written with
    | error e =>
      cases h
      exact .inl ⟨e, s₁, _, hw, rfl, rfl⟩
    | ok =>
      right
      cases hm : FileAccess.move (m := StateM σ) output.staging output s₁ with
      | mk moved s₂ =>
        simp only [StateT.bind, bind, hm] at h
        cases moved with
        | error e =>
          cases h
          exact .inl ⟨e, s₁, s₂, _, hw, hm, rfl, rfl⟩
        | ok =>
          cases h
          exact .inr ⟨s₁, hw, hm, rfl⟩

/-- The input does not read, or does not convert. -/
def Unconverted (o : Options) (input : Path) (read : Except Failure String) (failure : Failure) :
    Prop :=
  read = .error failure ∨ ∃ text, read = .ok text ∧ convert o input.display text = .error failure

theorem Unconverted.unique {read : Except Failure String} {failure failure' : Failure}
    (h : Unconverted o input read failure) (h' : Unconverted o input read failure') :
    failure = failure' := by
  rcases h with rfl | ⟨text, rfl, hc⟩
  · rcases h' with he | ⟨_, he, -⟩
    · cases he
      rfl
    · cases he
  · rcases h' with he | ⟨_, he, hc'⟩
    · cases he
    · cases he
      cases hc.symm.trans hc'
      rfl

/-- A conversion of a file ends before anything is published, or as publishing does. -/
theorem convertFile_cases {answer : Except Failure Conversion} {read : Except Failure String}
    {s₁ : σ} (hread : readSource (m := StateM σ) input s = (read, s₁))
    (h : convertFile (m := StateM σ) o input output s = (answer, s')) :
    (∃ failure, Unconverted o input read failure ∧ answer = .error failure ∧ s' = s₁) ∨
    ∃ text c published, read = .ok text ∧ convert o input.display text = .ok c ∧
      publish (m := StateM σ) output c.output s₁ = (published, s') ∧
      answer = match published with
        | .error e => .error (.ofSystem input.display "Error writing output file" e.text)
        | .ok () => .ok c := by
  rw [convertFile_eq, checkFile_eq, hread] at h
  cases read with
  | error failure =>
    cases h
    exact .inl ⟨failure, .inl rfl, rfl, rfl⟩
  | ok text =>
    simp only [Except.bind] at h
    cases hc : convert o input.display text with
    | error failure =>
      rw [hc] at h
      cases h
      exact .inl ⟨failure, .inr ⟨text, rfl, hc⟩, rfl, rfl⟩
    | ok c =>
      rw [hc, publishChecked_ok] at h
      cases h
      exact .inr ⟨text, c, _, rfl, hc, rfl, rfl⟩

variable (hf : Faithful disk)

include hf

/-- The file written beside an output, as the disk has it. -/
theorem staged_of_write {content : Bytes} {p : Path}
    (h : FileAccess.write (m := StateM σ) p content s = (.ok (), s')) :
    ∃ l, (disk s).Writable p l ∧ Disk.Frame (· = l) (disk s) (disk s') ∧
      (disk s').get? l = some (.file content) := by
  obtain ⟨d, hd, hsame⟩ := hf.write p content h
  obtain ⟨l, hl, rfl⟩ := Disk.write_eq_ok_iff.1 hd
  refine ⟨l, hl, (hl.frame_put content).trans (hsame.frame _), ?_⟩
  rw [hsame.get?_eq, Disk.get?_put _ _ hl.leads.ne_nil, if_pos rfl]

/-- What is published is at the output, and nothing is left beside it. -/
theorem publish_ok (h : publish (m := StateM σ) output text s = (.ok (), s')) :
    (disk s').read output = .ok (Text.Utf8.encode text) ∧
      (disk s').read output.staging = .error .notFound ∧
      Disk.Frame (fun l => (disk s).Writable output l ∨ (disk s).Writable output.staging l)
        (disk s) (disk s') := by
  rcases publish_cases h with ⟨_, _, _, _, _, he⟩ | ⟨_, _, _, _, _, _, _, he⟩ |
    ⟨s₁, hwrite, hmove, -⟩
  · cases he
  · cases he
  · obtain ⟨l, hl, hstage, hget⟩ := staged_of_write hf hwrite
    obtain ⟨d, hd, hsame⟩ := hf.move _ _ hmove
    obtain ⟨l₁, l', content, hl₁, hget₁, hl', rfl⟩ := Disk.move_eq_ok_iff.1 hd
    obtain rfl : l₁ = l := (hstage.leads_iff.1 hl₁.leads).unique hl.leads
    obtain rfl : content = Text.Utf8.encode text := by
      rw [hget] at hget₁
      cases hget₁
      rfl
    have hne : l₁ ≠ l' := Disk.leads_staging_ne hl'.not_slash hl₁.leads hl'.leads
    have hmoved := (Disk.frame_move hd).trans (hsame.frame _)
    have houtput : (disk s').get? l' = some (.file (Text.Utf8.encode text)) := by
      rw [hsame.get?_eq, Disk.get?_put _ _ hl'.leads.ne_nil, if_pos rfl]
    have hstaging : (disk s').get? l₁ = none := by
      rw [hsame.get?_eq, Disk.get?_put _ _ hl'.leads.ne_nil, if_neg hne,
        Disk.get?_erase _ hl₁.leads.ne_nil, if_pos rfl]
    refine ⟨?_, ?_, ?_⟩
    · exact Disk.read_of_get? (hmoved.writable_iff.2 hl') houtput
    · exact Disk.read_of_get?_eq_none (hmoved.writable_iff.2 hl₁) hstaging
    · refine (hstage.mono fun _ he => .inr (he ▸ hl)).trans (hmoved.mono fun l ht => ?_)
      rw [hstage.writable_iff, hstage.writable_iff] at ht
      exact ht.symm

/-- After a removal that was answered or refused, a file is as it was, or gone. -/
theorem removed {p : Path} {answer : Except OsError Unit}
    (h : FileAccess.remove (m := StateM σ) p s = (answer, s')) :
    Disk.Frame ((disk s).Writable p) (disk s) (disk s') ∧
      ∀ l, (disk s).Leads p l → (disk s').get? l = (disk s).get? l ∨ (disk s').get? l = none := by
  have hobeys := hf.remove p h
  cases answer with
  | error e =>
    rw [show disk s' = disk s from hobeys]
    exact ⟨.refl _ _, fun _ _ => .inl rfl⟩
  | ok =>
    obtain ⟨d, hd, hsame⟩ := hobeys
    refine ⟨(Disk.frame_remove hd).trans (hsame.frame _), fun l hl => .inr ?_⟩
    obtain ⟨l', content, hl', -, rfl⟩ := Disk.remove_eq_ok_iff.1 hd
    rw [hsame.get?_eq, Disk.get?_erase _ hl'.leads.ne_nil, if_pos (hl.unique hl'.leads)]

/-- A file that was just written and could not be moved is gone. -/
theorem withdrawn {e : OsError} {s₁ s₂ : σ} {answer : Except OsError Unit} {p q : Path}
    {content : Bytes} (hwrite : FileAccess.write (m := StateM σ) p content s = (.ok (), s₁))
    (hmove : FileAccess.move (m := StateM σ) p q s₁ = (.error e, s₂))
    (hremove : FileAccess.remove (m := StateM σ) p s₂ = (answer, s')) :
    Disk.Frame ((disk s).Writable p) (disk s) (disk s') ∧
      ∀ l, (disk s).Leads p l → (disk s').get? l = none := by
  obtain ⟨l, hl, hstage, hget⟩ := staged_of_write hf hwrite
  have hsame : disk s₂ = disk s₁ := hf.move _ _ hmove
  obtain ⟨s₃, hs₃⟩ := hf.withdraw hwrite hmove
  obtain ⟨rfl, rfl⟩ := Prod.mk.inj (hremove.symm.trans hs₃)
  obtain ⟨hframe, -⟩ := removed hf hremove
  obtain ⟨d, hd, hsame'⟩ := hf.remove _ hremove
  obtain ⟨l', _, hl', -, rfl⟩ := Disk.remove_eq_ok_iff.1 hd
  rw [hsame] at hframe hsame' hl'
  refine ⟨(hstage.mono fun _ he => he ▸ hl).trans (hframe.mono fun l => hstage.writable_iff.1),
    fun l₀ hl₀ => ?_⟩
  rw [hsame'.get?_eq, Disk.get?_erase _ hl'.leads.ne_nil,
    if_pos ((hstage.leads hl₀).unique hl'.leads)]

theorem publish_error {e : OsError} (h : publish (m := StateM σ) output text s = (.error e, s')) :
    Disk.Frame ((disk s).Writable output.staging) (disk s) (disk s') ∧
      ∀ l, (disk s).Leads output.staging l →
        (disk s').get? l = (disk s).get? l ∨ (disk s').get? l = none := by
  rcases publish_cases h with ⟨_, s₁, _, hwrite, hremove, -⟩ |
    ⟨_, s₁, s₂, _, hwrite, hmove, hremove, -⟩ | ⟨_, _, _, he⟩
  · have hsame : disk s₁ = disk s := hf.write _ _ hwrite
    rw [← hsame]
    exact removed hf hremove
  · obtain ⟨hframe, hgone⟩ := withdrawn hf hwrite hmove hremove
    exact ⟨hframe, fun l hl => .inr (hgone l hl)⟩
  · cases he

theorem disk_readSource {answer : Except Failure String}
    (h : readSource (m := StateM σ) input s = (answer, s')) : disk s' = disk s := by
  have hs' : (readSource (m := StateM σ) input s).2 = s' := congrArg Prod.snd h
  rw [← hs', readSource_snd]
  exact hf.read rfl

/-- **Transaction.** Whatever the system refuses, a conversion that succeeds leaves its text at the
output, nothing beside it, and all else as it was; one that fails leaves all as it was, but for a
file beside the output, which is as it was or gone; and where the input does not read or does not
convert, nothing is changed at all. The systems are those of files and directories only, without
links. -/
theorem convertFile_transaction (o : Options) (input output : Path) (s : σ) :
    let d := disk s
    let result := convertFile (m := StateM σ) o input output s
    let d' := disk result.2
    (∀ c, result.1 = .ok c →
      d'.read output = .ok (Text.Utf8.encode c.output) ∧ d'.read output.staging = .error .notFound ∧
        Disk.Frame (fun l => d.Leads output l ∨ d.Leads output.staging l) d d') ∧
    (∀ failure, result.1 = .error failure →
      Disk.Frame (d.Leads output.staging) d d' ∧
        ∀ l, d.Leads output.staging l → d'.get? l = d.get? l ∨ d'.get? l = none) ∧
    (∀ failure, Unconverted o input (readSource (m := StateM σ) input s).1 failure →
      result.1 = .error failure ∧ d' = d) := by
  intro d result d'
  cases hread : readSource (m := StateM σ) input s with
  | mk read s₁ =>
    have hsame : disk s₁ = disk s := disk_readSource hf hread
    cases hresult : result with
    | mk answer s' =>
      have hd' : d' = disk s' := congrArg (fun r => disk r.2) hresult
      rw [hd']
      rcases convertFile_cases hread hresult with
        ⟨failure, hfailure, rfl, rfl⟩ | ⟨text, c, published, rfl, hc, hp, rfl⟩
      · rw [hsame]
        exact ⟨nofun, fun _ _ => ⟨.refl _ _, fun _ _ => .inl rfl⟩,
          fun _ hfailure' => ⟨by rw [hfailure.unique hfailure'], rfl⟩⟩
      · have hconverted : ∀ failure, ¬ Unconverted o input (.ok text) failure := by
          rintro failure (he | ⟨_, he, hf⟩)
          · cases he
          · cases he
            rw [hc] at hf
            cases hf
        cases published with
        | error e =>
          have herror := publish_error hf hp
          rw [hsame] at herror
          have hframe := herror.1.mono fun _ hl => hl.leads
          exact ⟨nofun, fun _ _ => ⟨hframe, herror.2⟩,
            fun failure hu => absurd hu (hconverted failure)⟩
        | ok =>
          have hok := publish_ok hf hp
          rw [hsame] at hok
          have hframe := hok.2.2.mono fun _ hl => hl.imp (·.leads) (·.leads)
          exact ⟨fun _ he => by cases he; exact ⟨hok.1, hok.2.1, hframe⟩, nofun,
            fun failure hu => absurd hu (hconverted failure)⟩

end

/-- A header with the structures that every output needs, and nothing in them. -/
def specimenHeader : String :=
  "kernel_event_event_t .struct\n.ends\nkernel_time_t .struct\n.ends\n"

theorem convert_specimenHeader (o : Options) (file : String) :
    convert o file specimenHeader = .ok ⟨o.prologue, 4, 0⟩ := by
  let m : Model := ⟨#[⟨.struct, #[]⟩, ⟨.struct, #[]⟩, ⟨.struct, #[]⟩],
    [("kernel_time_t", 2), ("kernel_event_event_t", 1)]⟩
  have hreading : Reading.ofLines (Line.ofSource specimenHeader) = ⟨m, .root, [0], #[]⟩ := by decide
  have hgroup {id : GroupId} (hn : m.members id = []) (start : Cursor) (e : Emitter) :
      e.group m id start = (start, e) := by
    refine Walk.run_eq_of_reaches (.step ?_)
    simp only [Walk.step, Frame.new, hn, Walk.close]
    exact .refl _
  have hnamed (id : GroupId) {key : String} (hl : m.lookup key = some id) (hn : m.members id = [])
      (e : Emitter) (name : String) : (e.named m name key 0).2 = e.clear := by
    simp only [Emitter.named, hl, hgroup hn]
    rfl
  have hmodel : Emitter.ofModel m = .new := by
    show (Emitter.named m (Emitter.named m (Emitter.document m .new).2 _ _ 0).2 _ _ 0).2 = _
    rw [hnamed 2 rfl rfl, hnamed 1 rfl rfl, Emitter.document, hgroup rfl]
    rfl
  have hlines : (Line.ofSource specimenHeader).length = 4 := by decide
  have houtput : o.prologue ++ Emitter.new.output = o.prologue := String.append_empty
  simp only [convert, hreading, hmodel, hlines, houtput]
  rfl

/-- A directory with that header, an output and a file left beside it. -/
def specimenDisk : Disk :=
  ⟨[([Text.Utf8.encode "api.asm"], .file (Text.Utf8.encode specimenHeader)),
    ([Text.Utf8.encode "out.s"], .file (Text.Utf8.encode "old")),
    ([Text.Utf8.encode "out.s.tmp"], .file (Text.Utf8.encode "older"))], []⟩

theorem convertFile_transaction_specimen :
    let result := convertFile (m := StateM Disk) .standard (.ofString "api.asm") (.ofString "out.s")
      specimenDisk
    Faithful (id : Disk → Disk) ∧ ∃ c, result.1 = .ok c ∧
      result.2.read (.ofString "out.s") = .ok (Text.Utf8.encode c.output) ∧
      result.2.read (Path.ofString "out.s").staging = .error .notFound ∧
      result.2.read (.ofString "api.asm") = .ok (Text.Utf8.encode specimenHeader) := by
  intro result
  have hread : readSource (m := StateM Disk) (.ofString "api.asm") specimenDisk =
      (.ok specimenHeader, specimenDisk) := rfl
  have hresult : result.1 = .ok ⟨Options.standard.prologue, 4, 0⟩ := by
    show (convertFile (m := StateM Disk) _ _ _ _).1 = _
    simp only [convertFile, bind, StateT.bind, hread, convert_specimenHeader]
    rfl
  obtain ⟨hok, -⟩ := convertFile_transaction faithful_disk .standard (.ofString "api.asm")
    (.ofString "out.s") specimenDisk
  obtain ⟨houtput, hstaging, hframe⟩ := hok _ hresult
  have hinput : specimenDisk.Writable (.ofString "api.asm") [Text.Utf8.encode "api.asm"] :=
    ⟨rfl, by decide, by decide, rfl⟩
  have hkept : ¬ (specimenDisk.Leads (.ofString "out.s") [Text.Utf8.encode "api.asm"] ∨
      specimenDisk.Leads (Path.ofString "out.s").staging [Text.Utf8.encode "api.asm"]) := by
    have houtput : specimenDisk.Leads (.ofString "out.s") [Text.Utf8.encode "out.s"] := rfl
    have hbeside : specimenDisk.Leads (Path.ofString "out.s").staging
        [Text.Utf8.encode "out.s.tmp"] := rfl
    rintro (h | h)
    · exact absurd (h.unique houtput) (by decide)
    · exact absurd (h.unique hbeside) (by decide)
  exact ⟨faithful_disk, _, hresult, houtput, hstaging,
    Disk.read_of_get? (hframe.writable_iff.2 hinput) (hframe.other _ hkept)⟩

end HeaderSymbols
