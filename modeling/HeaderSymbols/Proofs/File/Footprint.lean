import HeaderSymbols.File.Disk
import HeaderSymbols.Proofs.Text.Pieces

/-!
# What a request leaves alone

A request changes files, at the locations that its paths lead to, and never a directory. So paths
lead where they led before, and what is elsewhere stays as it was.

* `SameTree.leads_iff`: where the directories are the same, paths lead to the same locations.
* `write_eq_ok_iff`, `move_eq_ok_iff`, `remove_eq_ok_iff`: when a request is answered, and how.
* `frame_write`, `frame_move`, `frame_remove`: the locations that a request can change.
* `leads_staging_ne`: the path beside an output never leads to the place of the output itself.
-/
namespace HeaderSymbols
namespace Disk

variable {d d' d₁ d₂ : Disk} {p q : Path} {l : Location}

/-- A path leads to this location, whether there is something or not. -/
def Leads (d : Disk) (p : Path) (l : Location) : Prop := d.follow p = .ok (.entry l)

/-! ## Paths -/

/-- One disk has the directories of the other, and is used from the same one. -/
structure SameTree (d d' : Disk) : Prop where
  here : d'.here = d.here
  directories : ∀ l, d'.get? l = some .directory ↔ d.get? l = some .directory

theorem SameTree.refl (d : Disk) : d.SameTree d := ⟨rfl, fun _ => .rfl⟩

theorem SameTree.symm (h : d.SameTree d') : d'.SameTree d :=
  ⟨h.here.symm, fun l => (h.directories l).symm⟩

theorem SameTree.trans (h : d.SameTree d₁) (h' : d₁.SameTree d₂) : d.SameTree d₂ :=
  ⟨h'.here.trans h.here, fun l => (h'.directories l).trans (h.directories l)⟩

theorem find_eq_ok {found : Option Entry} (h : d.find l = .ok found) :
    ¬ 255 < (l.headD []).length ∧ d.get? l = found := by
  unfold find at h
  split at h
  · cases h
  · exact ⟨‹_›, by cases h; rfl⟩

theorem find_of_le (h : ¬ 255 < (l.headD []).length) : d.find l = .ok (d.get? l) := if_neg h

theorem descend_eq_ok_iff {name : Path.Name} {l' : Location} :
    d.descend l name = .ok l' ↔
      name = Path.dot ∧ l' = l ∨ name ≠ Path.dot ∧ name = Path.dots ∧ l' = l.tail ∨
        name ≠ Path.dot ∧ name ≠ Path.dots ∧ name.length ≤ 255 ∧
          d.get? (name :: l) = some .directory ∧ l' = name :: l := by
  unfold descend
  by_cases hdot : name = Path.dot
  · simp [hdot, eq_comm]
  · by_cases hdots : name = Path.dots
    · have hne : Path.dots ≠ Path.dot := by decide
      subst hdots
      simp only [hne, if_false, if_true, Except.ok.injEq, false_and, ne_eq, not_false_eq_true,
        not_true_eq_false, true_and, and_false, false_or, or_false, eq_comm]
    · by_cases hlen : 255 < name.length
      · simp [hdot, hdots, find, hlen, Nat.not_le.2 hlen]
      · simp only [hdot, hdots, find, List.headD_cons, hlen, if_false, Nat.not_lt.1 hlen, ne_eq,
          not_false_eq_true, true_and, false_and, false_or]
        cases d.get? (name :: l) with
        | none => simp
        | some entry => cases entry <;> simp [eq_comm]

theorem SameTree.descends (h : d.SameTree d') {names : List Path.Name} {l' : Location}
    (hd : names.foldlM d.descend l = .ok l') : names.foldlM d'.descend l = .ok l' := by
  induction names generalizing l with
  | nil => exact hd
  | cons name rest ih =>
    rw [List.foldlM_cons] at hd ⊢
    cases hn : d.descend l name with
    | error e => rw [hn] at hd; cases hd
    | ok next =>
      have hn' : d'.descend l name = .ok next := by
        rw [descend_eq_ok_iff, h.directories]
        exact descend_eq_ok_iff.1 hn
      rw [hn] at hd
      rw [hn']
      exact ih hd

/-- A path leads to its last name, in the directory that the names before it come to. -/
theorem leads_iff : d.Leads p l ↔
    p.bytes ≠ [] ∧ p.bytes.length < 4096 ∧ ∃ name parent, l = name :: parent ∧
      p.names.getLast? = some name ∧ name ≠ Path.dot ∧ name ≠ Path.dots ∧
      p.names.dropLast.foldlM d.descend (if p.isAbsolute then [] else d.here) = .ok parent := by
  constructor
  · intro h
    unfold Leads follow at h
    split at h
    · cases h
    · rename_i hne
      split at h
      · cases h
      · rename_i hlen
        split at h
        · cases h
        · rename_i parent hd
          split at h
          · cases h
          · rename_i name hlast
            split at h
            · cases h
            · rename_i hdots
              cases h
              exact ⟨by simpa using hne, Nat.lt_of_not_le hlen, name, parent, rfl, hlast,
                fun hd => hdots (.inl hd), fun hd => hdots (.inr hd), hd⟩
  · rintro ⟨hne, hlen, name, parent, rfl, hlast, hdot, hdots, hd⟩
    simp [Leads, follow, hne, Nat.not_le.2 hlen, hlast, hdot, hdots, hd]

theorem SameTree.leads (h : d.SameTree d') (hl : d.Leads p l) : d'.Leads p l := by
  rw [leads_iff] at hl ⊢
  obtain ⟨hne, hlen, name, parent, rfl, hlast, hdot, hdots, hd⟩ := hl
  rw [h.here]
  exact ⟨hne, hlen, name, parent, rfl, hlast, hdot, hdots, h.descends hd⟩

theorem SameTree.leads_iff (h : d.SameTree d') : d'.Leads p l ↔ d.Leads p l :=
  ⟨h.symm.leads, h.leads⟩

theorem Leads.ne_nil (h : d.Leads p l) : l ≠ [] := by
  obtain ⟨-, -, name, parent, rfl, -⟩ := Disk.leads_iff.1 h
  exact List.cons_ne_nil _ _

theorem Leads.unique {l' : Location} (h : d.Leads p l) (h' : d.Leads p l') : l = l' := by
  rw [Leads, h] at h'
  cases h'
  rfl

/-! ## Changes -/

/-- Nothing but files at the locations touched was changed. -/
structure Frame (touched : Location → Prop) (d d' : Disk) : Prop extends SameTree d d' where
  other : ∀ l, ¬ touched l → d'.get? l = d.get? l

theorem Frame.refl (touched : Location → Prop) (d : Disk) : Frame touched d d :=
  ⟨.refl d, fun _ _ => rfl⟩

theorem Frame.trans {touched : Location → Prop} (h : Frame touched d d₁)
    (h' : Frame touched d₁ d₂) : Frame touched d d₂ :=
  ⟨h.toSameTree.trans h'.toSameTree, fun l hl => (h'.other l hl).trans (h.other l hl)⟩

theorem Frame.mono {touched touched' : Location → Prop} (h : Frame touched d d')
    (hle : ∀ l, touched l → touched' l) : Frame touched' d d' :=
  ⟨h.toSameTree, fun l hl => h.other l fun ht => hl (hle l ht)⟩

theorem frame_put (hl : l ≠ []) (hd : d.get? l ≠ some .directory) (content : Bytes) :
    Frame (· = l) d (d.put l (.file content)) where
  here := rfl
  directories other := by
    rw [get?_put d _ hl]
    split
    · rename_i heq
      subst heq
      simp [hd]
    · rfl
  other other hne := by rw [get?_put d _ hl, if_neg hne]

theorem frame_erase (hl : l ≠ []) (hd : d.get? l ≠ some .directory) :
    Frame (· = l) d (d.erase l) where
  here := rfl
  directories other := by
    rw [get?_erase d hl]
    split
    · rename_i heq
      subst heq
      simp [hd]
    · rfl
  other other hne := by rw [get?_erase d hl, if_neg hne]

/-! ## Requests -/

/-- A path at which a file can be written: where it leads to, there is no directory. -/
structure Writable (d : Disk) (p : Path) (l : Location) : Prop where
  leads : d.Leads p l
  short : ¬ 255 < (l.headD []).length
  not_directory : d.get? l ≠ some .directory
  not_slash : p.endsInSlash = false

theorem SameTree.writable_iff (h : d.SameTree d') : d'.Writable p l ↔ d.Writable p l :=
  ⟨fun hw =>
    ⟨h.leads_iff.1 hw.leads, hw.short, mt (h.directories l).2 hw.not_directory, hw.not_slash⟩,
    fun hw => ⟨h.leads hw.leads, hw.short, mt (h.directories l).1 hw.not_directory, hw.not_slash⟩⟩

theorem Writable.frame_put (h : d.Writable p l) (content : Bytes) :
    Frame (· = l) d (d.put l (.file content)) :=
  Disk.frame_put h.leads.ne_nil h.not_directory content

theorem writable_eq_ok_iff : d.writable p = .ok l ↔ d.Writable p l := by
  constructor
  · intro h
    unfold writable at h
    split at h
    · cases h
    · cases h
    · rename_i hf
      split at h
      · cases h
      · rename_i hs
        split at h
        · cases h
        · cases h
        · rename_i found hdir hfind
          cases h
          obtain ⟨hlen, rfl⟩ := find_eq_ok hfind
          exact ⟨hf, hlen, hdir, by simpa using hs⟩
  · rintro ⟨hf, hlen, hdir, hs⟩
    have hf : d.follow p = .ok (.entry l) := hf
    simp only [writable, hf, hs, find_of_le hlen, Bool.false_eq_true, if_false]

theorem movable_eq_ok_iff : d.movable p = .ok l ↔ d.Writable p l := by
  constructor
  · intro h
    unfold movable at h
    split at h
    · cases h
    · cases h
    · rename_i hf
      split at h
      · cases h
      · rename_i found hfind
        split at h
        · cases h
        · rename_i hs
          split at h
          · cases h
          · rename_i hdir
            cases h
            obtain ⟨hlen, rfl⟩ := find_eq_ok hfind
            exact ⟨hf, hlen, hdir, by simpa using hs⟩
  · rintro ⟨hf, hlen, hdir, hs⟩
    have hf : d.follow p = .ok (.entry l) := hf
    simp only [movable, hf, hs, hdir, find_of_le hlen, Bool.false_eq_true, if_false]

/-- A file can be read exactly where one could be written. -/
theorem file_eq_ok_iff {content : Bytes} :
    d.file p = .ok (l, content) ↔ d.Writable p l ∧ d.get? l = some (.file content) := by
  constructor
  · intro h
    unfold file at h
    split at h
    · cases h
    · cases h
    · rename_i hf
      split at h
      · cases h
      · cases h
      · cases h
      · rename_i hfind
        split at h
        · cases h
        · rename_i hs
          cases h
          obtain ⟨hlen, hget⟩ := find_eq_ok hfind
          exact ⟨⟨hf, hlen, by simp [hget], by simpa using hs⟩, hget⟩
  · rintro ⟨⟨hf, hlen, -, hs⟩, hget⟩
    have hf : d.follow p = .ok (.entry l) := hf
    simp only [file, hf, hs, hget, find_of_le hlen, Bool.false_eq_true, if_false]

theorem write_eq_ok_iff {content : Bytes} :
    d.write p content = .ok d' ↔ ∃ l, d.Writable p l ∧ d' = d.put l (.file content) := by
  cases hw : d.writable p with
  | error e =>
    have hno (l : Location) : ¬ d.Writable p l := fun h => by
      rw [← writable_eq_ok_iff, hw] at h
      cases h
    simp [write, hw, hno, Except.map]
  | ok l =>
    have hl := writable_eq_ok_iff.1 hw
    simp only [write, hw, Except.map, Except.ok.injEq]
    exact ⟨fun h => ⟨l, hl, h.symm⟩, fun ⟨_, hl', h⟩ => by rw [h, hl'.leads.unique hl.leads]⟩

theorem move_eq_ok_iff : d.move p q = .ok d' ↔
    ∃ l l' content, d.Writable p l ∧ d.get? l = some (.file content) ∧ d.Writable q l' ∧
      d' = (d.erase l).put l' (.file content) := by
  constructor
  · intro h
    cases hf : d.file p with
    | error e => rw [move, hf] at h; cases h
    | ok found =>
      obtain ⟨l, content⟩ := found
      cases hm : d.movable q with
      | error e => rw [move, hf, hm] at h; cases h
      | ok l' =>
        rw [move, hf, hm] at h
        cases h
        obtain ⟨hl, hget⟩ := file_eq_ok_iff.1 hf
        exact ⟨l, l', content, hl, hget, movable_eq_ok_iff.1 hm, rfl⟩
  · rintro ⟨l, l', content, hl, hget, hl', rfl⟩
    rw [move, file_eq_ok_iff.2 ⟨hl, hget⟩, movable_eq_ok_iff.2 hl']
    rfl

theorem remove_eq_ok_iff : d.remove p = .ok d' ↔
    ∃ l content, d.Writable p l ∧ d.get? l = some (.file content) ∧ d' = d.erase l := by
  constructor
  · intro h
    cases hf : d.file p with
    | error e => rw [remove, hf] at h; cases h
    | ok found =>
      obtain ⟨l, content⟩ := found
      rw [remove, hf] at h
      cases h
      obtain ⟨hl, hget⟩ := file_eq_ok_iff.1 hf
      exact ⟨l, content, hl, hget, rfl⟩
  · rintro ⟨l, content, hl, hget, rfl⟩
    rw [remove, file_eq_ok_iff.2 ⟨hl, hget⟩]
    rfl

theorem frame_write {content : Bytes} (h : d.write p content = .ok d') :
    Frame (d.Writable p) d d' := by
  obtain ⟨l, hl, rfl⟩ := write_eq_ok_iff.1 h
  exact (hl.frame_put content).mono fun _ he => he ▸ hl

theorem frame_remove (h : d.remove p = .ok d') : Frame (d.Writable p) d d' := by
  obtain ⟨l, content, hl, hget, rfl⟩ := remove_eq_ok_iff.1 h
  exact (frame_erase hl.leads.ne_nil hl.not_directory).mono fun _ he => he ▸ hl

theorem frame_move (h : d.move p q = .ok d') :
    Frame (fun l => d.Writable p l ∨ d.Writable q l) d d' := by
  obtain ⟨l, l', content, hl, hget, hl', rfl⟩ := move_eq_ok_iff.1 h
  have herase := frame_erase hl.leads.ne_nil hl.not_directory
  have hput := (herase.writable_iff.2 hl').frame_put content
  exact (herase.mono fun _ he => .inl (he ▸ hl)).trans (hput.mono fun _ he => .inr (he ▸ hl'))

theorem read_of_get?_eq_none (h : d.Writable p l) (hget : d.get? l = none) :
    d.read p = .error .notFound := by
  have hf : d.follow p = .ok (.entry l) := h.leads
  simp [read, file, hf, find_of_le h.short, hget, Except.map]

theorem read_of_get? {content : Bytes} (h : d.Writable p l)
    (hget : d.get? l = some (.file content)) : d.read p = .ok content := by
  rw [read, file_eq_ok_iff.2 ⟨h, hget⟩, Except.map]

theorem frame_append (hl : l ≠ []) (content : Bytes) : Frame (· = l) d (d.append l content) := by
  unfold Disk.append
  split
  · rename_i old hget
    exact frame_put hl (by simp [hget]) _
  · exact .refl _ _

theorem get?_of_read_eq_ok {p : Path} {content : Bytes} (h : d.Writable p l)
    (hr : d.read p = .ok content) : d.get? l = some (.file content) := by
  unfold Disk.read at hr
  cases hf : d.file p with
  | error e => rw [hf] at hr; cases hr
  | ok found =>
    obtain ⟨l', content'⟩ := found
    rw [hf] at hr
    cases hr
    obtain ⟨hl', hget⟩ := file_eq_ok_iff.1 hf
    rw [h.leads.unique hl'.leads, hget]

theorem get?_of_read_eq_notFound {p : Path} (h : d.Writable p l)
    (hr : d.read p = .error .notFound) : d.get? l = none := by
  cases hget : d.get? l with
  | none => rfl
  | some entry =>
    cases entry with
    | directory => exact absurd hget h.not_directory
    | file content =>
      rw [read_of_get? h hget] at hr
      cases hr

end Disk

/-! ## The path beside an output -/

/-- The last name of the path beside an output is longer than that of the output. -/
theorem Path.getLast?_names_staging {p : Path} (hne : p.bytes ≠ []) (hs : p.endsInSlash = false) :
    ∃ last, p.names.getLast? = some last ∧
      p.staging.names.getLast? = some (last ++ Text.Utf8.encode ".tmp") := by
  have hsuffix : slash ∉ Text.Utf8.encode ".tmp" := by decide
  obtain ⟨pieces, last, hsplit, hstaging, hlast⟩ := Text.exists_splitOn_append p.bytes hsuffix
  have hlast : last ≠ [] := fun hl => by
    rcases hlast hl with hb | hb
    · exact hne hb
    · simp [endsInSlash, hb] at hs
  refine ⟨last, ?_, ?_⟩
  · simp [names, hsplit, hlast]
  · simp [names, staging, hstaging, hlast]

/-- The path beside an output never leads to the place of the output. -/
theorem Disk.leads_staging_ne {d : Disk} {p : Path} {l l' : Location}
    (hs : p.endsInSlash = false) (h : d.Leads p.staging l) (h' : d.Leads p l') : l ≠ l' := by
  rw [Disk.leads_iff] at h h'
  obtain ⟨-, -, name, parent, rfl, hlast, -⟩ := h
  obtain ⟨hne, -, name', parent', rfl, hlast', -⟩ := h'
  obtain ⟨last, houtput, hstaging⟩ := Path.getLast?_names_staging hne hs
  rw [hstaging] at hlast
  rw [houtput] at hlast'
  cases hlast
  cases hlast'
  intro he
  have hname := congrArg List.length (List.cons.inj he).1
  simp [Text.Utf8.encode, String.utf8EncodeChar] at hname

end HeaderSymbols
