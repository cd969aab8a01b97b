import HeaderSymbols.Proofs.File.Transaction

/-!
# A disk on which a file was opened

A file that is opened for writing is emptied, or created where there was none, and all else on the
disk stays as it was. Requests that lead to other files are granted as they were before, and leave
the same behind. Refusals have the same reason, too, unless a path goes through the very place at
which the file was created: where something was missing before, there is no directory now.

* `Opened.follow_cases`: where paths lead to.
* `agree_file`, `agree_writable`, `agree_movable`: what is found there.
* `tandem_request`: requests that change the disk.
* `tandem_publish`: so outputs are published alike.
-/
namespace HeaderSymbols

/-- Both are results, or both are errors, and related as such. -/
inductive Agree {ε α : Type} (E : ε → ε → Prop) (R : α → α → Prop) :
    Except ε α → Except ε α → Prop where
  | ok {a b} (h : R a b) : Agree E R (.ok a) (.ok b)
  | error {e e'} (h : E e e') : Agree E R (.error e) (.error e')

namespace Agree

variable {ε α β : Type} {E E' : ε → ε → Prop} {R : α → α → Prop} {S : β → β → Prop}
  {x y : Except ε α}

/-- It is enough that both have the same results, and are the same or related errors. -/
theorem of_ok_iff (hok : ∀ a, x = .ok a ↔ y = .ok a)
    (herror : y = x ∨ ∃ e e', x = .error e ∧ y = .error e' ∧ E e e') (hE : ∀ e, E e e)
    (hR : ∀ a, x = .ok a → R a a) : Agree E R x y := by
  rcases herror with rfl | ⟨e, e', rfl, rfl, he⟩
  · cases y with
    | ok a => exact .ok (hR a rfl)
    | error e => exact .error (hE e)
  · exact .error he

theorem mono (h : Agree E R x y) (hE : ∀ {e e'}, E e e' → E' e e') : Agree E' R x y := by
  cases h with
  | ok h => exact .ok h
  | error h => exact .error (hE h)

theorem map {f g : α → β} (h : Agree E R x y) (hf : ∀ {a b}, R a b → S (f a) (g b)) :
    Agree E S (x.map f) (y.map g) := by
  cases h with
  | ok h => exact .ok (hf h)
  | error h => exact .error h

theorem bind {f g : α → Except ε β} (h : Agree E R x y)
    (hf : ∀ {a b}, R a b → Agree E S (f a) (g b)) : Agree E S (x >>= f) (y >>= g) := by
  cases h with
  | ok h => exact hf h
  | error h => exact .error h

end Agree

/-- The reason is the same, or what was missing on the way is no directory now. -/
inductive OsError.Restated (blocked : Prop) : OsError → OsError → Prop where
  | same (e : OsError) : Restated blocked e e
  | blocked (h : blocked) : Restated blocked .notFound .notDirectory

theorem OsError.Restated.mono {blocked blocked' : Prop} {e e' : OsError}
    (h : OsError.Restated blocked e e') (hb : blocked → blocked') :
    OsError.Restated blocked' e e' := by
  cases h with
  | same => exact .same e
  | blocked h => exact .blocked (hb h)

namespace Disk

variable {d d' d₁ : Disk} {p q : Path} {l l' : Location}

/-- The second disk is the first one once a file was opened at this place. -/
structure Opened (l : Location) (d d' : Disk) : Prop extends Frame (· = l) d d' where
  there : ∃ content, d'.get? l = some (.file content)

/-! ## Paths -/

/-- Where the path starts from. -/
def origin (d : Disk) (p : Path) : Location := if p.isAbsolute then [] else d.here

/-- The path goes on from this place, where a directory must be. -/
def Passes (d : Disk) (p : Path) (l : Location) : Prop :=
  ∃ before name after parent, p.names.dropLast = before ++ name :: after ∧
    before.foldlM d.descend (d.origin p) = .ok parent ∧
    name ≠ Path.dot ∧ name ≠ Path.dots ∧ l = name :: parent

/-- What is missing there is in the way of the path. -/
def Blocks (d : Disk) (l : Location) (p : Path) : Prop := d.get? l = none ∧ d.Passes p l

theorem SameTree.passes (h : d.SameTree d₁) (hp : d.Passes p l) : d₁.Passes p l := by
  obtain ⟨before, name, after, parent, hnames, hd, hdot, hdots, hl⟩ := hp
  refine ⟨before, name, after, parent, hnames, ?_, hdot, hdots, hl⟩
  rw [origin, h.here]
  exact h.descends hd

theorem Frame.blocks_iff {touched : Location → Prop} (h : Frame touched d d₁) (hl : ¬ touched l) :
    d₁.Blocks l p ↔ d.Blocks l p := by
  rw [Blocks, Blocks, h.other l hl]
  exact and_congr_right fun _ => ⟨h.symm.passes, h.toSameTree.passes⟩

namespace Opened

theorem not_directory (h : Opened l d d') : d.get? l ≠ some .directory := by
  obtain ⟨content, hget⟩ := h.there
  intro hdir
  rw [(h.directories l).2 hdir] at hget
  cases hget

/-- A step from one directory to the next is as it was, unless it is to the place of the file, where
nothing was. -/
theorem descend_cases (h : Opened l d d') (parent : Location) (name : Path.Name) :
    d'.descend parent name = d.descend parent name ∨
      (name ≠ Path.dot ∧ name ≠ Path.dots ∧ l = name :: parent ∧ d.get? l = none) ∧
        d.descend parent name = .error .notFound ∧
        d'.descend parent name = .error .notDirectory := by
  unfold descend
  by_cases hdot : name = Path.dot
  · exact .inl (by rw [if_pos hdot, if_pos hdot])
  by_cases hdots : name = Path.dots
  · exact .inl (by rw [if_neg hdot, if_neg hdot, if_pos hdots, if_pos hdots])
  rw [if_neg hdot, if_neg hdot, if_neg hdots, if_neg hdots]
  by_cases hlen : 255 < ((name :: parent).headD []).length
  · exact .inl (by simp only [find, if_pos hlen])
  rw [find_of_le hlen, find_of_le hlen]
  by_cases hl : l = name :: parent
  · -- the file is no directory in either case
    subst hl
    obtain ⟨content, hget⟩ := h.there
    have hdir := h.not_directory
    rw [hget]
    cases hentry : d.get? (name :: parent) with
    | none => exact .inr ⟨⟨hdot, hdots, rfl, rfl⟩, rfl, rfl⟩
    | some entry =>
      cases entry with
      | file => exact .inl rfl
      | directory => exact absurd hentry hdir
  · exact .inl (by rw [h.other _ (Ne.symm hl)])

theorem descends_cases (h : Opened l d d') (names : List Path.Name) (start : Location) :
    names.foldlM d'.descend start = names.foldlM d.descend start ∨
      (d.get? l = none ∧ ∃ before name after parent, names = before ++ name :: after ∧
        before.foldlM d.descend start = .ok parent ∧
        name ≠ Path.dot ∧ name ≠ Path.dots ∧ l = name :: parent) ∧
        names.foldlM d.descend start = .error .notFound ∧
        names.foldlM d'.descend start = .error .notDirectory := by
  induction names generalizing start with
  | nil => exact .inl rfl
  | cons name rest ih =>
    rw [List.foldlM_cons, List.foldlM_cons]
    rcases h.descend_cases start name with he | ⟨⟨hdot, hdots, hl, hnone⟩, hd, hd'⟩
    · rw [he]
      cases hd : d.descend start name with
      | error e => exact .inl rfl
      | ok next =>
        refine (ih next).imp id fun ⟨⟨hnone, before, name', after, parent, hrest, hbefore, hthere⟩,
          hmissing⟩ => ?_
        refine ⟨⟨hnone, name :: before, name', after, parent, by rw [hrest]; rfl, ?_, hthere⟩,
          hmissing⟩
        rw [List.foldlM_cons, hd]
        exact hbefore
    · rw [hd, hd']
      exact .inr ⟨⟨hnone, [], name, rest, start, rfl, rfl, hdot, hdots, hl⟩, rfl, rfl⟩

/-- Paths lead to where they did, unless what was missing is in their way. -/
theorem follow_cases (h : Opened l d d') (p : Path) :
    d'.follow p = d.follow p ∨
      d.Blocks l p ∧ d.follow p = .error .notFound ∧ d'.follow p = .error .notDirectory := by
  unfold follow
  by_cases hempty : p.bytes.isEmpty
  · exact .inl (by rw [if_pos hempty, if_pos hempty])
  by_cases hlong : 4096 ≤ p.bytes.length
  · exact .inl (by rw [if_neg hempty, if_neg hempty, if_pos hlong, if_pos hlong])
  simp only [if_neg hempty, if_neg hlong, h.here]
  rcases h.descends_cases p.names.dropLast (d.origin p) with he | ⟨⟨hnone, hpasses⟩, hd, hd'⟩
  · rw [origin] at he
    exact .inl (by rw [he])
  · rw [origin] at hd hd'
    exact .inr ⟨⟨hnone, hpasses⟩, by rw [hd], by rw [hd']⟩

/-! ## What is found -/

theorem find_eq (h : Opened l d d') (hl : l' ≠ l) : d'.find l' = d.find l' := by
  unfold find
  rw [h.other l' hl]

/-- One location, and that of another file. -/
def Elsewhere (l l₁ l₂ : Location) : Prop := l₂ = l₁ ∧ l₁ ≠ l ∧ l₁ ≠ []

theorem elsewhere (hp : ¬ d.Leads p l) (hl : d.Writable p l') : Elsewhere l l' l' :=
  ⟨rfl, fun he => hp (he ▸ hl.leads), hl.leads.ne_nil⟩

/-- Where what is looked up at the end of a path is the same, so is the answer, or the path goes
through the place of the file. -/
theorem restated_of_follow {α : Type} {x y : Except OsError α} (h : Opened l d d')
    (hp : ¬ d.Leads p l) (hx : ∀ e, d.follow p = .error e → x = .error e)
    (hy : ∀ e, d'.follow p = .error e → y = .error e)
    (hsame : ∀ t, t ≠ .entry l → d.follow p = .ok t → d'.follow p = .ok t → y = x) :
    y = x ∨ ∃ e e', x = .error e ∧ y = .error e' ∧ OsError.Restated (d.Blocks l p) e e' := by
  rcases h.follow_cases p with he | ⟨hb, hf, hf'⟩
  · left
    cases hf : d.follow p with
    | error e => rw [hx e hf, hy e (he.trans hf)]
    | ok t => exact hsame t (fun ht => hp (hf.trans (congrArg Except.ok ht))) hf (he.trans hf)
  · exact .inr ⟨_, _, hx _ hf, hy _ hf', .blocked hb⟩

theorem agree_file (h : Opened l d d') (hp : ¬ d.Leads p l) :
    Agree (OsError.Restated (d.Blocks l p)) (fun f f' => Elsewhere l f.1 f'.1 ∧ f'.2 = f.2) (d.file p)
      (d'.file p) := by
  refine .of_ok_iff (fun found => ?_) ?_ .same fun found hfound => ?_
  · obtain ⟨l', content⟩ := found
    rw [file_eq_ok_iff, file_eq_ok_iff, h.writable_iff]
    refine and_congr_right fun hl => ?_
    rw [h.other l' (elsewhere hp hl).2.1]
  · unfold file
    refine h.restated_of_follow hp (fun e he => by rw [he]) (fun e he => by rw [he])
      fun t ht hf hf' => ?_
    rw [hf, hf']
    cases t with
    | directory => rfl
    | entry l' => simp only [h.find_eq fun he => ht (congrArg Target.entry he)]
  · exact ⟨elsewhere hp (file_eq_ok_iff.1 hfound).1, rfl⟩

theorem agree_writable (h : Opened l d d') (hp : ¬ d.Leads p l) :
    Agree (OsError.Restated (d.Blocks l p)) (Elsewhere l) (d.writable p) (d'.writable p) := by
  refine .of_ok_iff (fun l' => ?_) ?_ .same fun l' hl => elsewhere hp (writable_eq_ok_iff.1 hl)
  · rw [writable_eq_ok_iff, writable_eq_ok_iff, h.writable_iff]
  · unfold writable
    refine h.restated_of_follow hp (fun e he => by rw [he]) (fun e he => by rw [he])
      fun t ht hf hf' => ?_
    rw [hf, hf']
    cases t with
    | directory => rfl
    | entry l' => simp only [h.find_eq fun he => ht (congrArg Target.entry he)]

theorem agree_movable (h : Opened l d d') (hp : ¬ d.Leads p l) :
    Agree (OsError.Restated (d.Blocks l p)) (Elsewhere l) (d.movable p) (d'.movable p) := by
  refine .of_ok_iff (fun l' => ?_) ?_ .same fun l' hl => elsewhere hp (movable_eq_ok_iff.1 hl)
  · rw [movable_eq_ok_iff, movable_eq_ok_iff, h.writable_iff]
  · unfold movable
    refine h.restated_of_follow hp (fun e he => by rw [he]) (fun e he => by rw [he])
      fun t ht hf hf' => ?_
    rw [hf, hf']
    cases t with
    | directory => rfl
    | entry l' => simp only [h.find_eq fun he => ht (congrArg Target.entry he)]

theorem agree_read (h : Opened l d d') (hp : ¬ d.Leads p l) :
    Agree (OsError.Restated (d.Blocks l p)) Eq (d.read p) (d'.read p) :=
  (h.agree_file hp).map fun hf => hf.2.symm

/-! ## What is changed -/

theorem put (h : Opened l d d') {l₁ l₂ : Location} (hl : Elsewhere l l₁ l₂) (content : Bytes) :
    Opened l (d.put l₁ (.file content)) (d'.put l₂ (.file content)) := by
  obtain ⟨rfl, hne, hnil⟩ := hl
  refine ⟨⟨⟨h.here, fun other => ?_⟩, fun other hother => ?_⟩, ?_⟩
  · rw [get?_put _ _ hnil, get?_put _ _ hnil]
    split
    · rfl
    · exact h.directories other
  · rw [get?_put _ _ hnil, get?_put _ _ hnil, h.other other hother]
  · rw [get?_put _ _ hnil, if_neg hne.symm]
    exact h.there

theorem erase (h : Opened l d d') {l₁ l₂ : Location} (hl : Elsewhere l l₁ l₂) :
    Opened l (d.erase l₁) (d'.erase l₂) := by
  obtain ⟨rfl, hne, hnil⟩ := hl
  refine ⟨⟨⟨h.here, fun other => ?_⟩, fun other hother => ?_⟩, ?_⟩
  · rw [get?_erase _ hnil, get?_erase _ hnil]
    split
    · rfl
    · exact h.directories other
  · rw [get?_erase _ hnil, get?_erase _ hnil, h.other other hother]
  · rw [get?_erase _ hnil, if_neg hne.symm]
    exact h.there

theorem agree_write (h : Opened l d d') (hp : ¬ d.Leads p l) (content : Bytes) :
    Agree (OsError.Restated (d.Blocks l p)) (Opened l) (d.write p content) (d'.write p content) :=
  (h.agree_writable hp).map fun hl => h.put hl content

theorem agree_remove (h : Opened l d d') (hp : ¬ d.Leads p l) :
    Agree (OsError.Restated (d.Blocks l p)) (Opened l) (d.remove p) (d'.remove p) :=
  (h.agree_file hp).map fun hf => h.erase hf.1

theorem agree_move (h : Opened l d d') (hp : ¬ d.Leads p l) (hq : ¬ d.Leads q l) :
    Agree (OsError.Restated (d.Blocks l p ∨ d.Blocks l q)) (Opened l) (d.move p q) (d'.move p q) := by
  refine ((h.agree_file hp).mono (·.mono .inl)).bind fun {f f'} hf => ?_
  refine ((h.agree_movable hq).mono (·.mono .inr)).bind fun hl => ?_
  rw [hf.2]
  exact .ok ((h.erase hf.1).put hl f.2)

end Opened

/-- The answers to a request agree, and so do the disks after it, but for the file that was
opened. -/
structure Tandem (blocked : Prop) (l : Location) (x y : Except OsError Unit × Disk) : Prop where
  answers : Agree (OsError.Restated blocked) Eq x.1 y.1
  disks : Opened l x.2 y.2

theorem tandem_request {blocked : Prop} (act : Disk → Except OsError Disk) (h : Opened l d d')
    (ha : Agree (OsError.Restated blocked) (Opened l) (act d) (act d')) :
    Tandem blocked l (request act d) (request act d') := by
  unfold request
  generalize act d = x at ha
  generalize act d' = y at ha
  cases ha with
  | ok h => exact ⟨.ok rfl, h⟩
  | error he => exact ⟨.error he, h⟩

theorem frame_request {touched : Location → Prop} {act : Disk → Except OsError Disk}
    (h : ∀ d₁, act d = .ok d₁ → Frame touched d d₁) : Frame touched d (request act d).2 := by
  unfold request
  cases ha : act d with
  | ok d₁ => exact h d₁ ha
  | error => exact .refl _ _

end Disk

/-! ## Outputs -/

section
variable {d d' : Disk} {l : Location} {output : Path}

open Disk (Opened Tandem)

/-- The requests in which an output is published. -/
theorem publish_eq (output : Path) (text : String) (d : Disk) :
    publish (m := StateM Disk) output text d =
      match Disk.request (·.write output.staging (Text.Utf8.encode text)) d with
      | (.error e, d₁) => (.error e, (Disk.request (·.remove output.staging) d₁).2)
      | (.ok (), d₁) =>
        match Disk.request (·.move output.staging output) d₁ with
        | (.error e, d₂) => (.error e, (Disk.request (·.remove output.staging) d₂).2)
        | (.ok (), d₂) => (.ok (), d₂) := by
  simp only [publish, bind, StateT.bind, FileAccess.write, FileAccess.move, FileAccess.remove]
  rcases Disk.request (·.write output.staging (Text.Utf8.encode text)) d with ⟨_ | _, d₁⟩
  · rfl
  · rcases hm : Disk.request (·.move output.staging output) d₁ with ⟨_ | _, d₂⟩ <;>
      simp only [hm, StateT.bind, bind] <;> rfl

/-- An output is published as it would have been before, or refused as it would have been. -/
theorem tandem_publish (h : Opened l d d')
    (hapart : ∀ p ∈ [output.staging, output], ¬ d.Leads p l) (text : String) :
    Tandem (∃ p ∈ [output.staging, output], d.Blocks l p) l
      (publish (m := StateM Disk) output text d) (publish (m := StateM Disk) output text d') := by
  obtain ⟨hstaging, houtput⟩ : ¬ d.Leads output.staging l ∧ ¬ d.Leads output l := by
    simpa using hapart
  simp only [List.mem_cons, List.not_mem_nil, or_false, exists_eq_or_imp, exists_eq_left]
  have hwrite := Disk.tandem_request (·.write output.staging (Text.Utf8.encode text)) h
    (h.agree_write hstaging _)
  have hframe : Disk.Frame (d.Writable output.staging) d
      (Disk.request (·.write output.staging (Text.Utf8.encode text)) d).2 :=
    Disk.frame_request fun _ => Disk.frame_write
  have hkept : ¬ d.Writable output.staging l := fun hl => hstaging hl.leads
  have hblocks (p : Path) := hframe.blocks_iff (p := p) hkept
  rw [publish_eq, publish_eq]
  generalize Disk.request (·.write output.staging (Text.Utf8.encode text)) d = x at *
  generalize Disk.request (·.write output.staging (Text.Utf8.encode text)) d' = y at *
  obtain ⟨a, d₁⟩ := x
  obtain ⟨a', d₁'⟩ := y
  obtain ⟨hanswer, hdisks⟩ := hwrite
  have hremove {d₂ d₂' : Disk} (hdisks : Opened l d₂ d₂') (htree : d.SameTree d₂) :
      Opened l (Disk.request (·.remove output.staging) d₂).2
        (Disk.request (·.remove output.staging) d₂').2 :=
    (Disk.tandem_request (·.remove output.staging) hdisks
      (hdisks.agree_remove (mt htree.leads_iff.1 hstaging))).disks
  cases hanswer with
  | error he => exact ⟨.error (he.mono .inl), hremove hdisks hframe.toSameTree⟩
  | ok =>
    have hmove := Disk.tandem_request (·.move output.staging output) hdisks
      (hdisks.agree_move (mt hframe.leads_iff.1 hstaging) (mt hframe.leads_iff.1 houtput))
    have hmoved : Disk.Frame (fun l => d₁.Writable output.staging l ∨ d₁.Writable output l) d₁
        (Disk.request (·.move output.staging output) d₁).2 :=
      Disk.frame_request fun _ => Disk.frame_move
    simp only
    generalize Disk.request (·.move output.staging output) d₁ = x at *
    generalize Disk.request (·.move output.staging output) d₁' = y at *
    obtain ⟨a, d₂⟩ := x
    obtain ⟨a', d₂'⟩ := y
    obtain ⟨hanswer, hdisks⟩ := hmove
    cases hanswer with
    | ok => exact ⟨.ok rfl, hdisks⟩
    | error he =>
      refine ⟨.error (he.mono fun hb => ?_),
        hremove hdisks (hframe.toSameTree.trans hmoved.toSameTree)⟩
      simpa only [hblocks] using hb

end
end HeaderSymbols
