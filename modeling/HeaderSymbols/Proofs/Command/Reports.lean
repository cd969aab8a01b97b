import HeaderSymbols.Command.Session
import HeaderSymbols.Proofs.Messages

/-!
# The lines of a report

A report has one line for each diagnostic, in their order, and in text form one more for its
summary. In text form a diagnostic is on one line because its message and the name of its file are;
in JSON form because the library that writes it escapes control characters, whatever it quotes.

* `isLines_unlines`: lines put together, and cut apart again.
* `escapes_standard`: what is asked of the library (`Libraries.Escapes`) is what JSON text as it is
  written here keeps.
* `Diagnostic.Single.report`: a diagnostic is on one line, in either form.
* `Failure.Reportable.isLines_report`: so these are the lines of a report.
* `reportable_ofFindings`, `eq_ofFindings_of_convert`: what a conversion that fails has to report.
-/
namespace HeaderSymbols

/-! ## Lines -/

/-- Cut at line feeds, the text is these lines, and nothing after the last of them. -/
def IsLines (text : String) (lines : List String) : Prop :=
  text.toList.splitOn '\n' = lines.map String.toList ++ [[]]

theorem unlines_cons (line : String) (lines : List String) :
    unlines (line :: lines) = line ++ "\n" ++ unlines lines := by simp [unlines]

theorem isLines_unlines {lines : List String} (h : ∀ l ∈ lines, Single l) :
    IsLines (unlines lines) lines := by
  induction lines with
  | nil => rfl
  | cons line rest ih =>
    obtain ⟨hline, hrest⟩ := List.forall_mem_cons.1 h
    have hcut : (unlines (line :: rest)).toList = line.toList ++ '\n' :: (unlines rest).toList := by
      simp [unlines_cons, String.toList_append]
    have hfirst := List.splitOnP_append_cons_of_forall_mem (p := (· == '\n'))
      (fun c hc => by simpa using fun he : c = '\n' => hline (he ▸ hc)) '\n' (by decide)
      (unlines rest).toList
    rw [IsLines, hcut, List.splitOn, hfirst]
    exact congrArg (line.toList :: ·) (ih hrest)

/-! ## JSON -/

theorem single_toString (n : Nat) : Single (toString n) := by
  intro hn
  rw [Nat.toString_eq_ofList_toDigits, String.toList_ofList] at hn
  have hdigit := Nat.isDigit_of_mem_toDigits (by decide) (Nat.le_refl 10) hn
  cases hdigit

/-- There are no control characters in the text. -/
def isPrintable (s : String) : Bool := s.toList.all fun c => 0x20 ≤ c.toNat

theorem single_of_isPrintable {s : String} (h : isPrintable s = true) : Single s := fun hn =>
  absurd (of_decide_eq_true (List.all_eq_true.1 h '\n' hn)) (by decide)

theorem isPrintable_append {s t : String} (hs : isPrintable s = true) (ht : isPrintable t = true) :
    isPrintable (s ++ t) = true := by
  rw [isPrintable, String.toList_append, List.all_append, Bool.and_eq_true]
  exact ⟨hs, ht⟩

/-- JSON text is written in one piece: control characters are escaped where they are quoted, and
there are none between the parts. -/
def Libraries.Escapes (lib : Libraries) : Prop := ∀ members, isPrintable (lib.object members) = true

theorem isPrintable_toString (n : Nat) : isPrintable (toString n) = true := by
  rw [isPrintable, Nat.toString_eq_ofList_toDigits, String.toList_ofList, List.all_eq_true]
  intro c hc
  have hdigit := Nat.isDigit_of_mem_toDigits (by decide) (Nat.le_refl 10) hc
  simp only [Char.isDigit, Bool.and_eq_true, decide_eq_true_eq] at hdigit
  exact decide_eq_true (Nat.le_trans (by decide) (show '0'.toNat ≤ c.toNat from hdigit.1))

namespace Text

theorem le_toNat_digitChar : ∀ d < 16, 0x20 ≤ (Nat.digitChar d).toNat := by decide

theorem all_escape (c : Char) : (Scalar.escape c).all (fun x => 0x20 ≤ x.toNat) = true := by
  unfold Scalar.escape
  split
  · rename_i hc
    rcases hc with rfl | rfl <;> rfl
  iterate 5
    split
    · rfl
  split
  · have hfirst := le_toNat_digitChar (c.toNat / 16) (by omega)
    have hsecond := le_toNat_digitChar (c.toNat % 16) (Nat.mod_lt _ (by decide))
    simp [hfirst, hsecond]
  · rename_i hc
    simpa using hc

theorem Scalar.isPrintable_quote (s : String) : isPrintable (quote s) = true := by
  have hinside : (s.toList.flatMap escape).all (fun x => 0x20 ≤ x.toNat) = true := by
    rw [List.all_flatMap, List.all_eq_true]
    exact fun c _ => all_escape c
  rw [isPrintable, quote, String.toList_ofList, List.cons_append, List.all_cons, List.all_append,
    hinside]
  rfl

theorem Scalar.isPrintable_render (value : Scalar) : isPrintable value.render = true := by
  cases value with
  | null => rfl
  | number n => exact isPrintable_toString n
  | text s => exact isPrintable_quote s

theorem isPrintable_intercalate {separator : String} (hs : isPrintable separator = true)
    {texts : List String} (h : ∀ t ∈ texts, isPrintable t = true) :
    isPrintable (String.intercalate separator texts) = true := by
  induction texts with
  | nil => rfl
  | cons first rest ih =>
    obtain ⟨hfirst, hrest⟩ := List.forall_mem_cons.1 h
    cases rest with
    | nil => simpa using hfirst
    | cons second rest =>
      rw [String.intercalate_cons_cons]
      exact isPrintable_append (isPrintable_append hfirst hs) (ih hrest)

end Text

/-- An object has no control characters, whatever it quotes. -/
theorem escapes_standard : Libraries.standard.Escapes := by
  intro members
  have hmembers : isPrintable (String.intercalate ","
      (members.map fun m => Text.Scalar.quote m.1 ++ ":" ++ m.2.render)) = true := by
    refine Text.isPrintable_intercalate rfl fun t ht => ?_
    obtain ⟨member, -, rfl⟩ := List.mem_map.1 ht
    exact isPrintable_append (isPrintable_append (Text.Scalar.isPrintable_quote _) rfl)
      (Text.Scalar.isPrintable_render _)
  exact isPrintable_append (isPrintable_append (s := "\x7b") rfl hmembers) rfl

/-! ## Diagnostics -/

/-- The name of the file and the message are on one line. -/
structure Diagnostic.Single (d : Diagnostic) : Prop where
  file : HeaderSymbols.Single d.file
  message : HeaderSymbols.Single d.problem.message

theorem Diagnostic.Single.report {lib : Libraries} (hlib : lib.Escapes) {d : Diagnostic}
    (h : d.Single) (format : Format) : HeaderSymbols.Single (d.report lib format) := by
  cases format with
  | json => exact single_of_isPrintable (hlib _)
  | text =>
    simp only [Diagnostic.report, Diagnostic.text]
    split
    · exact (((h.file.append (by decide)).append (single_toString _)).append (by decide)).append
        h.message
    · exact (h.file.append (by decide)).append h.message

/-! ## Reports -/

/-- A failure that says in lines what it is about: there are diagnostics, and all that they and the
summary say is on one line. -/
structure Failure.Reportable (f : Failure) : Prop where
  diagnosed : f.diagnostics ≠ []
  diagnostics : ∀ d ∈ f.diagnostics, d.Single
  summary : Single f.summary.message

section
variable (lib : Libraries)

/-- What is said of a failure, as one text. -/
def Failure.report (f : Failure) (format : Format) : String := unlines (f.lines lib format)

theorem Failure.lines_json (f : Failure) :
    f.lines lib .json = f.diagnostics.map (·.report lib .json) := List.append_nil _

theorem Failure.lines_text (f : Failure) :
    f.lines lib .text = f.diagnostics.map (·.report lib .text) ++ [f.summary.message] := rfl

end

/-- The summary of a conversion that fails has the number of its diagnostics. -/
theorem Failure.summary_ofLog (log : Log) :
    (Failure.ofLog log).summary.message =
      "Conversion failed with " ++ toString (Failure.ofLog log).diagnostics.length ++ " error(s)" :=
  rfl

theorem Failure.Reportable.isLines_report {lib : Libraries} (hlib : lib.Escapes) {f : Failure}
    (h : f.Reportable) (format : Format) :
    IsLines (f.report lib format) (f.lines lib format) := by
  refine isLines_unlines fun l hl => ?_
  rcases List.mem_append.1 hl with hl | hl
  · obtain ⟨d, hd, rfl⟩ := List.mem_map.1 hl
    exact (h.diagnostics d hd).report hlib format
  · cases format with
    | text => exact List.mem_singleton.1 hl ▸ h.summary
    | json => cases hl

theorem diagnostics_ofFindings (file : String) (findings : List Finding) :
    (Failure.ofLog (.ofFindings file findings)).diagnostics =
      findings.map fun f => ⟨file, f.line, f.fault.problem⟩ := rfl

/-- Findings are reported in the order in which they were recorded, and then counted. -/
theorem reportable_ofFindings {file : String} (hfile : Single file) {findings : List Finding}
    (hne : findings ≠ []) (hs : ∀ f ∈ findings, f.fault.Single) :
    (Failure.ofLog (.ofFindings file findings)).Reportable where
  diagnosed hnone := hne (List.map_eq_nil_iff.1 hnone)
  diagnostics d hd := by
    obtain ⟨f, hf, rfl⟩ := List.mem_map.1 hd
    exact ⟨hfile, hs f hf⟩
  summary := ((show Single "Conversion failed with " by decide).append
    (single_toString _)).append (by decide)

/-- A conversion that fails has all that was found in its source to report. -/
theorem eq_ofFindings_of_convert {o : Options} {file source : String} {failure : Failure}
    (h : convert o file source = .error failure) :
    foundIn source ≠ [] ∧ failure = .ofLog (.ofFindings file (foundIn source)) := by
  rw [convert_eq] at h
  split at h
  · cases h
  · rename_i hfound
    exact ⟨hfound, (Except.error.inj h).symm⟩

end HeaderSymbols
