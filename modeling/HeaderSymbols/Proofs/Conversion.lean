import HeaderSymbols.Proofs.Layout.Adequacy

/-!
# What a conversion succeeds with

* `alike_convert`: when two conversions have related ends.
* `convert_eq_ok_iff`: a conversion succeeds exactly if nothing was wrong with the source and
  its model is laid out as meant, and then with the prologue and the entries of that layout.
-/
namespace HeaderSymbols

theorem Intended.Entry.renderAll_entries (e : Emitter) : renderAll e.entries = e.output := by
  simp only [renderAll, Emitter.entries, Emitter.output, OutputLine.renderAll, List.map_map]
  congr 2
  funext line
  simp only [Function.comp_apply, OutputLine.render_entry]

theorem Intended.Entry.countP_entries (e : Emitter) :
    e.entries.countP isSymbol = Emitter.countSymbols e.lines := by
  have hs : isSymbol ∘ OutputLine.entry = OutputLine.isSymbol :=
    funext OutputLine.isSymbol_entry
  rw [Emitter.entries, Emitter.countSymbols, List.countP_map, hs, Array.countP_toList]

/-- The log of a conversion is empty if neither the reading nor the layout found anything. -/
theorem Log.isEmpty_ofFindings (file : String) (read laid : Array Finding) :
    (ofFindings file (read ++ laid).toList).isEmpty = true ↔ read = #[] ∧ laid = #[] := by
  simp [ofFindings, isEmpty]

/-! ## Two conversions -/

/-- What is laid out for a source. -/
def layoutOf (source : String) : Emitter :=
  Emitter.ofModel (Reading.ofLines (Line.ofSource source)).model

/-- All that is found in a source, when it is read and when it is laid out. -/
def foundIn (source : String) : List Finding :=
  ((Reading.ofLines (Line.ofSource source)).findings ++ (layoutOf source).findings).toList

/-- A conversion succeeds where nothing is found, and fails with all that is found. -/
theorem convert_eq (o : Options) (file source : String) :
    convert o file source =
      if foundIn source = [] then
        .ok ⟨o.prologue ++ (layoutOf source).output, (Line.ofSource source).length,
          (layoutOf source).symbols⟩
      else .error (.ofLog (.ofFindings file (foundIn source))) := by
  have hempty : (Log.ofFindings file (foundIn source)).isEmpty = true ↔ foundIn source = [] := by
    simp [Log.ofFindings, Log.isEmpty]
  simp only [← hempty]
  rfl

/-- Two attempts that both succeed, with conversions so related, or both fail, with failures so
related. -/
inductive Alike (success : Conversion → Conversion → Prop) (failure : Failure → Failure → Prop) :
    Except Failure Conversion → Except Failure Conversion → Prop where
  | ok {c c' : Conversion} (h : success c c') : Alike success failure (.ok c) (.ok c')
  | error {f f' : Failure} (h : failure f f') : Alike success failure (.error f) (.error f')

/-- Two conversions are alike where something is found in both sources or in neither. -/
theorem alike_convert {success : Conversion → Conversion → Prop}
    {failure : Failure → Failure → Prop} (o : Options) (file : String) {source source' : String}
    (hfound : foundIn source' = [] ↔ foundIn source = [])
    (hok : success
      ⟨o.prologue ++ (layoutOf source).output, (Line.ofSource source).length,
        (layoutOf source).symbols⟩
      ⟨o.prologue ++ (layoutOf source').output, (Line.ofSource source').length,
        (layoutOf source').symbols⟩)
    (herror : failure (.ofLog (.ofFindings file (foundIn source)))
      (.ofLog (.ofFindings file (foundIn source')))) :
    Alike success failure (convert o file source) (convert o file source') := by
  rw [convert_eq, convert_eq]
  by_cases h : foundIn source = []
  · rw [if_pos h, if_pos (hfound.2 h)]
    exact .ok hok
  · rw [if_neg h, if_neg (mt hfound.1 h)]
    exact .error herror

/-! ## One conversion -/

/-- **Conversion.** For every source and all options: a conversion succeeds if and only if
reading the source found nothing wrong and the document and both structures after it are laid
out as meant. It yields the prologue and the lines of that layout, the number of lines of the
source, and the number of symbols in the layout. -/
theorem convert_eq_ok_iff (o : Options) (file source : String) (c : Conversion) :
    convert o file source = .ok c ↔
      (Reading.ofLines (Line.ofSource source)).findings = #[] ∧
        ∃ entries, Intended.Laid (Reading.ofLines (Line.ofSource source)).model entries ∧
          c = ⟨o.prologue ++ Intended.Entry.renderAll entries, (Line.ofSource source).length,
            entries.countP Intended.Entry.isSymbol⟩ := by
  have hm := Reading.wellFormed_ofLines (Line.ofSource source)
  have hsymbols := Emitter.symbols_ofModel hm.wellNested
  simp only [Emitter.laid_iff hm]
  constructor
  · intro h
    simp only [convert] at h
    split at h
    · rename_i hlog
      cases h
      obtain ⟨hr, he⟩ := (Log.isEmpty_ofFindings ..).1 hlog
      refine ⟨hr, _, ⟨he, rfl⟩, ?_⟩
      rw [Intended.Entry.renderAll_entries, Intended.Entry.countP_entries, hsymbols]
    · cases h
  · rintro ⟨hr, _, ⟨he, rfl⟩, rfl⟩
    simp only [convert]
    rw [if_pos ((Log.isEmpty_ofFindings ..).2 ⟨hr, he⟩), Intended.Entry.renderAll_entries,
      Intended.Entry.countP_entries, hsymbols]

end HeaderSymbols
