import HeaderSymbols.Proofs.Source.Acceptance

/-!
# How directives are spelled

* `Spelled`: the words with which each directive is asked for.
* `spelled_ofLine`: what a line asks for is spelled by its words.
* `ofLine_eq_blank_iff`: nothing is asked for without words, and only then.
-/
namespace HeaderSymbols.Directive

/-- The words with which a directive is asked for. -/
inductive Spelled : List String → Directive → Prop where
  | blank : Spelled [] blank
  | alone {word d} (listed : (word, d) ∈ alone) : Spelled [word] d
  | enter (name : String) : Spelled [name, ".namespace"] (enter name)
  | region {text n} (reads : Number.parse? text = some n) : Spelled [".virtual", text] (region n)
  | openNamed (name : String) : Spelled [name, ".struct"] (openNamed name)
  | skipWord (word : String) : Spelled [".word", word] (skip 2)
  | skipFill {text n} (reads : Number.parse? text = some n) : Spelled [".fill", text] (skip n)
  | closeNamed (word : String) : Spelled [word, ".ends"] closeNamed
  | assignNumber {text n} (name : String) (reads : Number.parse? text = some n) :
    Spelled [name, "=", text] (assign name (.number n))
  | assignReference {text} (name : String) (plain : ¬ Grammar.LooksNumeric text) :
    Spelled [name, "=", text] (assign name (.reference text))
  | field {keyword size} (name word : String)
      (listed : (keyword, size) ∈ [(".byte", 1), (".word", 2), (".dword", 4)]) :
    Spelled [name, keyword, word] (field name size)
  | fill {text n} (name : String) (reads : Number.parse? text = some n) :
    Spelled [name, ".fill", text] (field name n)
  | instantiate (name reference : String) :
    Spelled [name, ".dstruct", reference] (instantiate name reference)

theorem number_map_eq_ok {text : String} {f : UInt64 → Directive} {d : Directive}
    (h : (number text).map f = .ok d) : ∃ n, Number.parse? text = some n ∧ d = f n := by
  unfold number at h
  split at h
  · rename_i n hn
    cases h
    exact ⟨n, hn, rfl⟩
  · cases h

theorem spelled_ofPair {first second : String} {d : Directive}
    (h : ofPair first second = some (.ok d)) : Spelled [first, second] d := by
  unfold ofPair at h
  split at h
  · rename_i hk
    cases h
    exact hk ▸ .enter first
  split at h
  · rename_i hk
    obtain ⟨n, hn, rfl⟩ := number_map_eq_ok (Option.some.inj h)
    exact hk ▸ .region hn
  split at h
  · rename_i hk
    cases h
    exact hk ▸ .openNamed first
  split at h
  · rename_i hk
    cases h
    exact hk ▸ .skipWord second
  split at h
  · rename_i hk
    obtain ⟨n, hn, rfl⟩ := number_map_eq_ok (Option.some.inj h)
    exact hk ▸ .skipFill hn
  split at h
  · rename_i hk
    cases h
    exact hk ▸ .closeNamed first
  · cases h

theorem spelled_assign {name text : String} {d : Directive}
    (h : (operand text).map (assign name) = .ok d) : Spelled [name, "=", text] d := by
  unfold operand at h
  split at h
  · have hmap : ((number text).map Operand.number).map (assign name) =
        (number text).map fun n => assign name (.number n) := by
      cases number text <;> rfl
    obtain ⟨n, hn, rfl⟩ := number_map_eq_ok (hmap ▸ h)
    exact .assignNumber name hn
  · rename_i hl
    cases h
    exact .assignReference name fun hn => hl (Grammar.isLiteral_iff.2 hn)

theorem spelled_ofTriple {name keyword argument : String} {d : Directive}
    (h : ofTriple name keyword argument = some (.ok d)) : Spelled [name, keyword, argument] d := by
  unfold ofTriple at h
  split at h
  · rename_i hk
    exact hk ▸ spelled_assign (Option.some.inj h)
  split at h
  · rename_i hk
    cases h
    exact hk ▸ .field name argument (by decide)
  split at h
  · rename_i hk
    cases h
    exact hk ▸ .field name argument (by decide)
  split at h
  · rename_i hk
    cases h
    exact hk ▸ .field name argument (by decide)
  split at h
  · rename_i hk
    obtain ⟨n, hn, rfl⟩ := number_map_eq_ok (Option.some.inj h)
    exact hk ▸ .fill name hn
  split at h
  · rename_i hk
    cases h
    exact hk ▸ .instantiate name argument
  · cases h

theorem spelled_ofWords {words : List String} {d : Directive}
    (h : ofWords? words = some (.ok d)) : Spelled words d := by
  unfold ofWords? at h
  split at h
  · cases h
    exact .blank
  · rename_i word
    obtain ⟨found, hl, hd⟩ := Option.map_eq_some_iff.1 h
    cases hd
    obtain ⟨before, after, hl, -⟩ := List.lookup_eq_some_iff.1 hl
    exact .alone (hl ▸ List.mem_append_right before (.head after))
  · exact spelled_ofPair h
  · exact spelled_ofTriple h
  · cases h

theorem spelled_ofLine {line : Line} {d : Directive} (h : ofLine line = .ok d) :
    Spelled line.words d := by
  unfold ofLine at h
  cases hr : ofWords? line.words with
  | none => rw [hr] at h; cases h
  | some read =>
    rw [hr, Option.getD_some] at h
    exact spelled_ofWords (h ▸ hr)

/-- A line asks for nothing exactly if it has no words. -/
theorem ofLine_eq_blank_iff (line : Line) : ofLine line = .ok .blank ↔ line.words = [] := by
  constructor
  · intro h
    have hs := spelled_ofLine h
    generalize line.words = words at hs ⊢
    cases hs with
    | blank => rfl
    | alone listed => simp [alone] at listed
  · intro h
    simp [ofLine, ofWords?, h]

end HeaderSymbols.Directive
