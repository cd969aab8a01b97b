import HeaderSymbols.Conversion
import HeaderSymbols.Proofs.Layout.Descent
import HeaderSymbols.Proofs.Source.Origin
import HeaderSymbols.Proofs.Source.Wording
import HeaderSymbols.Proofs.Text.Digits

/-!
# Numbers in headers and outputs

What is read as a number, what looks like one, and what is printed for one are told in three places,
and they agree. A word that is read as a number looks like one, so that an assignment takes it as
that number and not as a reference; and a reference stays none when it is qualified, for an
underscore is no digit. In an output, what stands after the equals sign is then a number exactly
where a number is meant.

* `draws_layout`, `emits_of_mem_ofModel`: each line that is emitted is one that some item asks for.
* `step_of_number`: an assignment of a number.
* `parse?_qualify_undot`: a reference is no number, in whatever namespaces.
* `numbers_are_exact`: so what is read, printed and emitted.
-/
namespace HeaderSymbols

/-! ## What is emitted -/

/-- The lines that an item asks for, in whatever namespaces and at whatever address it stands. -/
inductive Item.Emits : Item → OutputLine → Prop where
  | text (comment : Option String) : Emits (.text comment) (.text comment)
  | assignment (ns : Namespaces) (name : String) (value : Value) (comment : Option String) :
    Emits (.assignment name value comment) (.symbol (ns.qualify name) value comment)
  | member (ns : Namespaces) (mem : Member) (address : UInt64) :
    Emits (.member mem) (.symbol (ns.qualify mem.name) (.number address) mem.comment)

/-- The lines that the second emitter has and the first has not are asked for in the model. -/
def Emitter.Draws (m : Model) (e e' : Emitter) : Prop :=
  ∀ l ∈ e'.lines, l ∈ e.lines ∨ ∃ id, ∃ i ∈ m.members id, i.Emits l

namespace Emitter

variable {m : Model} {e e' e'' : Emitter}

theorem Draws.of_lines_eq (h : e'.lines = e.lines) : e.Draws m e' :=
  fun _ hl => .inl (h ▸ hl)

theorem Draws.trans (h : e.Draws m e') (h' : e'.Draws m e'') : e.Draws m e'' := by
  intro l hl
  rcases h' l hl with hl | hnew
  · exact h l hl
  · exact .inr hnew

theorem draws_emit {id : GroupId} {i : Item} (hi : i ∈ m.members id) {line : OutputLine}
    (h : i.Emits line) : e.Draws m (e.emit line) := by
  intro l hl
  rcases Array.mem_push.1 hl with hl | rfl
  · exact .inl hl
  · exact .inr ⟨id, i, hi, h⟩

theorem draws_field {id : GroupId} {mem : Member} (hi : .member mem ∈ m.members id)
    (start : Cursor) : e.Draws m (e.field mem start).1 := by
  cases start with
  | none => exact .of_lines_eq rfl
  | some address =>
    have hdefine : e.Draws m (e.define mem.name (.number address) mem.comment) :=
      draws_emit hi (.member e.namespaces mem address)
    refine hdefine.trans (.of_lines_eq ?_)
    simp only [field]
    split
    · exact lines_advance ..
    · rfl

theorem draws_visit {id : GroupId} {i : Item} (hi : i ∈ m.members id) (path : List GroupId)
    (start : Cursor) (e : Emitter) : e.Draws m (e.visit m path start i).1 := by
  cases i with
  | text comment => exact draws_emit hi (.text comment)
  | assignment name value comment => exact draws_emit hi (.assignment _ name value comment)
  | enter | leave | region | group => exact .of_lines_eq rfl
  | skip amount line =>
    cases start with
    | none => exact .of_lines_eq rfl
    | some address => exact .of_lines_eq (lines_advance ..)
  | member mem =>
    simp only [visit, member]
    split
    · exact draws_field hi start
    · split <;> exact .of_lines_eq rfl

end Emitter

section
variable {m : Model} (hm : m.WellNested)

include hm

theorem Descent.draws_layout (path : List GroupId) (id : GroupId) :
    Yields hm (fun _ _ e _ _ e' => e.Draws m e') (fun _ _ _ _ _ e _ e' => e.Draws m e')
      (fun _ _ _ e _ e' => e.Draws m e') path id := by
  refine induct hm (fun {path _ start e i _ e'} hi hv => ?finish) (fun _ _ hg => hg)
    (fun _ _ _ hg => ?expand) (.of_lines_eq rfl) (fun _ _ hfirst _ hrest => hfirst.trans hrest)
    (fun h => h) path id
  case finish =>
    have hvisit := Emitter.draws_visit hi path start e
    rwa [hv] at hvisit
  case expand => exact ((Emitter.Draws.of_lines_eq rfl).trans hg).trans (.of_lines_eq rfl)

namespace Emitter

theorem draws_group (e : Emitter) (id : GroupId) (start : Cursor) :
    e.Draws m (e.group m id start).2 := by
  rw [Descent.group_eq hm]
  exact (Descent.draws_layout hm [id] id).group rfl

theorem draws_named (e : Emitter) (namespaceName key : String) (start : UInt64) :
    e.Draws m (e.named m namespaceName key start).2 := by
  unfold named
  split
  · exact .of_lines_eq rfl
  · have hgroup := draws_group hm (e.clear.enter namespaceName)
    exact ((Draws.of_lines_eq rfl).trans (hgroup _ _)).trans (.of_lines_eq rfl)

/-- **Lines.** Whatever is emitted for a model is asked for by an item of it. -/
theorem emits_of_mem_ofModel {l : OutputLine} (hl : l ∈ (ofModel m).lines) :
    ∃ id, ∃ i ∈ m.members id, i.Emits l := by
  have hdocument : new.Draws m (new.document m).2 :=
    (Draws.of_lines_eq rfl).trans (draws_group hm new.clear Model.document none)
  have htrailers := hdocument.trans
    ((draws_named hm _ "kernel_event" "kernel_event_event_t" 0).trans
      (draws_named hm _ "kernel_time" "kernel_time_t" 0))
  rcases htrailers l hl with hl | h
  · simp [new] at hl
  · exact h

end Emitter

end

/-! ## Numbers and references -/

/-- A word that is read as a number is taken as that number where it is assigned. -/
theorem Directive.operand_of_parse? {text : String} {v : UInt64} (h : Number.parse? text = some v) :
    operand text = .ok (.number v) := by
  rw [operand, if_pos (Number.isLiteral_of_parse? h), number, h]
  rfl

theorem Reading.step_of_number {line : Line} {name text : String} {v : UInt64}
    (hwords : line.words = [name, "=", text]) (h : Number.parse? text = some v) (r : Reading)
    (number : UInt32) :
    r.step line number = r.place (.assignment name (.number v) line.comment) := by
  have hline : Directive.ofLine line = .ok (.assign name (.number v)) := by
    simp only [Directive.ofLine, hwords, Directive.ofWords?, Directive.ofTriple, if_true,
      Directive.operand_of_parse? h]
    rfl
  rw [step_of_ok hline]
  rfl

theorem Number.underscore_not_mem {text : String} {v : UInt64} (h : parse? text = some v) :
    '_' ∉ text.toList := by
  have hdigits {base : Nat} (hb : base ≤ 16) {digits : List Char} {n : Nat}
      (hd : Denotes base digits n) : '_' ∉ digits := by
    intro hmem
    have hdigit := isSome_digit?_of_value? ((denotes_iff hb).1 hd).2 '_' hmem
    obtain ⟨d, hd⟩ := Option.isSome_iff_exists.1 hdigit
    cases ((digit?_sixteen_iff hb).1 hd).1
  rcases parse?_eq_some_iff.1 h with ⟨digits, ht, hd⟩ | hd
  · rw [ht, List.mem_cons, not_or]
    exact ⟨by decide, hdigits (Nat.le_refl 16) hd⟩
  · exact hdigits (by decide) hd

/-- The name of an open namespace has an underscore after it. -/
theorem Namespaces.eq_root_of_underscore_not_mem {ns : Namespaces}
    (h : '_' ∉ ns.qualifier.toList) : ns = .root := by
  obtain ⟨_ | ⟨name, outer⟩⟩ := ns
  · rfl
  · have hq := qualifier_enter ⟨outer⟩ name
    rw [enter] at hq
    rw [hq, String.toList_append] at h
    exact absurd (List.mem_append_right _ (.head _)) h

theorem dot_not_mem_of_undot {text : String} (h : '_' ∉ (undot text).toList) :
    '.' ∉ text.toList := by
  rw [undot, String.toList_ofList] at h
  exact fun hdot => h (List.mem_map.2 ⟨'.', hdot, rfl⟩)

/-- A reference that does not look like a number is not read as one where it is assigned, whatever
the namespaces are called. -/
theorem Number.parse?_qualify_undot (ns : Namespaces) {text : String}
    (h : ¬ Grammar.LooksNumeric text) : parse? (ns.qualify (undot text)) = none := by
  cases hp : parse? (ns.qualify (undot text)) with
  | none => rfl
  | some v =>
    -- an open namespace and a dot would each have left an underscore
    have hunderscore := underscore_not_mem hp
    rw [Namespaces.qualify, String.toList_append, List.mem_append, not_or] at hunderscore
    obtain ⟨hqualifier, htext⟩ := hunderscore
    rw [Namespaces.eq_root_of_underscore_not_mem hqualifier, Namespaces.qualify,
      Namespaces.qualifier_root, String.empty_append,
      undot_of_dot_not_mem (dot_not_mem_of_undot htext)] at hp
    exact absurd (Grammar.isLiteral_iff.1 (isLiteral_of_parse? hp)) h

/-! ## Values -/

/-- A value that is read back as what it is, where it is that of a symbol in the output for these
lines. A reference is read as no number, and neither is the word that it was made of. -/
def Value.ReadAsMeant (lines : List Line) : Value → Prop
  | number n => Number.parse? (Value.number n).text = some n
  | symbol s => Number.parse? s = none ∧
    ∃ line ∈ lines, ∃ name text ns, line.words = [name, "=", text] ∧ Number.parse? text = none ∧
      s = Namespaces.qualify ns (undot text)

/-- What is assigned in the model of a source is read as it is meant. -/
theorem Reading.readAsMeant_of_assignment {lines : List Line} {id : GroupId} {name : String}
    {value : Value} {comment : Option String}
    (hi : .assignment name value comment ∈ (ofLines lines).model.members id) :
    value.ReadAsMeant lines := by
  rw [ofLines, finish_model] at hi
  obtain ⟨r, line, number, ⟨before, rest, hsource, rfl⟩, hgives⟩ := exists_gives hi rfl
  have hline : line ∈ lines := by
    rw [← numbered_fst lines, hsource]
    exact List.mem_map_of_mem (List.mem_append_right before (.head rest))
  obtain ⟨operand, hdirective, rfl⟩ := hgives.assignment
  have hspelled := Directive.spelled_ofLine hdirective
  generalize hwords : line.words = words at hspelled
  cases hspelled with
  | alone listed => simp [Directive.alone] at listed
  | assignNumber => exact Number.parse?_hex _
  | @assignReference text _ plain =>
    have hnone : Number.parse? text = none :=
      Option.eq_none_iff_forall_ne_some.2 fun v hv =>
        plain (Grammar.isLiteral_iff.1 (Number.isLiteral_of_parse? hv))
    exact ⟨Number.parse?_qualify_undot _ plain, line, hline, name, text, _, hwords, hnone, rfl⟩

/-- **Numbers.** A text is read as a number exactly if it spells one that fits 64 bits, and as that
one. What is printed for a number is read as the number, and is the shortest of its spellings in
lower case, with no other so short. Whatever is read as a number is taken as that number where it is
assigned, so that no symbol of an output is a number under a qualified name. -/
theorem numbers_are_exact :
    (∀ text n, (Number.parse? text).map UInt64.toNat = some n ↔
      Number.Spells text n ∧ n < UInt64.size) ∧
    (∀ text, Number.parse? text = none ↔ ∀ n < UInt64.size, ¬ Number.Spells text n) ∧
    (∀ v, Number.parse? (Number.hex v) = some v ∧
      Number.Canonical (Number.hex v) v.toNat) ∧
    (∀ text v, Number.parse? text = some v → Number.isLiteral text = true ∧
      ∀ (r : Reading) (line : Line) number name, line.words = [name, "=", text] →
        r.step line number = r.place (.assignment name (.number v) line.comment)) ∧
    ∀ lines name value comment,
      .symbol name value comment ∈ (Emitter.ofModel (Reading.ofLines lines).model).lines →
        value.ReadAsMeant lines := by
  refine ⟨fun text n => Number.map_toNat_parse?, fun text => Number.parse?_eq_none_iff,
    fun v => ⟨Number.parse?_hex v, Number.canonical_hex v⟩, fun text v h => ?literal,
    fun lines name value comment hl => ?emitted⟩
  case literal =>
    exact ⟨Number.isLiteral_of_parse? h, fun r line number name hwords =>
      Reading.step_of_number hwords h r number⟩
  case emitted =>
    obtain ⟨id, i, hi, hemits⟩ :=
      Emitter.emits_of_mem_ofModel (Reading.wellNested_ofLines lines) hl
    cases hemits with
    | assignment => exact Reading.readAsMeant_of_assignment hi
    | member ns mem address => exact Number.parse?_hex address

/-- A number with zeros before it and digits of both cases, a reference, and the first number that
does not fit. -/
theorem numbers_are_exact_specimen :
    let lines := Line.ofSource "size = $00Ff\nalias = kernel.size\n"
    let m := (Reading.ofLines lines).model
    Number.Spells "$00Ff" 255 ∧ Number.hex 255 = "$ff" ∧
      Number.parse? "18446744073709551616" = none ∧
      (Emitter.ofModel m).lines = #[.symbol "size" (.number 255) none,
        .symbol "alias" (.symbol "kernel_size") none] ∧
      Number.parse? "kernel_size" = none := by
  intro lines m
  obtain ⟨hreads, -, -, -, hemitted⟩ := numbers_are_exact
  have hmodel : m = ⟨#[⟨.struct, #[.assignment "size" (.number 255) none,
      .assignment "alias" (.symbol "kernel_size") none]⟩], []⟩ := by decide +kernel
  have hdocument : Emitter.new.document m = (none, ⟨.root, #[.symbol "size" (.number 255) none,
      .symbol "alias" (.symbol "kernel_size") none], #[], 2⟩) := by
    rw [hmodel]
    exact Walk.run_eq_of_reaches (.step (.step (.step (.refl _))))
  have hlines : (Emitter.ofModel m).lines = #[.symbol "size" (.number 255) none,
      .symbol "alias" (.symbol "kernel_size") none] := by
    rw [Emitter.ofModel, hdocument, hmodel]
    rfl
  refine ⟨((hreads "$00Ff" 255).1 (by decide)).1, by decide, by decide, hlines, ?_⟩
  exact (hemitted lines "alias" (.symbol "kernel_size") none (hlines ▸ by simp)).1

end HeaderSymbols
