import HeaderSymbols.Proofs.Source.Blocks
import HeaderSymbols.Proofs.Source.Grammar
import HeaderSymbols.Proofs.Source.Rejection

/-!
# Which headers are read without a finding

* `closing_opens_iff`, `closing_closes_iff`: how the first bracket of a word decides what is left
  to be closed in the rest of it.
* `tallies`: a line has a form, with its numbers, exactly if it is a directive, and then the form
  means for groups and namespaces what the directive does.
* `views_step`: a directive leaves a finding exactly if no bracket can stand there, and else what
  is open after it is what the bracket says.
* `findings_ofLines_eq_empty_iff`: a source is read without a finding exactly if it is in the
  language of headers.
-/
namespace HeaderSymbols

namespace Grammar

/-! ## Words from inside of brackets -/

section
variable {α β : Type}

/-- The words that close these open brackets, the innermost first, and are balanced elsewhere. -/
inductive Closing (Fits : α → β → Prop) : List α → List (Bracket α β) → Prop where
  | done {w} (after : Balanced Fits w) : Closing Fits [] w
  | close {a b outer inner w} (fits : Fits a b) (inside : Balanced Fits inner)
      (after : Closing Fits outer w) : Closing Fits (a :: outer) (inner ++ .closes b :: w)

variable {Fits : α → β → Prop} {a : α} {b : β} {st : List α} {w : List (Bracket α β)}

theorem closing_nil_iff : Closing Fits st [] ↔ st = [] := by
  constructor
  · intro h
    generalize hw : ([] : List (Bracket α β)) = w at h
    cases h with
    | done => rfl
    | close => simp at hw
  · rintro rfl
    exact .done .nil

theorem closing_root_iff : Closing Fits [] w ↔ Balanced Fits w := by
  constructor
  · rintro ⟨after⟩
    exact after
  · exact .done

/-- A block before what closes the brackets around it. -/
theorem Closing.block {inner : List (Bracket α β)} (fits : Fits a b) (inside : Balanced Fits inner)
    (h : Closing Fits st w) : Closing Fits st (.opens a :: (inner ++ .closes b :: w)) := by
  cases h with
  | done after => exact .done (.block fits inside after)
  | close fits' inside' after =>
    have := Closing.close fits' (.block fits inside inside') after
    simpa using this

theorem closing_opens_iff : Closing Fits st (.opens a :: w) ↔ Closing Fits (a :: st) w := by
  constructor
  · intro h
    generalize hw : Bracket.opens a :: w = v at h
    cases h with
    | done after =>
      cases after with
      | nil => cases hw
      | block fits inside after =>
        cases hw
        exact .close fits inside (.done after)
    | close fits inside after =>
      cases inside with
      | nil => cases hw
      | block fits' inside' after' =>
        -- the block that begins the word closes before the bracket around it does
        simp only [List.cons_append, List.append_assoc, List.cons.injEq, Bracket.opens.injEq] at hw
        obtain ⟨rfl, rfl⟩ := hw
        exact .close fits' inside' (.close fits after' after)
  · intro h
    cases h with
    | close fits inside after => exact after.block fits inside

theorem closing_closes_iff : Closing Fits st (.closes b :: w) ↔
    ∃ a outer, st = a :: outer ∧ Fits a b ∧ Closing Fits outer w := by
  constructor
  · intro h
    generalize hw : Bracket.closes b :: w = v at h
    cases h with
    | done after => cases after <;> cases hw
    | close fits inside after =>
      cases inside with
      | nil =>
        cases hw
        exact ⟨_, _, rfl, fits, after⟩
      | block => cases hw
  · rintro ⟨a, outer, rfl, fits, after⟩
    exact .close fits .nil after

end

/-! ## What is open -/

/-- The kinds of the open groups, innermost first, and the open namespaces. -/
structure Open where
  groups : List GroupKind
  namespaces : List Unit
  deriving DecidableEq, Repr

/-- Nothing is open. -/
def Open.root : Open := ⟨[], []⟩

/-- What is open after a line with this role, where it may stand. -/
def Role.next? (o : Open) : Role → Option Open
  | plain => some o
  | opens kind => some { o with groups := kind :: o.groups }
  | closes closer =>
    match o.groups with
    | [] => none
    | kind :: outer => if closer.all (· = kind) then some { o with groups := outer } else none
  | enters => some { o with namespaces := () :: o.namespaces }
  | leaves =>
    match o.namespaces with
    | [] => none
    | _ :: outer => some { o with namespaces := outer }

/-- Lines with these roles close everything that is open, and all that they open themselves. -/
structure Closes (o : Open) (rs : List Role) : Prop where
  groups : Closing Ends o.groups (rs.filterMap Role.groupBracket?)
  namespaces : Closing Leaves o.namespaces (rs.filterMap Role.namespaceBracket?)

theorem closes_iff {o : Open} {rs : List Role} :
    Closes o rs ↔ Closing Ends o.groups (rs.filterMap Role.groupBracket?) ∧
      Closing Leaves o.namespaces (rs.filterMap Role.namespaceBracket?) :=
  ⟨fun h => ⟨h.groups, h.namespaces⟩, fun h => ⟨h.1, h.2⟩⟩

theorem closes_nil_iff {o : Open} : Closes o [] ↔ o = .root := by
  obtain ⟨groups, namespaces⟩ := o
  simp [closes_iff, closing_nil_iff, Open.root]

theorem ends_iff {kind : GroupKind} {closer : Option GroupKind} :
    closer.all (· = kind) = true ↔ Ends kind closer := by
  cases closer <;> simp [Ends]

/-- The first line decides what is open for the others, and has to find its own place. -/
theorem closes_cons_iff {o : Open} {role : Role} {rs : List Role} :
    Closes o (role :: rs) ↔ ∃ o', role.next? o = some o' ∧ Closes o' rs := by
  simp only [closes_iff, List.filterMap_cons]
  cases role with
  | plain => simp [Role.next?, Role.groupBracket?, Role.namespaceBracket?]
  | opens kind => simp [Role.next?, Role.groupBracket?, Role.namespaceBracket?, closing_opens_iff]
  | enters => simp [Role.next?, Role.groupBracket?, Role.namespaceBracket?, closing_opens_iff]
  | closes closer =>
    obtain ⟨_ | ⟨kind, outer⟩, namespaces⟩ := o <;>
      simp [Role.next?, Role.groupBracket?, Role.namespaceBracket?, closing_closes_iff, ends_iff,
        and_assoc]
  | leaves =>
    obtain ⟨groups, _ | ⟨_, outer⟩⟩ := o <;>
      simp [Role.next?, Role.groupBracket?, Role.namespaceBracket?, closing_closes_iff, Leaves]

end Grammar

/-! ## Forms and directives -/

/-- What a directive is for the groups and the namespaces around it. -/
def Directive.role : Directive → Grammar.Role
  | enter _ => .enters
  | leave => .leaves
  | openGroup kind => .opens kind
  | openNamed _ => .opens .struct
  | close kind => .closes (some kind)
  | closeNamed => .closes none
  | _ => .plain

/-- The decimal digits are the ones of the ASCII range. -/
theorem Number.isSome_digit?_ten (c : Char) : (digit? 10 c).isSome = c.isDigit := by
  by_cases h : '0' ≤ c ∧ c ≤ '9'
  · have hd : c.isDigit = true := by
      rw [Char.isDigit, Bool.and_eq_true, decide_eq_true_iff, decide_eq_true_iff]
      exact h
    have hle : c.toNat ≤ 57 := UInt32.le_iff_toNat_le.1 h.2
    have hlt : c.toNat - '0'.toNat < 10 := by
      show c.toNat - 48 < 10
      omega
    simp only [digit?, if_pos h, if_pos hlt, hd, Option.isSome_some]
  · have hd : c.isDigit = false := by
      rw [← Bool.not_eq_true, Char.isDigit, Bool.and_eq_true, decide_eq_true_iff,
        decide_eq_true_iff]
      exact h
    simp only [digit?, if_neg h, hd]
    -- a letter counts for ten at least, and any other character for the base
    split
    · rw [if_neg (by omega), Option.isSome_none]
    · split
      · rw [if_neg (by omega), Option.isSome_none]
      · rw [if_neg (Nat.lt_irrefl _), Option.isSome_none]

namespace Grammar

theorem isLiteral_iff {word : String} : Number.isLiteral word = true ↔ LooksNumeric word := by
  unfold Number.isLiteral LooksNumeric
  split
  · rename_i rest h
    simp [h]
  · rename_i h
    have hd : word.toList.head? ≠ some '$' := by
      intro hh
      obtain ⟨rest, hr⟩ := List.head?_eq_some_iff.1 hh
      exact h rest hr
    simp [Number.isSome_digit?_ten, hd]

/-- A form beside what is read from the same words: both are there or neither, and a directive
is read, with the role of the form, exactly if the numbers are there. -/
def Tallies (words : List String) : Option Form → Option (Except Fault Directive) → Prop
  | some form, some (.ok d) => form.role = d.role ∧ form.Sound words
  | some form, some (.error _) => ¬ form.Sound words
  | none, none => True
  | _, _ => False

section
variable {words : List String}

theorem Tallies.ite {form : Form} {form? : Option Form} {c : Prop} [Decidable c]
    {read : Except Fault Directive} {read? : Option (Except Fault Directive)}
    (here : Tallies words (some form) (some read)) (further : Tallies words form? read?) :
    Tallies words (if c then some form else form?) (if c then some read else read?) := by
  split
  · exact here
  · exact further

theorem Tallies.ok {form : Form} {d : Directive} (role : form.role = d.role)
    (sound : form.Sound words) : Tallies words (some form) (some (.ok d)) := ⟨role, sound⟩

theorem Tallies.number {form : Form} {text : String} {f : UInt64 → Directive}
    (role : ∀ n, form.role = (f n).role)
    (sound : form.Sound words ↔ (Number.parse? text).isSome) :
    Tallies words (some form) (some ((Directive.number text).map f)) := by
  unfold Directive.number
  cases hn : Number.parse? text with
  | none =>
    rw [hn] at sound
    exact fun hs => Bool.false_ne_true (sound.1 hs)
  | some n =>
    rw [hn] at sound
    exact ⟨role n, sound.2 rfl⟩

theorem Tallies.value {form : Form} {text : String} {f : Operand → Directive}
    (role : ∀ operand, form.role = (f operand).role)
    (sound : form.Sound words ↔ (LooksNumeric text → (Number.parse? text).isSome)) :
    Tallies words (some form) (some ((Directive.operand text).map f)) := by
  unfold Directive.operand
  by_cases h : Number.isLiteral text = true
  · rw [if_pos h]
    have hl := isLiteral_iff.1 h
    have hmap : ((Directive.number text).map Operand.number).map f =
        (Directive.number text).map fun n => f (.number n) := by
      cases Directive.number text <;> rfl
    rw [hmap]
    exact .number (fun n => role _) (sound.trans ⟨fun hs => hs hl, fun hs _ => hs⟩)
  · rw [if_neg h]
    exact ⟨role _, sound.2 fun hl => absurd (isLiteral_iff.2 hl) h⟩

end

theorem find?_cons_eq_ite {α : Type} (p : α → Bool) (a : α) (l : List α) :
    (a :: l).find? p = if p a = true then some a else l.find? p := by
  cases h : p a <;> simp [h]

theorem map_lookup_cons (word keyword : String) (d : Directive) (l : List (String × Directive)) :
    (((keyword, d) :: l).lookup word).map (Except.ok (ε := Fault)) =
      if word = keyword then some (.ok d) else (l.lookup word).map .ok := by
  by_cases h : word = keyword
  · simp [h]
  · have hb : (word == keyword) = false := by simpa using h
    simp [List.lookup_cons, hb, h]

/-- Keywords are tried in the same order for forms and for directives. -/
theorem tallies {words : List String} (hw : words ≠ []) :
    Tallies words (formOf? words) (Directive.ofWords? words) := by
  match words, hw with
  | [word], _ =>
    simp only [formOf?, table, find?_cons_eq_ite, fits, Slot.fits, Bool.and_true, Bool.and_false,
      decide_eq_true_eq, Bool.false_eq_true, if_false, List.find?_nil, Directive.ofWords?,
      Directive.alone, map_lookup_cons, List.lookup_nil, Option.map_none]
    refine .ite ?_ <| .ite ?_ <| .ite ?_ <| .ite ?_ <| .ite ?_ <| .ite ?_ trivial
    all_goals exact .ok rfl (by simp [Form.Sound, Slot.Sound])
  | [first, second], _ =>
    simp only [formOf?, table, find?_cons_eq_ite, fits, Slot.fits, Bool.and_true, Bool.true_and,
      Bool.and_false, decide_eq_true_eq, Bool.false_eq_true, if_false, List.find?_nil,
      Directive.ofWords?, Directive.ofPair]
    refine .ite ?_ <| .ite (.number (fun _ => rfl) ?_) <| .ite ?_ <| .ite ?_ <|
      .ite (.number (fun _ => rfl) ?_) <| .ite ?_ trivial
    case refine_2 | refine_5 => simp [Form.Sound, Slot.Sound]
    all_goals exact .ok rfl (by simp [Form.Sound, Slot.Sound])
  | [name, keyword, argument], _ =>
    simp only [formOf?, table, find?_cons_eq_ite, fits, Slot.fits, Bool.and_true, Bool.true_and,
      Bool.and_false, decide_eq_true_eq, Bool.false_eq_true, if_false, List.find?_nil,
      Directive.ofWords?, Directive.ofTriple]
    refine .ite (.value (fun _ => rfl) ?_) <| .ite ?_ <| .ite ?_ <| .ite ?_ <|
      .ite (.number (fun _ => rfl) ?_) <| .ite ?_ trivial
    case refine_1 | refine_5 => simp [Form.Sound, Slot.Sound]
    all_goals exact .ok rfl (by simp [Form.Sound, Slot.Sound])
  | first :: second :: third :: fourth :: rest, _ =>
    simp [formOf?, table, fits, Directive.ofWords?, Tallies]

/-- A line asks for something exactly if it has no words or has a form, with its numbers. -/
theorem ofLine_eq_ok_iff {line : Line} :
    (∃ d, Directive.ofLine line = .ok d) ↔ (line.words ≠ [] → Formed line.words) := by
  by_cases hw : line.words = []
  · simp [Directive.ofLine, Directive.ofWords?, hw]
  · have ht := tallies hw
    unfold Directive.ofLine Formed
    cases hf : formOf? line.words with
    | none =>
      cases hr : Directive.ofWords? line.words with
      | none => simp [hw]
      | some read => rw [hf, hr] at ht; exact ht.elim
    | some form =>
      rcases hr : Directive.ofWords? line.words with _ | fault | d
      · rw [hf, hr] at ht
        exact ht.elim
      · rw [hf, hr] at ht
        have hs : ¬ form.Sound line.words := ht
        simp [hw, hs]
      · rw [hf, hr] at ht
        simp [hw, ht.2]

/-- A line that asks for something has the role of its directive, and none if it has no words. -/
theorem roles_cons {line : Line} {d : Directive} (h : Directive.ofLine line = .ok d)
    (lines : List Line) :
    roles (line :: lines) = roles lines ∧ d = .blank ∨
      roles (line :: lines) = d.role :: roles lines := by
  by_cases hw : line.words = []
  · left
    simp [roles, role?, formOf?, table, fits, Directive.ofLine, Directive.ofWords?, hw] at h ⊢
    exact h.symm
  · right
    have ht := tallies hw
    unfold Directive.ofLine at h
    cases hr : Directive.ofWords? line.words with
    | none => simp [hr] at h
    | some read =>
      cases hf : formOf? line.words with
      | none => rw [hf, hr] at ht; exact ht.elim
      | some form =>
        rw [hr, Option.getD_some] at h
        subst h
        rw [hf, hr] at ht
        simp [roles, role?, hf, ht.1]

theorem closes_roles_cons_iff {line : Line} {d : Directive} (h : Directive.ofLine line = .ok d)
    {o : Open} (lines : List Line) :
    Closes o (roles (line :: lines)) ↔
      ∃ o', d.role.next? o = some o' ∧ Closes o' (roles lines) := by
  rcases roles_cons h lines with ⟨hr, rfl⟩ | hr
  · simp [hr, Directive.role, Role.next?]
  · rw [hr, closes_cons_iff]

end Grammar

/-! ## Readings -/

namespace Reading

open Grammar (Open Closes roles)

/-- Groups that are open, innermost first and the document last, and the kinds of those inside the
document. -/
inductive OfKinds (m : Model) : List GroupId → List GroupKind → Prop where
  | document : OfKinds m [Model.document] []
  | inside {top outer kind kinds} (here : m.kind? top = some kind)
      (around : OfKinds m outer kinds) : OfKinds m (top :: outer) (kind :: kinds)

section
variable {m m' : Model} {scopes : List GroupId} {kinds kinds' : List GroupKind}

theorem OfKinds.mono (h : OfKinds m scopes kinds)
    (hk : ∀ id k, m.kind? id = some k → m'.kind? id = some k) : OfKinds m' scopes kinds := by
  induction h with
  | document => exact .document
  | inside here _ ih => exact .inside (hk _ _ here) ih

theorem OfKinds.length_eq (h : OfKinds m scopes kinds) : scopes.length = kinds.length + 1 := by
  induction h with
  | document => rfl
  | inside _ _ ih => rw [List.length_cons, List.length_cons, ih]

theorem OfKinds.eq_document_iff (h : OfKinds m scopes kinds) :
    scopes = [Model.document] ↔ kinds = [] := by
  cases h with
  | document => simp
  | inside here around =>
    have hlength := around.length_eq
    refine iff_of_false (fun hs => ?_) (List.cons_ne_nil _ _)
    obtain ⟨rfl, rfl⟩ := List.cons.inj hs
    cases hlength

theorem OfKinds.unique (h : OfKinds m scopes kinds) (h' : OfKinds m scopes kinds') :
    kinds = kinds' := by
  induction h generalizing kinds' with
  | document => exact (h'.eq_document_iff.1 rfl).symm
  | @inside top outer kind kinds here around ih =>
    cases h' with
    | document => cases around
    | inside here' around' =>
      obtain rfl := Option.some.inj (here.symm.trans here')
      rw [ih around']

end

/-- What is open in a reading, as the ends still to come see it. -/
structure Views (r : Reading) (o : Open) : Prop where
  groups : OfKinds r.model r.scopes o.groups
  namespaces : (r.namespaces.names.map fun _ => ()) = o.namespaces

theorem views_start : start.Views .root := ⟨.document, rfl⟩

theorem views_root_iff {r : Reading} :
    r.Views .root ↔ r.scopes = [Model.document] ∧ r.namespaces = .root := by
  obtain ⟨m, ⟨names⟩, scopes, findings⟩ := r
  constructor
  · rintro ⟨hg, hn⟩
    exact ⟨hg.eq_document_iff.2 rfl, by simpa [Open.root, Namespaces.root] using hn⟩
  · rintro ⟨hs, hn⟩
    cases hs
    cases hn
    exact ⟨.document, rfl⟩

theorem Views.unique {r : Reading} {o o' : Open} (h : r.Views o) (h' : r.Views o') : o = o' := by
  obtain ⟨groups, namespaces⟩ := o
  obtain ⟨groups', namespaces'⟩ := o'
  have hg : groups = groups' := h.groups.unique h'.groups
  have hn : namespaces = namespaces' := h.namespaces.symm.trans h'.namespaces
  rw [hn, hg]

theorem Views.note {r : Reading} {o : Open} (h : r.Views o) (item : Item) :
    (r.note item).Views o :=
  ⟨h.groups.mono fun _ _ hk => (Model.kind?_push ..).trans hk, h.namespaces⟩

theorem Views.place {r : Reading} {o : Open} (h : r.Views o) (item : Item) :
    (r.place item).Views o :=
  ⟨h.groups.mono fun _ _ hk => (Model.kind?_push ..).trans hk, h.namespaces⟩

/-- The kinds of the open groups once one more is open, which is the last of the model. -/
theorem Views.opened {r : Reading} {o : Open} (h : r.Views o) (kind : GroupKind) :
    OfKinds (r.model.addGroup kind).2 (r.model.groups.size :: r.scopes) (kind :: o.groups) :=
  .inside ((Model.kind?_addGroup ..).trans (if_pos rfl))
    (h.groups.mono fun _ _ hk => Model.kind?_addGroup_of_some kind hk)

/-- What becomes of a line, seen from what is open after it: no finding, or one and nothing
else. -/
def Becomes (r after : Reading) (number : UInt32) : Option Open → Prop
  | some o => after.findings = r.findings ∧ after.Views o
  | none => ∃ fault, after = r.record (some number) fault

/-- A directive leaves a finding exactly if its role has no place among what is open, and else it
opens and closes what its role says. -/
theorem views_step {r : Reading} {o : Open} (h : r.Views o) {line : Line} {d : Directive}
    (hd : Directive.ofLine line = .ok d) (number : UInt32) :
    Becomes r (r.step line number) number (d.role.next? o) := by
  rw [step_of_ok hd]
  obtain ⟨m, ⟨names⟩, scopes, findings⟩ := r
  obtain ⟨groups, namespaces⟩ := o
  cases d with
  | blank | region | endRegion | skip => exact ⟨rfl, h.note _⟩
  | assign | field | instantiate => exact ⟨rfl, h.place _⟩
  | enter name => exact ⟨rfl, (h.note _).groups, congrArg (() :: ·) h.namespaces⟩
  | leave =>
    obtain ⟨hg, rfl⟩ := h
    cases names with
    | nil => exact ⟨_, rfl⟩
    | cons name outer => exact ⟨rfl, (Views.note ⟨hg, rfl⟩ .leave).groups, rfl⟩
  | openGroup kind =>
    exact ⟨rfl, (h.opened kind).mono fun _ _ hk => (Model.kind?_push ..).trans hk, h.namespaces⟩
  | openNamed name => exact ⟨rfl, (h.opened .struct).mono fun _ _ hk => hk, h.namespaces⟩
  | close kind =>
    obtain ⟨hg, hns⟩ := h
    cases hg with
    | document => exact ⟨_, rfl⟩
    | @inside top outer k ks here around =>
      have hlength : (top :: outer).length ≠ 1 := by simp [around.length_eq]
      by_cases hkind : k = kind
      · subst hkind
        simp only [obey, scope, List.headD_cons, here, hlength, ne_eq, not_true_eq_false, or_self,
          if_false, Directive.role, Grammar.Role.next?, Option.all_some, decide_true, if_true]
        exact ⟨rfl, around, hns⟩
      · have hkind' : kind ≠ k := Ne.symm hkind
        simp only [obey, scope, List.headD_cons, here, hlength, ne_eq, Option.some.injEq, hkind,
          not_false_eq_true, or_true, if_true, Directive.role, Grammar.Role.next?, Option.all_some,
          hkind', decide_false, Bool.false_eq_true, if_false]
        exact ⟨_, rfl⟩
  | closeNamed =>
    obtain ⟨hg, hns⟩ := h
    cases hg with
    | document => exact ⟨_, rfl⟩
    | @inside top outer k ks here around =>
      have hlength : (top :: outer).length ≠ 1 := by simp [around.length_eq]
      simp only [obey, hlength, if_false]
      exact ⟨rfl, around, hns⟩

/-- No line is rejected and nothing is left open exactly if every line is in order for itself, and
together they close what was open before them and what they open. -/
theorem rejected_eq_nil_iff {r : Reading} {o : Open} (h : r.Views o)
    (lines : List (Line × UInt32)) :
    r.rejected lines = [] ∧ (r.steps lines).Views .root ↔
      (∀ line ∈ lines.map Prod.fst, line.words ≠ [] → Grammar.Formed line.words) ∧
        Closes o (roles (lines.map Prod.fst)) := by
  induction lines generalizing r o with
  | nil =>
    have hroot : r.Views .root ↔ o = .root := ⟨fun h' => h.unique h', fun ho => ho ▸ h⟩
    simp [rejected, roles, Grammar.closes_nil_iff, hroot]
  | cons l rest ih =>
    rw [rejected_cons_eq_nil_iff, List.map_cons, List.forall_mem_cons, ← Grammar.ofLine_eq_ok_iff]
    cases hd : Directive.ofLine l.1 with
    | error fault =>
      simp [rejects_of_record (step_of_error hd r l.2)]
    | ok d =>
      have hb := views_step h hd l.2
      rw [Grammar.closes_roles_cons_iff hd]
      cases hn : d.role.next? o with
      | none =>
        rw [hn] at hb
        obtain ⟨fault, hr⟩ := hb
        simp [rejects_of_record hr]
      | some o' =>
        rw [hn] at hb
        obtain ⟨hf, hv⟩ := hb
        have ha : r.rejects l = false := by simp [rejects, hf]
        constructor
        · rintro ⟨⟨-, hrest⟩, hroot⟩
          obtain ⟨hlines, hcloses⟩ := (ih hv).1 ⟨hrest, hroot⟩
          exact ⟨⟨⟨d, rfl⟩, hlines⟩, o', rfl, hcloses⟩
        · rintro ⟨⟨-, hlines⟩, _, ho, hcloses⟩
          cases ho
          obtain ⟨hrest, hroot⟩ := (ih hv).2 ⟨hlines, hcloses⟩
          exact ⟨⟨ha, hrest⟩, hroot⟩

theorem findings_finish_eq_empty_iff {r : Reading} (h : r.WellFormed) :
    r.finish.findings = #[] ↔ r.findings = #[] ∧ r.Views .root := by
  have hu : r.unclosed = [] ↔ r.scopes.length = 1 ∧ r.namespaces = .root := by
    obtain ⟨m, ⟨_ | ⟨name, outer⟩⟩, scopes, findings⟩ := r <;>
      simp [unclosed, Namespaces.isRoot, Namespaces.root]
  rw [h.length_scopes_eq_one_iff, ← views_root_iff] at hu
  rw [← Array.toList_inj, findings_finish, ← Array.toList_inj, ← hu]
  simp

theorem numbered_fst (lines : List Line) : (numbered lines).map Prod.fst = lines := by
  simp [numbered, Function.comp_def]

/-- **Acceptance.** A source is read without a finding if and only if each of its lines is blank or
has a form, with its numbers, and the lines that open and close groups, and those that enter and
leave namespaces, are each a balanced word of brackets. -/
theorem findings_ofLines_eq_empty_iff (lines : List Line) :
    (ofLines lines).findings = #[] ↔
      (∀ line ∈ lines, line.words ≠ [] → Grammar.Formed line.words) ∧
        Grammar.Balanced Grammar.Ends (Grammar.groupBrackets lines) ∧
        Grammar.Balanced Grammar.Leaves (Grammar.namespaceBrackets lines) := by
  have h := rejected_eq_nil_iff views_start (numbered lines)
  rw [← findings_steps_eq_iff, numbered_fst, Grammar.closes_iff] at h
  have hr : (start.steps (numbered lines)).WellFormed := wellFormed_steps wellFormed_start _
  rw [ofLines, findings_finish_eq_empty_iff hr, ← Grammar.closing_root_iff,
    ← Grammar.closing_root_iff]
  exact h

end Reading
end HeaderSymbols
