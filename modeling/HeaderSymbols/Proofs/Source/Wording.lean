import HeaderSymbols.Proofs.Source.Representation
import HeaderSymbols.Proofs.Source.Spelling
import HeaderSymbols.Proofs.Text.Pieces

/-!
# What a model takes over from the words of its source

The names in a model are words of a source, and the comments in it are comments of a source, cut
off where a line ends. A reference that a source assigns is qualified by the names of namespaces;
where these are plain it does not look like a number, and it has no dot that another reading would
take for the end of a name.

* `isWord_of_mem_words`, `isComment_of_mem_comment`: what a line of a source can have.
* `legible_value`: a reference that is assigned among plain namespaces.
* `legible_step`, `legible_ofSource`: a line of a source keeps all items legible, and so does a
  source.
-/
namespace HeaderSymbols

/-! ## Words and comments -/

namespace Line

/-- A text that can be a word of a line. -/
structure IsWord (s : String) : Prop where
  ne_nil : s.toList ≠ []
  not_blank : ∀ c ∈ s.toList, Text.isBlank c = false
  unmarked : commentMark ∉ s.toList

/-- A text that can be the comment of a line. -/
structure IsComment (s : String) : Prop where
  marked : s.toList.head? = some commentMark
  trimmed : Text.Trimmed s.toList
  single : '\n' ∉ s.toList

/-- A word that is not for a number, and not for names with dots between them. -/
structure IsPlain (s : String) : Prop extends IsWord s where
  undotted : '.' ∉ s.toList
  unsigned : s.toList.head? ≠ some '$'

theorem IsWord.not_newline {s : String} (h : IsWord s) : '\n' ∉ s.toList := by
  intro hm
  have hb := h.not_blank _ hm
  cases hb

theorem not_mem_code (mark : Char) (text : List Char) : mark ∉ code mark text := by
  intro h
  have hall := List.all_eq_true.1 (List.all_takeWhile (p := (· != mark)) (l := text)) _ h
  simp at hall

theorem head?_remark {mark : Char} {text : List Char} (h : remark mark text ≠ []) :
    (remark mark text).head? = some mark := by
  have hhead := List.head?_dropWhile_not (· != mark) text
  unfold remark at h ⊢
  obtain ⟨c, rest, hr⟩ := List.exists_cons_of_ne_nil h
  rw [hr] at hhead ⊢
  simpa using hhead

/-- What has no mark is the code of a text, and what begins with one is its comment. -/
theorem code_remark_append {mark : Char} {cs : List Char} (hc : mark ∉ cs) (comment : List Char)
    (hm : ∀ c ∈ comment.head?, c = mark) :
    code mark (cs ++ comment) = cs ∧ remark mark (cs ++ comment) = comment := by
  have hall : ∀ c ∈ cs, (c != mark) = true := fun c h => by
    simpa using fun he : c = mark => hc (he ▸ h)
  rw [code, remark, List.takeWhile_append_of_pos hall, List.dropWhile_append_of_pos hall]
  cases comment with
  | nil => simp
  | cons c rest => simp [hm c rfl]

theorem isWord_of_mem_words {raw : List Char} {w : String}
    (h : w ∈ (ofChars commentMark raw).words) : IsWord w := by
  obtain ⟨cs, hcs, rfl⟩ := List.mem_map.1 h
  refine ⟨?_, ?_, ?_⟩ <;> rw [String.toList_ofList]
  · exact Text.ne_nil_of_mem_words hcs
  · exact Text.not_blank_of_mem_words hcs
  · exact fun hm => not_mem_code _ _ (Text.mem_of_mem_words hcs _ hm)

theorem isComment_of_mem_comment {raw : List Char} (hn : '\n' ∉ raw) :
    ∀ c ∈ (ofChars commentMark raw).comment, IsComment c := by
  intro c h
  simp only [ofChars, List.isEmpty_iff, Option.mem_def] at h
  split at h
  · cases h
  · rename_i hne
    cases h
    have htext := code_append_remark commentMark (Text.trimEnd raw)
    refine ⟨?_, ?_, ?_⟩ <;> rw [String.toList_ofList]
    · exact head?_remark hne
    · exact (Text.trimmed_append_iff hne _).1 (htext ▸ Text.trimmed_trimEnd raw)
    · exact fun hm => hn ((Text.trimEnd_prefix raw).subset (List.dropWhile_subset _ hm))

/-- A line as a source has it, whose namespace, if it enters one, is plain. -/
structure Legible (line : Line) : Prop where
  words : ∀ w ∈ line.words, IsWord w
  comment : ∀ c ∈ line.comment, IsComment c
  namespaces : ∀ name, line.words = [name, ".namespace"] →
    '.' ∉ name.toList ∧ name.toList.head? ≠ some '$'

theorem legible_of_mem_ofSource {source : String} {line : Line} (h : line ∈ ofSource source)
    (hns : ∀ name, line.words = [name, ".namespace"] →
      '.' ∉ name.toList ∧ name.toList.head? ≠ some '$') : line.Legible := by
  obtain ⟨raw, hraw, rfl⟩ := List.mem_map.1 h
  exact ⟨fun _ => isWord_of_mem_words,
    isComment_of_mem_comment (Text.not_newline_of_mem_splitLines hraw), hns⟩

end Line

/-! ## Qualified names -/

namespace Namespaces

/-- What is in a qualifier is in the name of a namespace, underscores apart. -/
theorem forall_qualifier {P : Char → Prop} {ns : Namespaces} (hu : P '_')
    (hn : ∀ n ∈ ns.names, ∀ c ∈ n.toList, P c) : ∀ c ∈ ns.qualifier.toList, P c := by
  obtain ⟨names⟩ := ns
  induction names with
  | nil => exact nofun
  | cons name outer ih =>
    have hq := qualifier_enter ⟨outer⟩ name
    rw [enter] at hq
    rw [hq, String.toList_append, String.toList_append]
    intro c hc
    rcases List.mem_append.1 hc with hc | hc
    · rcases List.mem_append.1 hc with hc | hc
      · exact ih (fun n h => hn n (.tail _ h)) c hc
      · exact hn name (.head _) c hc
    · rw [List.mem_singleton.1 hc]
      exact hu

theorem forall_qualify {P : Char → Prop} {ns : Namespaces} {name : String} (hu : P '_')
    (hns : ∀ n ∈ ns.names, ∀ c ∈ n.toList, P c) (hname : ∀ c ∈ name.toList, P c) :
    ∀ c ∈ (ns.qualify name).toList, P c := by
  rw [qualify, String.toList_append]
  intro c hc
  rcases List.mem_append.1 hc with hc | hc
  · exact forall_qualifier hu hns c hc
  · exact hname c hc

theorem isWord_qualify {ns : Namespaces} {name : String} (hns : ∀ n ∈ ns.names, Line.IsWord n)
    (hname : Line.IsWord name) : Line.IsWord (ns.qualify name) where
  ne_nil := by simp [qualify, hname.ne_nil]
  not_blank := forall_qualify (by decide) (fun n h => (hns n h).not_blank) hname.not_blank
  unmarked h :=
    forall_qualify (P := (· ≠ Line.commentMark)) (by decide)
      (fun n hn c hc he => (hns n hn).unmarked (he ▸ hc)) (fun c hc he => hname.unmarked (he ▸ hc))
      _ h rfl

/-- A qualifier is empty, or begins as the outermost namespace does and has an underscore. -/
theorem qualifier_eq_nil_or {ns : Namespaces} (hns : ∀ n ∈ ns.names, Line.IsPlain n) :
    ns.qualifier.toList = [] ∨
      ∃ c cs, ns.qualifier.toList = c :: cs ∧ c ≠ '$' ∧ '_' ∈ c :: cs := by
  obtain ⟨names⟩ := ns
  induction names with
  | nil => exact .inl rfl
  | cons name outer ih =>
    have hq := qualifier_enter ⟨outer⟩ name
    rw [enter] at hq
    right
    rw [hq, String.toList_append, String.toList_append]
    rcases ih fun n h => hns n (.tail _ h) with ho | ⟨c, cs, ho, hc, -⟩
    · obtain ⟨c, cs, hname⟩ := List.exists_cons_of_ne_nil (hns name (.head _)).ne_nil
      have hc := (hns name (.head _)).unsigned
      rw [hname] at hc
      exact ⟨c, cs ++ ['_'], by simp [ho, hname], by simpa using hc, by simp⟩
    · exact ⟨c, cs ++ name.toList ++ ['_'], by simp [ho], hc, by simp⟩

end Namespaces

/-! ## Items -/

/-- A value whose text reads as the value. -/
def Value.Legible : Value → Prop
  | number _ => True
  | symbol name => Line.IsWord name ∧ '.' ∉ name.toList ∧ ¬ Grammar.LooksNumeric name

def Operand.Legible : Operand → Prop
  | number _ => True
  | reference text => Line.IsWord text ∧ ¬ Grammar.LooksNumeric text

/-- The names and comments of an item can stand in lines. -/
def Item.Legible : Item → Prop
  | text comment => ∀ c ∈ comment, Line.IsComment c
  | enter name => Line.IsWord name
  | assignment name value comment =>
    Line.IsWord name ∧ value.Legible ∧ ∀ c ∈ comment, Line.IsComment c
  | member m => Line.IsWord m.name ∧ ∀ c ∈ m.comment, Line.IsComment c
  | leave | region _ | skip .. | group _ => True

def Directive.Legible : Directive → Prop
  | enter name => Line.IsPlain name
  | assign name operand => Line.IsWord name ∧ operand.Legible
  | field name _ | instantiate name _ => Line.IsWord name
  | _ => True

theorem isWord_undot {s : String} (h : Line.IsWord s) : Line.IsWord (undot s) := by
  have hmem : ∀ c ∈ (undot s).toList, c = '_' ∨ c ∈ s.toList := by
    intro c hc
    rw [undot, String.toList_ofList] at hc
    obtain ⟨d, hd, rfl⟩ := List.mem_map.1 hc
    split
    · exact .inl rfl
    · exact .inr hd
  refine ⟨by simp [undot, h.ne_nil], fun c hc => ?_, fun hm => ?_⟩
  · rcases hmem c hc with rfl | hc
    · decide
    · exact h.not_blank c hc
  · rcases hmem _ hm with hu | hm
    · cases hu
    · exact h.unmarked hm

theorem dot_not_mem_undot (s : String) : '.' ∉ (undot s).toList := by
  rw [undot, String.toList_ofList]
  intro h
  obtain ⟨c, -, hc⟩ := List.mem_map.1 h
  split at hc
  · cases hc
  · exact absurd hc ‹_›

theorem undot_of_dot_not_mem {s : String} (h : '.' ∉ s.toList) : undot s = s := by
  have hmap : s.toList.map (fun c => if c = '.' then '_' else c) = s.toList.map id :=
    List.map_congr_left fun c hc => if_neg fun he : c = '.' => h (he ▸ hc)
  rw [undot, hmap, List.map_id, String.ofList_toList]

theorem looksNumeric_of_undot {s : String} (h : Grammar.LooksNumeric (undot s)) :
    Grammar.LooksNumeric s := by
  simp only [Grammar.LooksNumeric, undot, String.toList_ofList, List.head?_map,
    Option.map_eq_some_iff, ne_eq, List.map_eq_nil_iff, List.mem_map, forall_exists_index, and_imp,
    forall_apply_eq_imp_iff₂] at h
  rcases h with ⟨c, hc, hd⟩ | ⟨hne, hall⟩
  · left
    split at hd
    · cases hd
    · rw [hc, hd]
  · refine .inr ⟨hne, fun c hc => ?_⟩
    have hdigit := hall c hc
    split at hdigit
    · cases hdigit
    · exact hdigit

theorem legible_value {ns : Namespaces} {operand : Operand} (hns : ∀ n ∈ ns.names, Line.IsPlain n)
    (ho : operand.Legible) : (ns.value operand).Legible := by
  cases operand with
  | number n => trivial
  | reference text =>
    obtain ⟨hword, hnum⟩ := ho
    refine ⟨Namespaces.isWord_qualify (fun n h => (hns n h).toIsWord) (isWord_undot hword), ?_, ?_⟩
    · intro h
      refine Namespaces.forall_qualify (P := (· ≠ '.')) (by decide) ?_ ?_ _ h rfl
      · exact fun n hn c hc he => (hns n hn).undotted (he ▸ hc)
      · exact fun c hc he => dot_not_mem_undot text (he ▸ hc)
    · rintro hq
      rcases Namespaces.qualifier_eq_nil_or hns with hnil | ⟨c, cs, hcons, hc, hu⟩
      · rw [Namespaces.qualify, String.toList_eq_nil_iff.1 hnil, String.empty_append] at hq
        exact hnum (looksNumeric_of_undot hq)
      · rw [Grammar.LooksNumeric, Namespaces.qualify, String.toList_append, hcons] at hq
        rcases hq with hq | ⟨-, hall⟩
        · exact hc (by simpa using hq)
        · have hdigit := hall '_' (List.mem_append_left _ hu)
          cases hdigit

theorem Directive.Spelled.legible {line : Line} (hl : line.Legible) {d : Directive}
    (h : Directive.Spelled line.words d) : d.Legible := by
  obtain ⟨hwords, -, hns⟩ := hl
  generalize line.words = words at h hwords hns
  cases h with
  | alone listed =>
    simp only [Directive.alone, List.mem_cons, Prod.mk.injEq, List.not_mem_nil, or_false] at listed
    rcases listed with ⟨-, rfl⟩ | ⟨-, rfl⟩ | ⟨-, rfl⟩ | ⟨-, rfl⟩ | ⟨-, rfl⟩ | ⟨-, rfl⟩ <;> trivial
  | enter name => exact ⟨hwords name (.head _), (hns name rfl).1, (hns name rfl).2⟩
  | assignNumber name => exact ⟨hwords name (.head _), trivial⟩
  | @assignReference text name plain =>
    exact ⟨hwords name (.head _), hwords text (.tail _ (.tail _ (.head _))), plain⟩
  | field name | fill name | instantiate name => exact hwords name (.head _)
  | _ => trivial

/-! ## Readings -/

/-- What holds of every item of a model holds after one more, if it holds of that. -/
theorem Model.forall_push {m : Model} {P : Item → Prop} (h : ∀ id, ∀ i ∈ m.members id, P i)
    {id : GroupId} (hid : id < m.groups.size) {item : Item} (hitem : P item) :
    ∀ other, ∀ i ∈ (m.push id item).members other, P i := by
  intro other i hi
  rw [mem_members_push m item hid] at hi
  rcases hi with hi | ⟨-, rfl⟩
  · exact h other i hi
  · exact hitem

namespace Reading

/-- A reading of legible lines. -/
structure Legible (r : Reading) : Prop extends r.WellFormed where
  items : ∀ id, ∀ i ∈ r.model.members id, i.Legible
  names : ∀ n ∈ r.namespaces.names, Line.IsPlain n

variable {r after : Reading}

theorem legible_start : start.Legible where
  toWellFormed := wellFormed_start
  items id i hi := by simp [start, Model.members_empty] at hi
  names := nofun

theorem Legible.obey (h : r.Legible) {comment : Option String} {number : UInt32} {d : Directive}
    (hc : ∀ c ∈ comment, Line.IsComment c) (hd : d.Legible)
    (ho : r.obey comment number d = .ok after) : after.Legible := by
  have hw : after.WellFormed := (does_obey ho).wellFormed h.toWellFormed
  have hnote {item : Item} (hi : item.Legible) :
      ∀ id, ∀ i ∈ (r.note item).model.members id, i.Legible :=
    Model.forall_push h.items h.model.document_lt hi
  have hplace {item : Item} (hi : item.Legible) :
      ∀ id, ∀ i ∈ (r.place item).model.members id, i.Legible :=
    Model.forall_push h.items h.scope_lt hi
  cases d with
  | blank => cases ho; exact ⟨hw, hnote hc, h.names⟩
  | enter name =>
    cases ho
    exact ⟨hw, hnote hd.toIsWord, List.forall_mem_cons.2 ⟨hd, h.names⟩⟩
  | leave =>
    simp only [Reading.obey] at ho
    split at ho
    · cases ho
    · rename_i outer hl
      cases ho
      refine ⟨hw, hnote trivial, ?_⟩
      rw [← Namespaces.leave?_eq_some hl]
      exact fun n hn => h.names n (List.mem_of_mem_tail hn)
  | region | endRegion | skip => cases ho; exact ⟨hw, hnote trivial, h.names⟩
  | openGroup kind =>
    cases ho
    refine ⟨hw, Model.forall_push (m := (r.model.addGroup kind).2) ?_ ?_ trivial, h.names⟩
    · intro id i hi
      rw [Model.members_addGroup] at hi
      exact h.items id i hi
    · rw [Model.size_addGroup]
      exact Nat.lt_succ_of_lt h.scope_lt
  | openNamed name =>
    cases ho
    refine ⟨hw, fun id i hi => h.items id i ?_, h.names⟩
    rw [← Model.members_addGroup r.model .struct]
    exact hi
  | close | closeNamed =>
    simp only [Reading.obey] at ho
    split at ho
    · cases ho
    · cases ho
      exact ⟨hw, h.items, h.names⟩
  | assign name operand =>
    cases ho
    exact ⟨hw, hplace ⟨hd.1, legible_value h.names hd.2, hc⟩, h.names⟩
  | field | instantiate => cases ho; exact ⟨hw, hplace ⟨hd, hc⟩, h.names⟩

theorem legible_step (h : r.Legible) {line : Line} (hl : line.Legible) (number : UInt32) :
    (r.step line number).Legible := by
  have hrecord (fault : Fault) : (r.record (some number) fault).Legible :=
    ⟨⟨h.model, h.bottom, h.scopes⟩, h.items, h.names⟩
  cases hd : Directive.ofLine line with
  | error fault => exact step_of_error hd r number ▸ hrecord fault
  | ok d =>
    rw [step_of_ok hd]
    cases ho : r.obey line.comment number d with
    | ok after => exact h.obey hl.comment ((Directive.spelled_ofLine hd).legible hl) ho
    | error fault => exact hrecord fault

theorem legible_steps (h : r.Legible) {lines : List (Line × UInt32)}
    (hl : ∀ l ∈ lines, l.1.Legible) : (r.steps lines).Legible := by
  induction lines generalizing r with
  | nil => exact h
  | cons l rest ih =>
    exact ih (legible_step h (hl l (.head _)) l.2) fun l' h' => hl l' (.tail _ h')

theorem legible_ofLines {lines : List Line} (hl : ∀ line ∈ lines, line.Legible) :
    ∀ id, ∀ i ∈ (ofLines lines).model.members id, i.Legible := by
  rw [ofLines, finish_model]
  refine (legible_steps legible_start fun l h => hl l.1 ?_).items
  rw [← numbered_fst lines]
  exact List.mem_map_of_mem h

end Reading
end HeaderSymbols
