import HeaderSymbols.Conversion
import HeaderSymbols.Proofs.Layout.Descent
import HeaderSymbols.Proofs.Source.Origin
import HeaderSymbols.Proofs.Source.Wording
import HeaderSymbols.Proofs.Text.Numeral

/-!
# Texts on one line

What a source is made of stays on one line each: a line feed is a blank, so that it is in no word,
and it ends a line, so that it is in no comment. Names are made of words with underscores between
them, and numbers of digits. So nothing that a model has, and nothing that is emitted for it, goes
over a line, whatever the namespaces are called.

* `single_qualify`, `single_hex`: names and numbers.
* `single_ofLine`, `single_members`: the items of a line, and those of a model.
* `single_visit`, `single_layout`: what is emitted for an item, and for a group.
-/
namespace HeaderSymbols

/-- The text has no end of a line in it. -/
def Single (s : String) : Prop := '\n' ∉ s.toList

instance (s : String) : Decidable (Single s) := inferInstanceAs (Decidable ('\n' ∉ s.toList))

theorem Single.append {s t : String} (hs : Single s) (ht : Single t) : Single (s ++ t) := by
  rw [Single, String.toList_append, List.mem_append]
  exact not_or.2 ⟨hs, ht⟩

/-! ## Words, names and numbers -/

theorem Line.IsWord.single {s : String} (h : IsWord s) : Single s := h.not_newline

theorem Namespaces.single_qualify {ns : Namespaces} {name : String}
    (hns : ∀ n ∈ ns.names, Single n) (hname : Single name) : Single (ns.qualify name) := by
  intro hn
  exact forall_qualify (P := (· ≠ '\n')) (by decide) (fun n h c hc he => hns n h (he ▸ hc))
    (fun c hc he => hname (he ▸ hc)) _ hn rfl

theorem single_undot {s : String} (h : Single s) : Single (undot s) := by
  intro hn
  rw [undot, String.toList_ofList] at hn
  obtain ⟨c, hc, he⟩ := List.mem_map.1 hn
  split at he
  · cases he
  · exact h (he ▸ hc)

theorem Namespaces.single_structureName {ns : Namespaces} {reference : String}
    (hns : ∀ n ∈ ns.names, Single n) (h : Single reference) :
    Single (ns.structureName reference) := by
  unfold structureName
  split
  · exact single_undot h
  · exact single_qualify hns h

theorem Number.single_hex (n : UInt64) : Single (hex n) := by
  intro hn
  rw [hex, String.toList_ofList] at hn
  rcases List.mem_cons.1 hn with hn | hn
  · cases hn
  · have hdigit := isSome_digit?_of_value? (value?_toDigits n.toNat) _ hn
    cases hdigit

theorem Namespaces.single_value {ns : Namespaces} {operand : Operand}
    (hns : ∀ n ∈ ns.names, Single n) (h : ∀ text, operand = .reference text → Single text) :
    Single (ns.value operand).text := by
  cases operand with
  | number n => exact Number.single_hex n
  | reference text => exact single_qualify hns (single_undot (h text rfl))

/-! ## Items -/

/-- The line is made of texts on one line. -/
structure Line.Single (line : Line) : Prop where
  words : ∀ w ∈ line.words, HeaderSymbols.Single w
  comment : ∀ c ∈ line.comment, HeaderSymbols.Single c

theorem Line.single_of_mem_ofSource {source : String} {line : Line} (h : line ∈ ofSource source) :
    line.Single := by
  obtain ⟨raw, hraw, rfl⟩ := List.mem_map.1 h
  exact ⟨fun w hw => (isWord_of_mem_words hw).single, fun c hc =>
    (isComment_of_mem_comment (Text.not_newline_of_mem_splitLines hraw) c hc).single⟩

theorem Line.Single.getD_comment {line : Line} (h : line.Single) :
    HeaderSymbols.Single (line.comment.getD "") := by
  cases hc : line.comment with
  | none => decide
  | some c => exact h.comment c hc

/-- The names, values and comments of the item are each on one line. -/
def Item.Single : Item → Prop
  | text comment => ∀ c ∈ comment, HeaderSymbols.Single c
  | enter name => HeaderSymbols.Single name
  | assignment name value comment =>
    HeaderSymbols.Single name ∧ HeaderSymbols.Single value.text ∧
      ∀ c ∈ comment, HeaderSymbols.Single c
  | member m =>
    HeaderSymbols.Single m.name ∧ (∀ c ∈ m.comment, HeaderSymbols.Single c) ∧
      ∀ name ∈ m.layout, HeaderSymbols.Single name
  | leave | region _ | skip .. | group _ => True

def Directive.Single : Directive → Prop
  | enter name => HeaderSymbols.Single name
  | assign name operand =>
    HeaderSymbols.Single name ∧ ∀ text, operand = .reference text → HeaderSymbols.Single text
  | field name _ => HeaderSymbols.Single name
  | instantiate name reference => HeaderSymbols.Single name ∧ HeaderSymbols.Single reference
  | _ => True

theorem Directive.Spelled.single {words : List String} {d : Directive} (h : Spelled words d)
    (hw : ∀ w ∈ words, HeaderSymbols.Single w) : d.Single := by
  cases h with
  | alone listed =>
    simp only [Directive.alone, List.mem_cons, Prod.mk.injEq, List.not_mem_nil, or_false] at listed
    rcases listed with ⟨-, rfl⟩ | ⟨-, rfl⟩ | ⟨-, rfl⟩ | ⟨-, rfl⟩ | ⟨-, rfl⟩ | ⟨-, rfl⟩ <;> trivial
  | enter name | field name | fill name => exact hw name (.head _)
  | assignNumber name => exact ⟨hw name (.head _), fun text h => by cases h⟩
  | @assignReference text name plain =>
    refine ⟨hw name (.head _), fun text h => ?_⟩
    cases h
    exact hw text (.tail _ (.tail _ (.head _)))
  | instantiate name reference =>
    exact ⟨hw name (.head _), hw reference (.tail _ (.tail _ (.head _)))⟩
  | _ => trivial

namespace Reading

open Outline (Part)

variable {r : Reading} {line : Line} {number : UInt32} {item : Item}

/-- What a line gives is on one line, if the line and the names of the namespaces are. -/
theorem Gives.single (h : r.Gives line number item) (hl : line.Single)
    (hns : ∀ n ∈ r.namespaces.names, HeaderSymbols.Single n) : item.Single := by
  unfold Gives Part.ofLine at h
  cases hd : Directive.ofLine line with
  | error fault => simp [hd] at h
  | ok d =>
    have hdirective := (Directive.spelled_ofLine hd).single hl.words
    rw [hd] at h
    cases d with
    | blank =>
      obtain rfl : .text line.comment = item := by simpa using h
      exact hl.comment
    | enter name =>
      obtain rfl : .enter name = item := by simpa using h
      exact hdirective
    | leave =>
      simp only at h
      split at h
      · simp at h
      · obtain rfl : .leave = item := by simpa using h
        trivial
    | region address =>
      obtain rfl : .region (some address) = item := by simpa using h
      trivial
    | endRegion =>
      obtain rfl : .region none = item := by simpa using h
      trivial
    | skip amount =>
      obtain rfl : .skip amount number = item := by simpa using h
      trivial
    | assign name operand =>
      obtain rfl : .assignment name (r.namespaces.value operand) line.comment = item := by
        simpa using h
      exact ⟨hdirective.1, Namespaces.single_value hns hdirective.2, hl.comment⟩
    | field name size =>
      obtain rfl : .member ⟨name, line.comment, some size, none, number⟩ = item := by simpa using h
      exact ⟨hdirective, hl.comment, by simp⟩
    | instantiate name reference =>
      obtain rfl : .member ⟨name, line.comment, none,
        some (r.namespaces.structureName reference), number⟩ = item := by simpa using h
      refine ⟨hdirective.1, hl.comment, fun key hkey => ?_⟩
      obtain rfl := Option.mem_some.1 hkey
      exact Namespaces.single_structureName hns hdirective.2
    | _ => simp at h

/-- The name that a line gives to a namespace is on one line. -/
theorem single_of_enter (hl : line.Single) {name : String}
    (h : Directive.ofLine line = .ok (.enter name)) : HeaderSymbols.Single name :=
  (Directive.spelled_ofLine h).single hl.words

/-- **Items.** All that the model of a source has is on one line each. -/
theorem single_members (source : String) :
    ∀ id, ∀ i ∈ (ofLines (Line.ofSource source)).model.members id, i.Single := by
  intro id i hi
  rw [ofLines, finish_model] at hi
  by_cases hg : i.isGroup = true
  · cases i with
    | group => trivial
    | _ => cases hg
  obtain ⟨r, line, number, ⟨before, rest, hsource, rfl⟩, hgives⟩ :=
    exists_gives hi (by simpa using hg)
  have hlines : ∀ l ∈ numbered (Line.ofSource source), l.1.Single := fun l hl =>
    Line.single_of_mem_ofSource (numbered_fst (Line.ofSource source) ▸ List.mem_map_of_mem hl)
  rw [hsource] at hlines
  obtain ⟨hbefore, hline⟩ := List.forall_mem_append.1 hlines
  refine hgives.single (hline _ (.head _)) (forall_names_steps (fun l hl name h => ?_) ?_)
  · exact single_of_enter (hbefore l hl) h
  · exact fun n hn => by cases hn

end Reading

/-! ## Layouts -/

/-- The names that are open and the lines that were emitted are each on one line. -/
structure Emitter.Single (e : Emitter) : Prop where
  names : ∀ n ∈ e.namespaces.names, HeaderSymbols.Single n
  lines : ∀ l ∈ e.lines, HeaderSymbols.Single l.render

namespace Emitter

variable {m : Model} {e : Emitter}

theorem single_new : new.Single where
  names n hn := by cases hn
  lines l hl := by simp [new] at hl

theorem Single.emit (h : e.Single) {line : OutputLine} (hl : HeaderSymbols.Single line.render) :
    (e.emit line).Single := by
  refine ⟨h.names, fun l hmem => ?_⟩
  rcases Array.mem_push.1 hmem with hmem | rfl
  · exact h.lines l hmem
  · exact hl

theorem Single.define (h : e.Single) {name : String} {value : Value} {comment : Option String}
    (hname : HeaderSymbols.Single name) (hvalue : HeaderSymbols.Single value.text)
    (hcomment : ∀ c ∈ comment, HeaderSymbols.Single c) : (e.define name value comment).Single := by
  have hqualified := Namespaces.single_qualify h.names hname
  have hsymbol := (hqualified.append (t := " = ") (by decide)).append hvalue
  have hline : HeaderSymbols.Single
      (OutputLine.symbol (e.namespaces.qualify name) value comment).render := by
    refine hsymbol.append ?_
    cases comment with
    | none => simp [HeaderSymbols.Single]
    | some c => exact HeaderSymbols.Single.append (s := "  ") (by decide) (hcomment c rfl)
  exact ⟨h.names, (h.emit hline).lines⟩

/-- Only the lines and the namespaces of an emitter can go over a line. -/
theorem Single.of_eq (h : e.Single) {e' : Emitter} (hns : e'.namespaces = e.namespaces)
    (hlines : e'.lines = e.lines) : e'.Single :=
  ⟨hns ▸ h.names, hlines ▸ h.lines⟩

theorem Single.enter (h : e.Single) {name : String} (hname : HeaderSymbols.Single name) :
    (e.enter name).Single :=
  ⟨List.forall_mem_cons.2 ⟨hname, h.names⟩, h.lines⟩

theorem Single.leave (h : e.Single) : e.leave.Single :=
  ⟨fun n hn => h.names n (List.mem_of_mem_tail hn), h.lines⟩

theorem Single.clear (h : e.Single) : e.clear.Single where
  names n hn := by cases hn
  lines := h.lines

theorem Single.advance (h : e.Single) (address amount : UInt64) (line : UInt32) :
    (e.advance address amount line).1.Single := by
  unfold Emitter.advance
  split
  · exact h
  · exact h.of_eq rfl rfl

theorem Single.field (h : e.Single) {mem : Member} (hmem : (Item.member mem).Single)
    (start : Cursor) : (e.field mem start).1.Single := by
  cases start with
  | none => exact h.of_eq rfl rfl
  | some address =>
    have hvalue : HeaderSymbols.Single (Value.number address).text := Number.single_hex address
    have hdefine := h.define hmem.1 hvalue hmem.2.1
    simp only [Emitter.field]
    split
    · exact hdefine.advance _ _ _
    · exact hdefine.of_eq rfl rfl

theorem Single.visit (h : e.Single) {i : Item} (hi : i.Single) (path : List GroupId)
    (start : Cursor) : (e.visit m path start i).1.Single := by
  cases i with
  | text comment =>
    refine h.emit ?_
    cases comment with
    | none => simp [OutputLine.render, HeaderSymbols.Single]
    | some c => exact hi c rfl
  | enter name => exact h.enter hi
  | leave => exact h.leave
  | region | group => exact h
  | skip amount line =>
    cases start with
    | none => exact h.of_eq rfl rfl
    | some address => exact h.advance _ _ _
  | assignment name value comment => exact h.define hi.1 hi.2.1 hi.2.2
  | member mem =>
    simp only [Emitter.visit, Emitter.member]
    split
    · exact h.field hi start
    · split
      · exact h.enter hi.1
      · exact h.of_eq rfl rfl

end Emitter

section
variable {m : Model} (hm : m.WellNested) (hs : ∀ id, ∀ i ∈ m.members id, i.Single)

include hm hs

theorem Descent.single_layout (path : List GroupId) (id : GroupId) :
    Yields hm (fun _ _ e i _ e' => i.Single → e.Single → e'.Single)
      (fun _ _ _ items _ e _ e' => (∀ i ∈ items, i.Single) → e.Single → e'.Single)
      (fun _ _ _ e _ e' => e.Single → e'.Single) path id := by
  refine induct hm (fun {path _ start e i _ e'} _ hv hi he => ?finish) (fun _ _ hg _ => hg)
    (fun _ _ _ hg hi he => ?expand) (fun _ he => he) (fun _ _ hi _ hr hsub he => ?cons)
    (fun hr => hr (hs _)) path id
  case finish =>
    have hvisit := he.visit (m := m) hi path start
    rwa [hv] at hvisit
  case expand => exact (hg (he.enter hi.1)).leave
  case cons => exact hr (fun i hmem => hsub i (.tail _ hmem)) (hi (hsub _ (.head _)) he)

namespace Emitter

variable {e : Emitter}

theorem Single.group (h : e.Single) (id : GroupId) (start : Cursor) :
    (e.group m id start).2.Single := by
  rw [Descent.group_eq hm]
  exact (Descent.single_layout hm hs [id] id).group rfl h

theorem Single.named (h : e.Single) {namespaceName : String}
    (hname : HeaderSymbols.Single namespaceName) (key : String) (start : UInt64) :
    (e.named m namespaceName key start).2.Single := by
  unfold Emitter.named
  split
  · exact h.clear.of_eq rfl rfl
  · exact (Single.group hm hs (h.clear.enter hname) _ _).clear

/-- **Layouts.** The layout of a model whose items are on one line each has each of its lines on one
line. -/
theorem single_ofModel : (ofModel m).Single := by
  have hdocument := Single.group hm hs single_new Model.document none
  simp only [ofModel, trailers, HeaderSymbols.trailers, List.foldl_cons, List.foldl_nil]
  exact .named hm hs (.named hm hs hdocument (by decide) _ _) (by decide) _ _

end Emitter

end

end HeaderSymbols
