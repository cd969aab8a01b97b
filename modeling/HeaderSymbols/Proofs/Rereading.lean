import HeaderSymbols.Conversion
import HeaderSymbols.Proofs.Layout.Effects
import HeaderSymbols.Proofs.Source.Wording
import HeaderSymbols.Proofs.Text.Numeral

/-!
# The output is a header

What is laid out for a source can be read as a source again, and laid out again it is the same. A
line that is written is cut at the blanks between its words and at its comment mark; no name or
value has a blank or a mark, and no value that refers to a symbol looks like a number.

* `Legible.visit`, `legible_layout`: whatever is emitted for a legible item, and for a model of
  legible items, is legible.
* `Legible.read_render`, `ofSource_renderAll`: a legible line reads as the words and the comment
  that it was made of, and so do lines one after the other.
* `Outside.step`, `outside_ofLines`: such a line puts its item into the document, and nothing is
  wrong with it.
* `document_items`: those items are laid out as the lines that they came from.
* `output_reads_back`: so the output of a source is read and laid out as itself.
-/
namespace HeaderSymbols

/-! ## What is emitted -/

/-- A line whose text reads as the line. -/
def OutputLine.Legible : OutputLine → Prop
  | text comment => ∀ c ∈ comment, Line.IsComment c
  | symbol name value comment =>
    Line.IsWord name ∧ value.Legible ∧ ∀ c ∈ comment, Line.IsComment c

namespace Emitter

structure Legible (e : Emitter) : Prop where
  lines : ∀ l ∈ e.lines.toList, l.Legible
  names : ∀ n ∈ e.namespaces.names, Line.IsWord n

theorem legible_new : new.Legible := ⟨nofun, nofun⟩

variable {e : Emitter}

theorem Legible.emit (h : e.Legible) {line : OutputLine} (hl : line.Legible) :
    (e.emit line).Legible where
  lines l hmem := by
    rw [Emitter.emit, Array.toList_push] at hmem
    rcases List.mem_append.1 hmem with hmem | hmem
    · exact h.lines l hmem
    · exact List.mem_singleton.1 hmem ▸ hl
  names := h.names

theorem Legible.report (h : e.Legible) (line : Option UInt32) (fault : Fault) :
    (e.report line fault).Legible := ⟨h.lines, h.names⟩

theorem Legible.enter (h : e.Legible) {name : String} (hn : Line.IsWord name) :
    (e.enter name).Legible := ⟨h.lines, List.forall_mem_cons.2 ⟨hn, h.names⟩⟩

theorem Legible.leave (h : e.Legible) : e.leave.Legible :=
  ⟨h.lines, fun n hn => h.names n (List.mem_of_mem_tail hn)⟩

theorem Legible.clear (h : e.Legible) : e.clear.Legible := ⟨h.lines, nofun⟩

theorem Legible.define (h : e.Legible) {name : String} {value : Value} {comment : Option String}
    (hn : Line.IsWord name) (hv : value.Legible) (hc : ∀ c ∈ comment, Line.IsComment c) :
    (e.define name value comment).Legible := by
  have hline : (OutputLine.symbol (e.namespaces.qualify name) value comment).Legible :=
    ⟨Namespaces.isWord_qualify h.names hn, hv, hc⟩
  exact ⟨(h.emit hline).lines, h.names⟩

theorem Legible.advance (h : e.Legible) (address amount : UInt64) (line : UInt32) :
    (e.advance address amount line).1.Legible := by
  unfold Emitter.advance
  split
  · exact h
  · exact h.report ..

theorem Legible.visit (h : e.Legible) {i : Item} (hi : i.Legible) (m : Model)
    (path : List GroupId) (start : Cursor) : (e.visit m path start i).1.Legible := by
  cases i with
  | text comment => exact h.emit hi
  | enter name => exact h.enter hi
  | leave => exact h.leave
  | region | group => exact h
  | skip amount line =>
    simp only [Emitter.visit, Emitter.skip]
    split
    · exact h.advance ..
    · exact h.report ..
  | assignment name value comment => exact h.define hi.1 hi.2.1 hi.2.2
  | member mem =>
    simp only [Emitter.visit, Emitter.member]
    split
    · simp only [Emitter.field]
      split
      · exact h.report ..
      · rename_i address
        have hd : (e.define mem.name (.number address) mem.comment).Legible :=
          h.define hi.1 trivial hi.2
        split
        · exact hd.advance ..
        · exact hd.report ..
    · split
      · exact h.enter hi.1
      · exact h.report ..

end Emitter

namespace Descent

variable {m : Model} (hitems : ∀ id, ∀ i ∈ m.members id, i.Legible)

include hitems

theorem legible_layout (hm : m.WellNested) (path : List GroupId) (id : GroupId) :
    Yields hm (fun _ _ e i _ e' => i.Legible → e.Legible → e'.Legible)
      (fun _ _ _ _ _ e _ e' => e.Legible → e'.Legible)
      (fun _ _ _ e _ e' => e.Legible → e'.Legible) path id := by
  refine induct hm (fun {path _ start e i c e'} _ hv hi h => ?finish) (fun _ _ hg _ => hg)
    (fun _ _ _ hg hi h => (hg (h.enter hi.1)).leave) (fun h => h)
    (fun hsub _ hfirst _ hrest h => hrest (hfirst (hitems _ _ (hsub _ (.head _))) h)) (fun h => h)
    path id
  have hvisit := h.visit hi m path start
  rwa [hv] at hvisit

end Descent

/-- A text is a word if every one of its characters may be in one. -/
theorem Line.isWord_of_all {s : String} (hne : s.toList ≠ [])
    (h : s.toList.all (fun c => !Text.isBlank c && c != commentMark) = true) : IsWord s := by
  simp only [List.all_eq_true, Bool.and_eq_true, Bool.not_eq_true', bne_iff_ne] at h
  exact ⟨hne, fun c hc => (h c hc).1, fun hc => (h _ hc).2 rfl⟩

namespace Emitter

variable {m : Model} {e : Emitter} (hm : m.WellNested)
  (hitems : ∀ id, ∀ i ∈ m.members id, i.Legible)

include hm hitems

theorem Legible.group (h : e.Legible) (id : GroupId) (start : Cursor) :
    (e.group m id start).2.Legible := by
  rw [Descent.group_eq hm]
  exact (Descent.legible_layout hitems hm [id] id).group rfl h

theorem Legible.named (h : e.Legible) {namespaceName : String} (hn : Line.IsWord namespaceName)
    (key : String) (start : UInt64) : (e.named m namespaceName key start).2.Legible := by
  unfold Emitter.named
  split
  · exact h.clear.report ..
  · rename_i id _
    exact (Legible.group hm hitems (h.clear.enter hn) id (some start)).clear

theorem legible_ofModel : (ofModel m).Legible := by
  have hdocument := Legible.group hm hitems legible_new.clear Model.document none
  have hevent := Line.isWord_of_all (s := "kernel_event") (by decide) (by decide)
  have htime := Line.isWord_of_all (s := "kernel_time") (by decide) (by decide)
  exact (hdocument.named hm hitems hevent _ _).named hm hitems htime _ _

end Emitter

/-! ## A line that is read -/

theorem Number.not_blank_of_isSome_digit? {c : Char} (h : (digit? 16 c).isSome = true) :
    Text.isBlank c = false ∧ c ≠ Line.commentMark := by
  have hrange := range_of_isSome_digit? h
  constructor
  · simp [Text.isBlank, Text.inRanges, Text.blankRanges]
    omega
  · rintro rfl
    revert hrange
    decide

/-- The text of a legible value can stand in a line. -/
theorem Value.Legible.isWord_text {value : Value} (h : value.Legible) : Line.IsWord value.text := by
  cases value with
  | symbol name => exact h.1
  | number n =>
    have hdigits : ∀ c ∈ Nat.toDigits 16 n.toNat, Text.isBlank c = false ∧ c ≠ Line.commentMark :=
      fun c hc => Number.not_blank_of_isSome_digit?
        (Number.isSome_digit?_of_value? (Number.value?_toDigits n.toNat) c hc)
    have htext : (Value.number n).text.toList = '$' :: Nat.toDigits 16 n.toNat :=
      String.toList_ofList
    refine ⟨?_, ?_, ?_⟩ <;> rw [htext]
    · exact List.cons_ne_nil _ _
    · exact List.forall_mem_cons.2 ⟨by decide, fun c hc => (hdigits c hc).1⟩
    · intro hm
      rcases List.mem_cons.1 hm with hm | hm
      · cases hm
      · exact (hdigits _ hm).2 rfl

namespace Line

/-- A line of code without a mark and of a comment after it, or of code only. -/
theorem ofChars_append {mark : Char} {cs comment : List Char} (hc : mark ∉ cs)
    (hm : ∀ c ∈ comment.head?, c = mark) (ht : Text.Trimmed (cs ++ comment)) :
    ofChars mark (cs ++ comment) =
      ⟨String.ofList (cs ++ comment), (Text.words cs).map String.ofList,
        if comment.isEmpty then none else some (String.ofList comment)⟩ := by
  simp only [ofChars, Text.trimEnd_of_trimmed ht, code_remark_append hc comment hm]

theorem IsComment.ne_nil {s : String} (h : IsComment s) : s.toList ≠ [] := by
  intro hn
  have hm := h.marked
  rw [hn] at hm
  cases hm

end Line

namespace OutputLine

def words : OutputLine → List String
  | text _ => []
  | symbol name value _ => [name, "=", value.text]

def comment : OutputLine → Option String
  | text comment => comment
  | symbol _ _ comment => comment

/-- What is before the comment of a line. -/
def code : OutputLine → List Char
  | text _ => []
  | symbol name value comment =>
    name.toList ++
      ' ' :: (['='] ++ ' ' :: (value.text.toList ++ comment.elim [] fun _ => [' ', ' ']))

theorem toList_render (l : OutputLine) :
    l.render.toList = l.code ++ l.comment.elim [] String.toList := by
  cases l with
  | text comment => cases comment <;> rfl
  | symbol name value comment => cases comment <;> simp [render, code, OutputLine.comment]

variable {l : OutputLine}

/-- Code is only words and blanks that are not line feeds, and ends in a blank only before a
comment. -/
theorem Legible.code (h : l.Legible) :
    Line.commentMark ∉ l.code ∧ '\n' ∉ l.code ∧ (l.comment = none → Text.Trimmed l.code) := by
  cases l with
  | text comment => exact ⟨nofun, nofun, fun _ => nofun⟩
  | symbol name value comment =>
    obtain ⟨hn, hv, -⟩ := h
    have hv := hv.isWord_text
    refine ⟨?_, ?_, ?_⟩
    · have hname : ';' ∉ name.toList := hn.unmarked
      have hvalue : ';' ∉ value.text.toList := hv.unmarked
      cases comment <;> simp [OutputLine.code, hname, hvalue, Line.commentMark]
    · cases comment <;> simp [OutputLine.code, hn.not_newline, hv.not_newline]
    · rintro rfl
      have hend : Text.Trimmed value.text.toList := Text.trimmed_of_not_blank hv.not_blank
      have hcode : (symbol name value none).code =
          (name.toList ++ [' ', '=', ' ']) ++ value.text.toList := by simp [OutputLine.code]
      rw [hcode]
      exact (Text.trimmed_append_iff hv.ne_nil _).2 hend

theorem Legible.words (h : l.Legible) : (Text.words l.code).map String.ofList = l.words := by
  cases l with
  | text comment => rfl
  | symbol name value comment =>
    obtain ⟨hn, hv, -⟩ := h
    have hv := hv.isWord_text
    have hspace : Text.isBlank ' ' = true := by decide
    have hvalue : Text.words (value.text.toList ++ comment.elim [] fun _ => [' ', ' ']) =
        [value.text.toList] := by
      cases comment with
      | none =>
        rw [Option.elim_none, List.append_nil, Text.words_of_not_blank hv.ne_nil hv.not_blank]
      | some c =>
        rw [Option.elim_some, Text.words_append_blank _ _ hspace,
          Text.words_of_not_blank hv.ne_nil hv.not_blank]
        rfl
    have hequals : Text.words ['='] = [['=']] := rfl
    rw [OutputLine.code, Text.words_append_blank _ _ hspace, Text.words_append_blank _ _ hspace,
      hvalue, hequals, Text.words_of_not_blank hn.ne_nil hn.not_blank]
    simp [OutputLine.words]

theorem Legible.comment (h : l.Legible) : ∀ c ∈ l.comment, Line.IsComment c := by
  cases l with
  | text => exact h
  | symbol => exact h.2.2

/-- What a line that is written is read as. -/
def line (l : OutputLine) : Line := ⟨l.render, l.words, l.comment⟩

theorem Legible.trimmed_render (h : l.Legible) : Text.Trimmed l.render.toList := by
  rw [toList_render]
  cases hc : l.comment with
  | none => simpa using h.code.2.2 hc
  | some c =>
    have hcomment := h.comment c hc
    exact (Text.trimmed_append_iff hcomment.ne_nil _).2 hcomment.trimmed

theorem Legible.newline_not_mem_render (h : l.Legible) : '\n' ∉ l.render.toList := by
  rw [toList_render]
  intro hm
  rcases List.mem_append.1 hm with hm | hm
  · exact h.code.2.1 hm
  · cases hc : l.comment with
    | none => simp [hc] at hm
    | some c =>
      rw [hc] at hm
      exact (h.comment c hc).single hm

/-- A line that is written is read as the words and the comment that it was made of. -/
theorem Legible.read_render (h : l.Legible) :
    Line.ofChars Line.commentMark l.render.toList = l.line := by
  have htrimmed := h.trimmed_render
  have hmark : ∀ c ∈ (l.comment.elim [] String.toList).head?, c = Line.commentMark := by
    intro c hc
    cases hl : l.comment with
    | none => simp [hl] at hc
    | some s =>
      rw [hl, Option.elim_some, (h.comment s hl).marked] at hc
      exact (Option.mem_some.1 hc).symm
  rw [toList_render] at htrimmed
  rw [toList_render, Line.ofChars_append h.code.1 hmark htrimmed, ← toList_render,
    String.ofList_toList, h.words, line]
  cases hl : l.comment with
  | none => rfl
  | some s =>
    have hne := (h.comment s hl).ne_nil
    simp [hne]

theorem ofSource_renderAll {ls : List OutputLine} (h : ∀ l ∈ ls, l.Legible) :
    Line.ofSource (renderAll ls) = ls.map line := by
  have htext : (renderAll ls).toList =
      (ls.map fun l => l.render.toList).flatMap (· ++ ['\n']) := by
    simp [renderAll, String.toList_join, List.flatMap_map]
  have hlines : ∀ cs ∈ ls.map fun l => l.render.toList, '\n' ∉ cs ∧ Text.Trimmed cs := by
    intro cs hcs
    obtain ⟨l, hl, rfl⟩ := List.mem_map.1 hcs
    exact ⟨(h l hl).newline_not_mem_render, (h l hl).trimmed_render⟩
  rw [Line.ofSource, htext, Text.splitLines_flatMap hlines, List.map_map]
  exact List.map_congr_left fun l hl => (h l hl).read_render

end OutputLine

/-! ## Lines that are read again -/

/-- The text of a legible value reads as the value, where no namespace is open. -/
theorem Value.Legible.exists_operand {value : Value} (h : value.Legible) :
    ∃ o, Directive.operand value.text = .ok o ∧ Namespaces.root.value o = value := by
  cases value with
  | number n =>
    have hparse : Number.parse? (Value.number n).text = some n := Number.parse?_hex n
    have hliteral := Number.isLiteral_of_parse? hparse
    exact ⟨.number n,
      by simp [Directive.operand, Directive.number, hliteral, hparse, Except.map], rfl⟩
  | symbol name =>
    obtain ⟨-, hdot, hnum⟩ := h
    have hliteral : ¬ Number.isLiteral (Value.symbol name).text = true := fun hl =>
      hnum (Grammar.isLiteral_iff.1 hl)
    refine ⟨.reference name, if_neg hliteral, ?_⟩
    rw [Namespaces.value, undot_of_dot_not_mem hdot, Namespaces.qualify, Namespaces.qualifier_root,
      String.empty_append]

/-- The item that a line is read as, outside of groups and namespaces. -/
def OutputLine.item : OutputLine → Item
  | text comment => .text comment
  | symbol name value comment => .assignment name value comment

namespace Reading

/-- A reading without a finding, outside of groups and namespaces, with these items in its
document. -/
structure Outside (r : Reading) (items : List Item) : Prop extends r.WellFormed where
  closed : r.scopes = [Model.document]
  bare : r.namespaces = .root
  sound : r.findings = #[]
  items : r.model.members Model.document = items

theorem outside_start : start.Outside [] := ⟨wellFormed_start, rfl, rfl, rfl, rfl⟩

variable {r : Reading} {items : List Item}

/-- A line that is written puts its item into the document. -/
theorem step_line (hs : r.scopes = [Model.document]) (hn : r.namespaces = .root) {l : OutputLine}
    (hl : l.Legible) (number : UInt32) : r.step l.line number = r.note l.item := by
  cases l with
  | text comment => rfl
  | symbol name value comment =>
    obtain ⟨o, ho, hvalue⟩ := hl.2.1.exists_operand
    have hd : Directive.ofLine (OutputLine.symbol name value comment).line =
        .ok (.assign name o) := by
      simp [Directive.ofLine, Directive.ofWords?, Directive.ofTriple, OutputLine.line,
        OutputLine.words, ho, Except.map]
    rw [step_of_ok hd]
    simp [obey, place, note, scope, hs, hn, hvalue, OutputLine.item, OutputLine.line,
      OutputLine.comment]

theorem Outside.step (h : r.Outside items) {l : OutputLine} (hl : l.Legible) (number : UInt32) :
    (r.step l.line number).Outside (items ++ [l.item]) := by
  have hstep := step_line h.closed h.bare hl number
  have hmembers := Model.members_push r.model l.item h.model.document_lt Model.document
  rw [if_pos rfl, h.items] at hmembers
  refine ⟨wellFormed_step h.toWellFormed _ _, ?_, ?_, ?_, ?_⟩ <;> rw [hstep]
  · exact h.closed
  · exact h.bare
  · exact h.sound
  · exact hmembers

theorem Outside.steps (h : r.Outside items) {ls : List OutputLine} (hl : ∀ l ∈ ls, l.Legible)
    {src : List (Line × UInt32)} (hsrc : src.map Prod.fst = ls.map OutputLine.line) :
    (r.steps src).Outside (items ++ ls.map OutputLine.item) := by
  induction ls generalizing r items src with
  | nil =>
    obtain rfl : src = [] := List.map_eq_nil_iff.1 hsrc
    simpa using h
  | cons l rest ih =>
    obtain ⟨⟨line, number⟩, later, rfl, rfl, hlater⟩ := List.map_eq_cons_iff.1 hsrc
    have hrest := ih (h.step (hl l (.head _)) number) (fun l' h' => hl l' (.tail _ h')) hlater
    simpa using hrest

theorem outside_ofLines {ls : List OutputLine} (hl : ∀ l ∈ ls, l.Legible) :
    (ofLines (ls.map OutputLine.line)).Outside (ls.map OutputLine.item) := by
  have h := outside_start.steps hl (numbered_fst _)
  have hclosed : (start.steps (numbered (ls.map OutputLine.line))).unclosed = [] := by
    simp [unclosed, h.closed, h.bare, Namespaces.isRoot, Namespaces.root]
  rw [ofLines, finish, hclosed]
  exact h

end Reading

/-! ## Items that are laid out again -/

/-- The emitter once these lines are written, and the symbols among them counted. -/
def Emitter.written (e : Emitter) (lines : Array OutputLine) : Emitter :=
  { e with lines := e.lines ++ lines, symbols := e.symbols + countSymbols lines }

theorem Emitter.written_cons (e : Emitter) (l : OutputLine) (rest : List OutputLine) :
    (e.written #[l]).written rest.toArray = e.written (l :: rest).toArray := by
  have hcount : countSymbols (l :: rest).toArray =
      countSymbols #[l] + countSymbols rest.toArray := by
    simp [countSymbols, List.countP_cons, Nat.add_comm]
  simp [written, hcount, Nat.add_assoc]

namespace Descent

variable {m : Model} (hm : m.WellNested) {path : List GroupId} {id : GroupId}

/-- A line is laid out again for its item, outside of namespaces. -/
theorem item_item {l : OutputLine} (hi : l.item ∈ m.members id) (start : Cursor) {e : Emitter}
    (hn : e.namespaces = .root) :
    item hm path id start e l.item hi = (start, e.written #[l]) := by
  have hvisit : e.visit m path start l.item = (e.written #[l], .finish start) := by
    cases l with
    | text => rfl
    | symbol name value comment =>
      simp [Emitter.visit, OutputLine.item, Emitter.define, hn, Namespaces.qualify, Emitter.emit,
        Emitter.written, Emitter.countSymbols, OutputLine.isSymbol]
  rw [item_eq_visit, hvisit]

theorem members_items (hk : m.kind id = .struct) (entry cursor : Cursor) {ls : List OutputLine}
    {items : List Item} (hitems : items = ls.map OutputLine.item)
    (hsub : ∀ i ∈ items, i ∈ m.members id) {e : Emitter} (hn : e.namespaces = .root) :
    members hm path id entry items hsub cursor e = (cursor, e.written ls.toArray) := by
  induction ls generalizing items e with
  | nil =>
    subst hitems
    simp [members_nil, Emitter.written, Emitter.countSymbols]
  | cons l rest ih =>
    rw [List.map_cons] at hitems
    subst hitems
    have hfirst : item hm path id cursor e l.item (hsub _ (.head _)) =
        (cursor, e.written #[l]) := item_item hm _ cursor hn
    have hstart : (m.kind id).start entry cursor = cursor := by rw [hk]; rfl
    have hnext : (m.kind id).next cursor cursor = cursor := by rw [hk]; rfl
    have hrest := ih rfl (fun j hj => hsub j (.tail _ hj)) (e := e.written #[l]) hn
    rw [members_cons]
    simp only [hstart, hfirst, hnext, hrest, Emitter.written_cons]

end Descent

namespace Emitter

theorem document_items {m : Model} (hm : m.WellFormed) {ls : List OutputLine}
    (hitems : m.members Model.document = ls.map OutputLine.item) :
    (new.document m).2 = ⟨.root, ls.toArray, #[], countSymbols ls.toArray⟩ := by
  have hkind : m.kind Model.document = .struct := by rw [Model.kind, hm.top]; rfl
  rw [document, Descent.group_eq hm.wellNested, Descent.group,
    Descent.members_items hm.wellNested hkind _ _ hitems _ rfl]
  simp [new, clear, written]

/-- What is written is read without a finding, as a document of texts and assignments, and laid
out as it was. -/
theorem Legible.reads_back {e : Emitter} (h : e.Legible) :
    let again := Reading.ofLines (Line.ofSource e.output)
    again.findings = #[] ∧ again.model.members Model.document = e.lines.toList.map OutputLine.item ∧
      (new.document again.model).2 = ⟨.root, e.lines, #[], countSymbols e.lines⟩ := by
  have hread : Line.ofSource e.output = _ := OutputLine.ofSource_renderAll h.lines
  have hagain := Reading.outside_ofLines h.lines
  rw [← hread] at hagain
  exact ⟨hagain.sound, hagain.items, document_items hagain.model hagain.items⟩

end Emitter

/-- **Output is a header.** Whatever is laid out for a source, with all that is wrong there, is
read without a finding, as a document of texts and assignments, and laid out as it was, if no
namespace of the source has a dot in its name or looks like a hexadecimal number. -/
theorem output_reads_back (source : String)
    (h : ∀ line ∈ Line.ofSource source, ∀ name, line.words = [name, ".namespace"] →
      '.' ∉ name.toList ∧ name.toList.head? ≠ some '$') :
    let e := Emitter.ofModel (Reading.ofLines (Line.ofSource source)).model
    let again := Reading.ofLines (Line.ofSource e.output)
    let e' := (Emitter.new.document again.model).2
    again.findings = #[] ∧
      (∀ i ∈ again.model.members Model.document, (∃ comment, i = .text comment) ∨
        ∃ name value comment, i = .assignment name value comment) ∧
      e'.output = e.output ∧ e'.symbols = e.symbols ∧ e'.findings = #[] := by
  have hitems := Reading.legible_ofLines fun line hl => Line.legible_of_mem_ofSource hl (h line hl)
  have hm := Reading.wellNested_ofLines (Line.ofSource source)
  have hlegible := Emitter.legible_ofModel hm hitems
  have hsymbols := Emitter.symbols_ofModel hm
  generalize Emitter.ofModel (Reading.ofLines (Line.ofSource source)).model = e at hlegible hsymbols
  obtain ⟨hsound, hdocument, hlayout⟩ := hlegible.reads_back
  refine ⟨hsound, fun i hi => ?_, ?_⟩
  · rw [hdocument] at hi
    obtain ⟨l, -, rfl⟩ := List.mem_map.1 hi
    cases l with
    | text comment => exact .inl ⟨comment, rfl⟩
    | symbol name value comment => exact .inr ⟨name, value, comment, rfl⟩
  · rw [hlayout]
    exact ⟨rfl, hsymbols.symm, rfl⟩

/-- A header with lines that are wrong, a namespace that stays open and no structure of the
kernel's. -/
def specimenSource : String :=
  "k .namespace ; keys\na = 16 ; ten\n; note\nb = k.a\n.ends\n.virtual $20\nc .word ?\nd .dstruct e\n"

theorem output_reads_back_specimen :
    let text := "k_a = $10  ; ten\n; note\nk_b = k_k_a\nk_c = $20\n"
    let again := Reading.ofLines (Line.ofSource text)
    (∀ line ∈ Line.ofSource specimenSource, ∀ name, line.words = [name, ".namespace"] →
        '.' ∉ name.toList ∧ name.toList.head? ≠ some '$') ∧
      (Emitter.ofModel (Reading.ofLines (Line.ofSource specimenSource)).model).output = text ∧
      again.findings = #[] ∧ (Emitter.new.document again.model).2.output = text := by
  have hns : ∀ line ∈ Line.ofSource specimenSource, ∀ name, line.words = [name, ".namespace"] →
      '.' ∉ name.toList ∧ name.toList.head? ≠ some '$' := by
    have hwords : (Line.ofSource specimenSource).map Line.words =
        [["k", ".namespace"], ["a", "=", "16"], [], ["b", "=", "k.a"], [".ends"],
          [".virtual", "$20"], ["c", ".word", "?"], ["d", ".dstruct", "e"]] := by decide
    intro line hl name hw
    have hmem := List.mem_map_of_mem (f := Line.words) hl
    rw [hwords, hw] at hmem
    obtain rfl : name = "k" := by simpa using hmem
    decide
  have hdocument : (Emitter.new.document (Reading.ofLines (Line.ofSource specimenSource)).model) =
      (some 34, ⟨⟨["k"]⟩, #[.symbol "k_a" (.number 16) (some "; ten"), .text (some "; note"),
        .symbol "k_b" (.symbol "k_k_a") none, .symbol "k_c" (.number 32) none],
        #[⟨some 8, .unknownStructure "k_e"⟩], 3⟩) := by
    refine Walk.run_eq_of_reaches ?_
    iterate 8 apply Walk.Reaches.step
    exact .refl _
  have houtput : (Emitter.ofModel (Reading.ofLines (Line.ofSource specimenSource)).model).output =
      "k_a = $10  ; ten\n; note\nk_b = k_k_a\nk_c = $20\n" := by
    rw [Emitter.ofModel, hdocument]
    decide
  obtain ⟨hsound, -, hagain, -⟩ := output_reads_back specimenSource hns
  rw [houtput] at hsound hagain
  exact ⟨hns, houtput, hsound, hagain⟩

end HeaderSymbols
