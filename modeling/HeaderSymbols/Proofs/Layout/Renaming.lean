import HeaderSymbols.Conversion
import HeaderSymbols.Proofs.Layout.Descent

/-!
# Layouts and renaming

A layout goes by the kinds of groups, by the sizes and names of members and by their order. The
numbers of groups and of lines and the comments it only passes on. So where these are renamed, the
layout is the same, but for the renaming.

* `Renaming`: what is renamed, in items, emitters, frames and walks.
* `Emitter.output_rename`, `Emitter.symbols_rename`: what does not depend on what is renamed.
* `Model.Renames`: a model is another one renamed, with its groups in whatever order.
* `rename_visit`, `rename_step`: an item and a step do to the renamed what they do, renamed.
* `rename_ofModel`: so the layout of a renamed model is the layout renamed.
-/
namespace HeaderSymbols

/-- Other numbers for groups and lines, other comments, and other texts where a line is quoted. The
document stays itself, and two groups stay two. -/
structure Renaming where
  group : GroupId → GroupId
  line : UInt32 → UInt32
  comment : Option String → Option String
  text : String → String
  injective : ∀ {id id' : GroupId}, group id = group id' → id = id'
  document : group Model.document = Model.document

variable (ρ : Renaming)

/-! ## What is renamed -/

def Item.rename : Item → Item
  | text comment => .text (ρ.comment comment)
  | enter name => .enter name
  | leave => .leave
  | region start => .region start
  | skip amount line => .skip amount (ρ.line line)
  | assignment name value comment => .assignment name value (ρ.comment comment)
  | member m => .member { m with comment := ρ.comment m.comment, line := ρ.line m.line }
  | group id => .group (ρ.group id)

@[simp] theorem Item.rename_group (id : GroupId) :
    (Item.group id).rename ρ = .group (ρ.group id) := rfl

def OutputLine.rename : OutputLine → OutputLine
  | text comment => .text (ρ.comment comment)
  | symbol name value comment => .symbol name value (ρ.comment comment)

def Fault.rename : Fault → Fault
  | unrecognizedLine text => .unrecognizedLine (ρ.text text)
  | fault => fault

def Finding.rename (f : Finding) : Finding := ⟨f.line.map ρ.line, f.fault.rename ρ⟩

def Move.rename : Move → Move
  | finish cursor => .finish cursor
  | nest id => .nest (ρ.group id)
  | expand id => .expand (ρ.group id)

def Emitter.rename (e : Emitter) : Emitter :=
  ⟨e.namespaces, e.lines.map (·.rename ρ), e.findings.map (·.rename ρ), e.symbols⟩

def Frame.rename (f : Frame) : Frame :=
  { f with
    group := ρ.group f.group
    rest := f.rest.map (·.rename ρ) }

def Walk.rename : Walk → Walk
  | inside top outer path e =>
    .inside (top.rename ρ) (outer.map (·.rename ρ)) (path.map ρ.group) (e.rename ρ)
  | ended finish e => .ended finish (e.rename ρ)

/-- The second model is the first renamed. -/
structure Model.Renames (m m' : Model) : Prop where
  kind : ∀ id, m'.kind (ρ.group id) = m.kind id
  members : ∀ id, m'.members (ρ.group id) = (m.members id).map (·.rename ρ)
  lookup : ∀ name, m'.lookup name = (m.lookup name).map ρ.group

theorem mapError_ok {ε ε' α : Type} (f : ε → ε') (a : α) :
    (Except.ok a : Except ε α).mapError f = .ok a := rfl

theorem mapError_error {ε ε' α : Type} (f : ε → ε') (error : ε) :
    (Except.error error : Except ε α).mapError f = .error (f error) := rfl

variable {ρ}

/-! ## What stays as it is -/

/-- A line of an output is the same where comments are. -/
theorem OutputLine.rename_eq_self (h : ∀ c, ρ.comment c = c) (l : OutputLine) : l.rename ρ = l := by
  cases l <;> simp only [rename, h]

/-- A fault is the same where texts that are quoted are. -/
theorem Fault.rename_eq_self (h : ∀ t, ρ.text t = t) (fault : Fault) : fault.rename ρ = fault := by
  cases fault <;> simp only [rename, h]

theorem Emitter.output_rename (h : ∀ c, ρ.comment c = c) (e : Emitter) :
    (e.rename ρ).output = e.output := by
  simp only [output, rename, OutputLine.rename_eq_self h, Array.map_id']

/-- There are as many symbols in any case. -/
theorem Emitter.symbols_rename (ρ : Renaming) (e : Emitter) : (e.rename ρ).symbols = e.symbols :=
  rfl

/-! ## Emitting -/

namespace Renaming

theorem mem_map_group {id : GroupId} {path : List GroupId} :
    ρ.group id ∈ path.map ρ.group ↔ id ∈ path := by
  constructor
  · intro h
    obtain ⟨other, hother, he⟩ := List.mem_map.1 h
    exact ρ.injective he ▸ hother
  · exact List.mem_map_of_mem

end Renaming

namespace Emitter

variable {m m' : Model} {e : Emitter}

@[simp] theorem rename_new : new.rename ρ = new := by simp [rename, new]

theorem rename_emit (line : OutputLine) :
    (e.emit line).rename ρ = (e.rename ρ).emit (line.rename ρ) := by
  simp [rename, emit]

theorem rename_define (name : String) (value : Value) (comment : Option String) :
    (e.define name value comment).rename ρ =
      (e.rename ρ).define name value (ρ.comment comment) := by
  simp [rename, define, emit, OutputLine.rename]

theorem rename_report (line : Option UInt32) (fault : Fault) :
    (e.report line fault).rename ρ = (e.rename ρ).report (line.map ρ.line) (fault.rename ρ) := by
  simp [rename, report, Finding.rename]

theorem rename_advance (address amount : UInt64) (line : UInt32) :
    (e.rename ρ).advance address amount (ρ.line line) =
      ((e.advance address amount line).1.rename ρ, (e.advance address amount line).2) := by
  unfold advance
  split
  · rfl
  · rw [rename_report]
    rfl

theorem rename_skip (start : Cursor) (amount : UInt64) (line : UInt32) :
    (e.rename ρ).skip start amount (ρ.line line) =
      ((e.skip start amount line).1.rename ρ, (e.skip start amount line).2) := by
  cases start with
  | some address => exact rename_advance ..
  | none =>
    simp only [skip, rename_report]
    rfl

theorem rename_field (mem : Member) (start : Cursor) :
    (e.rename ρ).field { mem with comment := ρ.comment mem.comment, line := ρ.line mem.line }
        start =
      ((e.field mem start).1.rename ρ, (e.field mem start).2) := by
  cases start with
  | none =>
    simp only [field, rename_report]
    rfl
  | some address =>
    simp only [field, ← rename_define]
    split
    · exact rename_advance ..
    · rw [rename_report]
      rfl

/-- A structure is found under its name as the renamed group, or refused for the same fault. -/
theorem resolve_rename (h : m.Renames ρ m') (path : List GroupId) (start : Cursor) (name : String) :
    resolve m' (path.map ρ.group) start name =
      ((resolve m path start name).map ρ.group).mapError (Fault.rename ρ) := by
  unfold resolve
  split
  · rfl
  · rw [h.lookup]
    cases m.lookup name with
    | none => rfl
    | some id =>
      simp only [Option.map_some, Renaming.mem_map_group]
      split <;> rfl

/-- **Items.** What becomes of a renamed item is what becomes of the item, renamed. -/
theorem visit_rename (h : m.Renames ρ m') (path : List GroupId) (start : Cursor) (e : Emitter)
    (i : Item) :
    (e.rename ρ).visit m' (path.map ρ.group) start (i.rename ρ) =
      ((e.visit m path start i).1.rename ρ, (e.visit m path start i).2.rename ρ) := by
  cases i with
  | text | assignment => simp only [visit, rename_emit, rename_define]; rfl
  | enter | leave | region | group => rfl
  | skip amount line =>
    simp only [Item.rename, visit, rename_skip]
    rfl
  | member mem =>
    obtain ⟨memberName, comment, size, layout, line⟩ := mem
    cases layout with
    | none =>
      have hf : (e.rename ρ).field _ _ = _ :=
        rename_field ⟨memberName, comment, size, none, line⟩ start
      simp only at hf
      simp only [Item.rename, visit, member, hf]
      rfl
    | some name =>
      simp only [Item.rename, visit, member, resolve_rename h]
      cases resolve m path start name with
      | ok id => rfl
      | error fault =>
        simp only [Except.map, mapError_error, rename_report]
        rfl

end Emitter

/-! ## Walking -/

namespace Walk

variable {m m' : Model}

theorem rename_new (h : m.Renames ρ m') (id : GroupId) (start : Cursor) (expands : Bool) :
    Frame.new m' (ρ.group id) start expands = (Frame.new m id start expands).rename ρ := by
  simp [Frame.new, Frame.rename, h.kind, h.members]

theorem rename_close (top : Frame) (outer : List Frame) (path : List GroupId) (e : Emitter) :
    close (top.rename ρ) (outer.map (·.rename ρ)) (path.map ρ.group) (e.rename ρ) =
      (close top outer path e).rename ρ := by
  have hpath : (if top.expands then (path.map ρ.group).tail else path.map ρ.group) =
      (if top.expands then path.tail else path).map ρ.group := by
    split
    · exact List.map_tail.symm
    · rfl
  have hleave : (if top.expands then (e.rename ρ).leave else e.rename ρ) =
      (if top.expands then e.leave else e).rename ρ := by
    split <;> rfl
  cases outer <;> simp only [close, List.map_nil, List.map_cons, rename, ← hleave, ← hpath] <;> rfl

theorem rename_proceed (h : m.Renames ρ m') (f : Frame) (outer : List Frame) (path : List GroupId)
    (start : Cursor) (e : Emitter) (move : Move) :
    proceed m' (f.rename ρ) (outer.map (·.rename ρ)) (path.map ρ.group) start (e.rename ρ)
        (move.rename ρ) =
      (proceed m f outer path start e move).rename ρ := by
  cases move with
  | finish finish => rfl
  | nest id =>
    simp only [proceed, Move.rename, rename, ← rename_new h]
    rfl
  | expand id =>
    simp only [proceed, Move.rename, rename, ← rename_new h]
    rfl

/-- **Steps.** A renamed walk makes the steps of the walk, renamed. -/
theorem rename_step (h : m.Renames ρ m') (f : Frame) (outer : List Frame) (path : List GroupId)
    (e : Emitter) :
    step m' (f.rename ρ) (outer.map (·.rename ρ)) (path.map ρ.group) (e.rename ρ) =
      (step m f outer path e).rename ρ := by
  unfold step
  cases hr : f.rest with
  | nil =>
    simp only [Frame.rename, hr, List.map_nil]
    simpa only [Frame.rename, hr, List.map_nil] using rename_close f outer path e
  | cons i rest =>
    simp only [Frame.rename, hr, List.map_cons]
    have hv := Emitter.visit_rename h path f.childStart e i
    have hp := rename_proceed h { f with rest := rest } outer path f.childStart
      (e.visit m path f.childStart i).1 (e.visit m path f.childStart i).2
    rw [← hp]
    simp only [Frame.childStart] at hv ⊢
    simp only [hv]
    rfl

theorem Reaches.rename (h : m.Renames ρ m') {w v : Walk} (hr : Reaches m w v) :
    Reaches m' (w.rename ρ) (v.rename ρ) := by
  induction hr with
  | refl => exact .refl _
  | @step top outer path e w _ ih =>
    refine .step ?_
    rw [rename_step h]
    exact ih

end Walk

/-! ## Models -/

namespace Emitter

variable {m m' : Model}

/-- The layout of a renamed group is that of the group, renamed. -/
theorem rename_group (h : m.Renames ρ m') (hm : m.WellNested) (id : GroupId) (start : Cursor)
    (e : Emitter) :
    (e.rename ρ).group m' (ρ.group id) start =
      ((e.group m id start).1, (e.group m id start).2.rename ρ) := by
  have hreaches := (Descent.reaches_ended hm id start e).rename h
  rw [← Descent.group_eq hm] at hreaches
  refine Walk.run_eq_of_reaches ?_
  rw [Walk.ofGroup, ← List.map_singleton, Walk.rename_new h]
  exact hreaches

theorem rename_document (h : m.Renames ρ m') (hm : m.WellNested) (e : Emitter) :
    ((e.rename ρ).document m').2 = (e.document m).2.rename ρ := by
  have hgroup := rename_group h hm Model.document none e.clear
  rw [ρ.document] at hgroup
  exact congrArg Prod.snd hgroup

theorem rename_named (h : m.Renames ρ m') (hm : m.WellNested) (e : Emitter)
    (namespaceName key : String) (start : UInt64) :
    ((e.rename ρ).named m' namespaceName key start).2 =
      (e.named m namespaceName key start).2.rename ρ := by
  unfold named
  rw [h.lookup]
  cases m.lookup key with
  | none => exact (rename_report (e := e.clear) none (.missingStructure key)).symm
  | some id =>
    have hgroup := rename_group h hm id (some start) (e.clear.enter namespaceName)
    simp only [Option.map_some]
    exact congrArg (fun r : Cursor × Emitter => r.2.clear) hgroup

/-- **Models.** The layout of a renamed model is the layout of the model, renamed. -/
theorem rename_ofModel (h : m.Renames ρ m') (hm : m.WellNested) :
    ofModel m' = (ofModel m).rename ρ := by
  simp only [ofModel, trailers, HeaderSymbols.trailers, List.foldl_cons, List.foldl_nil]
  rw [← rename_named h hm, ← rename_named h hm, ← rename_document h hm, rename_new]

end Emitter
end HeaderSymbols
