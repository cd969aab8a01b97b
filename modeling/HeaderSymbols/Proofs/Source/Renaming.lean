import HeaderSymbols.Proofs.Layout.Renaming
import HeaderSymbols.Proofs.Source.Arena

/-!
# Readings and renaming

A reading goes by the words of lines. The text of a line it quotes, its number and its comment it
passes on. So where these are renamed, the reading is the same, but for the renaming.

* `Model.rename`, `Reading.rename`: what is renamed where all groups keep their numbers.
* `step_rename`, `steps_rename`: lines do to the renamed what they do, renamed.
* `renames_rename`: a model renamed in place is one renamed for a layout.
-/
namespace HeaderSymbols

namespace Renaming

/-- All groups keep their numbers. -/
def InPlace (ρ : Renaming) : Prop := ∀ id, ρ.group id = id

/-- Other numbers for lines, other comments and other texts. -/
def inPlace (line : UInt32 → UInt32) (comment : Option String → Option String)
    (text : String → String) : Renaming := ⟨id, line, comment, text, id, rfl⟩

end Renaming

section
variable (ρ : Renaming)

/-! ## What is renamed -/

def Line.rename (l : Line) : Line :=
  { l with text := ρ.text l.text, comment := ρ.comment l.comment }

/-- A line and its number. -/
def Line.renameNumbered (l : Line × UInt32) : Line × UInt32 := (l.1.rename ρ, ρ.line l.2)

def Group.rename (g : Group) : Group := ⟨g.kind, g.items.map (·.rename ρ)⟩

def Model.rename (m : Model) : Model := ⟨m.groups.map (·.rename ρ), m.registry⟩

def Reading.rename (r : Reading) : Reading :=
  ⟨r.model.rename ρ, r.namespaces, r.scopes, r.findings.map (·.rename ρ)⟩

end

variable {ρ : Renaming}

/-! ## Models -/

namespace Model

variable {m : Model}

theorem group?_rename (m : Model) (id : GroupId) :
    (m.rename ρ).group? id = (m.group? id).map (·.rename ρ) := by simp [group?, rename]

@[simp] theorem kind?_rename (m : Model) (id : GroupId) : (m.rename ρ).kind? id = m.kind? id := by
  simp [kind?, group?_rename, Group.rename, Function.comp_def]

@[simp] theorem size_rename (m : Model) : (m.rename ρ).groups.size = m.groups.size :=
  Array.size_map ..

theorem rename_push (id : GroupId) (item : Item) :
    (m.push id item).rename ρ = (m.rename ρ).push id (item.rename ρ) := by
  simp only [push, rename, mk.injEq, and_true]
  refine Array.ext_getElem? fun i => ?_
  simp only [Array.getElem?_map, Array.getElem?_modify]
  split
  · cases m.groups[i]? <;> simp [Group.rename]
  · rfl

theorem rename_addGroup (kind : GroupKind) :
    (m.addGroup kind).2.rename ρ = ((m.rename ρ).addGroup kind).2 := by
  simp [addGroup, rename, Group.rename]

theorem rename_register (name : String) (id : GroupId) :
    (m.register name id).rename ρ = (m.rename ρ).register name id := rfl

theorem renames_rename (hρ : ρ.InPlace) (m : Model) : m.Renames ρ (m.rename ρ) where
  kind id := by rw [hρ, kind, kind?_rename, kind]
  members id := by
    rw [hρ, members, group?_rename, members]
    cases m.group? id <;> simp [Group.rename, Group.members]
  lookup name := by
    have hsame : ρ.group = fun id => id := funext hρ
    rw [hsame, Option.map_id']
    rfl

end Model

/-! ## Directives -/

namespace Directive

/-- What is wrong with the words of a line quotes a word. -/
theorem map_number_rename (text : String) (f : UInt64 → Directive) :
    ((number text).map f).mapError (Fault.rename ρ) = (number text).map f := by
  unfold number
  split <;> rfl

theorem map_operand_rename (text : String) (f : Operand → Directive) :
    ((operand text).map f).mapError (Fault.rename ρ) = (operand text).map f := by
  unfold operand number
  split
  · split <;> rfl
  · rfl

theorem ofWords?_rename (words : List String) :
    (ofWords? words).map (Except.mapError (Fault.rename ρ)) = ofWords? words := by
  unfold ofWords?
  split
  · rfl
  · cases alone.lookup _ <;> rfl
  · unfold ofPair
    repeat' split
    all_goals first | rfl | simp only [Option.map_some, map_number_rename]
  · unfold ofTriple
    repeat' split
    all_goals first | rfl | simp only [Option.map_some, map_number_rename, map_operand_rename]
  · rfl

theorem ofLine_rename (l : Line) :
    ofLine (l.rename ρ) = (ofLine l).mapError (Fault.rename ρ) := by
  have hwords : (ofWords? l.words).map (Except.mapError (Fault.rename ρ)) = ofWords? l.words :=
    ofWords?_rename l.words
  unfold ofLine
  show (ofWords? l.words).getD _ = _
  cases hw : ofWords? l.words with
  | none => rfl
  | some read =>
    rw [hw] at hwords
    simpa using hwords.symm

end Directive

/-! ## Readings -/

namespace Reading

theorem rename_record (r : Reading) (line : Option UInt32) (fault : Fault) :
    (r.record line fault).rename ρ = (r.rename ρ).record (line.map ρ.line) (fault.rename ρ) := by
  simp [rename, record, Finding.rename]

theorem rename_note (r : Reading) (item : Item) :
    (r.note item).rename ρ = (r.rename ρ).note (item.rename ρ) := by
  simp [rename, note, Model.rename_push]

theorem rename_place (r : Reading) (item : Item) :
    (r.place item).rename ρ = (r.rename ρ).place (item.rename ρ) := by
  simp [rename, place, Model.rename_push, scope]

/-- A directive is obeyed by the renamed reading as by the reading, or refused for the same
fault. -/
theorem obey_rename (hρ : ρ.InPlace) (r : Reading) (comment : Option String) (line : UInt32)
    (d : Directive) :
    (r.rename ρ).obey (ρ.comment comment) (ρ.line line) d =
      ((r.obey comment line d).map (rename ρ)).mapError (Fault.rename ρ) := by
  cases d with
  | blank | region | endRegion | skip =>
    simp only [obey, Except.map, mapError_ok, rename_note]
    rfl
  | assign | field | instantiate =>
    simp only [obey, Except.map, mapError_ok, rename_place]
    rfl
  | enter name =>
    simp only [obey, Except.map, mapError_ok, rename, note, Model.rename_push]
    rfl
  | leave =>
    have hns : (r.rename ρ).namespaces = r.namespaces := rfl
    simp only [obey, hns]
    cases r.namespaces.leave? with
    | none => rfl
    | some outer =>
      simp only [Except.map, mapError_ok, rename, note, Model.rename_push]
      rfl
  | openGroup kind =>
    simp only [obey, openGroup, place, Except.map, mapError_ok, rename, Model.rename_push,
      Model.rename_addGroup, Item.rename, hρ _]
    simp only [Model.addGroup, Model.size_rename]
    rfl
  | openNamed name =>
    simp only [obey, openNamed, Except.map, mapError_ok, rename, Model.rename_register,
      Model.rename_addGroup]
    simp only [Model.addGroup, Model.size_rename]
  | close kind =>
    have hscope : (r.rename ρ).scope = r.scope := rfl
    have hkind (id : GroupId) : (r.rename ρ).model.kind? id = r.model.kind? id :=
      Model.kind?_rename ..
    have hfault : (closeFault kind).rename ρ = closeFault kind := by cases kind <;> rfl
    have hscopes : (r.rename ρ).scopes = r.scopes := rfl
    simp only [obey, hscope, hkind, hscopes]
    split
    · exact congrArg Except.error hfault.symm
    · rfl
  | closeNamed =>
    have hscopes : (r.rename ρ).scopes = r.scopes := rfl
    simp only [obey, hscopes]
    split <;> rfl

theorem step_rename (hρ : ρ.InPlace) (r : Reading) (line : Line) (number : UInt32) :
    (r.rename ρ).step (line.rename ρ) (ρ.line number) = (r.step line number).rename ρ := by
  cases hd : Directive.ofLine line with
  | error fault =>
    have hd' : Directive.ofLine (line.rename ρ) = .error (fault.rename ρ) := by
      rw [Directive.ofLine_rename, hd]
      rfl
    rw [step_of_error hd, step_of_error hd', rename_record]
    rfl
  | ok d =>
    have hd' : Directive.ofLine (line.rename ρ) = .ok d := by
      rw [Directive.ofLine_rename, hd]
      rfl
    rw [step_of_ok hd, step_of_ok hd']
    simp only [Line.rename, obey_rename hρ]
    cases r.obey line.comment number d with
    | ok after => rfl
    | error fault => exact (rename_record r (some number) fault).symm

/-- **Lines.** Renamed lines do to a renamed reading what the lines do to the reading, renamed. -/
theorem steps_rename (hρ : ρ.InPlace) (r : Reading) (lines : List (Line × UInt32)) :
    (r.rename ρ).steps (lines.map (Line.renameNumbered ρ)) = (r.steps lines).rename ρ := by
  induction lines generalizing r with
  | nil => rfl
  | cons l rest ih =>
    rw [List.map_cons, Line.renameNumbered, steps_cons, step_rename hρ, ih]
    rfl

theorem rename_finish (r : Reading) : r.finish.rename ρ = (r.rename ρ).finish := by
  have hunclosed : (r.rename ρ).unclosed = r.unclosed := rfl
  have hfaults : ∀ fault ∈ r.unclosed, fault.rename ρ = fault := by
    intro fault hf
    simp only [unclosed, List.mem_append, List.mem_ite_nil_left, List.mem_singleton] at hf
    rcases hf with ⟨-, rfl⟩ | ⟨-, rfl⟩ <;> rfl
  have hfound : (r.unclosed.map (Finding.mk none)).map (·.rename ρ) =
      r.unclosed.map (Finding.mk none) := by
    rw [List.map_map]
    exact List.map_congr_left fun fault hf => congrArg (Finding.mk none) (hfaults fault hf)
  rw [finish_eq, finish_eq, hunclosed]
  simp only [rename, Array.map_append, List.map_toArray, hfound]

theorem rename_start : start.rename ρ = start := by
  simp [rename, start, Model.rename, Model.empty, Group.rename]

end Reading
end HeaderSymbols
