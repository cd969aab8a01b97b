import HeaderSymbols.Proofs.Source.Origin
import HeaderSymbols.Proofs.Source.Wording

/-!
# What references stand for

A structure is registered under its name in the namespaces around it, with underscores between
them. A reference spells these namespaces with dots, wherever it stands, or leaves them out where
the same ones are open. As long as no name has a dot of its own both come to one name; and what is
found under this name is the structure that the source declares last, be it after the reference.

* `qualify_eq_intercalate`, `undot_intercalate`: both ways to the name.
* `registry_step`: what a line registers.
* `references_resolve`: every reference of a source stands for the structure that it spells.
-/
namespace HeaderSymbols

/-! ## Names -/

/-- The name has no dot in it. -/
def Undotted (name : String) : Prop := '.' ∉ name.toList

instance (name : String) : Decidable (Undotted name) := inferInstanceAs (Decidable ('.' ∉ _))

theorem undot_append (s t : String) : undot (s ++ t) = undot s ++ undot t := by
  simp [undot, String.toList_append]

theorem undot_intercalate {names : List String} (h : ∀ n ∈ names, Undotted n) :
    undot (String.intercalate "." names) = String.intercalate "_" names := by
  induction names with
  | nil => simp [undot]
  | cons first rest ih =>
    obtain ⟨hfirst, hrest⟩ := List.forall_mem_cons.1 h
    cases rest with
    | nil => simpa using undot_of_dot_not_mem hfirst
    | cons second rest =>
      have hdot : undot "." = "_" := by decide
      simp only [String.intercalate_cons_cons, undot_append, undot_of_dot_not_mem hfirst, hdot,
        ih hrest]

namespace Namespaces

variable {ns : Namespaces} {name : String}

/-- The reference that spells a structure in these namespaces from the outermost one in. -/
def reference (ns : Namespaces) (name : String) : String :=
  String.intercalate "." (ns.names.reverse ++ [name])

theorem qualify_eq_intercalate (ns : Namespaces) (name : String) :
    ns.qualify name = String.intercalate "_" (ns.names.reverse ++ [name]) := by
  obtain ⟨_ | ⟨inner, outer⟩⟩ := ns
  · simp [qualify, qualifier, isRoot]
  · rw [String.intercalate_append_of_ne_nil (by simp) (by simp)]
    simp [qualify, qualifier, isRoot, Namespaces.name]

theorem dot_mem_reference (h : ns ≠ .root) : '.' ∈ (ns.reference name).toList := by
  have hne : ns.names.reverse ≠ [] := by
    obtain ⟨_ | _⟩ := ns
    · exact absurd rfl h
    · simp
  rw [reference, String.intercalate_append_of_ne_nil hne (by simp)]
  simp [String.toList_append]

/-- A reference that spells its namespaces means the same structure in all namespaces. -/
theorem structureName_reference (h : ns ≠ .root) (hns : ∀ n ∈ ns.names, Undotted n)
    (hname : Undotted name) (there : Namespaces) :
    there.structureName (ns.reference name) = ns.qualify name := by
  rw [structureName, if_pos (dot_mem_reference h), reference, undot_intercalate,
    qualify_eq_intercalate]
  simpa [or_imp, forall_and] using ⟨hns, hname⟩

theorem structureName_of_undotted {reference : String} (h : Undotted reference) :
    ns.structureName reference = ns.qualify reference := if_neg h

end Namespaces

/-- No dot is in the name that this gives to a namespace or to a structure. -/
def Directive.Undotted : Directive → Prop
  | enter name | openNamed name => HeaderSymbols.Undotted name
  | _ => True

instance : DecidablePred Directive.Undotted := fun d => by
  unfold Directive.Undotted
  cases d <;> infer_instance

/-- The names that a line gives to namespaces and structures have no dots. -/
def Line.Undotted (line : Line) : Prop :=
  ∀ d ∈ (Directive.ofLine line).toOption, d.Undotted

instance : DecidablePred Line.Undotted := fun line =>
  inferInstanceAs (Decidable (∀ d ∈ (Directive.ofLine line).toOption, d.Undotted))

/-- A member is expanded where there is an address, to what its structure name stands for. -/
theorem Emitter.visit_eq_expand_iff {m : Model} {path : List GroupId} {address : UInt64}
    {e : Emitter} {mem : Member} {key : String} {id : GroupId} (hl : mem.layout = some key) :
    e.visit m path (some address) (.member mem) = (e.enter mem.name, .expand id) ↔
      m.lookup key = some id ∧ id ∉ path := by
  constructor
  · intro h
    obtain ⟨mem', name, hitem, hl', hr, -⟩ := visit_eq_expand h
    cases hitem
    cases hl.symm.trans hl'
    exact (resolve_eq_ok hr).2
  · rintro ⟨hkey, hpath⟩
    have hr : resolve m path (some address) key = .ok id := by simp [resolve, hkey, hpath]
    simp only [visit, member, hl, hr]

namespace Reading

variable {r : Reading} {line : Line} {number : UInt32}

theorem registry_step (r : Reading) (number : UInt32) {name : String}
    (h : Directive.ofLine line = .ok (.openNamed name)) :
    (r.step line number).model.registry =
      (r.namespaces.qualify name, r.model.groups.size) :: r.model.registry := by
  rw [step_of_ok h]
  rfl

/-! ## References -/

/-- A structure of this name that is declared here is registered under the key. -/
def RegistersAs (r : Reading) (name key : String) : Prop :=
  ∀ line number, Directive.ofLine line = .ok (.openNamed name) →
    (r.step line number).model.registry = (key, r.model.groups.size) :: r.model.registry

/-- What a reference that is read in these namespaces stands for, if it comes to this key, in a
source that is laid out as the model. -/
structure RefersTo (source : List (Line × UInt32)) (m : Model) (ns : Namespaces)
    (reference key : String) : Prop where
  /-- A reference with dots spells the namespaces around a structure from the outermost one in, -/
  spelled {s : Reading} {name} : s.namespaces ≠ .root →
    (∀ n ∈ s.namespaces.names, Undotted n) → Undotted name →
    reference = s.namespaces.reference name → s.RegistersAs name key
  /-- and one without dots leaves out those in which it is read itself. -/
  plain {s : Reading} : Undotted reference → s.namespaces = ns → s.RegistersAs reference key
  /-- What is found under the key is the structure that the source declares last under it, -/
  found {id} : m.lookup key = some id ↔ start.LastIntroduces source key id
  /-- and to it a member is expanded, unless it is being expanded already. -/
  expands {e : Emitter} {path address id} {mem : Member} : mem.layout = some key →
    (e.visit m path (some address) (.member mem) = (e.enter mem.name, .expand id) ↔
      start.LastIntroduces source key id ∧ id ∉ path)

theorem registersAs_of_qualify {s : Reading} {name key : String}
    (h : s.namespaces.qualify name = key) : s.RegistersAs name key :=
  fun _ number hd => h ▸ registry_step s number hd

theorem refersTo_structureName (source : List (Line × UInt32)) (ns : Namespaces)
    (reference : String) :
    RefersTo source (start.steps source).finish.model ns reference
      (ns.structureName reference) := by
  rw [finish_model]
  constructor
  case spelled =>
    rintro s name hroot hns hname rfl
    exact registersAs_of_qualify (Namespaces.structureName_reference hroot hns hname ns).symm
  case plain =>
    rintro s hr rfl
    exact registersAs_of_qualify (Namespaces.structureName_of_undotted hr).symm
  case found => exact lookup_eq_some_iff
  case expands =>
    intro e path address id mem hl
    rw [← lookup_eq_some_iff, Emitter.visit_eq_expand_iff hl]

/-- **References.** Where no name of a namespace or of a structure has a dot, every reference of a
source stands for the structure that it spells, and that is the last one declared as such. -/
theorem references_resolve (source : String)
    (hnames : ∀ line ∈ Line.ofSource source, line.Undotted) {r : Reading} {line : Line}
    {number : UInt32} (hb : Before (numbered (Line.ofSource source)) r line number) :
    (∀ name, Directive.ofLine line = .ok (.openNamed name) →
      (∀ n ∈ r.namespaces.names, Undotted n) ∧ Undotted name) ∧
    ∀ name reference, Directive.ofLine line = .ok (.instantiate name reference) →
      r.step line number = r.place (.member
        ⟨name, line.comment, none, some (r.namespaces.structureName reference), number⟩) ∧
      RefersTo (numbered (Line.ofSource source)) (ofLines (Line.ofSource source)).model
        r.namespaces reference (r.namespaces.structureName reference) := by
  constructor
  · intro name hd
    have hlines : ∀ l ∈ numbered (Line.ofSource source), l.1.Undotted := by
      intro l hl
      refine hnames l.1 ?_
      rw [← numbered_fst (Line.ofSource source)]
      exact List.mem_map_of_mem hl
    obtain ⟨before, rest, hsource, rfl⟩ := hb
    rw [hsource] at hlines
    refine ⟨forall_names_steps (fun l hl n hn => ?_) nofun, ?_⟩
    · exact hlines l (List.mem_append_left _ hl) (.enter n) (by rw [hn]; rfl)
    · exact hlines (line, number) (List.mem_append_right _ (.head _)) (.openNamed name)
        (by rw [hd]; rfl)
  · intro name reference hd
    exact ⟨step_of_ok hd r number, refersTo_structureName ..⟩

/-- A source that refers to a structure from the outside in, before it is declared, and then from
within. -/
def specimenReferring : String :=
  "os .namespace\nfirst .dstruct os.point\npoint .struct\nx .byte ?\n.ends\n" ++
  "second .dstruct point\n.endn\n"

theorem references_resolve_specimenReferring :
    (∀ line ∈ Line.ofSource specimenReferring, line.Undotted) ∧
      RefersTo (numbered (Line.ofSource specimenReferring))
        (ofLines (Line.ofSource specimenReferring)).model ⟨["os"]⟩ "os.point" "os_point" ∧
      RefersTo (numbered (Line.ofSource specimenReferring))
        (ofLines (Line.ofSource specimenReferring)).model ⟨["os"]⟩ "point" "os_point" ∧
      (ofLines (Line.ofSource specimenReferring)).model.lookup "os_point" = some 1 := by
  have hnames : ∀ line ∈ Line.ofSource specimenReferring, line.Undotted := by decide +kernel
  let source := numbered (Line.ofSource specimenReferring)
  have hbefore (i : Nat) (hi : i < source.length) :
      Before source (start.steps (source.take i)) source[i].1 source[i].2 :=
    ⟨source.take i, source.drop (i + 1),
      by rw [← List.drop_eq_getElem_cons hi, List.take_append_drop], rfl⟩
  have hfirst := ((references_resolve specimenReferring hnames (hbefore 1 (by decide +kernel))).2
    "first" "os.point" (eq_ok_of_toOption (by decide +kernel))).2
  have hsecond := ((references_resolve specimenReferring hnames (hbefore 5 (by decide +kernel))).2
    "second" "point" (eq_ok_of_toOption (by decide +kernel))).2
  exact ⟨hnames, hfirst, hsecond, by decide +kernel⟩

end Reading
end HeaderSymbols
