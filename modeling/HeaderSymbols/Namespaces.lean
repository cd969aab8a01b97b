/-!
# Namespaces

Names are qualified by the namespaces open around them, outermost first, with an
underscore after each. The open namespaces are a stack.

Main statement: `qualifier_enter`, the qualifier grows by the name entered and an
underscore.
-/
namespace HeaderSymbols

/-- The open namespaces, innermost first. -/
structure Namespaces where
  names : List String
  deriving DecidableEq, Repr

namespace Namespaces

/-- No namespace is open. -/
def root : Namespaces := ⟨[]⟩

def isRoot (ns : Namespaces) : Bool := ns.names.isEmpty

def enter (ns : Namespaces) (name : String) : Namespaces := ⟨name :: ns.names⟩

/-- The namespaces around the innermost one. -/
def leave? (ns : Namespaces) : Option Namespaces :=
  match ns.names with
  | [] => none
  | _ :: outer => some ⟨outer⟩

/-- As `leave?`, and nothing where none is open. -/
def leave (ns : Namespaces) : Namespaces := ⟨ns.names.tail⟩

/-- The names from the outermost in, joined by underscores. -/
def name (ns : Namespaces) : String := String.intercalate "_" ns.names.reverse

/-- What stands before a name in these namespaces. -/
def qualifier (ns : Namespaces) : String := if ns.isRoot then "" else ns.name ++ "_"

def qualify (ns : Namespaces) (name : String) : String := ns.qualifier ++ name

/-! ## Laws -/

@[simp] theorem leave_enter (ns : Namespaces) (name : String) : (ns.enter name).leave = ns := rfl

@[simp] theorem leave?_enter (ns : Namespaces) (name : String) :
    (ns.enter name).leave? = some ns := rfl

theorem leave?_eq_some {ns outer : Namespaces} (h : ns.leave? = some outer) : ns.leave = outer := by
  unfold leave? at h
  split at h
  · simp at h
  · rename_i heq
    simp only [Option.some.injEq] at h
    simp [leave, heq, ← h]

theorem leave?_eq_none_iff {ns : Namespaces} : ns.leave? = none ↔ ns = root := by
  obtain ⟨_ | _⟩ := ns <;> simp [leave?, root]

@[simp] theorem qualifier_root : root.qualifier = "" := rfl

@[simp] theorem qualifier_enter (ns : Namespaces) (name : String) :
    (ns.enter name).qualifier = ns.qualifier ++ name ++ "_" := by
  obtain ⟨_ | ⟨inner, outer⟩⟩ := ns
  · simp [qualifier, enter, isRoot, Namespaces.name]
  · have h : String.intercalate "_" ((outer.reverse ++ [inner]) ++ [name]) = _ :=
      String.intercalate_append_of_ne_nil (by simp) (by simp)
    simpa [qualifier, enter, isRoot, Namespaces.name] using h

end Namespaces
end HeaderSymbols
