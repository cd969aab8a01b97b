import HeaderSymbols.Diagnostic

/-!
# Faults of a source

What can be wrong with a source, in its lines or in the layout they ask for. A finding
is a fault at a line, where one is known.

Main statement: the log of a source records its findings one after the other
(`Log.ofFindings_concat`).
-/
namespace HeaderSymbols

inductive Fault where
  /-- A line that no directive matches. -/
  | unrecognizedLine (text : String)
  | invalidNumber (text : String)
  | endsOutsideStructure
  | enduOutsideUnion
  | endnOutsideNamespace
  /-- A structure or union still open at the end. -/
  | unclosedGroup
  | unclosedNamespace
  | skipOutsideRegion
  | memberOutsideRegion
  | addressOverflow
  /-- A member with neither a size nor a structure. -/
  | unsizedMember (name : String)
  | unknownStructure (name : String)
  /-- A structure that contains itself. -/
  | recursiveStructure (name : String)
  /-- A structure that the output must have and the source does not define. -/
  | missingStructure (name : String)
  deriving DecidableEq, Repr

namespace Fault

def category : Fault → Category
  | unrecognizedLine _ => .directive
  | invalidNumber _ => .number
  | endsOutsideStructure | enduOutsideUnion | endnOutsideNamespace
  | unclosedGroup | unclosedNamespace => .scope
  | skipOutsideRegion | memberOutsideRegion | addressOverflow | unsizedMember _ => .layout
  | unknownStructure _ | recursiveStructure _ | missingStructure _ => .symbol

def message : Fault → String
  | unrecognizedLine text => "unrecognized line '" ++ text ++ "'"
  | invalidNumber text => "invalid number '" ++ text ++ "'"
  | endsOutsideStructure => "'.ends' outside structure"
  | enduOutsideUnion => "'.endu' outside union"
  | endnOutsideNamespace => "'.endn' outside namespace"
  | unclosedGroup => "unclosed struct/union"
  | unclosedNamespace => "unclosed namespace"
  | skipOutsideRegion => "skip outside virtual region"
  | memberOutsideRegion => "member outside of virtual"
  | addressOverflow => "address overflow"
  | unsizedMember name => "no size or struct given for " ++ name
  | unknownStructure name => "unknown struct '" ++ name ++ "'"
  | recursiveStructure name => "recursive struct '" ++ name ++ "'"
  | missingStructure name => "missing structure '" ++ name ++ "'"

def problem (fault : Fault) : Problem := ⟨fault.category, fault.message⟩

end Fault

/-- Results can be compared where faults cannot. -/
theorem eq_ok_of_toOption {ε α : Type} {x : Except ε α} {a : α} (h : x.toOption = some a) :
    x = .ok a := by
  cases x with
  | ok => cases h; rfl
  | error => cases h

/-- A fault, at a line where one is known. -/
structure Finding where
  line : Option UInt32
  fault : Fault
  deriving DecidableEq, Repr

/-- The findings in a source, as its diagnostics. -/
def Log.ofFindings (file : String) (findings : List Finding) : Log :=
  ⟨file, findings.map fun f => ⟨file, f.line, f.fault.problem⟩⟩

@[simp] theorem Log.ofFindings_nil (file : String) : ofFindings file [] = .empty file := rfl

/-- One finding more is one diagnostic recorded. -/
theorem Log.ofFindings_concat (file : String) (findings : List Finding) (f : Finding) :
    ofFindings file (findings ++ [f]) =
      (ofFindings file findings).record f.line f.fault.problem := by
  simp [ofFindings, record]

end HeaderSymbols
