/-!
# Diagnostics

A problem is a category and the words shown for it. Seen in a source, at a line where
one is known, it is a diagnostic; a log collects the diagnostics of one source in the
order in which they were met. A failure is what a task reports when it gives up: one
summary and the diagnostics behind it.
-/
namespace HeaderSymbols

inductive Category where
  | cli | directive | io | layout | number | scope | symbol
  deriving DecidableEq, Repr

/-- The code by which tools know a category. -/
def Category.code : Category → String
  | .cli => "cnv101"
  | .directive => "cnv201"
  | .scope => "cnv202"
  | .number => "cnv203"
  | .layout => "cnv301"
  | .symbol => "cnv302"
  | .io => "cnv501"

structure Problem where
  category : Category
  message : String
  deriving DecidableEq, Repr

/-- A problem whose message ends in a detail, after a colon, where there is one. -/
def Problem.withDetail (category : Category) (message : String) (detail : Option String) : Problem :=
  ⟨category,
    match detail with
    | some d => message ++ ": " ++ d
    | none => message⟩

/-- A problem in a source; lines count from 1. -/
structure Diagnostic where
  file : String
  line : Option UInt32
  problem : Problem
  deriving DecidableEq, Repr

namespace Diagnostic

def code (d : Diagnostic) : String := d.problem.category.code

/-- File, line where known, and message, with colons between them. -/
def text (d : Diagnostic) : String :=
  match d.line with
  | some line => d.file ++ ":" ++ toString line.toNat ++ ": " ++ d.problem.message
  | none => d.file ++ ": " ++ d.problem.message

end Diagnostic

/-- The diagnostics of one source, in the order recorded. -/
structure Log where
  file : String
  entries : List Diagnostic
  deriving DecidableEq, Repr

namespace Log

def empty (file : String) : Log := ⟨file, []⟩

def record (log : Log) (line : Option UInt32) (problem : Problem) : Log :=
  { log with entries := log.entries ++ [⟨log.file, line, problem⟩] }

def size (log : Log) : Nat := log.entries.length

def isEmpty (log : Log) : Bool := log.entries.isEmpty

end Log

/-- Why a task gave up. -/
structure Failure where
  summary : Problem
  diagnostics : List Diagnostic
  deriving DecidableEq, Repr

/-- A conversion that recorded diagnostics fails with their number. -/
def Failure.ofLog (log : Log) : Failure :=
  ⟨⟨.directive, "Conversion failed with " ++ toString log.size ++ " error(s)"⟩, log.entries⟩

end HeaderSymbols
