/-!
# Lines of a text

A line feed ends a line, and a carriage return straight before it belongs to the
ending. What follows the last line feed is a line of its own unless it is empty,
and there a carriage return is part of the line. No other character ends a line.
Lines are put together with a line feed behind each (`unlines`).
-/
namespace HeaderSymbols

namespace Text

/-- The line without the carriage return that its line feed leaves behind. -/
def dropReturn (line : List Char) : List Char :=
  if line.getLast? = some '\r' then line.dropLast else line

/-- The lines that a text's pieces between line feeds stand for. -/
def ofPieces : List (List Char) → List (List Char)
  | [] => []
  | [last] => if last.isEmpty then [] else [last]
  | piece :: pieces => dropReturn piece :: ofPieces pieces

def splitLines (cs : List Char) : List (List Char) := ofPieces (cs.splitOn '\n')

@[simp] theorem splitLines_nil : splitLines [] = [] := rfl

theorem ofPieces_append {xs ys : List (List Char)} (h : ys ≠ []) :
    ofPieces (xs ++ ys) = xs.map dropReturn ++ ofPieces ys := by
  induction xs with
  | nil => rfl
  | cons x xs ih =>
    cases hz : xs ++ ys with
    | nil => simp_all
    | cons z zs => simp_all [ofPieces]

/-- A line feed closes the text before it, whatever follows. -/
theorem splitLines_append_newline (xs ys : List Char) :
    splitLines (xs ++ '\n' :: ys) = (xs.splitOn '\n').map dropReturn ++ splitLines ys := by
  rw [splitLines, List.splitOn_append_cons_self, ofPieces_append (List.splitOn_ne_nil _ _), splitLines]

end Text

/-- Lines of text, each ended by a line feed. -/
def unlines (lines : List String) : String := String.join (lines.map (· ++ "\n"))

end HeaderSymbols
