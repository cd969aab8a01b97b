import HeaderSymbols.Text.Blank
import HeaderSymbols.Text.Lines

/-!
# Source lines

A line, less the blanks at its end, is code up to its first comment mark and a comment
from there on. The code counts as words.

Main statement: code and comment together are the whole text (`code_append_remark`).
-/
namespace HeaderSymbols

structure Line where
  /-- The line without the blanks at its end. -/
  text : String
  words : List String
  /-- The comment with its mark. -/
  comment : Option String
  deriving DecidableEq, Repr

namespace Line

/-- The mark that begins a comment in a header. -/
def commentMark : Char := ';'

/-- The part of a text before the first mark. -/
def code (mark : Char) (text : List Char) : List Char := text.takeWhile (· != mark)

/-- The part of a text from the first mark on. -/
def remark (mark : Char) (text : List Char) : List Char := text.dropWhile (· != mark)

def ofChars (mark : Char) (raw : List Char) : Line :=
  let text := Text.trimEnd raw
  { text := String.ofList text
    words := (Text.words (code mark text)).map String.ofList
    comment :=
      if (remark mark text).isEmpty then none else some (String.ofList (remark mark text)) }

def read (raw : String) : Line := ofChars commentMark raw.toList

/-- The lines of a source. -/
def ofSource (source : String) : List Line :=
  (Text.splitLines source.toList).map (ofChars commentMark)

theorem code_append_remark (mark : Char) (text : List Char) :
    code mark text ++ remark mark text = text := List.takeWhile_append_dropWhile

end Line
end HeaderSymbols
