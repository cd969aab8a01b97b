/-!
# JSON text

Objects of nulls, numbers and texts in one line, without spaces. In a text the quote,
the backslash and the characters below the space are escaped, and no others.
-/
namespace HeaderSymbols.Text

/-- A member's value. -/
inductive Scalar where
  | null
  | number (n : Nat)
  | text (s : String)
  deriving DecidableEq, Repr

namespace Scalar

def escape (c : Char) : List Char :=
  if c = '"' ∨ c = '\\' then ['\\', c]
  else if c = '\n' then ['\\', 'n']
  else if c = '\r' then ['\\', 'r']
  else if c = '\t' then ['\\', 't']
  else if c.toNat = 0x08 then ['\\', 'b']
  else if c.toNat = 0x0C then ['\\', 'f']
  else if c.toNat < 0x20 then
    ['\\', 'u', '0', '0', Nat.digitChar (c.toNat / 16), Nat.digitChar (c.toNat % 16)]
  else [c]

def quote (s : String) : String := String.ofList ('"' :: s.toList.flatMap escape ++ ['"'])

def render : Scalar → String
  | null => "null"
  | number n => toString n
  | text s => quote s

end Scalar

/-- An object with its members in the order given. -/
def object (members : List (String × Scalar)) : String :=
  "\x7b" ++ String.intercalate "," (members.map fun m => Scalar.quote m.1 ++ ":" ++ m.2.render) ++
    "\x7d"

end HeaderSymbols.Text
