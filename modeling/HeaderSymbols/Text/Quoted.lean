import HeaderSymbols.Text.Graphic

/-!
# Quoted text

A text between double quotes, on one line and free of anything that would not show:
the quote and the backslash carry a backslash, the common controls have letters, and
other characters that do not show alone are written by number.
-/
namespace HeaderSymbols.Text.Quoted

/-- The number of a character in lower-case hexadecimal, as in `\u{301}`. -/
def byNumber (c : Char) : List Char :=
  ['\\', 'u', '{'] ++ Nat.toDigits 16 c.toNat ++ ['}']

def encodeChar (c : Char) : List Char :=
  if c = Char.ofNat 0 then ['\\', '0']
  else if c = '\t' then ['\\', 't']
  else if c = '\r' then ['\\', 'r']
  else if c = '\n' then ['\\', 'n']
  else if c = '\\' ∨ c = '"' then ['\\', c]
  else if showsAlone c then [c]
  else byNumber c

def encode (s : String) : String :=
  String.ofList ('"' :: s.toList.flatMap encodeChar ++ ['"'])

example : encode "a\"b\\c\t'" = "\"a\\\"b\\\\c\\t'\"" := by decide +kernel

end HeaderSymbols.Text.Quoted
