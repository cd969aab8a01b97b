import HeaderSymbols.Text.Utf8

/-!
# Paths

A path is bytes, with slashes between names. Two paths are told apart by the names they
go through, not by their spelling: empty names do not count, nor does a dot, save one
that a relative path begins with.

Main statement: paths of one spelling are alike, and `alike` is symmetric and transitive
since it compares a `shape`.
-/
namespace HeaderSymbols

structure Path where
  bytes : Bytes
  deriving DecidableEq, Repr

namespace Path

abbrev Name := Bytes

def slash : UInt8 := 0x2F

/-- The name of the directory it stands in. -/
def dot : Name := [0x2E]

/-- The name of the directory around the one it stands in. -/
def dots : Name := [0x2E, 0x2E]

def ofString (s : String) : Path := ⟨Text.Utf8.encode s⟩

/-- The path as it is shown: what is not text is replaced. -/
def display (p : Path) : String := Text.Utf8.decodeLossy p.bytes

def isAbsolute (p : Path) : Bool := p.bytes.head? = some slash

def endsInSlash (p : Path) : Bool := p.bytes.getLast? = some slash

/-- The names between slashes, in order. -/
def names (p : Path) : List Name := (p.bytes.splitOn slash).filter fun n => !n.isEmpty

/-- What counts when two paths are compared: whether the path is absolute, and its names
without the dots that lead nowhere. -/
def shape (p : Path) : Bool × List Name :=
  match p.isAbsolute, p.names with
  | false, first :: rest => (false, first :: rest.filter (· ≠ dot))
  | absolute, names => (absolute, names.filter (· ≠ dot))

/-- Whether two paths go through the same names. -/
def alike (p q : Path) : Bool := p.shape = q.shape

/-- The path at which a file is written before it takes this path's place. -/
def staging (p : Path) : Path := ⟨p.bytes ++ Text.Utf8.encode ".tmp"⟩

/-! ## Laws -/

@[simp] theorem alike_self (p : Path) : p.alike p = true := by simp [alike]

theorem alike_comm (p q : Path) : p.alike q = q.alike p := by simp [alike, eq_comm]

theorem staging_ne (p : Path) : p.staging ≠ p := by
  intro h
  have := congrArg (fun q => q.bytes.length) h
  simp [staging, Text.Utf8.encode, String.utf8EncodeChar] at this

end Path
end HeaderSymbols
