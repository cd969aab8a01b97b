import HeaderSymbols.File.Path

/-!
# Access to files

What the program asks of the system that keeps its files, whatever that system is. Each
request, writing to a file that is open among them, is answered or refused with the
system's reason.
-/
namespace HeaderSymbols

/-- Why the system refuses a request, by its number and in its words. -/
structure OsError where
  code : Nat
  description : String
  deriving DecidableEq, Repr

namespace OsError

def notFound : OsError := ⟨2, "No such file or directory"⟩

def busy : OsError := ⟨16, "Device or resource busy"⟩

def notDirectory : OsError := ⟨20, "Not a directory"⟩

def isDirectory : OsError := ⟨21, "Is a directory"⟩

def nameTooLong : OsError := ⟨36, "File name too long"⟩

def text (e : OsError) : String := e.description ++ " (os error " ++ toString e.code ++ ")"

end OsError

/-- A system that keeps files, to be asked from `m`. -/
class FileAccess (m : Type → Type) where
  /-- A file open for adding to its end, under whatever name it goes later. -/
  Handle : Type
  read : Path → m (Except OsError Bytes)
  /-- Writes a file from its start, and creates it where it is missing. -/
  write : Path → Bytes → m (Except OsError Unit)
  /-- Gives a file another path, in place of a file that has it. -/
  move : Path → Path → m (Except OsError Unit)
  remove : Path → m (Except OsError Unit)
  /-- Opens a file, with what it holds or emptied, and creates it where it is missing. -/
  openLog : Path → Bool → m (Except OsError Handle)
  append : Handle → Bytes → m (Except OsError Unit)

end HeaderSymbols
