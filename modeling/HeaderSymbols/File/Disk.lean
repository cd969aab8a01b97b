import HeaderSymbols.File.Access

/-!
# A disk in memory

A disk holds files and directories at locations, and no links, and is used from a working
directory. Paths are followed name by name: each name but the last must be that of a directory, a
dot stays, and two dots go out. The view of a disk is `get?`; the state monad over disks
gives access to files.

Main statements: what `put` and `erase` do to each location (`get?_put`, `get?_erase`).
-/
namespace HeaderSymbols

/-- The names from a place out to the root. -/
abbrev Location := List Path.Name

inductive Entry where
  | file (content : Bytes)
  | directory
  deriving DecidableEq, Repr

structure Disk where
  /-- What is where; the first entry for a location counts. -/
  entries : List (Location × Entry)
  /-- The working directory. -/
  here : Location
  deriving DecidableEq, Repr

/-- What a path comes to. -/
inductive Target where
  /-- The root, or the end of a path that ends in dots. -/
  | directory
  /-- A name in a directory, whether something has it or not. -/
  | entry (location : Location)
  deriving DecidableEq, Repr

namespace Disk

/-- What is at a location; the root is always a directory. -/
def get? (d : Disk) (l : Location) : Option Entry :=
  if l.isEmpty then some .directory else d.entries.lookup l

def put (d : Disk) (l : Location) (e : Entry) : Disk :=
  { d with entries := (l, e) :: d.entries.filter (·.1 ≠ l) }

def erase (d : Disk) (l : Location) : Disk :=
  { d with entries := d.entries.filter (·.1 ≠ l) }

/-- As `get?`, and a refusal of names that no entry can have. -/
def find (d : Disk) (l : Location) : Except OsError (Option Entry) :=
  if 255 < (l.headD []).length then .error .nameTooLong else .ok (d.get? l)

/-- One name on from a directory. -/
def descend (d : Disk) (l : Location) (name : Path.Name) : Except OsError Location :=
  if name = Path.dot then .ok l
  else if name = Path.dots then .ok l.tail
  else
    match d.find (name :: l) with
    | .error e => .error e
    | .ok none => .error .notFound
    | .ok (some (.file _)) => .error .notDirectory
    | .ok (some .directory) => .ok (name :: l)

def follow (d : Disk) (p : Path) : Except OsError Target :=
  if p.bytes.isEmpty then .error .notFound
  else if 4096 ≤ p.bytes.length then .error .nameTooLong
  else
    match p.names.dropLast.foldlM d.descend (if p.isAbsolute then [] else d.here) with
    | .error e => .error e
    | .ok l =>
      match p.names.getLast? with
      | none => .ok .directory
      | some name =>
        .ok (if name = Path.dot ∨ name = Path.dots then .directory else .entry (name :: l))

/-- The content of the file at a path, and where it is. -/
def file (d : Disk) (p : Path) : Except OsError (Location × Bytes) :=
  match d.follow p with
  | .error e => .error e
  | .ok .directory => .error .isDirectory
  | .ok (.entry l) =>
    match d.find l with
    | .error e => .error e
    | .ok none => .error .notFound
    | .ok (some .directory) => .error .isDirectory
    | .ok (some (.file content)) =>
      if p.endsInSlash then .error .notDirectory else .ok (l, content)

def read (d : Disk) (p : Path) : Except OsError Bytes := (d.file p).map (·.2)

/-- Where a file at this path is or can be created. -/
def writable (d : Disk) (p : Path) : Except OsError Location :=
  match d.follow p with
  | .error e => .error e
  | .ok .directory => .error .isDirectory
  | .ok (.entry l) =>
    if p.endsInSlash then .error .isDirectory
    else
      match d.find l with
      | .error e => .error e
      | .ok (some .directory) => .error .isDirectory
      | .ok _ => .ok l

def write (d : Disk) (p : Path) (content : Bytes) : Except OsError Disk :=
  (d.writable p).map fun l => d.put l (.file content)

/-- Where a file that is moved to this path comes to stand. -/
def movable (d : Disk) (p : Path) : Except OsError Location :=
  match d.follow p with
  | .error e => .error e
  | .ok .directory => .error .busy
  | .ok (.entry l) =>
    match d.find l with
    | .error e => .error e
    | .ok found =>
      if p.endsInSlash then .error .notDirectory
      else if found = some .directory then .error .isDirectory
      else .ok l

/-- Moves a file; directories are not moved. -/
def move (d : Disk) (source target : Path) : Except OsError Disk := do
  let (l, content) ← d.file source
  let l' ← d.movable target
  return (d.erase l).put l' (.file content)

def remove (d : Disk) (p : Path) : Except OsError Disk := (d.file p).map fun f => d.erase f.1

/-- Where a file opened for adding to it is, and the disk then. -/
def openLog (d : Disk) (p : Path) (append : Bool) : Except OsError (Location × Disk) :=
  (d.writable p).map fun l =>
    (l, if append ∧ (d.get? l).isSome then d else d.put l (.file []))

/-- Adds to the end of a file that is still there. -/
def append (d : Disk) (l : Location) (content : Bytes) : Disk :=
  match d.get? l with
  | some (.file old) => d.put l (.file (old ++ content))
  | _ => d

/-- A request that changes the disk or is refused. -/
def request (f : Disk → Except OsError Disk) : StateM Disk (Except OsError Unit) := fun d =>
  match f d with
  | .ok d' => (.ok (), d')
  | .error e => (.error e, d)

instance : FileAccess (StateM Disk) where
  Handle := Location
  read p := fun d => (d.read p, d)
  write p content := request fun d => d.write p content
  move source target := request fun d => d.move source target
  remove p := request fun d => d.remove p
  openLog p append := fun d =>
    match d.openLog p append with
    | .ok (l, d') => (.ok l, d')
    | .error e => (.error e, d)
  append l content := fun d => (.ok (), d.append l content)

/-! ## Laws -/

theorem lookup_filter_ne {l other : Location} {entries : List (Location × Entry)}
    (h : other ≠ l) : (entries.filter (·.1 ≠ l)).lookup other = entries.lookup other := by
  induction entries with
  | nil => rfl
  | cons e es ih =>
    obtain ⟨k, v⟩ := e
    by_cases hk : k = l
    · have hb : (other == l) = false := by simpa using h
      simpa [List.filter_cons, hk, List.lookup_cons, hb] using ih
    · by_cases ho : other = k
      · simp [hk, ho]
      · have hb : (other == k) = false := by simpa using ho
        simpa [List.filter_cons, hk, List.lookup_cons, hb] using ih

theorem lookup_filter_self (l : Location) (entries : List (Location × Entry)) :
    (entries.filter (·.1 ≠ l)).lookup l = none := by
  induction entries with
  | nil => rfl
  | cons e es ih =>
    obtain ⟨k, v⟩ := e
    by_cases hk : k = l
    · simpa [List.filter_cons, hk] using ih
    · have hb : (l == k) = false := by simpa using fun h : l = k => hk h.symm
      simpa [List.filter_cons, hk, List.lookup_cons, hb] using ih

theorem get?_put (d : Disk) {l : Location} (e : Entry) (hl : l ≠ []) (other : Location) :
    (d.put l e).get? other = if other = l then some e else d.get? other := by
  by_cases h : other = l
  · subst h
    simp [get?, put, hl]
  · have hb : (other == l) = false := by simpa using h
    simp only [get?, put, List.lookup_cons, hb, lookup_filter_ne h, h, if_false]

theorem get?_erase (d : Disk) {l : Location} (hl : l ≠ []) (other : Location) :
    (d.erase l).get? other = if other = l then none else d.get? other := by
  by_cases h : other = l
  · subst h
    simpa [get?, erase, hl] using lookup_filter_self other d.entries
  · simp only [get?, erase, lookup_filter_ne h, h, if_false]

end Disk
end HeaderSymbols
