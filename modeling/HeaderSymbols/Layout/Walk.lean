import HeaderSymbols.Layout.Emitter

/-!
# Walking the groups of a model

A walk lays out a group member by member with a stack of frames, one for each group it
is inside of. A structure hands its cursor from member to member. A union starts every
member where it was entered and ends at the furthest end of them. A member that refers
to a structure is expanded: the structure is laid out in the namespace of the member,
unless it is already being expanded around it.

A walk is a loop that goes on step by step until it has ended (`run`). Nothing can be said
about a loop that never ends, as in a group that stands inside itself without a name; the
groups of a source never do.

Main statement: `run_eq_of_reaches`, a walk that comes to an end has its result there.
-/
namespace HeaderSymbols

/-- A group that is being laid out. -/
structure Frame where
  group : GroupId
  kind : GroupKind
  /-- The members still to come. -/
  rest : List Item
  /-- Where the group was entered. -/
  entry : Cursor
  /-- In a structure the end of the last member, in a union the furthest end so far. -/
  cursor : Cursor
  /-- Whether the group is the expansion of a member, in whose namespace it stands. -/
  expands : Bool
  deriving DecidableEq, Repr

namespace Frame

/-- A group entered at a cursor, with all its members to come. -/
def new (m : Model) (id : GroupId) (start : Cursor) (expands : Bool) : Frame :=
  ⟨id, m.kind id, m.members id, start, start, expands⟩

/-- Where the next member starts. -/
def childStart (f : Frame) : Cursor := f.kind.start f.entry f.cursor

/-- The frame after a member that ends here. -/
def complete (f : Frame) (finish : Cursor) : Frame := { f with cursor := f.kind.next f.cursor finish }

end Frame

/-- A walk inside of groups, the innermost first, or past the end of all of them. On its path are
the groups that are being expanded, the innermost first, and the one that the walk began with. -/
inductive Walk where
  | inside (top : Frame) (outer : List Frame) (path : List GroupId) (e : Emitter)
  | ended (finish : Cursor) (e : Emitter)
  deriving DecidableEq, Repr

namespace Walk

/-- The walk once the innermost group has no members left. An expansion takes its namespace and its
place on the path with it. -/
def close (top : Frame) (outer : List Frame) (path : List GroupId) (e : Emitter) : Walk :=
  let e := if top.expands then e.leave else e
  let path := if top.expands then path.tail else path
  match outer with
  | [] => .ended top.cursor e
  | parent :: outer => .inside (parent.complete top.cursor) outer path e

/-- The walk after what became of a member that started here. -/
def proceed (m : Model) (f : Frame) (outer : List Frame) (path : List GroupId) (start : Cursor)
    (e : Emitter) : Move → Walk
  | .finish finish => .inside (f.complete finish) outer path e
  | .nest id => .inside (.new m id start false) (f :: outer) path e
  | .expand id => .inside (.new m id start true) (f :: outer) (id :: path) e

/-- One member, or the end of the innermost group. -/
def step (m : Model) (top : Frame) (outer : List Frame) (path : List GroupId) (e : Emitter) : Walk :=
  match top.rest with
  | [] => close top outer path e
  | item :: rest =>
    let (e, move) := e.visit m path top.childStart item
    proceed m { top with rest := rest } outer path top.childStart e move

/-- The walk after a turn of the loop, or where the walk has ended. -/
def turn (m : Model) : Walk → Walk ⊕ (Cursor × Emitter)
  | .ended finish e => .inr (finish, e)
  | .inside top outer path e => .inl (step m top outer path e)

/-- The end of a walk, and the emitter there. -/
def run (m : Model) (w : Walk) : Cursor × Emitter := repeatM (m := Id) (turn m) w

/-- A walk of a group that starts here. -/
def ofGroup (m : Model) (id : GroupId) (start : Cursor) (e : Emitter) : Walk :=
  .inside (.new m id start false) [] [id] e

/-! ## Runs -/

/-- One walk goes on to be the other, after any number of steps. -/
inductive Reaches (m : Model) : Walk → Walk → Prop where
  | refl (w : Walk) : Reaches m w w
  | step {top : Frame} {outer : List Frame} {path : List GroupId} {e : Emitter} {w : Walk}
      (h : Reaches m (step m top outer path e) w) : Reaches m (.inside top outer path e) w

theorem Reaches.trans {m : Model} {u v w : Walk} (huv : Reaches m u v) (hvw : Reaches m v w) :
    Reaches m u w := by
  induction huv with
  | refl => exact hvw
  | step _ ih => exact .step (ih hvw)

theorem reaches_inside_iff {m : Model} {top : Frame} {outer : List Frame} {path : List GroupId}
    {e : Emitter} {w : Walk} :
    Reaches m (.inside top outer path e) w ↔
      w = .inside top outer path e ∨ Reaches m (step m top outer path e) w := by
  constructor
  · intro h
    cases h with
    | refl => exact .inl rfl
    | step h => exact .inr h
  · rintro (rfl | h)
    · exact .refl _
    · exact .step h

/-- Whatever a walk comes to before its end, it goes on from there to the same end. -/
theorem Reaches.to_ended {m : Model} {w v : Walk} {finish : Cursor} {e : Emitter}
    (h : Reaches m w v) (hend : Reaches m w (.ended finish e)) : Reaches m v (.ended finish e) := by
  induction h with
  | refl => exact hend
  | step _ ih => exact ih ((reaches_inside_iff.1 hend).resolve_left nofun)

@[simp] theorem run_ended (m : Model) (finish : Cursor) (e : Emitter) :
    run m (.ended finish e) = (finish, e) :=
  repeatM_eq_of_monadTail (m := Id) (f := turn m) (.ended finish e)

theorem run_inside (m : Model) (top : Frame) (outer : List Frame) (path : List GroupId)
    (e : Emitter) : run m (.inside top outer path e) = run m (step m top outer path e) :=
  repeatM_eq_of_monadTail (m := Id) (f := turn m) (.inside top outer path e)

theorem run_eq_of_reaches {m : Model} {w : Walk} {finish : Cursor} {e : Emitter}
    (h : Reaches m w (.ended finish e)) : run m w = (finish, e) := by
  generalize hv : Walk.ended finish e = v at h
  induction h with
  | refl => rw [← hv, run_ended]
  | step _ ih => rw [run_inside, ih hv]

end Walk

namespace Emitter

/-- Lays out a group from a cursor on, in the namespaces open now. -/
def group (m : Model) (e : Emitter) (id : GroupId) (start : Cursor) : Cursor × Emitter :=
  Walk.run m (.ofGroup m id start e)

/-- Lays out the document, from where there is no address. -/
def document (m : Model) (e : Emitter) : Cursor × Emitter := e.clear.group m Model.document none

/-- Lays out a registered structure at an address, in a namespace of its own. -/
def named (m : Model) (e : Emitter) (namespaceName key : String) (start : UInt64) :
    Cursor × Emitter :=
  match m.lookup key with
  | none => (none, e.clear.report none (.missingStructure key))
  | some id =>
    let (finish, e) := (e.clear.enter namespaceName).group m id (some start)
    (finish, e.clear)

end Emitter
end HeaderSymbols
