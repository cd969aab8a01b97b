import HeaderSymbols.Proofs.Source.Directive

/-!
# The outline of a source

A source as blocks inside blocks, read by recursive descent, where a reading keeps the
groups that are open on a stack and writes into all of them. A line is one part of a source
(`Part`), and parts are read into a block up to the one that ends it (`read`).

* `Block.members`, `Block.notes`, `Block.documentMembers`: what stands directly in a block,
  what in it belongs to the document, and what the document has when it is the block.
* `Block.groups`, `Block.declarations`: the groups opened in a block and the names they are
  declared under, in the order of the lines that open them, which also numbers them.
* `Block.model`: the model of a source, from its outline.
-/
namespace HeaderSymbols.Outline

/-- What one line is for the blocks of a source. -/
inductive Part where
  /-- A line that is at fault. -/
  | nothing
  /-- An item for the document. -/
  | note (item : Item)
  /-- An item for the block it stands in. -/
  | place (item : Item)
  | opens (kind : GroupKind)
  /-- The first line of a structure declared under a qualified name. -/
  | declares (name : String)
  /-- The end of a block of this kind, or of either. -/
  | closes (kind : Option GroupKind)
  deriving DecidableEq, Repr

/-- What a line is inside of these namespaces, and the namespaces after it. -/
def Part.ofLine (ns : Namespaces) (line : Line) (number : UInt32) : Part × Namespaces :=
  match Directive.ofLine line with
  | .error _ => (.nothing, ns)
  | .ok .blank => (.note (.text line.comment), ns)
  | .ok (.enter name) => (.note (.enter name), ns.enter name)
  | .ok .leave => if ns.isRoot then (.nothing, ns) else (.note .leave, ns.leave)
  | .ok (.region address) => (.note (.region (some address)), ns)
  | .ok .endRegion => (.note (.region none), ns)
  | .ok (.skip amount) => (.note (.skip amount number), ns)
  | .ok (.openGroup kind) => (.opens kind, ns)
  | .ok (.openNamed name) => (.declares (ns.qualify name), ns)
  | .ok (.close kind) => (.closes (some kind), ns)
  | .ok .closeNamed => (.closes none, ns)
  | .ok (.assign name operand) =>
    (.place (.assignment name (ns.value operand) line.comment), ns)
  | .ok (.field name size) => (.place (.member ⟨name, line.comment, some size, none, number⟩), ns)
  | .ok (.instantiate name reference) =>
    (.place (.member ⟨name, line.comment, none, some (ns.structureName reference), number⟩), ns)

/-- The parts of numbered lines, from inside of these namespaces on. -/
def parts (ns : Namespaces) : List (Line × UInt32) → List Part
  | [] => []
  | (line, number) :: rest =>
    (Part.ofLine ns line number).1 :: parts (Part.ofLine ns line number).2 rest

/-- What stands in a block, line after line. -/
inductive Block where
  | done
  | note (item : Item) (rest : Block)
  | place (item : Item) (rest : Block)
  | group (kind : GroupKind) (body rest : Block)
  | named (name : String) (body rest : Block)
  deriving Repr

/-- Whether a block of this kind ends here; the document does not. -/
def ends (block : Option GroupKind) (closer : Option GroupKind) : Bool :=
  match block with
  | none => false
  | some kind => closer.all (· = kind)

/-- A block read from the front of parts, and the parts after it. -/
structure Front (parts : List Part) where
  block : Block
  rest : List Part
  length_le : rest.length ≤ parts.length

/-- Reads a block of this kind. An end that does not fit it is passed over, and where there is
nothing more to read every block ends. -/
def read (kind : Option GroupKind) (parts : List Part) : Front parts :=
  match parts with
  | [] => ⟨.done, [], Nat.le_refl _⟩
  | .nothing :: ps =>
    let front := read kind ps
    ⟨front.block, front.rest, Nat.le_succ_of_le front.length_le⟩
  | .note item :: ps =>
    let front := read kind ps
    ⟨.note item front.block, front.rest, Nat.le_succ_of_le front.length_le⟩
  | .place item :: ps =>
    let front := read kind ps
    ⟨.place item front.block, front.rest, Nat.le_succ_of_le front.length_le⟩
  | .opens inner :: ps =>
    let body := read (some inner) ps
    let front := read kind body.rest
    ⟨.group inner body.block front.block, front.rest,
      Nat.le_succ_of_le (Nat.le_trans front.length_le body.length_le)⟩
  | .declares name :: ps =>
    let body := read (some .struct) ps
    let front := read kind body.rest
    ⟨.named name body.block front.block, front.rest,
      Nat.le_succ_of_le (Nat.le_trans front.length_le body.length_le)⟩
  | .closes closer :: ps =>
    if ends kind closer then ⟨.done, ps, Nat.le_succ _⟩
    else
      let front := read kind ps
      ⟨front.block, front.rest, Nat.le_succ_of_le front.length_le⟩
termination_by parts.length
decreasing_by all_goals first | exact Nat.lt_succ_self _ | exact Nat.lt_succ_of_le (Front.length_le _)

/-- The blocks of a source. -/
def ofLines (lines : List (Line × UInt32)) : Block := (read none (parts .root lines)).block

namespace Block

/-- The number of groups opened in a block. -/
def count : Block → Nat
  | done => 0
  | note _ rest | place _ rest => rest.count
  | group _ body rest | named _ body rest => 1 + body.count + rest.count

/-- The items for the document, in this block and all blocks inside it. -/
def notes : Block → List Item
  | done => []
  | note item rest => item :: rest.notes
  | place _ rest => rest.notes
  | group _ body rest | named _ body rest => body.notes ++ rest.notes

/-- The items directly in a block, when the next group opened in it has this number. -/
def members (next : GroupId) : Block → List Item
  | done => []
  | note _ rest => rest.members next
  | place item rest => item :: rest.members next
  | group _ body rest => .group next :: rest.members (next + 1 + body.count)
  | named _ body rest => rest.members (next + 1 + body.count)

/-- The items of the document, when this is what stands in it. -/
def documentMembers (next : GroupId) : Block → List Item
  | done => []
  | note item rest | place item rest => item :: rest.documentMembers next
  | group _ body rest =>
    .group next :: (body.notes ++ rest.documentMembers (next + 1 + body.count))
  | named _ body rest => body.notes ++ rest.documentMembers (next + 1 + body.count)

/-- The groups opened in a block. -/
def groups (next : GroupId) : Block → List Group
  | done => []
  | note _ rest | place _ rest => rest.groups next
  | group kind body rest =>
    ⟨kind, (body.members (next + 1)).toArray⟩ ::
      (body.groups (next + 1) ++ rest.groups (next + 1 + body.count))
  | named _ body rest =>
    ⟨.struct, (body.members (next + 1)).toArray⟩ ::
      (body.groups (next + 1) ++ rest.groups (next + 1 + body.count))

/-- The structures declared in a block, in the order of their first lines. -/
def declarations (next : GroupId) : Block → List (String × GroupId)
  | done => []
  | note _ rest | place _ rest => rest.declarations next
  | group _ body rest =>
    body.declarations (next + 1) ++ rest.declarations (next + 1 + body.count)
  | named name body rest =>
    (name, next) :: (body.declarations (next + 1) ++ rest.declarations (next + 1 + body.count))

/-- The model of a source with these blocks. The document comes before all groups. -/
def model (b : Block) : Model where
  groups := (⟨.struct, (b.documentMembers 1).toArray⟩ :: b.groups 1).toArray
  registry := (b.declarations 1).reverse

end Block
end HeaderSymbols.Outline
