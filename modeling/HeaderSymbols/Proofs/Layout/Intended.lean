import HeaderSymbols.Layout.Walk

/-!
# The layout of a model, as it is meant

Judgements that say where the items of a group stand and what is printed for them, on
natural numbers without a bound and with no order of steps. An item that is at fault has no
rule: a skip or a member where there is no address, an address that 64 bits cannot hold, a
member without a size, a structure that is not registered or is being expanded already.

* `Lays`, `LaysGroup`: an item or a group is laid out from a place on, inside the
  expansions of a path and inside namespaces, and ends at a place.
* `InOrder`, `Together`: the members of a structure start where the one before them ends;
  those of a union start at one place.
* `Laid`: the document and the structures that follow it are laid out.
-/
namespace HeaderSymbols.Intended

/-- An address of any size, or none. -/
abbrev Place := Option Nat

/-- A line of the output. -/
inductive Entry where
  | text (comment : Option String)
  | symbol (name value : String) (comment : Option String)
  deriving DecidableEq, Repr

namespace Entry

def render : Entry → String
  | text none => ""
  | text (some comment) => comment
  | symbol name value none => name ++ " = " ++ value
  | symbol name value (some comment) => name ++ " = " ++ value ++ "  " ++ comment

def isSymbol : Entry → Bool
  | text _ => false
  | symbol .. => true

/-- Every line ends in a line feed. -/
def renderAll (entries : List Entry) : String :=
  String.join (entries.map fun entry => entry.render ++ "\n")

end Entry

/-- A dollar sign and hexadecimal digits. -/
def hex (n : Nat) : String := String.ofList ('$' :: Nat.toDigits 16 n)

def valueText : Value → String
  | .number n => hex n.toNat
  | .symbol name => name

/-- A name after the names of the namespaces around it, given from the innermost out, with an
underscore after each. -/
def qualified (ns : List String) (name : String) : String :=
  String.join (ns.reverse.map (· ++ "_")) ++ name

mutual

/-- `Lays m path ns start item entries ns' finish`: inside the expansions of `path` and the
namespaces `ns`, an item that starts at `start` prints `entries`, after which `ns'` are open,
and ends at `finish`. -/
inductive Lays (m : Model) : List GroupId → List String → Place → Item → List Entry →
    List String → Place → Prop where
  | text {path ns start comment} : Lays m path ns start (.text comment) [.text comment] ns start
  | enter {path ns start name} : Lays m path ns start (.enter name) [] (name :: ns) start
  | leave {path ns start} : Lays m path ns start .leave [] ns.tail start
  | region {path ns start address} :
      Lays m path ns start (.region address) [] ns (address.map UInt64.toNat)
  | skip {path ns a amount line} (fits : a + amount.toNat < UInt64.size) :
      Lays m path ns (some a) (.skip amount line) [] ns (some (a + amount.toNat))
  | assignment {path ns start name value comment} :
      Lays m path ns start (.assignment name value comment)
        [.symbol (qualified ns name) (valueText value) comment] ns start
  | field {path ns a size} (mem : Member) (plain : mem.layout = none)
      (sized : mem.size = some size) (fits : a + size.toNat < UInt64.size) :
      Lays m path ns (some a) (.member mem)
        [.symbol (qualified ns mem.name) (hex a) mem.comment] ns (some (a + size.toNat))
  | expansion {path ns a name id entries inner finish} (mem : Member)
      (layout : mem.layout = some name) (registered : m.lookup name = some id) (fresh : id ∉ path)
      (body : LaysGroup m (id :: path) (mem.name :: ns) (some a) id entries inner finish) :
      Lays m path ns (some a) (.member mem) entries ns finish
  | group {path ns start id entries ns' finish}
      (body : LaysGroup m path ns start id entries ns' finish) :
      Lays m path ns start (.group id) entries ns' finish

/-- `LaysGroup m path ns start id entries ns' finish`: the same for a group that is entered at
`start`. A union ends at the furthest of its entry and the ends of its members. -/
inductive LaysGroup (m : Model) : List GroupId → List String → Place → GroupId → List Entry →
    List String → Place → Prop where
  | struct {path ns start id entries ns' finish} (kind : m.kind id = .struct)
      (members : InOrder m path ns start (m.members id) entries ns' finish) :
      LaysGroup m path ns start id entries ns' finish
  | union {path ns entry id entries ns' ends} (kind : m.kind id = .union)
      (members : Together m path ns entry (m.members id) entries ns' ends) :
      LaysGroup m path ns entry id entries ns' (ends.foldl max entry)

/-- Items each of which starts where the one before it ends. -/
inductive InOrder (m : Model) : List GroupId → List String → Place → List Item → List Entry →
    List String → Place → Prop where
  | nil {path ns start} : InOrder m path ns start [] [] ns start
  | cons {path ns start item first ns₁ next rest others ns₂ finish}
      (head : Lays m path ns start item first ns₁ next)
      (tail : InOrder m path ns₁ next rest others ns₂ finish) :
      InOrder m path ns start (item :: rest) (first ++ others) ns₂ finish

/-- Items that all start at one place, with the places where each of them ends. -/
inductive Together (m : Model) : List GroupId → List String → Place → List Item → List Entry →
    List String → List Place → Prop where
  | nil {path ns entry} : Together m path ns entry [] [] ns []
  | cons {path ns entry item first ns₁ finish rest others ns₂ ends}
      (head : Lays m path ns entry item first ns₁ finish)
      (tail : Together m path ns₁ entry rest others ns₂ ends) :
      Together m path ns entry (item :: rest) (first ++ others) ns₂ (finish :: ends)

end

/-- What is printed for a model: the document from where there is no address, and after it the
kernel's event and time structures, each from address 0 and in a namespace of its own. -/
inductive Laid (m : Model) : List Entry → Prop where
  | intro {event time entries eventEntries timeEntries ns ns₁ ns₂ finish finish₁ finish₂}
      (document : LaysGroup m [Model.document] [] none Model.document entries ns finish)
      (eventKey : m.lookup "kernel_event_event_t" = some event)
      (eventBody : LaysGroup m [event] ["kernel_event"] (some 0) event eventEntries ns₁ finish₁)
      (timeKey : m.lookup "kernel_time_t" = some time)
      (timeBody : LaysGroup m [time] ["kernel_time"] (some 0) time timeEntries ns₂ finish₂) :
      Laid m (entries ++ eventEntries ++ timeEntries)

end HeaderSymbols.Intended
