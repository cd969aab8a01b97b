import HeaderSymbols.Proofs.Source.Blocks
import HeaderSymbols.Proofs.Source.Renaming

/-!
# Two blocks that change places

The groups opened in a block are numbered from where the model stands. The same block read later
opens the same groups under later numbers. Where two blocks after one another change places, the
groups of each move by the number of groups of the other, and all other groups stay; this is a
renaming of the model, if one of the blocks gives the document nothing and no name is declared in
both.

* `exchange`: numbers after two stretches of them have changed places.
* `members_move`, `groups_move`, `declarations_move`: a block read elsewhere.
* `group?_absorb_document`, `group?_absorb_opened`: a model after a block of the document.
* `renames_exchange`: the models before and after the blocks change places.
-/
namespace HeaderSymbols

/-! ## Numbers -/

/-- Where a number comes to be when the `b` numbers from `start` on and the `c` numbers after them
change places. -/
def exchange (start b c i : Nat) : Nat :=
  if i < start then i
  else if i < start + b then i + c
  else if i < start + b + c then i - b
  else i

section
variable {start b c i : Nat}

theorem exchange_before (h : i < start) : exchange start b c i = i := if_pos h

theorem exchange_first (h : i < b) : exchange start b c (start + i) = start + c + i := by
  unfold exchange
  rw [if_neg (by omega), if_pos (by omega)]
  omega

theorem exchange_second (h : i < c) : exchange start b c (start + b + i) = start + i := by
  unfold exchange
  rw [if_neg (by omega), if_neg (by omega), if_pos (by omega)]
  omega

theorem exchange_after : exchange start b c (start + b + c + i) = start + c + b + i := by
  unfold exchange
  rw [if_neg (by omega), if_neg (by omega), if_neg (by omega)]
  omega

theorem exchange_cases (start b c i : Nat) :
    i < start ∨ (∃ k < b, i = start + k) ∨ (∃ k < c, i = start + b + k) ∨
      ∃ k, i = start + b + c + k := by
  by_cases h₁ : i < start
  · exact .inl h₁
  · by_cases h₂ : i < start + b
    · exact .inr (.inl ⟨i - start, by omega, by omega⟩)
    · by_cases h₃ : i < start + b + c
      · exact .inr (.inr (.inl ⟨i - (start + b), by omega, by omega⟩))
      · exact .inr (.inr (.inr ⟨i - (start + b + c), by omega⟩))

theorem exchange_exchange (start b c i : Nat) :
    exchange start c b (exchange start b c i) = i := by
  rcases exchange_cases start b c i with h | ⟨k, hk, rfl⟩ | ⟨k, hk, rfl⟩ | ⟨k, rfl⟩
  · rw [exchange_before h, exchange_before h]
  · rw [exchange_first hk, exchange_second hk]
  · rw [exchange_second hk, exchange_first hk]
  · rw [exchange_after, exchange_after]

theorem exchange_injective {j : Nat} (h : exchange start b c i = exchange start b c j) : i = j := by
  rw [← exchange_exchange start b c i, h, exchange_exchange]

end

namespace Renaming

/-- Groups that change places, after the document. -/
def exchange {start : Nat} (b c : Nat) (h : Model.document < start) : Renaming :=
  ⟨HeaderSymbols.exchange start b c, id, id, id, exchange_injective, exchange_before h⟩

/-- Nothing is renamed but groups. -/
structure OnlyGroups (ρ : Renaming) : Prop where
  line : ρ.line = id
  comment : ρ.comment = id
  text : ρ.text = id

theorem onlyGroups_exchange {start : Nat} (b c : Nat) (h : Model.document < start) :
    (exchange b c h).OnlyGroups := ⟨rfl, rfl, rfl⟩

variable {ρ : Renaming}

theorem OnlyGroups.item (h : ρ.OnlyGroups) {i : Item} (hi : i.isGroup = false) :
    i.rename ρ = i := by
  cases i with
  | group => cases hi
  | _ => simp [Item.rename, h.line, h.comment]

theorem OnlyGroups.emitter (h : ρ.OnlyGroups) (e : Emitter) : e.rename ρ = e := by
  have hfinding (f : Finding) : f.rename ρ = f := by
    rw [Finding.rename, h.line, Option.map_id, Fault.rename_eq_self fun t => by rw [h.text]; rfl]
    rfl
  have hline (l : OutputLine) : l.rename ρ = l :=
    OutputLine.rename_eq_self (fun c => by rw [h.comment]; rfl) l
  simp [Emitter.rename, hline, hfinding]

end Renaming

/-! ## Blocks of lines -/

namespace Outline

/-- An item that a line gives is never a group. -/
def Part.Plain : Part → Prop
  | note item | place item => item.isGroup = false
  | _ => True

def Block.Plain : Block → Prop
  | done => True
  | note item rest | place item rest => item.isGroup = false ∧ rest.Plain
  | group _ body rest | named _ body rest => body.Plain ∧ rest.Plain

theorem plain_ofLine (ns : Namespaces) (line : Line) (number : UInt32) :
    (Part.ofLine ns line number).1.Plain := by
  unfold Part.ofLine
  split <;> first | trivial | rfl | (split <;> trivial)

theorem plain_parts (ns : Namespaces) (lines : List (Line × UInt32)) :
    ∀ p ∈ parts ns lines, p.Plain := by
  induction lines generalizing ns with
  | nil => exact nofun
  | cons l rest ih => exact List.forall_mem_cons.2 ⟨plain_ofLine .., ih _⟩

theorem plain_read (kind : Option GroupKind) (ps : List Part) (h : ∀ p ∈ ps, p.Plain) :
    (read kind ps).block.Plain ∧ ∀ p ∈ (read kind ps).rest, p.Plain := by
  induction kind, ps using read.induct with
  | case1 kind => rw [read]; exact ⟨trivial, h⟩
  | case2 kind ps ih => rw [read]; exact ih (List.forall_mem_cons.1 h).2
  | case3 kind item ps ih | case4 kind item ps ih =>
    rw [read]
    obtain ⟨hitem, hps⟩ := List.forall_mem_cons.1 h
    exact ⟨⟨hitem, (ih hps).1⟩, (ih hps).2⟩
  | case5 kind k ps body ihb ihr | case6 kind name ps body ihb ihr =>
    rw [read]
    obtain ⟨hbody, hrest⟩ := ihb (List.forall_mem_cons.1 h).2
    exact ⟨⟨hbody, (ihr hrest).1⟩, (ihr hrest).2⟩
  | case7 kind closer ps hc =>
    rw [read, if_pos hc]
    exact ⟨trivial, (List.forall_mem_cons.1 h).2⟩
  | case8 kind closer ps hc ih =>
    rw [read, if_neg hc]
    exact ih (List.forall_mem_cons.1 h).2

namespace Block

variable {ρ : Renaming} {b : Block} {next next' : GroupId}

/-- The groups opened in a block from `next` on are renamed to those from `next'` on. -/
def Moves (ρ : Renaming) (b : Block) (next next' : GroupId) : Prop :=
  ∀ k < b.count, ρ.group (next + k) = next' + k

/-- A group with a body, and what follows it. -/
theorem Moves.opened {n : Nat} {body rest : Block} (hn : n = 1 + body.count + rest.count)
    (h : ∀ k < n, ρ.group (next + k) = next' + k) :
    ρ.group next = next' ∧ body.Moves ρ (next + 1) (next' + 1) ∧
      rest.Moves ρ (next + 1 + body.count) (next' + 1 + body.count) := by
  refine ⟨h 0 (by omega), fun k hk => ?_, fun k hk => ?_⟩
  · have := h (1 + k) (by omega)
    rwa [← Nat.add_assoc, ← Nat.add_assoc] at this
  · have := h (1 + body.count + k) (by omega)
    rwa [← Nat.add_assoc, ← Nat.add_assoc, ← Nat.add_assoc, ← Nat.add_assoc] at this

variable (hρ : ρ.OnlyGroups)

include hρ

theorem members_move (hb : b.Plain) (h : b.Moves ρ next next') :
    b.members next' = (b.members next).map (·.rename ρ) := by
  induction b generalizing next next' with
  | done => rfl
  | note item rest ih => exact ih hb.2 h
  | place item rest ih =>
    simp only [members, List.map_cons, hρ.item hb.1, ih hb.2 h]
  | group kind body rest ihb ihr =>
    obtain ⟨hnext, -, hrest⟩ := Moves.opened rfl h
    simp only [members, List.map_cons, Item.rename_group, hnext, ihr hb.2 hrest]
  | named name body rest ihb ihr => exact ihr hb.2 (Moves.opened rfl h).2.2

theorem notes_rename (hb : b.Plain) : b.notes.map (·.rename ρ) = b.notes := by
  induction b with
  | done => rfl
  | note item rest ih => simp only [notes, List.map_cons, hρ.item hb.1, ih hb.2]
  | place item rest ih => exact ih hb.2
  | group kind body rest ihb ihr | named name body rest ihb ihr =>
    simp only [notes, List.map_append, ihb hb.1, ihr hb.2]

theorem documentMembers_move (hb : b.Plain) (h : b.Moves ρ next next') :
    b.documentMembers next' = (b.documentMembers next).map (·.rename ρ) := by
  induction b generalizing next next' with
  | done => rfl
  | note item rest ih | place item rest ih =>
    simp only [documentMembers, List.map_cons, hρ.item hb.1, ih hb.2 h]
  | group kind body rest ihb ihr =>
    obtain ⟨hnext, -, hrest⟩ := Moves.opened rfl h
    simp only [documentMembers, List.map_cons, List.map_append, Item.rename_group, hnext,
      notes_rename hρ hb.1, ihr hb.2 hrest]
  | named name body rest ihb ihr =>
    simp only [documentMembers, List.map_append, notes_rename hρ hb.1,
      ihr hb.2 (Moves.opened rfl h).2.2]

theorem groups_move (hb : b.Plain) (h : b.Moves ρ next next') :
    b.groups next' = (b.groups next).map (·.rename ρ) := by
  induction b generalizing next next' with
  | done => rfl
  | note item rest ih | place item rest ih => exact ih hb.2 h
  | group kind body rest ihb ihr | named name body rest ihb ihr =>
    obtain ⟨-, hbody, hrest⟩ := Moves.opened rfl h
    simp only [groups, List.map_cons, List.map_append, Group.rename, List.map_toArray,
      members_move hρ hb.1 hbody, ihb hb.1 hbody, ihr hb.2 hrest]

omit hρ in
theorem declarations_move (h : b.Moves ρ next next') :
    b.declarations next' = (b.declarations next).map fun d => (d.1, ρ.group d.2) := by
  induction b generalizing next next' with
  | done => rfl
  | note item rest ih | place item rest ih => exact ih h
  | group kind body rest ihb ihr =>
    obtain ⟨-, hbody, hrest⟩ := Moves.opened rfl h
    simp only [declarations, List.map_append, ihb hbody, ihr hrest]
  | named name body rest ihb ihr =>
    obtain ⟨hnext, hbody, hrest⟩ := Moves.opened rfl h
    simp only [declarations, List.map_cons, List.map_append, hnext, ihb hbody, ihr hrest]

omit hρ in
/-- The names declared in a block, wherever it is read. -/
theorem declared_move (b : Block) (next next' : GroupId) :
    (b.declarations next).map Prod.fst = (b.declarations next').map Prod.fst := by
  induction b generalizing next next' with
  | done => rfl
  | note item rest ih | place item rest ih => exact ih ..
  | group kind body rest ihb ihr =>
    simp only [declarations, List.map_append]
    rw [ihb _ (next' + 1), ihr _ (next' + 1 + body.count)]
  | named name body rest ihb ihr =>
    simp only [declarations, List.map_cons, List.map_append]
    rw [ihb _ (next' + 1), ihr _ (next' + 1 + body.count)]

end Block
end Outline

/-! ## Models -/

theorem Group.rename_append (ρ : Renaming) (g : Group) (items : List Item) :
    (g.append items).rename ρ = (g.rename ρ).append (items.map (·.rename ρ)) := by
  simp [append, rename]

namespace Model

open Outline (Block)

variable {m : Model} {b c d : Block}

theorem group?_absorb_new (hm : document < m.groups.size) (b : Block) (k : Nat) :
    (m.absorb document b).group? (m.groups.size + k) = (b.groups m.groups.size)[k]? := by
  by_cases hk : k < b.count
  · exact adds b hm k hk
  · have hsize := size_absorb m document b
    rw [List.getElem?_eq_none (by rw [Block.length_groups]; omega)]
    exact Array.getElem?_eq_none (by omega)

theorem group?_absorb_other {id : GroupId} (hid : id < m.groups.size) (hd : id ≠ document)
    (b : Block) : (m.absorb document b).group? id = m.group? id := by
  rw [group?_absorb_of_lt hid, Block.delivered_eq_nil hd hd]
  simp

theorem group?_absorb_document (hm : document < m.groups.size) (b : Block) :
    (m.absorb document b).group? document =
      (m.group? document).map (·.append (b.documentMembers m.groups.size)) := by
  rw [group?_absorb_of_lt hm]
  simp [Block.delivered]

/-- The groups of a model after three blocks of the document. -/
structure Layered (m : Model) (b c d : Block) (m' : Model) : Prop where
  document : m'.group? document = (m.group? document).map
    (·.append (b.documentMembers m.groups.size ++
      c.documentMembers (m.groups.size + b.count) ++
      d.documentMembers (m.groups.size + b.count + c.count)))
  before : ∀ id < m.groups.size, id ≠ Model.document → m'.group? id = m.group? id
  first : ∀ k < b.count, m'.group? (m.groups.size + k) = (b.groups m.groups.size)[k]?
  second : ∀ k < c.count, m'.group? (m.groups.size + b.count + k) =
    (c.groups (m.groups.size + b.count))[k]?
  after : ∀ k, m'.group? (m.groups.size + b.count + c.count + k) =
    (d.groups (m.groups.size + b.count + c.count))[k]?

theorem layered (hm : document < m.groups.size) (b c d : Block) :
    Layered m b c d (((m.absorb document b).absorb document c).absorb document d) := by
  have hb := size_absorb m document b
  have hc := size_absorb (m.absorb document b) document c
  rw [hb] at hc
  have hmb : document < (m.absorb document b).groups.size := hb ▸ Nat.lt_add_right _ hm
  have hmc : document < ((m.absorb document b).absorb document c).groups.size :=
    hc ▸ Nat.lt_add_right _ (Nat.lt_add_right _ hm)
  have hd (k : Nat) : m.groups.size + k ≠ document :=
    Nat.ne_of_gt (Nat.lt_of_lt_of_le hm (Nat.le_add_right ..))
  -- what is there after the first of the blocks the others leave alone
  have hkeep {id : Nat} (hid : id < m.groups.size + b.count) (hne : id ≠ document) :
      (((m.absorb document b).absorb document c).absorb document d).group? id =
        (m.absorb document b).group? id := by
    have hidc : id < ((m.absorb document b).absorb document c).groups.size := by omega
    rw [group?_absorb_other hidc hne, group?_absorb_other (by rwa [hb]) hne]
  refine ⟨?_, fun id hid hne => ?_, fun k hk => ?_, fun k hk => ?_, fun k => ?_⟩
  · rw [group?_absorb_document hmc, group?_absorb_document hmb, group?_absorb_document hm, hc, hb]
    simp only [Option.map_map, Function.comp_def, Group.append_append, List.append_assoc]
  · rw [hkeep (Nat.lt_add_right _ hid) hne, group?_absorb_other hid hne]
  · rw [hkeep (Nat.add_lt_add_left hk _) (hd k), group?_absorb_new hm]
  · have hne := hd (b.count + k)
    have hlt : m.groups.size + b.count + k <
        ((m.absorb document b).absorb document c).groups.size := by omega
    have hnew := group?_absorb_new hmb c k
    rw [← Nat.add_assoc] at hne
    rw [hb] at hnew
    rw [group?_absorb_other hlt hne, hnew]
  · have hnew := group?_absorb_new hmc d k
    rwa [hc] at hnew

theorem lookup_map {β γ : Type} (f : β → γ) (key : String) (l : List (String × β)) :
    (l.map fun p => (p.1, f p.2)).lookup key = (l.lookup key).map f := by
  induction l with
  | nil => rfl
  | cons p rest ih =>
    rw [List.map_cons, List.lookup_cons, List.lookup_cons, ih]
    cases key == p.1 <;> rfl

theorem not_mem_iff_lookup_reverse {β : Type} {key : String} {l : List (String × β)} :
    key ∉ l.map Prod.fst ↔ l.reverse.lookup key = none := by
  rw [List.lookup_eq_none_iff]
  constructor
  · intro h p hp
    rw [bne_iff_ne]
    rintro rfl
    exact h (List.mem_map_of_mem (List.mem_reverse.1 hp))
  · intro h hkey
    obtain ⟨p, hp, rfl⟩ := List.mem_map.1 hkey
    simpa using h p (List.mem_reverse.2 hp)

theorem lookup_absorb (m : Model) (scope : GroupId) (b : Block) (name : String) :
    (m.absorb scope b).lookup name =
      ((b.declarations m.groups.size).reverse.lookup name).or (m.lookup name) := by
  rw [lookup, registry_absorb, List.lookup_append]
  rfl

theorem renames_of_group? {ρ : Renaming} {m' : Model}
    (hg : ∀ id, m'.group? (ρ.group id) = (m.group? id).map (·.rename ρ))
    (hl : ∀ name, m'.lookup name = (m.lookup name).map ρ.group) : m.Renames ρ m' where
  kind id := by
    rw [kind, kind?, hg, kind, kind?]
    cases m.group? id <;> rfl
  members id := by
    rw [members, hg, members]
    cases m.group? id <;> simp [Group.rename, Group.members]
  lookup := hl

/-- The groups of a model are not renamed where those that stand in them are not. -/
theorem WellFormed.group?_rename (hm : m.WellFormed) {ρ : Renaming} (hρ : ρ.OnlyGroups)
    (hfixed : ∀ id < m.groups.size, ρ.group id = id) (id : GroupId) :
    (m.group? id).map (·.rename ρ) = m.group? id := by
  cases hg : m.group? id with
  | none => rfl
  | some g =>
    obtain ⟨kind, items⟩ := g
    have hmembers : m.members id = items.toList := by simp [members, hg, Group.members]
    have hitem : ∀ i ∈ items, i.rename ρ = i := by
      intro i hi
      rw [← Array.mem_toList_iff, ← hmembers] at hi
      cases i with
      | group child => rw [Item.rename_group, hfixed _ (hm.nests _ _ hi).2]
      | _ => exact hρ.item rfl
    simp only [Option.map_some, Group.rename, Option.some.injEq, Group.mk.injEq, true_and]
    rw [Array.map_congr_left hitem, Array.map_id']

/-- **Exchange.** Two blocks after one another may change places, if the first gives the document
nothing and no name is declared in both. The model is the same, but for the numbers of the groups
that were opened in them. -/
theorem renames_exchange (hm : m.WellFormed) (hb : b.Plain) (hc : c.Plain) (hd : d.Plain)
    (hdocument : ∀ next, b.documentMembers next = [])
    (hnames : ∀ name ∈ (b.declarations 0).map Prod.fst, name ∉ (c.declarations 0).map Prod.fst) :
    Renames (.exchange b.count c.count hm.document_lt)
      (((m.absorb document b).absorb document c).absorb document d)
      (((m.absorb document c).absorb document b).absorb document d) := by
  have hρ := Renaming.onlyGroups_exchange b.count c.count hm.document_lt
  have hfixed : ∀ id < m.groups.size,
      (Renaming.exchange b.count c.count hm.document_lt).group id = id :=
    fun id hid => exchange_before hid
  generalize hr : Renaming.exchange b.count c.count hm.document_lt = ρ at hρ hfixed ⊢
  have hmb : b.Moves ρ m.groups.size (m.groups.size + c.count) := fun k hk => by
    rw [← hr]
    exact exchange_first hk
  have hmc : c.Moves ρ (m.groups.size + b.count) m.groups.size := fun k hk => by
    rw [← hr]
    exact exchange_second hk
  have hafter (k : Nat) : ρ.group (m.groups.size + b.count + c.count + k) =
      m.groups.size + c.count + b.count + k := by
    rw [← hr]
    exact exchange_after
  have hl := layered hm.document_lt b c d
  have hl' := layered hm.document_lt c b d
  refine renames_of_group? (fun id => ?_) fun name => ?_
  · rcases exchange_cases m.groups.size b.count c.count id with
      hid | ⟨k, hk, rfl⟩ | ⟨k, hk, rfl⟩ | ⟨k, rfl⟩
    · rw [hfixed id hid]
      by_cases hne : id = document
      · subst hne
        rw [hl.document, hl'.document, hdocument, hdocument, Block.documentMembers_move hρ hc hmc,
          Block.documentMembers_move hρ hd fun k _ => hafter k]
        have hold := hm.group?_rename hρ hfixed document
        cases hg : m.group? document with
        | none => rfl
        | some g =>
          simp only [hg, Option.map_some, Option.some.injEq] at hold
          simp [Group.rename_append, hold]
      · rw [hl.before id hid hne, hl'.before id hid hne, hm.group?_rename hρ hfixed]
    · rw [hmb k hk, hl.first k hk, hl'.second k hk, Block.groups_move hρ hb hmb, List.getElem?_map]
    · rw [hmc k hk, hl.second k hk, hl'.first k hk, Block.groups_move hρ hc hmc, List.getElem?_map]
    · rw [hafter, hl.after, hl'.after, Block.groups_move hρ hd fun k _ => hafter k,
        List.getElem?_map]
  · have hold : (m.lookup name).map ρ.group = m.lookup name := by
      cases hname : m.lookup name with
      | none => rfl
      | some id => rw [Option.map_some, hfixed id (hm.registered name id hname).2]
    have hapart : (b.declarations m.groups.size).reverse.lookup name = none ∨
        (c.declarations (m.groups.size + b.count)).reverse.lookup name = none := by
      rw [← not_mem_iff_lookup_reverse, ← not_mem_iff_lookup_reverse, Block.declared_move b _ 0,
        Block.declared_move c _ 0]
      exact Classical.or_iff_not_imp_left.2 fun h => hnames name (Classical.not_not.1 h)
    simp only [lookup_absorb, size_absorb, Block.declarations_move hmb,
      Block.declarations_move hmc, Block.declarations_move fun k _ => hafter k, ← List.map_reverse,
      lookup_map, Option.map_or, hold]
    rcases hapart with h | h <;> simp [h]

end Model
end HeaderSymbols
