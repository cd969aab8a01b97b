import HeaderSymbols.Proofs.Conversion
import HeaderSymbols.Proofs.Endings
import HeaderSymbols.Proofs.Source.Exchange
import HeaderSymbols.Proofs.Source.Parallel

/-!
# The order of declarations

A structure that is declared, with nothing inside that belongs to the document, may stand before
or after the lines that follow it, if these leave the namespaces and the open groups as they were
and no name is declared in both. The groups of a model are then numbered differently, and the lines
are; nothing else is changed by it.

* `Declares`, `Settled`: the lines that may be moved, and those that they may be moved over.
* `quiet_nested`, `documentMembers_declares`: a declaration gives the document nothing.
* `numbered_exchanged`: lines that change places have each other's numbers.
* `Settled.steps`: settled lines come back to where they started, wherever that is.
* `steps_exchange`: so they and a declaration may be read in either order.
* `order_inert`: so the source converts alike.
-/
namespace HeaderSymbols

/-! ## Declarations -/

namespace Directive

/-- A directive for an assignment or a member. -/
def IsMember : Directive → Prop
  | assign .. | field .. | instantiate .. => True
  | _ => False

/-- The end of a group of this kind. -/
def Closes (d : Directive) (kind : GroupKind) : Prop :=
  ∃ closer, d.role = .closes closer ∧ Grammar.Ends kind closer

/-- Assignments and members, and structures and unions of these with the ends that fit them. -/
inductive Nested : List Directive → Prop where
  | nil : Nested []
  | member {d rest} (here : d.IsMember) (after : Nested rest) : Nested (d :: rest)
  | group {kind closer inner rest} (inside : Nested inner) (closes : Closes closer kind)
      (after : Nested rest) : Nested (.openGroup kind :: (inner ++ closer :: rest))
  | named {name closer inner rest} (inside : Nested inner) (closes : Closes closer .struct)
      (after : Nested rest) : Nested (.openNamed name :: (inner ++ closer :: rest))

end Directive

/-- The lines of a structure that is declared. -/
def Declares (lines : List Line) : Prop :=
  ∃ name inner closer, Directive.Nested inner ∧ Directive.Closes closer .struct ∧
    lines.map Directive.ofLine = (.openNamed name :: (inner ++ [closer])).map .ok

namespace Reading

/-- Nothing was read yet, in these namespaces. -/
def within (ns : Namespaces) : Reading := ⟨.empty, ns, [Model.document], #[]⟩

/-- The names that are declared in lines. -/
def declared (ns : Namespaces) (lines : List Line) : List String :=
  ((within ns).steps (numbered lines)).model.registry.map Prod.fst

/-- Lines in which nothing is wrong, and which leave the namespaces and the open groups as they
were. -/
structure Settled (ns : Namespaces) (lines : List Line) : Prop where
  findings : ((within ns).steps (numbered lines)).findings = #[]
  scopes : ((within ns).steps (numbered lines)).scopes = [Model.document]
  namespaces : ((within ns).steps (numbered lines)).namespaces = ns

end Reading

namespace Outline

/-! ## What a declaration is read as -/

theorem read_place (kind : Option GroupKind) (item : Item) (ps : List Part) :
    (read kind (.place item :: ps)).block = .place item (read kind ps).block ∧
      (read kind (.place item :: ps)).rest = (read kind ps).rest := by
  rw [read]
  exact ⟨rfl, rfl⟩

theorem read_opens (kind : Option GroupKind) (k : GroupKind) (ps : List Part) :
    (read kind (.opens k :: ps)).block =
        .group k (read (some k) ps).block (read kind (read (some k) ps).rest).block ∧
      (read kind (.opens k :: ps)).rest = (read kind (read (some k) ps).rest).rest := by
  rw [read]
  exact ⟨rfl, rfl⟩

theorem read_declares (kind : Option GroupKind) (name : String) (ps : List Part) :
    (read kind (.declares name :: ps)).block =
        .named name (read (some .struct) ps).block
          (read kind (read (some .struct) ps).rest).block ∧
      (read kind (.declares name :: ps)).rest = (read kind (read (some .struct) ps).rest).rest := by
  rw [read]
  exact ⟨rfl, rfl⟩

/-- The parts of lines that turn no namespaces. -/
theorem parts_append {ns : Namespaces} {xs : List (Line × UInt32)}
    (h : ∀ l ∈ xs, (Part.ofLine ns l.1 l.2).2 = ns) (ys : List (Line × UInt32)) :
    parts ns (xs ++ ys) = parts ns xs ++ parts ns ys := by
  induction xs with
  | nil => rfl
  | cons l rest ih =>
    obtain ⟨hl, hrest⟩ := List.forall_mem_cons.1 h
    simp only [List.cons_append, parts, hl, ih hrest]

/-- Wherever these parts are read, they are at the front of a block and give the document
nothing. -/
def Quiet (ps : List Part) : Prop :=
  ∀ kind more, ∃ f : Block → Block, (∀ b, (f b).notes = b.notes) ∧
    (read kind (ps ++ more)).block = f (read kind more).block ∧
    (read kind (ps ++ more)).rest = (read kind more).rest

theorem quiet_nil : Quiet [] := fun _ _ => ⟨id, fun _ => rfl, rfl, rfl⟩

section
variable {ps qs : List Part}

theorem Quiet.place (h : Quiet ps) (item : Item) : Quiet (.place item :: ps) := by
  intro kind more
  obtain ⟨f, hf, hb, hr⟩ := h kind more
  obtain ⟨hblock, hrest⟩ := read_place kind item (ps ++ more)
  exact ⟨fun b => .place item (f b), fun b => hf b, by rw [List.cons_append, hblock, hb],
    by rw [List.cons_append, hrest, hr]⟩

/-- The body of a group is read up to the end that fits. -/
theorem Quiet.body (h : Quiet ps) {kind : GroupKind} {closer : Option GroupKind}
    (hc : ends (some kind) closer = true) (more : List Part) :
    (read (some kind) (ps ++ .closes closer :: more)).block.notes = [] ∧
      (read (some kind) (ps ++ .closes closer :: more)).rest = more := by
  obtain ⟨f, hf, hb, hr⟩ := h (some kind) (.closes closer :: more)
  rw [hb, hr, hf, read, if_pos hc]
  exact ⟨rfl, rfl⟩

/-- So the group is at the front of whatever it stands in. -/
theorem Quiet.block (h : Quiet ps) {kind : GroupKind} {closer : Option GroupKind}
    (hc : ends (some kind) closer = true) (hq : Quiet qs) {opener : Part}
    {wrap : Block → Block → Block}
    (hread : ∀ outer ps, (read outer (opener :: ps)).block =
        wrap (read (some kind) ps).block (read outer (read (some kind) ps).rest).block ∧
      (read outer (opener :: ps)).rest = (read outer (read (some kind) ps).rest).rest)
    (hnotes : ∀ body rest, (wrap body rest).notes = body.notes ++ rest.notes) :
    Quiet (opener :: (ps ++ .closes closer :: qs)) := by
  intro outer more
  obtain ⟨hbody, hafter⟩ := h.body hc (qs ++ more)
  obtain ⟨f, hf, hb, hr⟩ := hq outer more
  obtain ⟨hblock, hrest⟩ := hread outer (ps ++ .closes closer :: (qs ++ more))
  rw [hafter, hb] at hblock
  rw [hafter, hr] at hrest
  generalize (read (some kind) (ps ++ .closes closer :: (qs ++ more))).block = body at hbody hblock
  refine ⟨fun b => wrap body (f b), fun b => ?_, ?_, ?_⟩
  · rw [hnotes, hbody, hf, List.nil_append]
  · rw [List.cons_append, List.append_assoc, List.cons_append, hblock]
  · rw [List.cons_append, List.append_assoc, List.cons_append, hrest]

end

section
variable (ns : Namespaces) {l : Line × UInt32} {d : Directive}

theorem ofLine_member (hl : Directive.ofLine l.1 = .ok d) (h : d.IsMember) :
    ∃ item, Part.ofLine ns l.1 l.2 = (.place item, ns) := by
  unfold Part.ofLine
  rw [hl]
  cases d with
  | assign | field | instantiate => exact ⟨_, rfl⟩
  | _ => cases h

theorem ofLine_closes (hl : Directive.ofLine l.1 = .ok d) {kind : GroupKind} (h : d.Closes kind) :
    ∃ closer, ends (some kind) closer = true ∧
      Part.ofLine ns l.1 l.2 = (.closes closer, ns) := by
  obtain ⟨closer, hrole, hends⟩ := h
  refine ⟨closer, Grammar.ends_iff.2 hends, ?_⟩
  unfold Part.ofLine
  rw [hl]
  cases d with
  | close | closeNamed => cases hrole; rfl
  | _ => cases hrole

/-- The lines of a body, and those after the end that fits. -/
theorem nested_body {lines : List (Line × UInt32)} {kind : GroupKind} {closer : Directive}
    {inner rest : List Directive} (closes : closer.Closes kind)
    (hl : lines.map (fun l => Directive.ofLine l.1) = (inner ++ closer :: rest).map .ok) :
    ∃ c xs l ys, ends (some kind) c = true ∧ lines = xs ++ l :: ys ∧
      Part.ofLine ns l.1 l.2 = (.closes c, ns) ∧
      xs.map (fun l => Directive.ofLine l.1) = inner.map .ok ∧
      ys.map (fun l => Directive.ofLine l.1) = rest.map .ok := by
  rw [List.map_append, List.map_cons] at hl
  obtain ⟨xs, others, rfl, hxs, hothers⟩ := List.map_eq_append_iff.1 hl
  obtain ⟨l, ys, rfl, hd, hys⟩ := List.map_eq_cons_iff.1 hothers
  obtain ⟨c, hc, hp⟩ := ofLine_closes ns hd closes
  exact ⟨c, xs, l, ys, hc, rfl, hp, hxs, hys⟩

/-- The lines of a block turn no namespaces, if those of its body and those after it do not. -/
theorem parts_block {opening closing : Line × UInt32} {opener : Part} {closer : Option GroupKind}
    (xs ys : List (Line × UInt32)) (hopening : Part.ofLine ns opening.1 opening.2 = (opener, ns))
    (hclosing : Part.ofLine ns closing.1 closing.2 = (.closes closer, ns))
    (hxs : ∀ l ∈ xs, (Part.ofLine ns l.1 l.2).2 = ns)
    (hys : ∀ l ∈ ys, (Part.ofLine ns l.1 l.2).2 = ns) :
    (∀ l ∈ opening :: (xs ++ closing :: ys), (Part.ofLine ns l.1 l.2).2 = ns) ∧
      parts ns (opening :: (xs ++ closing :: ys)) =
        opener :: (parts ns xs ++ .closes closer :: parts ns ys) := by
  constructor
  · refine List.forall_mem_cons.2 ⟨by rw [hopening], fun l hl => ?_⟩
    rcases List.mem_append.1 hl with hl | hl
    · exact hxs l hl
    · exact List.forall_mem_cons.2 ⟨by rw [hclosing], hys⟩ l hl
  · rw [parts, hopening, parts_append hxs, parts, hclosing]

/-- Nested directives turn no namespaces, and give the document nothing. -/
theorem quiet_nested {ds : List Directive} (hn : Directive.Nested ds)
    {lines : List (Line × UInt32)}
    (hl : lines.map (fun l => Directive.ofLine l.1) = ds.map .ok) :
    (∀ l ∈ lines, (Part.ofLine ns l.1 l.2).2 = ns) ∧ Quiet (parts ns lines) := by
  induction hn generalizing lines with
  | nil =>
    obtain rfl := List.map_eq_nil_iff.1 hl
    exact ⟨nofun, quiet_nil⟩
  | member here after ih =>
    rw [List.map_cons] at hl
    obtain ⟨l, rest, rfl, hd, hrest⟩ := List.map_eq_cons_iff.1 hl
    obtain ⟨hsteady, hquiet⟩ := ih hrest
    obtain ⟨item, hp⟩ := ofLine_member ns hd here
    refine ⟨List.forall_mem_cons.2 ⟨by rw [hp], hsteady⟩, ?_⟩
    rw [parts, hp]
    exact hquiet.place item
  | @group kind closer inner rest inside closes after ihi iha =>
    rw [List.map_cons] at hl
    obtain ⟨l, lines, rfl, hd, hl⟩ := List.map_eq_cons_iff.1 hl
    obtain ⟨c, xs, l', ys, hc, rfl, hclosing, hxs, hys⟩ := nested_body ns closes hl
    have hopening : Part.ofLine ns l.1 l.2 = (.opens kind, ns) := by simp only [Part.ofLine, hd]
    obtain ⟨hsteady, hparts⟩ := parts_block ns _ _ hopening hclosing (ihi hxs).1 (iha hys).1
    rw [hparts]
    exact ⟨hsteady, (ihi hxs).2.block hc (iha hys).2 (fun outer ps => read_opens outer kind ps)
      fun _ _ => rfl⟩
  | @named name closer inner rest inside closes after ihi iha =>
    rw [List.map_cons] at hl
    obtain ⟨l, lines, rfl, hd, hl⟩ := List.map_eq_cons_iff.1 hl
    obtain ⟨c, xs, l', ys, hc, rfl, hclosing, hxs, hys⟩ := nested_body ns closes hl
    have hopening : Part.ofLine ns l.1 l.2 = (.declares (ns.qualify name), ns) := by
      simp only [Part.ofLine, hd]
    obtain ⟨hsteady, hparts⟩ := parts_block ns _ _ hopening hclosing (ihi hxs).1 (iha hys).1
    rw [hparts]
    exact ⟨hsteady, (ihi hxs).2.block hc (iha hys).2 (fun outer ps => read_declares outer _ ps)
      fun _ _ => rfl⟩

end

/-- A declaration gives the document nothing. -/
theorem documentMembers_declares {ns : Namespaces} {lines : List (Line × UInt32)}
    (h : Declares (lines.map Prod.fst)) (next : GroupId) :
    (read none (parts ns lines)).block.documentMembers next = [] := by
  obtain ⟨name, inner, closer, hinner, hcloses, hl⟩ := h
  rw [List.map_map, List.map_cons] at hl
  obtain ⟨l, lines, rfl, hd, hl⟩ := List.map_eq_cons_iff.1 hl
  obtain ⟨c, xs, l', ys, hc, rfl, hclosing, hxs, hys⟩ := nested_body ns hcloses hl
  obtain rfl := List.map_eq_nil_iff.1 hys
  have hopening : Part.ofLine ns l.1 l.2 = (.declares (ns.qualify name), ns) := by
    have hd : Directive.ofLine l.1 = .ok (.openNamed name) := hd
    simp only [Part.ofLine, hd]
  obtain ⟨hsteady, hquiet⟩ := quiet_nested ns hinner hxs
  obtain ⟨hbody, hrest⟩ := hquiet.body hc []
  obtain ⟨-, hparts⟩ := parts_block ns _ [] hopening hclosing hsteady nofun
  have hblock := (read_declares none (ns.qualify name) (parts ns xs ++ [.closes c])).1
  rw [hrest, read] at hblock
  rw [hparts, parts, hblock, Block.documentMembers, hbody]
  rfl

end Outline

/-! ## Numbers of lines -/

/-- The number that a line has once `b` lines, which come after `a` others, and the `c` lines after
them have changed places. -/
def exchanged (a b c : Nat) (number : UInt32) : UInt32 :=
  UInt32.ofNat (exchange (a + 1) b c number.toNat)

/-- Only the numbers of lines are changed. -/
def Renaming.renumber (line : UInt32 → UInt32) : Renaming := .inPlace line id id

theorem Renaming.inPlace_renumber (line : UInt32 → UInt32) : (Renaming.renumber line).InPlace :=
  fun _ => rfl

namespace Reading

/-- Lines that come after `k` others. -/
def numberedFrom (k : Nat) (lines : List Line) : List (Line × UInt32) :=
  (lines.zipIdx k).map fun l => (l.1, UInt32.ofNat l.2 + 1)

theorem numberedFrom_append (k : Nat) (xs ys : List Line) :
    numberedFrom k (xs ++ ys) = numberedFrom k xs ++ numberedFrom (k + xs.length) ys := by
  simp [numberedFrom, List.zipIdx_append]

theorem numberedFrom_fst (k : Nat) (lines : List Line) :
    (numberedFrom k lines).map Prod.fst = lines := by
  simp [numberedFrom, Function.comp_def]

theorem map_numberedFrom {σ : UInt32 → UInt32} {k k' : Nat} {lines : List Line}
    (h : ∀ i < lines.length, σ (UInt32.ofNat (k + i) + 1) = UInt32.ofNat (k' + i) + 1) :
    (numberedFrom k lines).map (Line.renameNumbered (.renumber σ)) = numberedFrom k' lines := by
  induction lines generalizing k k' with
  | nil => rfl
  | cons l rest ih =>
    have hrest : (numberedFrom (k + 1) rest).map (Line.renameNumbered (.renumber σ)) =
        numberedFrom (k' + 1) rest := ih fun i hi => by
      rw [Nat.add_right_comm, Nat.add_right_comm k', Nat.add_assoc, Nat.add_assoc k']
      exact h (i + 1) (Nat.succ_lt_succ hi)
    have hl := h 0 (Nat.zero_lt_succ _)
    simp only [numberedFrom, List.zipIdx_cons, List.map_cons] at hrest ⊢
    rw [hrest]
    exact congrArg (fun n => (l, n) :: _) hl

/-- The number of the line that comes after `i` others. -/
theorem toNat_number {i : Nat} (hi : i + 1 < UInt32.size) : (UInt32.ofNat i + 1).toNat = i + 1 := by
  rw [UInt32.toNat_add, UInt32.toNat_ofNat]
  simp
  omega

theorem exchanged_number {a b c i j : Nat} (hi : i + 1 < UInt32.size)
    (h : exchange (a + 1) b c (i + 1) = j + 1) :
    exchanged a b c (UInt32.ofNat i + 1) = UInt32.ofNat j + 1 := by
  rw [exchanged, toNat_number hi, h, UInt32.ofNat_add]
  rfl

/-- The lines of a source in which two stretches of lines have changed places. -/
theorem numbered_exchanged {A B C D : List Line} (h : (A ++ B ++ C ++ D).length < UInt32.size) :
    numbered (A ++ C ++ B ++ D) =
      (numbered A ++ numberedFrom (A.length + B.length) C ++ numberedFrom A.length B ++
        numberedFrom (A.length + B.length + C.length) D).map
          (Line.renameNumbered (.renumber (exchanged A.length B.length C.length))) := by
  simp only [List.length_append] at h
  have hA : (numberedFrom 0 A).map (Line.renameNumbered (.renumber (exchanged A.length B.length
      C.length))) = numberedFrom 0 A :=
    map_numberedFrom fun i hi => exchanged_number (by omega) (exchange_before (by omega))
  have hB : (numberedFrom A.length B).map (Line.renameNumbered (.renumber (exchanged A.length
      B.length C.length))) = numberedFrom (A.length + C.length) B :=
    map_numberedFrom fun i hi => exchanged_number (by omega) (by
      rw [show A.length + i + 1 = A.length + 1 + i by omega, exchange_first hi]
      omega)
  have hC : (numberedFrom (A.length + B.length) C).map (Line.renameNumbered (.renumber
      (exchanged A.length B.length C.length))) = numberedFrom A.length C :=
    map_numberedFrom fun i hi => exchanged_number (by omega) (by
      rw [show A.length + B.length + i + 1 = A.length + 1 + B.length + i by omega,
        exchange_second hi]
      omega)
  have hD : (numberedFrom (A.length + B.length + C.length) D).map (Line.renameNumbered (.renumber
      (exchanged A.length B.length C.length))) =
        numberedFrom (A.length + C.length + B.length) D :=
    map_numberedFrom fun i hi => exchanged_number (by omega) (by
      rw [show A.length + B.length + C.length + i + 1 = A.length + 1 + B.length + C.length + i by
        omega, exchange_after]
      omega)
  simp only [List.map_append]
  rw [show numbered A = numberedFrom 0 A from rfl, hA, hB, hC, hD]
  show numberedFrom 0 _ = _
  simp only [numberedFrom_append, List.length_append, Nat.zero_add]

/-! ## Settled lines -/

section
variable {ns : Namespaces} {lines : List Line} {r : Reading}

/-- Lines that come after others are read as they are at the start of a source, but for their
numbers. -/
theorem steps_numberedFrom (ns : Namespaces) (k : Nat) (lines : List Line) :
    (within ns).steps (numberedFrom k lines) =
      ((within ns).steps (numbered lines)).rename (.renumber (· + UInt32.ofNat k)) := by
  have hnumbers : (numbered lines).map (Line.renameNumbered (.renumber (· + UInt32.ofNat k))) =
      numberedFrom k lines := by
    refine map_numberedFrom (k := 0) fun i hi => ?_
    rw [Nat.zero_add, UInt32.ofNat_add, UInt32.add_comm _ (UInt32.ofNat k), UInt32.add_assoc]
  have hwithin : (within ns).rename (.renumber (· + UInt32.ofNat k)) = within ns := by
    simp [rename, within, Model.rename, Model.empty, Group.rename]
  rw [← hnumbers, ← steps_rename (Renaming.inPlace_renumber _), hwithin]

/-- Settled lines find nothing and come back to where they were read from. -/
theorem Settled.steps (h : Settled ns lines) (hs : r.scopes = [Model.document])
    (hn : r.namespaces = ns) (k : Nat) :
    (r.steps (numberedFrom k lines)).findings = r.findings ∧
      (r.steps (numberedFrom k lines)).scopes = [Model.document] ∧
      (r.steps (numberedFrom k lines)).namespaces = ns := by
  obtain ⟨hparallel, found, hf, hf'⟩ :=
    (parallel_of_scopes_eq (r := within ns) rfl hs hn).steps (numberedFrom k lines)
  have hsteps := steps_numberedFrom ns k lines
  have hfindings : ((within ns).steps (numberedFrom k lines)).findings = #[] := by
    simp [hsteps, rename, h.findings]
  have hscopes : ((within ns).steps (numberedFrom k lines)).scopes = [Model.document] := by
    rw [hsteps, rename, h.scopes]
  have hnamespaces : ((within ns).steps (numberedFrom k lines)).namespaces = ns := by
    rw [hsteps, rename, h.namespaces]
  rw [hfindings] at hf
  obtain rfl : found = [] := by simpa [within] using hf.symm
  rw [List.append_nil] at hf'
  exact ⟨Array.toList_inj.1 hf', hparallel.scopes_eq_iff.2 hscopes,
    hparallel.namespaces.trans hnamespaces⟩

/-- The names that are declared in lines, from their block. -/
theorem mem_declared_iff {name : String} (k : Nat) :
    name ∈ declared ns lines ↔
      name ∈ ((block ns (numberedFrom k lines)).declarations 0).map Prod.fst := by
  have hregistry : ((within ns).steps (numbered lines)).model.registry =
      ((within ns).steps (numberedFrom k lines)).model.registry := by
    rw [steps_numberedFrom]
    rfl
  rw [declared, hregistry, model_steps rfl, Model.registry_absorb,
    Outline.Block.declared_move _ 0 1]
  simp only [List.map_append, List.map_reverse, List.mem_append, List.mem_reverse]
  exact or_iff_left (by simp [within, Model.empty])

end

/-! ## Changing places -/

/-- **Exchange.** A declaration and settled lines may be read in either order. What comes after
them finds the same, and the layout is the same. -/
theorem steps_exchange {ns : Namespaces} {r : Reading} {B C : List Line} (hr : r.WellFormed)
    (hs : r.scopes = [Model.document]) (hn : r.namespaces = ns) (hdeclares : Declares B)
    (hB : Settled ns B) (hC : Settled ns C) (hapart : ∀ name ∈ declared ns B, name ∉ declared ns C) (k l : Nat)
    (rest : List (Line × UInt32)) :
    let one := ((r.steps (numberedFrom k B)).steps (numberedFrom l C)).steps rest
    let other := ((r.steps (numberedFrom l C)).steps (numberedFrom k B)).steps rest
    other.finish.findings = one.finish.findings ∧
      Emitter.ofModel other.model = Emitter.ofModel one.model := by
  intro one other
  obtain ⟨hfB, hsB, hnB⟩ := hB.steps hs hn k
  obtain ⟨hfBC, hsBC, hnBC⟩ := hC.steps hsB hnB l
  obtain ⟨hfC, hsC, hnC⟩ := hC.steps hs hn l
  obtain ⟨hfCB, hsCB, hnCB⟩ := hB.steps hsC hnC k
  constructor
  · obtain ⟨hparallel, found, hf, hf'⟩ :=
      (parallel_of_scopes_eq hsBC hsCB (hnCB.trans hnBC.symm)).steps rest
    rw [← Array.toList_inj, findings_finish, findings_finish, hparallel.unclosed, hf, hf', hfBC,
      hfB, hfCB, hfC]
  · -- three blocks of the document, in either order
    have hblocks {r : Reading} {X Y : List (Line × UInt32)} (hs : r.scopes = [Model.document])
        (hn : r.namespaces = ns) (hsX : (r.steps X).scopes = [Model.document])
        (hnX : (r.steps X).namespaces = ns)
        (hsY : ((r.steps X).steps Y).scopes = [Model.document])
        (hnY : ((r.steps X).steps Y).namespaces = ns) :
        (((r.steps X).steps Y).steps rest).model =
          ((r.model.absorb Model.document (block ns X)).absorb Model.document
            (block ns Y)).absorb Model.document (block ns rest) := by
      rw [model_steps hsY, model_steps hsX, model_steps hs, hn, hnX, hnY]
    have hone := hblocks hs hn hsB hnB hsBC hnBC
    have hother := hblocks hs hn hsC hnC hsCB hnCB
    have hplain (lines : List (Line × UInt32)) : (block ns lines).Plain :=
      (Outline.plain_read none _ (Outline.plain_parts ns lines)).1
    have hrenames := Model.renames_exchange hr.model (hplain (numberedFrom k B))
      (hplain (numberedFrom l C)) (hplain rest)
      (Outline.documentMembers_declares ((numberedFrom_fst k B).symm ▸ hdeclares))
      fun name hb hc => hapart name ((mem_declared_iff k).2 hb) ((mem_declared_iff l).2 hc)
    rw [← hone, ← hother] at hrenames
    have hwell := (wellFormed_steps (wellFormed_steps (wellFormed_steps hr (numberedFrom k B))
      (numberedFrom l C)) rest).model.wellNested
    rw [Emitter.rename_ofModel hrenames hwell, (Renaming.onlyGroups_exchange ..).emitter]

section
variable {A B C D : List Line} {ns : Namespaces}

/-- A source in which a declaration and settled lines after it have changed places is read and laid
out like the source, but for the numbers of lines. -/
theorem ofLines_exchanged (hlength : (A ++ B ++ C ++ D).length < UInt32.size)
    (hscopes : (start.steps (numbered A)).scopes = [Model.document])
    (hnamespaces : (start.steps (numbered A)).namespaces = ns) (hdeclares : Declares B)
    (hB : Settled ns B) (hC : Settled ns C)
    (hapart : ∀ name ∈ declared ns B, name ∉ declared ns C) :
    let ρ := Renaming.renumber (exchanged A.length B.length C.length)
    (ofLines (A ++ C ++ B ++ D)).findings =
        (ofLines (A ++ B ++ C ++ D)).findings.map (·.rename ρ) ∧
      Emitter.ofModel (ofLines (A ++ C ++ B ++ D)).model =
        (Emitter.ofModel (ofLines (A ++ B ++ C ++ D)).model).rename ρ := by
  intro ρ
  obtain ⟨hfindings, hlayout⟩ := steps_exchange (wellFormed_steps wellFormed_start (numbered A))
    hscopes hnamespaces hdeclares hB hC hapart A.length (A.length + B.length)
    (numberedFrom (A.length + B.length + C.length) D)
  have hone : ofLines (A ++ B ++ C ++ D) = ((((start.steps (numbered A)).steps
      (numberedFrom A.length B)).steps (numberedFrom (A.length + B.length) C)).steps
      (numberedFrom (A.length + B.length + C.length) D)).finish := by
    show (start.steps (numberedFrom 0 _)).finish = _
    simp only [numberedFrom_append, List.length_append, Nat.zero_add, steps_append]
    rfl
  have hother : ofLines (A ++ C ++ B ++ D) = ((((start.steps (numbered A)).steps
      (numberedFrom (A.length + B.length) C)).steps (numberedFrom A.length B)).steps
      (numberedFrom (A.length + B.length + C.length) D)).finish.rename ρ := by
    have hsteps (lines : List (Line × UInt32)) :
        start.steps (lines.map (Line.renameNumbered ρ)) = (start.steps lines).rename ρ := by
      rw [← steps_rename (Renaming.inPlace_renumber _), rename_start]
    rw [ofLines, numbered_exchanged hlength, hsteps, ← rename_finish]
    simp only [steps_append]
  have hwell := (wellFormed_steps (wellFormed_steps (wellFormed_steps (wellFormed_steps
    wellFormed_start (numbered A)) (numberedFrom (A.length + B.length) C))
    (numberedFrom A.length B)) (numberedFrom (A.length + B.length + C.length) D)).model.wellNested
  rw [hone, hother]
  constructor
  · rw [← hfindings]
    rfl
  · rw [finish_model, ← hlayout, ← Emitter.rename_ofModel
      (Model.renames_rename (Renaming.inPlace_renumber _) _) hwell, rename_finish, finish_model]
    rfl

end

end Reading

/-! ## Sources -/

/-- The diagnostic at another line. -/
def Diagnostic.renumber (line : UInt32 → UInt32) (d : Diagnostic) : Diagnostic :=
  { d with line := d.line.map line }

/-- The same failure, at other lines. -/
structure Failure.Renumbers (line : UInt32 → UInt32) (f f' : Failure) : Prop where
  summary : f'.summary = f.summary
  diagnostics : f'.diagnostics = f.diagnostics.map (Diagnostic.renumber line)

/-- Failures from findings that are the same at other lines. -/
theorem Failure.renumbers_of_map_rename (file : String) (line : UInt32 → UInt32)
    (found : List Finding) :
    (Failure.ofLog (.ofFindings file found)).Renumbers line
      (.ofLog (.ofFindings file (found.map (·.rename (.renumber line))))) where
  summary := by simp only [ofLog, Log.size, Log.ofFindings, List.length_map]
  diagnostics := by
    have hfault (fault : Fault) : fault.rename (.renumber line) = fault :=
      Fault.rename_eq_self (fun _ => rfl) fault
    simp only [ofLog, Log.ofFindings, List.map_map, Function.comp_def, Finding.rename, hfault]
    rfl

/-- **Order.** In a source, the lines of a structure that is declared and the lines after it may
change places, if both are settled where they stand, outside of all groups, and declare no name
both. Either order is converted to the same output, or fails with the same diagnostics, at the
numbers that the lines then have. -/
theorem order_inert (o : Options) (file : String) {source source' : String}
    {A B C D : List Line} {ns : Namespaces} (hsource : Line.ofSource source = A ++ B ++ C ++ D)
    (hsource' : Line.ofSource source' = A ++ C ++ B ++ D)
    (hlength : (A ++ B ++ C ++ D).length < UInt32.size)
    (hscopes : (Reading.start.steps (Reading.numbered A)).scopes = [Model.document])
    (hnamespaces : (Reading.start.steps (Reading.numbered A)).namespaces = ns)
    (hdeclares : Declares B) (hB : Reading.Settled ns B) (hC : Reading.Settled ns C)
    (hapart : ∀ name ∈ Reading.declared ns B, name ∉ Reading.declared ns C) :
    Alike (fun c c' => c' = c)
      (Failure.Renumbers (exchanged A.length B.length C.length))
      (convert o file source) (convert o file source') := by
  obtain ⟨hread, hlaid⟩ :=
    Reading.ofLines_exchanged (D := D) hlength hscopes hnamespaces hdeclares hB hC hapart
  rw [← hsource, ← hsource'] at hread hlaid
  have hfound : foundIn source' = (foundIn source).map
      (·.rename (.renumber (exchanged A.length B.length C.length))) := by
    rw [foundIn, foundIn, layoutOf, hread, hlaid]
    simp [Emitter.rename, layoutOf]
  refine alike_convert o file ?nothing ?success ?failure
  case nothing => rw [hfound, List.map_eq_nil_iff]
  case success =>
    have hlines : (Line.ofSource source').length = (Line.ofSource source).length := by
      simp only [hsource, hsource', List.length_append]
      omega
    have houtput : (layoutOf source').output = (layoutOf source).output := by
      rw [layoutOf, hlaid, Emitter.output_rename fun _ => rfl, layoutOf]
    have hsymbols : (layoutOf source').symbols = (layoutOf source).symbols := by
      rw [layoutOf, hlaid, Emitter.symbols_rename, layoutOf]
    rw [hlines, houtput, hsymbols]
  case failure =>
    rw [hfound]
    exact Failure.renumbers_of_map_rename file _ _

/-- The kernel's events, which have times in them, then its times, and constants around the two. -/
def specimenEvents : Model :=
  ⟨#[⟨.struct, #[.text (some "; times of events"), .assignment "tick" (.number 16) none,
      .assignment "last" (.number 32) none]⟩,
    ⟨.struct, #[.member ⟨"type", none, some 1, none, 4⟩,
      .member ⟨"at", none, none, some "kernel_time_t", 5⟩]⟩,
    ⟨.struct, #[.member ⟨"hours", none, some 1, none, 8⟩,
      .member ⟨"seconds", none, some 2, none, 9⟩]⟩],
    [("kernel_time_t", 2), ("kernel_event_event_t", 1)]⟩

theorem ofModel_specimenEvents : ∃ lines, Emitter.ofModel specimenEvents = ⟨.root, lines, #[], 7⟩ := by
  let constants : List OutputLine := [.text (some "; times of events"),
    .symbol "tick" (.number 16) none, .symbol "last" (.number 32) none]
  let events : List OutputLine := [.symbol "kernel_event_type" (.number 0) none,
    .symbol "kernel_event_at_hours" (.number 1) none,
    .symbol "kernel_event_at_seconds" (.number 2) none]
  let times : List OutputLine := [.symbol "kernel_time_hours" (.number 0) none,
    .symbol "kernel_time_seconds" (.number 1) none]
  have hdocument : Emitter.new.document specimenEvents = (none, ⟨.root, ⟨constants⟩, #[], 2⟩) :=
    Walk.run_eq_of_reaches (.step (.step (.step (.step (.refl _)))))
  have hevents : Emitter.named specimenEvents ⟨.root, ⟨constants⟩, #[], 2⟩ "kernel_event"
      "kernel_event_event_t" 0 = (some 4, ⟨.root, ⟨constants ++ events⟩, #[], 5⟩) := by
    have hgroup : Emitter.group specimenEvents ⟨⟨["kernel_event"]⟩, ⟨constants⟩, #[], 2⟩ 1 (some 0) =
        (some 4, ⟨⟨["kernel_event"]⟩, ⟨constants ++ events⟩, #[], 5⟩) := by
      refine Walk.run_eq_of_reaches ?_
      iterate 6 apply Walk.Reaches.step
      exact .refl _
    exact congrArg (fun r : Cursor × Emitter => (r.1, r.2.clear)) hgroup
  have htimes : Emitter.named specimenEvents ⟨.root, ⟨constants ++ events⟩, #[], 5⟩ "kernel_time"
      "kernel_time_t" 0 = (some 3, ⟨.root, ⟨constants ++ events ++ times⟩, #[], 7⟩) := by
    have hgroup : Emitter.group specimenEvents ⟨⟨["kernel_time"]⟩, ⟨constants ++ events⟩, #[], 5⟩ 2
        (some 0) = (some 3, ⟨⟨["kernel_time"]⟩, ⟨constants ++ events ++ times⟩, #[], 7⟩) :=
      Walk.run_eq_of_reaches (.step (.step (.step (.refl _))))
    exact congrArg (fun r : Cursor × Emitter => (r.1, r.2.clear)) hgroup
  refine ⟨⟨constants ++ events ++ times⟩, ?_⟩
  simp only [Emitter.ofModel, Emitter.trailers, trailers, List.foldl_cons, List.foldl_nil,
    hdocument, hevents, htimes]

/-- A structure that refers to the one after it may as well stand behind it. -/
theorem order_inert_specimen :
    let before := "; times of events\ntick = 16\n"
    let event := "kernel_event_event_t .struct\ntype .byte ?\nat .dstruct kernel_time_t\n.ends\n"
    let time := "kernel_time_t .struct\nhours .byte ?\nseconds .word ?\n.ends\n"
    let after := "last = 32\n"
    Declares (Line.ofSource event) ∧ Reading.Settled .root (Line.ofSource event) ∧
      Reading.Settled .root (Line.ofSource time) ∧
      (∀ name ∈ Reading.declared .root (Line.ofSource event),
        name ∉ Reading.declared .root (Line.ofSource time)) ∧
      ∃ c, c.lines = 11 ∧ c.symbols = 7 ∧
        convert .standard "api.asm" (before ++ event ++ time ++ after) = .ok c ∧
        convert .standard "api.asm" (before ++ time ++ event ++ after) = .ok c := by
  intro before event time after
  let A : List Line := [⟨"; times of events", [], some "; times of events"⟩,
    ⟨"tick = 16", ["tick", "=", "16"], none⟩]
  let B : List Line := [⟨"kernel_event_event_t .struct", ["kernel_event_event_t", ".struct"], none⟩,
    ⟨"type .byte ?", ["type", ".byte", "?"], none⟩,
    ⟨"at .dstruct kernel_time_t", ["at", ".dstruct", "kernel_time_t"], none⟩,
    ⟨".ends", [".ends"], none⟩]
  let C : List Line := [⟨"kernel_time_t .struct", ["kernel_time_t", ".struct"], none⟩,
    ⟨"hours .byte ?", ["hours", ".byte", "?"], none⟩,
    ⟨"seconds .word ?", ["seconds", ".word", "?"], none⟩, ⟨".ends", [".ends"], none⟩]
  let D : List Line := [⟨"last = 32", ["last", "=", "32"], none⟩]
  have hA : Line.ofSource before = A := by decide +kernel
  have hB : Line.ofSource event = B := by decide +kernel
  have hC : Line.ofSource time = C := by decide +kernel
  have hD : Line.ofSource after = D := by decide +kernel
  have hlines {x y z : String} (hx : x.toList.getLast? = some '\n')
      (hy : y.toList.getLast? = some '\n') (hz : z.toList.getLast? = some '\n') (w : String) :
      Line.ofSource (x ++ y ++ z ++ w) =
        Line.ofSource x ++ Line.ofSource y ++ Line.ofSource z ++ Line.ofSource w := by
    simp only [String.append_assoc, List.append_assoc, Line.ofSource_append (.inr hx),
      Line.ofSource_append (.inr hy), Line.ofSource_append (.inr hz)]
  have hsource : Line.ofSource (before ++ event ++ time ++ after) = A ++ B ++ C ++ D := by
    rw [hlines (by decide) (by decide) (by decide), hA, hB, hC, hD]
  have hsource' : Line.ofSource (before ++ time ++ event ++ after) = A ++ C ++ B ++ D := by
    rw [hlines (by decide) (by decide) (by decide), hA, hB, hC, hD]
  have hdeclares : Declares B :=
    ⟨"kernel_event_event_t", [.field "type" 1, .instantiate "at" "kernel_time_t"], .close .struct,
      .member trivial (.member trivial .nil), ⟨_, rfl, Grammar.ends_iff.1 rfl⟩, rfl⟩
  have hevent : Reading.Settled .root B := ⟨by decide, by decide, by decide⟩
  have htime : Reading.Settled .root C := ⟨by decide, by decide, by decide⟩
  have hapart : ∀ name ∈ Reading.declared .root B, name ∉ Reading.declared .root C := by decide
  have halike := order_inert .standard "api.asm" hsource hsource' (by decide) (by decide) rfl
    hdeclares hevent htime hapart
  have hreading : Reading.ofLines (A ++ B ++ C ++ D) = ⟨specimenEvents, .root, [0], #[]⟩ := by decide
  obtain ⟨lines, hlaid⟩ := ofModel_specimenEvents
  obtain ⟨c, hc, hclines, hcsymbols⟩ :
      ∃ c, convert .standard "api.asm" (before ++ event ++ time ++ after) = .ok c ∧ c.lines = 11 ∧
        c.symbols = 7 := by
    simp only [convert, hsource, hreading, hlaid]
    exact ⟨_, rfl, rfl, rfl⟩
  rw [hB, hC]
  refine ⟨hdeclares, hevent, htime, hapart, c, hclines, hcsymbols, hc, ?_⟩
  rw [hc] at halike
  generalize convert .standard "api.asm" (before ++ time ++ event ++ after) = outcome at halike ⊢
  cases halike with
  | ok h => rw [h]

end HeaderSymbols
