import HeaderSymbols.Source.Reading
import Mathlib.Tactic.SplitIfs

/-!
# Directives

A line asks for one thing, and its words alone tell for what: that is its directive, if it has one.
A directive is obeyed by a reading, or there is a fault for which it cannot be.

A step does not first look for a fault and then begin. It goes on from part to part, with whatever
the reading is by then, and leaves a namespace before it is known whether there was one. Yet what it
comes to is this: a directive obeyed, or one finding and the reading as it was.

* `ofLine_of_long`: a line of more than three words asks for nothing.
* `step_eq`: a step obeys the directive of its line, or records the fault.
* `obey_findings`, `step_eq_record_or_findings_eq`: what is obeyed finds nothing.
-/
namespace HeaderSymbols

/-- The right-hand side of an assignment as written. -/
inductive Operand where
  | number (n : UInt64)
  | reference (text : String)
  deriving DecidableEq, Repr

/-- A reference in an assignment always counts from the open namespaces. -/
def Namespaces.value (ns : Namespaces) : Operand → Value
  | .number n => .number n
  | .reference text => .symbol (ns.qualify (undot text))

inductive Directive where
  /-- A line without words. -/
  | blank
  | enter (name : String)
  | leave
  | region (address : UInt64)
  | endRegion
  | skip (amount : UInt64)
  /-- A structure or union inside the group that is open. -/
  | openGroup (kind : GroupKind)
  /-- A structure to be registered. -/
  | openNamed (name : String)
  /-- The end of a group of this kind. -/
  | close (kind : GroupKind)
  /-- The end of a group of either kind, with a word before it. -/
  | closeNamed
  | assign (name : String) (value : Operand)
  | field (name : String) (size : UInt64)
  | instantiate (name : String) (reference : String)
  deriving DecidableEq, Repr

namespace Directive

def number (text : String) : Except Fault UInt64 :=
  match Number.parse? text with
  | some n => .ok n
  | none => .error (.invalidNumber text)

def operand (text : String) : Except Fault Operand :=
  if Number.isLiteral text then (number text).map .number else .ok (.reference text)

/-- The words that are a directive by themselves. -/
def alone : List (String × Directive) :=
  [(".endn", .leave), (".endv", .endRegion), (".ends", .close .struct), (".endu", .close .union),
   (".struct", .openGroup .struct), (".union", .openGroup .union)]

/-- The directive of two words, by the first form that fits them. -/
def ofPair (first second : String) : Option (Except Fault Directive) :=
  if second = ".namespace" then some (.ok (.enter first))
  else if first = ".virtual" then some ((number second).map .region)
  else if second = ".struct" then some (.ok (.openNamed first))
  else if first = ".word" then some (.ok (.skip 2))
  else if first = ".fill" then some ((number second).map .skip)
  else if second = ".ends" then some (.ok .closeNamed)
  else none

/-- The directive of a name, the word that says what it is, and the word after that. -/
def ofTriple (name keyword argument : String) : Option (Except Fault Directive) :=
  if keyword = "=" then some ((operand argument).map (.assign name))
  else if keyword = ".byte" then some (.ok (.field name 1))
  else if keyword = ".word" then some (.ok (.field name 2))
  else if keyword = ".dword" then some (.ok (.field name 4))
  else if keyword = ".fill" then some ((number argument).map (.field name))
  else if keyword = ".dstruct" then some (.ok (.instantiate name argument))
  else none

def ofWords? : List String → Option (Except Fault Directive)
  | [] => some (.ok .blank)
  | [word] => (alone.lookup word).map .ok
  | [first, second] => ofPair first second
  | [name, keyword, argument] => ofTriple name keyword argument
  | _ => none

/-- A line whose words have no form of a directive is a fault that quotes the line. -/
def ofLine (line : Line) : Except Fault Directive :=
  (ofWords? line.words).getD (.error (.unrecognizedLine line.text))

theorem ofLine_of_long {line : Line} (h : 3 < line.words.length) :
    ofLine line = .error (.unrecognizedLine line.text) := by
  unfold ofLine ofWords?
  split <;> simp_all

end Directive

namespace Reading

/-- The reading after a directive, which stands at a line of this number with this comment. -/
def obey (r : Reading) (comment : Option String) (line : UInt32) : Directive → Except Fault Reading
  | .blank => .ok (r.note (.text comment))
  | .enter name => .ok { r.note (.enter name) with namespaces := r.namespaces.enter name }
  | .leave =>
    match r.namespaces.leave? with
    | none => .error .endnOutsideNamespace
    | some outer => .ok { r.note .leave with namespaces := outer }
  | .region address => .ok (r.note (.region (some address)))
  | .endRegion => .ok (r.note (.region none))
  | .skip amount => .ok (r.note (.skip amount line))
  | .openGroup kind => .ok (r.openGroup kind)
  | .openNamed name => .ok (r.openNamed name)
  | .close kind =>
    if r.scopes.length = 1 ∨ r.model.kind? r.scope ≠ some kind then .error (closeFault kind)
    else .ok { r with scopes := r.scopes.tail }
  | .closeNamed =>
    if r.scopes.length = 1 then .error .endsOutsideStructure
    else .ok { r with scopes := r.scopes.tail }
  | .assign name operand =>
    .ok (r.place (.assignment name (r.namespaces.value operand) comment))
  | .field name size => .ok (r.place (.member ⟨name, comment, some size, none, line⟩))
  | .instantiate name reference =>
    .ok (r.place
      (.member ⟨name, comment, none, some (r.namespaces.structureName reference), line⟩))

/-- The reading after what came of a line: what was obeyed, or a finding. -/
def settle (r : Reading) (number : UInt32) : Except Fault Reading → Reading
  | .ok after => after
  | .error fault => r.record (some number) fault

variable {r after : Reading} {comment : Option String} {line : UInt32}

/-! ## Steps -/

/-- A number that a word spells is what the directive is made of; else the word is at fault. -/
theorem number_eq_settle {next : UInt64 → Reading → Reading} {directive : UInt64 → Directive}
    (h : ∀ n, r.obey comment line (directive n) = .ok (next n r)) (text : String) :
    (match r.number text line with
      | (some n, r) => next n r
      | (none, r) => r) =
      r.settle line ((Directive.number text).map directive >>= r.obey comment line) := by
  unfold number Directive.number
  cases Number.parse? text with
  | none => rfl
  | some n => exact (congrArg (r.settle line) (h n)).symm

/-- A namespace is left before it is known whether one was open. If none was, nothing was left. -/
theorem leave_eq_settle (r : Reading) (comment : Option String) (line : UInt32) :
    (let (left, r) := r.leave
      if left then r.note .leave else r.record (some line) .endnOutsideNamespace) =
      r.settle line (r.obey comment line .leave) := by
  obtain ⟨m, ⟨_ | ⟨name, outer⟩⟩, scopes, findings⟩ := r <;> rfl

theorem close_eq_settle (r : Reading) (comment : Option String) (line : UInt32)
    (kind : GroupKind) : r.close kind line = r.settle line (r.obey comment line (.close kind)) := by
  simp only [close, obey]
  split <;> rfl

theorem closeNamed_eq_settle (r : Reading) (comment : Option String) (line : UInt32) :
    r.closeNamed line = r.settle line (r.obey comment line .closeNamed) := by
  simp only [closeNamed, obey]
  split <;> rfl

/-- What comes of a line whose words have this form, or none. -/
def outcome (r : Reading) (line : Line) (number : UInt32) (form : Option (Except Fault Directive)) :
    Reading :=
  r.settle number
    (form.getD (.error (.unrecognizedLine line.text)) >>= r.obey line.comment number)

theorem oneWord_eq (r : Reading) (word : String) (line : Line) (number : UInt32) :
    r.oneWord word line number = r.outcome line number ((Directive.alone.lookup word).map .ok) := by
  unfold oneWord
  split_ifs with hendn hendv hends hendu hstruct hunion
  · subst hendn
    exact leave_eq_settle r line.comment number
  · subst hendv
    rfl
  · subst hends
    exact close_eq_settle r line.comment number .struct
  · subst hendu
    exact close_eq_settle r line.comment number .union
  · subst hstruct
    rfl
  · subst hunion
    rfl
  · have hnone : Directive.alone.lookup word = none := by
      simp [Directive.alone, List.lookup_eq_none_iff, *]
    rw [hnone]
    rfl

theorem twoWords_eq (r : Reading) (first second : String) (line : Line) (number : UInt32) :
    r.twoWords first second line number =
      r.outcome line number (Directive.ofPair first second) := by
  unfold twoWords Directive.ofPair
  split_ifs
  · rfl
  · exact number_eq_settle (fun _ => rfl) second
  · rfl
  · rfl
  · exact number_eq_settle (fun _ => rfl) second
  · exact closeNamed_eq_settle r line.comment number
  · rfl

theorem threeWords_eq (r : Reading) (name keyword argument : String) (line : Line)
    (number : UInt32) :
    r.threeWords name keyword argument line number =
      r.outcome line number (Directive.ofTriple name keyword argument) := by
  unfold threeWords Directive.ofTriple Directive.operand
  split_ifs
  · have hliteral :
        ((Directive.number argument).map Operand.number).map (Directive.assign name) =
          (Directive.number argument).map fun n => Directive.assign name (.number n) := by
      cases Directive.number argument <;> rfl
    rw [hliteral]
    exact number_eq_settle (fun _ => rfl) argument
  · rfl
  · rfl
  · rfl
  · rfl
  · exact number_eq_settle (fun _ => rfl) argument
  · rfl
  · rfl

/-- **Steps.** A step obeys the directive of its line, or records the fault for which it has none or
cannot obey it, and does nothing else then. -/
theorem step_eq (r : Reading) (line : Line) (number : UInt32) :
    r.step line number =
      r.settle number (Directive.ofLine line >>= r.obey line.comment number) := by
  show r.step line number = r.outcome line number (Directive.ofWords? line.words)
  unfold step
  match line.words with
  | [] => rfl
  | [word] => exact oneWord_eq ..
  | [first, second] => exact twoWords_eq ..
  | [first, second, third] => exact threeWords_eq ..
  | _ :: _ :: _ :: _ :: _ => rfl

theorem step_of_error {line : Line} {fault : Fault} (h : Directive.ofLine line = .error fault)
    (r : Reading) (number : UInt32) : r.step line number = r.record (some number) fault := by
  rw [step_eq, h]
  rfl

theorem step_of_ok {line : Line} {d : Directive} (h : Directive.ofLine line = .ok d) (r : Reading)
    (number : UInt32) :
    r.step line number =
      match r.obey line.comment number d with
      | .ok after => after
      | .error fault => r.record (some number) fault := by
  rw [step_eq, h]
  rfl

/-! ## Findings -/

theorem obey_findings {d : Directive} (h : r.obey comment line d = .ok after) :
    after.findings = r.findings := by
  cases d with
  | leave =>
    simp only [obey] at h
    split at h
    · cases h
    · cases h
      rfl
  | close | closeNamed =>
    simp only [obey] at h
    split at h
    · cases h
    · cases h
      rfl
  | _ =>
    cases h
    rfl

theorem step_eq_record_or_findings_eq (r : Reading) (line : Line) (number : UInt32) :
    (∃ fault, r.step line number = r.record (some number) fault) ∨
      (r.step line number).findings = r.findings := by
  cases hd : Directive.ofLine line with
  | error fault => exact .inl ⟨fault, step_of_error hd r number⟩
  | ok d =>
    rw [step_of_ok hd]
    cases ho : r.obey line.comment number d with
    | ok after => exact .inr (obey_findings ho)
    | error fault => exact .inl ⟨fault, rfl⟩

end Reading
end HeaderSymbols
