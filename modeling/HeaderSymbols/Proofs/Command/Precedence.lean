import HeaderSymbols.Command.Settings

/-!
# The command line goes before the environment

Settings are put together from the words of a command line and from the variables of an environment,
and are judged only then. Each variable stands for something that the command line may decide as
well, and where it does, what the variable is set to does not count: neither for the settings nor for
what is wrong with them.

* `Arguments.Decides`: the variables that a command line decides.
* `Settings.resolve_eq_judge`: settings are asked for, and then judged.
* `Settings.asked_congr`: what is asked for depends on the variables that are left open.
* `Settings.sound_of_resolve`: what is known of settings that were accepted.
* `resolve_prefers_arguments`: so the command line goes before the environment.
-/
namespace HeaderSymbols

/-- The variables that a command line decides. Where it wants no diagnostics it decides all that is
about them; where it names a file for them it decides that they are wanted, and where they go. -/
def Arguments.Decides (a : Arguments) : Variable → Prop
  | .output => a.outfile.isSome = true
  | .target => a.target.isSome = true
  | .visibility => a.visibility.isSome = true
  | .quiet => a.quiet = true
  | .errorFile => a.error.isSome = true ∨ a.noError = true
  | .errorAppend => a.errorAppend = true ∨ a.noError = true
  | .noError => a.error.isSome = true ∨ a.noError = true

/-- The variables that are switches. -/
def Variable.switches : List Variable := [quiet, errorAppend, noError]

/-- No switch is set to a word that is neither on nor off. -/
def Environment.Valid (env : Environment) : Prop :=
  ∀ v ∈ Variable.switches, ∃ setting, env.switch? v = .ok setting

namespace Settings

variable {a : Arguments} {env other : Environment} {s : Settings}
  {quiet append noError quiet' append' noError' : Option Bool}

/-! ## Asked for and judged -/

/-- What is asked for, where the switches of the environment are set like this. -/
def asked (a : Arguments) (env : Environment) (quiet append noError : Option Bool) : Settings where
  input := a.input.getD standardInput
  output := (a.outfile.or ((env.text? .output).map Path.ofString)).getD standardOutput
  options := {
    tool := Options.standard.tool
    target := (a.target.or (env.text? .target)).getD Options.standard.target
    visibility := (a.visibility.or (env.text? .visibility)).getD Options.standard.visibility }
  check := a.check
  quiet := a.quiet || quiet.getD false
  format := a.format.getD .text
  sink := sinkOf a env append noError

/-- Settings are refused for the first thing that is wrong with them. -/
def judge (s : Settings) : Except SettingsError Settings :=
  if s.input.alike s.output then .error .outputIsInput
  else if ¬ isWord s.options.target then .error (.invalidTarget s.options.target)
  else if ¬ isWord s.options.visibility then .error (.invalidVisibility s.options.visibility)
  else .ok s

theorem switch_eq_ok {v : Variable} {setting : Option Bool} (h : env.switch? v = .ok setting) :
    switch env v = .ok setting := by rw [switch, h]; rfl

/-- Settings are put together from a command line and an environment, and then judged. -/
theorem resolve_eq_judge (hquiet : env.switch? .quiet = .ok quiet)
    (happend : env.switch? .errorAppend = .ok append)
    (hnoError : env.switch? .noError = .ok noError) :
    resolve a env = judge (asked a env quiet append noError) := by
  simp only [resolve, switch_eq_ok hquiet, switch_eq_ok happend, switch_eq_ok hnoError, bind,
    Except.bind, judge, word, asked]
  refine ite_congr rfl (fun _ => rfl) fun _ => ?_
  by_cases ht : isWord ((a.target.or (env.text? .target)).getD Options.standard.target) = true
  · by_cases hv : isWord ((a.visibility.or (env.text? .visibility)).getD
        Options.standard.visibility) = true
    · simp only [ht, hv, if_true, not_true_eq_false, if_false]
      rfl
    · simp only [ht, hv, if_true, not_true_eq_false, if_false, not_false_eq_true, Bool.false_eq_true]
  · simp only [ht, not_false_eq_true, if_true, if_false, Bool.false_eq_true]

/-! ## Accepted -/

theorem isWord_iff {w : String} : isWord w = true ↔
    w ≠ "" ∧ ∀ c ∈ w.toList, Text.isBlank c = false ∧ c ≠ '"' := by
  simp [isWord]

/-- What is known of settings that were accepted: the output is not the input, component by
component, and what is put into the prologue are words. -/
structure Sound (s : Settings) : Prop where
  apart : s.input.shape ≠ s.output.shape
  tool : s.options.tool = Options.standard.tool
  target : isWord s.options.target = true
  visibility : isWord s.options.visibility = true

theorem valid_of_resolve (h : resolve a env = .ok s) : env.Valid := by
  have hswitch {v : Variable} {word : String} (hv : env.switch? v = .error word) :
      switch env v = .error (.invalidSwitch v word) := by rw [switch, hv]; rfl
  cases hquiet : env.switch? .quiet with
  | error word => rw [resolve, hswitch hquiet] at h; cases h
  | ok quiet =>
    cases happend : env.switch? .errorAppend with
    | error word => rw [resolve, switch_eq_ok hquiet, hswitch happend] at h; cases h
    | ok append =>
      cases hnoError : env.switch? .noError with
      | error word =>
        rw [resolve, switch_eq_ok hquiet, switch_eq_ok happend, hswitch hnoError] at h
        cases h
      | ok noError =>
        intro v hv
        simp only [Variable.switches, List.mem_cons, List.not_mem_nil, or_false] at hv
        obtain rfl | rfl | rfl := hv
        · exact ⟨quiet, hquiet⟩
        · exact ⟨append, happend⟩
        · exact ⟨noError, hnoError⟩

/-- What is accepted was asked for, and is sound. -/
theorem sound_of_resolve (h : resolve a env = .ok s) : s.Sound := by
  have hvalid := valid_of_resolve h
  obtain ⟨quiet, hquiet⟩ := hvalid .quiet (by decide)
  obtain ⟨append, happend⟩ := hvalid .errorAppend (by decide)
  obtain ⟨noError, hnoError⟩ := hvalid .noError (by decide)
  rw [resolve_eq_judge hquiet happend hnoError, judge] at h
  split at h
  · cases h
  split at h
  · cases h
  split at h
  · cases h
  rename_i halike htarget hvisibility
  cases h
  exact ⟨by simpa [Path.alike] using halike, rfl, by simpa using htarget,
    by simpa using hvisibility⟩

/-! ## Left open -/

/-- The second of two choices counts only where the first is none. -/
theorem or_congr_right {α : Type} {first second second' : Option α}
    (h : ¬ first.isSome = true → second = second') : first.or second = first.or second' := by
  cases first with
  | none => exact h (by simp)
  | some => rfl

/-- Where diagnostics go is told by the variables that are left open. -/
theorem sinkOf_congr (henv : ∀ v, ¬ a.Decides v → env v = other v)
    (happend : ¬ a.Decides .errorAppend → append = append')
    (hnoError : ¬ a.Decides .noError → noError = noError') :
    sinkOf a env append noError = sinkOf a other append' noError' := by
  unfold sinkOf
  cases hn : a.noError with
  | true => rfl
  | false =>
    have hfile : a.error.or ((env.text? .errorFile).map Path.ofString) =
        a.error.or ((other.text? .errorFile).map Path.ofString) := or_congr_right fun he => by
      rw [Environment.text?_congr (henv .errorFile (by simp [Arguments.Decides, he, hn]))]
    have hnone : (a.error.isNone && noError.getD false) = (a.error.isNone && noError'.getD false) := by
      cases he : a.error with
      | some => rfl
      | none => rw [hnoError (by simp [Arguments.Decides, he, hn])]
    have happends : (a.errorAppend || append.getD false) = (a.errorAppend || append'.getD false) := by
      cases ha : a.errorAppend with
      | true => rfl
      | false => rw [happend (by simp [Arguments.Decides, ha, hn])]
    rw [hfile, hnone, happends]

/-- What is asked for is told by the variables that are left open. -/
theorem asked_congr (henv : ∀ v, ¬ a.Decides v → env v = other v)
    (hquiet : ¬ a.Decides .quiet → quiet = quiet')
    (happend : ¬ a.Decides .errorAppend → append = append')
    (hnoError : ¬ a.Decides .noError → noError = noError') :
    asked a env quiet append noError = asked a other quiet' append' noError' := by
  have houtput : a.outfile.or ((env.text? .output).map Path.ofString) =
      a.outfile.or ((other.text? .output).map Path.ofString) :=
    or_congr_right fun ho => by rw [Environment.text?_congr (henv .output ho)]
  have htarget : a.target.or (env.text? .target) = a.target.or (other.text? .target) :=
    or_congr_right fun ht => Environment.text?_congr (henv .target ht)
  have hvisibility : a.visibility.or (env.text? .visibility) =
      a.visibility.or (other.text? .visibility) :=
    or_congr_right fun hv => Environment.text?_congr (henv .visibility hv)
  have hquiets : (a.quiet || quiet.getD false) = (a.quiet || quiet'.getD false) := by
    cases hq : a.quiet with
    | true => rfl
    | false => rw [hquiet (by simp [Arguments.Decides, hq])]
  rw [asked, asked, houtput, htarget, hvisibility, hquiets, sinkOf_congr henv happend hnoError]

end Settings

/-- **Precedence.** In two environments with valid switches that agree on each variable that the
command line does not decide, the same settings are accepted, or refused for the same reason,
whatever the variables are set to that it decides. Settings that are accepted have an output that is
not the input, component by component, and a target and a visibility without blanks and quotes. -/
theorem resolve_prefers_arguments (a : Arguments) :
    (∀ env other : Environment, env.Valid → other.Valid →
      (∀ v, ¬ a.Decides v → env v = other v) →
        Settings.resolve a env = Settings.resolve a other) ∧
    ∀ (env : Environment) (s : Settings), Settings.resolve a env = .ok s →
      s.input.shape ≠ s.output.shape ∧
      ∀ w ∈ [s.options.target, s.options.visibility],
        w ≠ "" ∧ ∀ c ∈ w.toList, Text.isBlank c = false ∧ c ≠ '"' := by
  constructor
  · intro env other henv hother hagree
    obtain ⟨quiet, hquiet⟩ := henv .quiet (by decide)
    obtain ⟨append, happend⟩ := henv .errorAppend (by decide)
    obtain ⟨noError, hnoError⟩ := henv .noError (by decide)
    obtain ⟨quiet', hquiet'⟩ := hother .quiet (by decide)
    obtain ⟨append', happend'⟩ := hother .errorAppend (by decide)
    obtain ⟨noError', hnoError'⟩ := hother .noError (by decide)
    -- a switch that is left open is set alike in both
    have hsame {v : Variable} {setting setting' : Option Bool} (h : env.switch? v = .ok setting)
        (h' : other.switch? v = .ok setting') (hopen : ¬ a.Decides v) : setting = setting' := by
      rw [Environment.switch?_congr (hagree v hopen), h'] at h
      exact (Except.ok.inj h).symm
    rw [Settings.resolve_eq_judge hquiet happend hnoError,
      Settings.resolve_eq_judge hquiet' happend' hnoError',
      Settings.asked_congr hagree (hsame hquiet hquiet') (hsame happend happend')
        (hsame hnoError hnoError')]
  · intro env s h
    have hsound := Settings.sound_of_resolve h
    exact ⟨hsound.apart, List.forall_mem_cons.2 ⟨Settings.isWord_iff.1 hsound.target,
      List.forall_mem_singleton.2 (Settings.isWord_iff.1 hsound.visibility)⟩⟩

/-- A command line that decides everything is not disturbed by what it would not accept. -/
theorem resolve_prefers_arguments_specimen :
    let a : Arguments :=
      { Arguments.none with
        outfile := some (.ofString "out.s")
        target := some "f256k"
        visibility := some "private"
        quiet := true
        noError := true }
    let env : Environment := fun v => ([
      (.output, "f256-microkernel-api.asm"), (.target, "two words"), (.visibility, "\""),
      (.quiet, "off"), (.errorFile, "log.txt"), (.errorAppend, "on"), (.noError, "no")].lookup v).map
        Text.Utf8.encode
    let s : Settings := ⟨Settings.standardInput, .ofString "out.s", ⟨"f256conv", "f256k", "private"⟩,
      false, true, .text, .disabled⟩
    env.Valid ∧ (∀ v, a.Decides v) ∧ Settings.resolve a (fun _ => none) = .ok s ∧
      Settings.resolve a env = .ok s ∧ s.input.shape ≠ s.output.shape := by
  intro a env s
  have hunset : Environment.Valid fun _ => none := fun _ _ => ⟨none, rfl⟩
  have hvalid : env.Valid := by
    intro v hv
    simp only [Variable.switches, List.mem_cons, List.not_mem_nil, or_false] at hv
    obtain rfl | rfl | rfl := hv
    · exact ⟨some false, eq_ok_of_toOption (by decide +kernel)⟩
    · exact ⟨some true, eq_ok_of_toOption (by decide +kernel)⟩
    · exact ⟨some false, eq_ok_of_toOption (by decide +kernel)⟩
  have hdecides : ∀ v, a.Decides v := by
    intro v
    cases v <;> simp [Arguments.Decides, a]
  have hresolve : Settings.resolve a (fun _ => none) = .ok s := eq_ok_of_toOption (by decide +kernel)
  have hsame := (resolve_prefers_arguments a).1 (fun _ => none) env hunset hvalid
    fun v hopen => absurd (hdecides v) hopen
  have hresolves := hsame.symm.trans hresolve
  exact ⟨hvalid, hdecides, hresolve, hresolves, ((resolve_prefers_arguments a).2 env s hresolves).1⟩

end HeaderSymbols
