import Mathlib.Data.List.Induction
import Lineage.Proofs.Workspace.Actions
import Lineage.Workspace.Adjustment

/-!
# Settings along a run

Along a run of steps the settings in force are those that were made last since
settings were last reset, whatever has become of the surroundings they were made
from and whatever has failed since (`InForce`).  What a step makes is told by its
stamp, which no settings made before it have.

Explicit values have settings made anew, from these values and the surroundings
alone: what was asked for before has no part in them (`settings_after`).
-/

namespace Lineage.Workspace

/-! ## Asking once -/

/-- What cannot be had leaves the workspace as it was. -/
theorem run_getSettings_of_error {explicit : List (Key × Value)} {workspace : Workspace}
    {failure : Failure} (h : ((getSettings explicit).run.run workspace).1 = .error failure) :
    ((getSettings explicit).run.run workspace).2 = workspace := by
  rcases run_getSettings_cases explicit workspace with
    ⟨kept, -, -, hrun⟩ | ⟨-, ⟨settings, -, hrun⟩ | ⟨found, -, hrun⟩⟩
  · rw [hrun]
  · rw [hrun] at h
    cases h
  · rw [hrun]

/-- If settings have to be made, what is given is what the workspace gives. -/
theorem value_getSettings {explicit : List (Key × Value)} {workspace : Workspace}
    (h : explicit = [] → workspace.settings = none) :
    ((getSettings explicit).run.run workspace).1.map (·.value) =
      (workspace.makeSettings explicit).mapError (.issues .tree) := by
  rcases run_getSettings_cases explicit workspace with
    ⟨kept, hexplicit, hkept, -⟩ | ⟨-, ⟨settings, hmade, hrun⟩ | ⟨found, hmade, hrun⟩⟩
  · rw [h hexplicit] at hkept
    cases hkept
  · rw [hrun, hmade]
    rfl
  · rw [hrun, hmade]
    rfl

/-! ## Surroundings -/

/-- What settings are made from. -/
def surroundings (workspace : Workspace) : Variables × Path × Files :=
  (workspace.environment, workspace.directory, workspace.files)

/-- In equal surroundings the same settings are made. -/
theorem makeSettings_congr {a b : Workspace} (h : a.surroundings = b.surroundings)
    (explicit : List (Key × Value)) : a.makeSettings explicit = b.makeSettings explicit := by
  simp only [surroundings, Prod.mk.injEq] at h
  obtain ⟨henvironment, hdirectory, hfiles⟩ := h
  simp only [makeSettings, settingsFile, henvironment, hdirectory, hfiles]

variable {step : Adjustment}

theorem surroundings_getSettings (explicit : List (Key × Value)) (workspace : Workspace) :
    ((getSettings explicit).run.run workspace).2.surroundings = workspace.surroundings := by
  rcases run_getSettings_cases explicit workspace with
    ⟨kept, -, -, hrun⟩ | ⟨-, ⟨settings, -, hrun⟩ | ⟨found, -, hrun⟩⟩
  · rw [hrun]
  · rw [hrun]
    rfl
  · rw [hrun]

/-- A step that asks for settings changes what asking for them changes, but for the journal. -/
theorem run_of_asked {explicit : List (Key × Value)} (h : step.asked? = some explicit)
    (workspace : Workspace) : ∃ journal,
    step.run workspace = { ((getSettings explicit).run.run workspace).2 with journal } := by
  cases step with
  | ask other =>
      obtain rfl : other = explicit := Option.some.inj h
      exact ⟨_, rfl⟩
  | event name attributes =>
      obtain rfl : [] = explicit := Option.some.inj h
      show ∃ journal, ((getSettings [] >>= _).run.run workspace).2 = _
      rw [run_bind]
      cases ((getSettings []).run.run workspace).1 with
      | error failure => exact ⟨_, rfl⟩
      | ok settings =>
          simp only [run_get_bind]
          split
          · exact ⟨_, rfl⟩
          · exact ⟨_, rfl⟩
  | setVariable | unsetVariable | writeFile | deleteFile | reset => cases h

/-- A step about the surroundings changes these at most, by what they are alone. -/
theorem run_of_surroundings (h : step.ofSurroundings = true) :
    ∃ (inEnvironment : Variables → Variables) (inFiles : Path → Files → Files),
      ∀ workspace, step.run workspace = { workspace with
        environment := inEnvironment workspace.environment
        files := inFiles workspace.directory workspace.files } := by
  cases step with
  | setVariable name value =>
      obtain ⟨change, hrun⟩ := run_setVariable name value
      exact ⟨change, fun _ => id, hrun⟩
  | unsetVariable name => exact ⟨fun known => known.unset name, fun _ => id, fun _ => rfl⟩
  | writeFile path text =>
      obtain ⟨change, hrun⟩ := run_writeFile path text
      exact ⟨id, change, hrun⟩
  | deleteFile path => exact ⟨id, fun directory known => known.delete directory path, fun _ => rfl⟩
  | ask | event | reset => cases h

/-- No other step changes them. -/
theorem surroundings_run_of_not (h : step.ofSurroundings = false) (workspace : Workspace) :
    (step.run workspace).surroundings = workspace.surroundings := by
  cases hasked : step.asked? with
  | some explicit =>
      obtain ⟨journal, hrun⟩ := run_of_asked hasked workspace
      rw [hrun]
      exact surroundings_getSettings explicit workspace
  | none =>
      cases step with
      | reset => rfl
      | ask | event => cases hasked
      | setVariable | unsetVariable | writeFile | deleteFile => cases h

/-! ## Runs of steps -/

section

variable {start : Workspace} {steps earlier : List Adjustment} {explicit : List (Key × Value)}
  {made : Stamped Settings}

theorem adjusted_concat : start.adjusted (steps ++ [step]) = step.run (start.adjusted steps) := by
  simp [adjusted]

/-- In what surroundings a run ends depends only on the steps about them. -/
theorem surroundings_adjusted (start : Workspace) (steps : List Adjustment) :
    (start.adjusted steps).surroundings =
      (start.adjusted (steps.filter Adjustment.ofSurroundings)).surroundings := by
  induction steps using List.reverseRecOn with
  | nil => rfl
  | append_singleton steps step ih =>
      rw [adjusted_concat, List.filter_append]
      cases hstep : step.ofSurroundings with
      | true =>
          obtain ⟨inEnvironment, inFiles, hrun⟩ := run_of_surroundings hstep
          simp only [surroundings, Prod.mk.injEq] at ih
          obtain ⟨henvironment, hdirectory, hfiles⟩ := ih
          simp only [List.filter_cons, hstep, if_true, List.filter_nil, adjusted_concat, hrun,
            surroundings, henvironment, hdirectory, hfiles]
      | false =>
          simp only [List.filter_cons, hstep, Bool.false_eq_true, if_false, List.filter_nil,
            List.append_nil]
          exact (surroundings_run_of_not hstep _).trans ih

/-- After some of the steps settings were asked for with these explicit values and made on this
occasion, and settings have not been reset since. -/
structure Makes (start : Workspace) (steps earlier : List Adjustment)
    (explicit : List (Key × Value)) (made : Stamped Settings) : Prop where
  asked : ∃ step later, steps = earlier ++ step :: later ∧ step.asked? = some explicit ∧
    Adjustment.reset ∉ later
  gives : ((getSettings explicit).run.run (start.adjusted earlier)).1 = .ok made
  new : made.stamp = (start.adjusted earlier).made

/-- The last time that they were. -/
structure LastMakes (start : Workspace) (steps earlier : List Adjustment)
    (explicit : List (Key × Value)) (made : Stamped Settings) : Prop extends
    Makes start steps earlier explicit made where
  last : ∀ other explicit made, Makes start steps other explicit made →
    other.length ≤ earlier.length

/-- One more step either comes after the making or is the one that makes. -/
theorem makes_concat_iff : Makes start (steps ++ [step]) earlier explicit made ↔
    step ≠ .reset ∧ Makes start steps earlier explicit made ∨
    earlier = steps ∧ step.asked? = some explicit ∧
      ((getSettings explicit).run.run (start.adjusted steps)).1 = .ok made ∧
      made.stamp = (start.adjusted steps).made := by
  constructor
  · rintro ⟨hasked, hgives, hnew⟩
    rcases exists_split_concat_iff.1 hasked with ⟨hreset, hbefore⟩ | ⟨rfl, hnow⟩
    · exact .inl ⟨hreset, hbefore, hgives, hnew⟩
    · exact .inr ⟨rfl, hnow, hgives, hnew⟩
  · rintro (⟨hreset, hasked, hgives, hnew⟩ | ⟨rfl, hasked, hgives, hnew⟩)
    · exact ⟨exists_split_concat_iff.2 (.inl ⟨hreset, hasked⟩), hgives, hnew⟩
    · exact ⟨exists_split_concat_iff.2 (.inr ⟨rfl, hasked⟩), hgives, hnew⟩

theorem Makes.length_lt (h : Makes start steps earlier explicit made) :
    earlier.length < steps.length := by
  obtain ⟨step, later, rfl, -⟩ := h.asked
  simp

theorem LastMakes.unique {other : List Adjustment} {otherExplicit : List (Key × Value)}
    {otherMade : Stamped Settings} (h : LastMakes start steps earlier explicit made)
    (hother : LastMakes start steps other otherExplicit otherMade) : made = otherMade := by
  obtain ⟨step, later, hsteps, hasked, -⟩ := h.asked
  obtain ⟨otherStep, otherLater, hotherSteps, hotherAsked, -⟩ := hother.asked
  have hlength : earlier.length = other.length :=
    Nat.le_antisymm (hother.last _ _ _ h.toMakes) (h.last _ _ _ hother.toMakes)
  obtain ⟨rfl, hrest⟩ := List.append_inj (hsteps.symm.trans hotherSteps) hlength
  obtain ⟨rfl, -⟩ := List.cons.inj hrest
  obtain rfl := Option.some.inj (hasked.symm.trans hotherAsked)
  exact Except.ok.inj (h.gives.symm.trans hother.gives)

/-- A last making stays the last if another step follows that makes and resets nothing. -/
theorem LastMakes.concat (h : LastMakes start steps earlier explicit made) (hreset : step ≠ .reset)
    (hnot : ∀ explicit made, step.asked? = some explicit →
      ((getSettings explicit).run.run (start.adjusted steps)).1 = .ok made →
        made.stamp ≠ (start.adjusted steps).made) :
    LastMakes start (steps ++ [step]) earlier explicit made where
  toMakes := makes_concat_iff.2 (.inl ⟨hreset, h.toMakes⟩)
  last other otherExplicit otherMade hother := by
    rcases makes_concat_iff.1 hother with ⟨-, hbefore⟩ | ⟨-, hasked, hgives, hnew⟩
    · exact h.last other otherExplicit otherMade hbefore
    · exact absurd hnew (hnot otherExplicit otherMade hasked hgives)

/-- A step that makes settings is the last one that does. -/
theorem lastMakes_concat (hasked : step.asked? = some explicit)
    (hgives : ((getSettings explicit).run.run (start.adjusted steps)).1 = .ok made)
    (hnew : made.stamp = (start.adjusted steps).made) :
    LastMakes start (steps ++ [step]) steps explicit made where
  toMakes := makes_concat_iff.2 (.inr ⟨rfl, hasked, hgives, hnew⟩)
  last other _ _ hother := by
    have hlength := hother.length_lt
    rw [List.length_append, List.length_singleton] at hlength
    omega

/-! ## What is in force along a run -/

/-- The settings in force after some steps are those that were made last, and none are if none were
made; and settings in force have an earlier stamp than the next ones to be made. -/
structure InForce (start : Workspace) (steps : List Adjustment) : Prop where
  older : ∀ kept, (start.adjusted steps).settings = some kept →
    kept.stamp < (start.adjusted steps).made
  last : ∀ kept, (start.adjusted steps).settings = some kept → ∃ earlier explicit,
    LastMakes start steps earlier explicit kept
  not_makes : (start.adjusted steps).settings = none → ∀ earlier explicit made,
    ¬ Makes start steps earlier explicit made

theorem inForce_reset : InForce start (steps ++ [.reset]) where
  older kept hkept := by
    rw [adjusted_concat] at hkept
    cases hkept
  last kept hkept := by
    rw [adjusted_concat] at hkept
    cases hkept
  not_makes _ earlier explicit made h := by
    simp [makes_concat_iff, Adjustment.asked?] at h

/-- A step that leaves the settings in force, and makes none. -/
theorem InForce.concat (h : InForce start steps) (hreset : step ≠ .reset)
    (hsettings : (step.run (start.adjusted steps)).settings = (start.adjusted steps).settings)
    (hmade : (step.run (start.adjusted steps)).made = (start.adjusted steps).made)
    (hnot : ∀ explicit made, step.asked? = some explicit →
      ((getSettings explicit).run.run (start.adjusted steps)).1 = .ok made →
        made.stamp ≠ (start.adjusted steps).made) :
    InForce start (steps ++ [step]) where
  older kept hkept := by
    rw [adjusted_concat, hsettings] at hkept
    rw [adjusted_concat, hmade]
    exact h.older kept hkept
  last kept hkept := by
    rw [adjusted_concat, hsettings] at hkept
    obtain ⟨earlier, explicit, hlast⟩ := h.last kept hkept
    exact ⟨earlier, explicit, hlast.concat hreset hnot⟩
  not_makes hnone earlier explicit made hmakes := by
    rw [adjusted_concat, hsettings] at hnone
    rcases makes_concat_iff.1 hmakes with ⟨-, hbefore⟩ | ⟨-, hasked, hgives, hnew⟩
    · exact h.not_makes hnone earlier explicit made hbefore
    · exact hnot explicit made hasked hgives hnew

theorem InForce.concat_asked (h : InForce start steps) (hasked : step.asked? = some explicit) :
    InForce start (steps ++ [step]) := by
  have hreset : step ≠ .reset := by
    rintro rfl
    cases hasked
  obtain ⟨journal, hstep⟩ := run_of_asked hasked (start.adjusted steps)
  rcases run_getSettings_cases explicit (start.adjusted steps) with
    ⟨kept, rfl, hkept, hrun⟩ | ⟨-, ⟨settings, -, hrun⟩ | ⟨found, -, hrun⟩⟩
  · rw [hrun] at hstep
    -- settings in force are older than the next ones, so nothing was made here
    refine h.concat hreset (by rw [hstep]) (by rw [hstep]) fun other made hother hgives => ?_
    obtain rfl := Option.some.inj (hasked.symm.trans hother)
    rw [hrun] at hgives
    obtain rfl := Except.ok.inj hgives
    exact Nat.ne_of_lt (h.older _ hkept)
  · rw [hrun] at hstep
    -- the new settings are those in force now
    refine ⟨fun kept hkept => ?_, fun kept hkept => ?_, fun hnone => ?_⟩
    · rw [adjusted_concat, hstep] at hkept ⊢
      obtain rfl := Option.some.inj hkept
      exact Nat.lt_succ_self _
    · rw [adjusted_concat, hstep] at hkept
      obtain rfl := Option.some.inj hkept
      exact ⟨steps, explicit, lastMakes_concat hasked (by rw [hrun]) rfl⟩
    · rw [adjusted_concat, hstep] at hnone
      cases hnone
  · rw [hrun] at hstep
    -- asking failed, and changed nothing
    refine h.concat hreset (by rw [hstep]) (by rw [hstep]) fun other made hother hgives => ?_
    obtain rfl := Option.some.inj (hasked.symm.trans hother)
    rw [hrun] at hgives
    cases hgives

theorem inForce (hstart : start.settings = none) (steps : List Adjustment) :
    InForce start steps := by
  -- on the last step: an asking one, one about the surroundings, or a reset
  induction steps using List.reverseRecOn with
  | nil =>
      refine ⟨fun kept hkept => ?_, fun kept hkept => ?_, fun _ _ _ _ h => ?_⟩
      · exact absurd (hstart.symm.trans hkept) nofun
      · exact absurd (hstart.symm.trans hkept) nofun
      · exact absurd h.length_lt (Nat.not_lt_zero _)
  | append_singleton steps step ih =>
      cases hasked : step.asked? with
      | some explicit => exact ih.concat_asked hasked
      | none =>
          cases hstep : step.ofSurroundings with
          | true =>
              obtain ⟨inEnvironment, inFiles, hrun⟩ := run_of_surroundings hstep
              refine ih.concat ?_ (by rw [hrun]) (by rw [hrun]) (by simp [hasked])
              rintro rfl
              cases hstep
          | false =>
              cases step with
              | reset => exact inForce_reset
              | ask | event => cases hasked
              | setVariable | unsetVariable | writeFile | deleteFile => cases hstep

/-! ## Asking after a run -/

/-- What was made is what the workspace gave at the time. -/
theorem Makes.makeSettings_eq (h : Makes start steps earlier explicit made)
    (hforce : InForce start earlier) :
    (start.adjusted earlier).makeSettings explicit = .ok made.value := by
  have hgives := h.gives
  rcases run_getSettings_cases explicit (start.adjusted earlier) with
    ⟨kept, -, hkept, hrun⟩ | ⟨-, ⟨settings, hmade, hrun⟩ | ⟨found, -, hrun⟩⟩
  · -- settings in force are older than those that were made
    rw [hrun] at hgives
    obtain rfl := Except.ok.inj hgives
    exact absurd h.new (Nat.ne_of_lt (hforce.older _ hkept))
  · rw [hrun] at hgives
    rw [hmade, ← Except.ok.inj hgives]
  · rw [hrun] at hgives
    cases hgives

theorem InForce.run_getSettings (h : InForce start steps)
    (hlast : LastMakes start steps earlier explicit made) :
    (getSettings []).run.run (start.adjusted steps) = (.ok made, start.adjusted steps) := by
  cases hsettings : (start.adjusted steps).settings with
  | none => exact absurd hlast.toMakes (h.not_makes hsettings _ _ _)
  | some kept =>
      obtain ⟨_, _, hkept⟩ := h.last kept hsettings
      obtain rfl := hkept.unique hlast
      rw [getSettings, run_get_bind, hsettings]
      rfl

theorem InForce.settings_eq_none (h : InForce start steps)
    (hnot : ∀ earlier explicit made, ¬ Makes start steps earlier explicit made) :
    (start.adjusted steps).settings = none := by
  rw [Option.eq_none_iff_forall_not_mem]
  intro kept hkept
  obtain ⟨earlier, explicit, hlast⟩ := h.last kept hkept
  exact hnot earlier explicit kept hlast.toMakes

end

/-- After any run of steps that starts with no settings made, asking without explicit values gives
the settings that were made last since settings were last reset, and changes nothing; if none were
made, it gives what the workspace gives now.  Asking with explicit values gives what the workspace
gives now with these.  What a workspace gives depends, of all the steps, only on those about its
surroundings, and what was made is what it gave at the time.  Asking that fails changes nothing. -/
theorem settings_after (start : Workspace) (hstart : start.settings = none)
    (steps : List Adjustment) :
    (∀ earlier explicit made, Makes start steps earlier explicit made →
      (start.adjusted earlier).makeSettings explicit = .ok made.value) ∧
    (∀ earlier explicit made, LastMakes start steps earlier explicit made →
      (getSettings []).run.run (start.adjusted steps) = (.ok made, start.adjusted steps)) ∧
    ((∀ earlier explicit made, ¬ Makes start steps earlier explicit made) →
      ((getSettings []).run.run (start.adjusted steps)).1.map (·.value) =
        ((start.adjusted steps).makeSettings []).mapError (.issues .tree)) ∧
    (∀ explicit, explicit ≠ [] →
      ((getSettings explicit).run.run (start.adjusted steps)).1.map (·.value) =
        ((start.adjusted steps).makeSettings explicit).mapError (.issues .tree)) ∧
    (∀ explicit, (start.adjusted steps).makeSettings explicit =
      (start.adjusted (steps.filter Adjustment.ofSurroundings)).makeSettings explicit) ∧
    ∀ explicit failure,
      ((getSettings explicit).run.run (start.adjusted steps)).1 = .error failure →
        ((getSettings explicit).run.run (start.adjusted steps)).2 = start.adjusted steps := by
  have hforce := inForce hstart steps
  refine ⟨fun earlier explicit made hmakes => ?_, fun earlier explicit made hlast => ?_,
    fun hnot => ?_, fun explicit hexplicit => value_getSettings (absurd · hexplicit),
    makeSettings_congr (surroundings_adjusted start steps),
    fun explicit failure => run_getSettings_of_error⟩
  · exact hmakes.makeSettings_eq (inForce hstart earlier)
  · exact hforce.run_getSettings hlast
  · exact value_getSettings fun _ => hforce.settings_eq_none hnot

namespace Sample

def start : Workspace := fresh "/work" "now"

def inner : List (Key × Value) := [(.text "service_name", .text "inner")]

def loud : List (Key × Value) := [(.text "log_level", .text "loud")]

def outer : Adjustment := .setVariable "FIELDLINEAGE_SERVICE_NAME" "outer"

def made : Stamped Settings := ⟨{ Settings.default with serviceName := "inner" }, 0⟩

theorem makeSettings_inner : start.makeSettings inner = .ok made.value := by
  rw [makeSettings, settingsFile_eq_nil rfl]
  rfl

theorem makeSettings_loud : (start.makeSettings loud).isOk = false := by
  rw [makeSettings, settingsFile_eq_nil rfl]
  rfl

theorem getSettings_inner : ((getSettings inner).run.run start).1 = .ok made := by
  rw [getSettings, run_get_bind, makeSettings_inner]
  rfl

theorem getSettings_loud (settings : Stamped Settings) :
    ((getSettings loud).run.run (start.adjusted [.ask inner])).1 ≠ .ok settings := by
  intro hgives
  have hsame : (start.adjusted [.ask inner]).surroundings = start.surroundings :=
    surroundings_getSettings inner start
  have hvalue : ((getSettings loud).run.run (start.adjusted [.ask inner])).1.map (·.value) =
      ((start.adjusted [.ask inner]).makeSettings loud).mapError (.issues .tree) :=
    value_getSettings nofun
  rw [hgives, makeSettings_congr hsame] at hvalue
  have hfails := makeSettings_loud
  cases hmade : start.makeSettings loud with
  | ok settings => simp [hmade, Except.isOk, Except.toBool] at hfails
  | error found => simp [hmade, Except.map, Except.mapError] at hvalue

theorem lastMakes_inner :
    LastMakes start ([.ask inner] ++ [.ask loud] ++ [outer]) [] inner made := by
  have hfirst : LastMakes start ([] ++ [.ask inner]) [] inner made :=
    lastMakes_concat rfl getSettings_inner rfl
  have hloud : LastMakes start ([.ask inner] ++ [.ask loud]) [] inner made :=
    hfirst.concat nofun fun explicit settings hasked hgives => by
      obtain rfl : loud = explicit := Option.some.inj hasked
      exact absurd hgives (getSettings_loud settings)
  exact hloud.concat nofun fun _ _ hasked => by cases hasked

end Sample

/-- Settings that were made with a value of their own stay in force while others cannot be made and
a variable is set. -/
theorem settings_after_sample : Sample.start.settings = none ∧
    ((getSettings []).run.run (Sample.start.adjusted
      [.ask Sample.inner, .ask Sample.loud, Sample.outer])).1 = .ok Sample.made := by
  obtain ⟨-, hlast, -⟩ :=
    settings_after Sample.start rfl ([.ask Sample.inner] ++ [.ask Sample.loud] ++ [Sample.outer])
  exact ⟨rfl, congrArg Prod.fst (hlast _ _ _ Sample.lastMakes_inner)⟩

end Lineage.Workspace
