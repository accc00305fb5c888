import Lineage.Proofs.Snapshot.Reading
import Lineage.Workspace.Documents

/-!
# What actions leave alone, and what their answers hang on

Building, sorting and queries change nothing of a workspace but the settings in
force and what is reported (`Spares`), and they neither bring about nor remove
what keeps settings from being made.

Of all the workspace holds, only that can have a part in an answer, and it has
one only if the action asks for settings on its way (`Answers`): an action that
does not ask has one answer in all workspaces; one that asks has it wherever
settings are in force or can be made, and in all others the faults of the
settings take its place.
-/

namespace Lineage

namespace Workspace

variable {α β : Type}

/-! ## Settings that cannot be made -/

/-- The issues that keep settings from being made, if none are in force. -/
def hindrance? (workspace : Workspace) : Option (List Issue) :=
  match workspace.settings, workspace.makeSettings [] with
  | none, .error found => some found
  | _, _ => none

/-- The answer, or what keeps settings from being made in its place. -/
def hindered (workspace : Workspace) (answer : Except Failure α) : Except Failure α :=
  match workspace.hindrance? with
  | none => answer
  | some found => .error (.issues .tree found)

theorem hindered_of_none {workspace : Workspace} (h : workspace.hindrance? = none)
    (answer : Except Failure α) : workspace.hindered answer = answer := by
  rw [hindered, h]

theorem hindered_of_some {workspace : Workspace} {found : List Issue}
    (h : workspace.hindrance? = some found) (answer : Except Failure α) :
    workspace.hindered answer = .error (.issues .tree found) := by
  rw [hindered, h]

theorem hindered_congr {a b : Workspace} (h : a.hindrance? = b.hindrance?)
    (answer : Except Failure α) : a.hindered answer = b.hindered answer := by
  rw [hindered, hindered, h]

/-- Nothing keeps settings from being made just in ready workspaces. -/
theorem hindrance?_eq_none_iff {workspace : Workspace} :
    workspace.hindrance? = none ↔ workspace.Ready := by
  unfold hindrance? Ready
  cases workspace.settings <;> cases workspace.makeSettings [] <;> simp

/-! ## What is left alone -/

/-- The action changes the settings in force and the journal at most, and settings can be made after
it just when they could before. -/
structure Spares (action : Action α) : Prop where
  frame : ∀ workspace : Workspace, ∃ settings made journal,
    (action.run.run workspace).2 = { workspace with settings, made, journal }
  hindrance : ∀ workspace : Workspace,
    (action.run.run workspace).2.hindrance? = workspace.hindrance?

theorem spares_of_journal {action : Action α}
    (h : ∀ workspace : Workspace, ∃ journal,
      (action.run.run workspace).2 = { workspace with journal }) : Spares action where
  frame workspace := by
    obtain ⟨journal, hrun⟩ := h workspace
    exact ⟨workspace.settings, workspace.made, journal, hrun⟩
  hindrance workspace := by
    obtain ⟨journal, hrun⟩ := h workspace
    rw [hrun]
    rfl

theorem Spares.bind {action : Action α} {next : α → Action β} (h : Spares action)
    (hnext : ∀ workspace a, (action.run.run workspace).1 = .ok a → Spares (next a)) :
    Spares (action >>= next) where
  frame workspace := by
    rw [run_bind]
    cases hresult : (action.run.run workspace).1 with
    | error failure => exact h.frame workspace
    | ok a =>
        obtain ⟨settings, made, journal, hfirst⟩ := h.frame workspace
        rw [hfirst]
        exact (hnext workspace a hresult).frame _
  hindrance workspace := by
    rw [run_bind]
    cases hresult : (action.run.run workspace).1 with
    | error failure => exact h.hindrance workspace
    | ok a => exact ((hnext workspace a hresult).hindrance _).trans (h.hindrance workspace)

theorem spares_pure (a : α) : Spares (pure a : Action α) :=
  spares_of_journal fun workspace => ⟨workspace.journal, rfl⟩

theorem spares_getSettings : Spares (getSettings []) where
  frame workspace := by
    rcases run_getSettings_cases [] workspace with
      ⟨_, -, -, hrun⟩ | ⟨-, ⟨_, -, hrun⟩ | ⟨_, -, hrun⟩⟩
    · exact ⟨workspace.settings, workspace.made, workspace.journal, by rw [hrun]⟩
    · exact ⟨_, _, _, by rw [hrun]⟩
    · exact ⟨workspace.settings, workspace.made, workspace.journal, by rw [hrun]⟩
  hindrance workspace := by
    rcases getSettings_cases workspace with ⟨_, _, hrun, hready, hlater⟩ | ⟨_, hrun, -⟩
    · rw [hrun, hindrance?_eq_none_iff.2 hready, hindrance?_eq_none_iff.2 hlater]
    · rw [hrun]

/-- Settings are given just when nothing keeps them from being made, which is the failure
otherwise. -/
theorem result_getSettings (workspace : Workspace) :
    match workspace.hindrance? with
    | none => ∃ settings, ((getSettings []).run.run workspace).1 = .ok settings
    | some found => ((getSettings []).run.run workspace).1 = .error (.issues .tree found) := by
  rw [getSettings, run_get_bind, hindrance?]
  cases workspace.settings with
  | some settings => exact ⟨settings, rfl⟩
  | none =>
      cases workspace.makeSettings [] with
      | ok settings => exact ⟨_, rfl⟩
      | error found => rfl

/-! ## What an answer hangs on -/

/-- The action spares the workspace and has the same answer in all of them, except that the faults
of settings that cannot be made take the place of the answer if the action asks for settings. -/
structure Answers (asks : Bool) (action : Action α) (answer : Except Failure α) : Prop extends
    Spares action where
  result : ∀ workspace : Workspace,
    (action.run.run workspace).1 = if asks then workspace.hindered answer else answer

theorem answers_of_journal {action : Action α} {answer : Except Failure α}
    (h : ∀ workspace : Workspace, ∃ journal,
      action.run.run workspace = (answer, { workspace with journal })) :
    Answers false action answer where
  toSpares := spares_of_journal fun workspace => by
    obtain ⟨journal, hrun⟩ := h workspace
    exact ⟨journal, by rw [hrun]⟩
  result workspace := by
    obtain ⟨journal, hrun⟩ := h workspace
    rw [hrun]
    rfl

theorem answers_pure (a : α) : Answers false (pure a : Action α) (.ok a) :=
  answers_of_journal fun workspace => ⟨workspace.journal, rfl⟩

theorem answers_throw (failure : Failure) : Answers false (throw failure : Action α) (.error failure) :=
  answers_of_journal fun workspace => ⟨workspace.journal, rfl⟩

variable {asks more : Bool} {action : Action α} {next : α → Action β}

/-- A value that an action gives is its answer. -/
theorem Answers.eq_of_ok {answer : Except Failure α} (h : Answers asks action answer)
    {workspace : Workspace} {a : α} (ha : (action.run.run workspace).1 = .ok a) :
    answer = .ok a := by
  rw [h.result] at ha
  unfold hindered at ha
  grind

theorem Answers.bind {a : α} {answer : Except Failure β} (h : Answers asks action (.ok a))
    (hnext : Answers more (next a) answer) : Answers (asks || more) (action >>= next) answer where
  toSpares := h.toSpares.bind fun workspace b hb => by
    obtain rfl : a = b := Except.ok.inj (h.eq_of_ok hb)
    exact hnext.toSpares
  result workspace := by
    have hlater := hnext.result (action.run.run workspace).2
    rw [hindered_congr (h.hindrance workspace)] at hlater
    rw [run_bind, h.result]
    cases hhindrance : workspace.hindrance? with
    | none =>
        simp only [hindered_of_none hhindrance, ite_self] at hlater ⊢
        exact hlater
    | some found =>
        simp only [hindered_of_some hhindrance] at hlater ⊢
        cases asks with
        | false => exact hlater
        | true => rfl

theorem Answers.bind_error {failure : Failure} (h : Answers asks action (.error failure)) :
    Answers asks (action >>= next) (.error failure) where
  toSpares := h.toSpares.bind fun workspace b hb => by cases h.eq_of_ok hb
  result workspace := by
    rw [run_bind, h.result]
    unfold hindered
    grind

/-- What asks for settings first has the answer that it has with any settings. -/
theorem answers_getSettings_bind {next : Stamped Settings → Action β} {answer : Except Failure β}
    (hnext : ∀ settings, Answers more (next settings) answer) :
    Answers true (getSettings [] >>= next) answer where
  toSpares := spares_getSettings.bind fun _ settings _ => (hnext settings).toSpares
  result workspace := by
    have hsettings := result_getSettings workspace
    have hlater := spares_getSettings.hindrance workspace
    rw [run_bind, if_pos rfl]
    cases hhindrance : workspace.hindrance? with
    | none =>
        rw [hhindrance] at hsettings hlater
        obtain ⟨settings, hsettings⟩ := hsettings
        rw [hsettings, hindered_of_none hhindrance]
        refine ((hnext settings).result _).trans ?_
        rw [hindered_of_none hlater, ite_self]
    | some found =>
        rw [hhindrance] at hsettings
        rw [hsettings, hindered_of_some hhindrance]

/-! ## Reports -/

theorem answers_lift {action : StateM Workspace α} {a : α}
    (h : ∀ workspace : Workspace, ∃ journal,
      action.run workspace = (a, { workspace with journal })) :
    Answers false (liftM action : Action α) (.ok a) :=
  answers_of_journal fun workspace => by
    obtain ⟨journal, hrun⟩ := h workspace
    exact ⟨journal, by rw [run_lift, hrun]⟩

theorem answers_log (level : Int) (logger message : String) :
    Answers false (liftM (log level logger message) : Action Unit) (.ok ()) :=
  answers_lift (exists_run_log level logger message)

theorem answers_spanEvent (name : String) (attributes : List (String × Value)) :
    Answers true (spanEvent name attributes) (.ok ()) := by
  refine answers_getSettings_bind fun settings => answers_of_journal fun workspace => ?_
  rw [run_get_bind]
  split
  · exact ⟨.event name attributes :: workspace.journal, rfl⟩
  · exact ⟨workspace.journal, rfl⟩

theorem answers_reportFault (fault : Fault) : Answers true (reportFault fault) (.ok ()) :=
  (answers_log _ _ _).bind (answers_spanEvent _ _)

theorem answers_reportQuery (label : String) (field : EndpointField) (found : List Operation) :
    Answers true (reportQuery label field found) (.ok ()) :=
  (answers_log _ _ _).bind (answers_spanEvent _ _)

theorem answers_reportSnapshot (snapshot : Snapshot) (flow : Flow) :
    Answers true (reportSnapshot snapshot flow) (.ok ()) :=
  answers_spanEvent _ _

/-! ## Accepting and sorting -/

/-- Settings are asked for only to report that operations are refused. -/
theorem answers_accept (operations : OperationSet) :
    Answers (Flow.accept operations).isOk.not (accept operations)
      ((Flow.accept operations).mapError .fault) := by
  unfold accept
  cases Flow.accept operations with
  | error fault => exact (answers_reportFault fault).bind (answers_throw _)
  | ok flow => exact (answers_log _ _ _).bind (answers_pure flow)

theorem answers_sort (operations : List Operation) :
    Answers true (sort operations) ((Order.sort operations).mapError .fault) := by
  unfold sort
  cases Order.sort operations with
  | error fault =>
      exact (answers_log _ _ _).bind ((answers_spanEvent _ _).bind (answers_throw _))
  | ok sorted =>
      exact (answers_log _ _ _).bind ((answers_spanEvent _ _).bind (answers_pure sorted))

end Workspace

/-! ## Views -/

namespace Viewing

open Snapshot

variable {α β : Type}

/-- Once the flow of a snapshot is there, the action gives the same in all workspaces, leaves the
same snapshot, and adds to the journal only. -/
def Quiet (action : Viewing α) : Prop :=
  ∀ snapshot : Snapshot, snapshot.flow.isSome → ∃ outcome later, later.flow.isSome ∧
    ∀ workspace, ∃ journal,
      (action.run.run snapshot).run workspace = ((outcome, later), { workspace with journal })

/-- Reading views does nothing else. -/
theorem Reading.quiet {action : Viewing α} (reading : Reading action) : Quiet action := by
  intro snapshot hflow
  obtain ⟨outcome, later, hlater, hrun⟩ := reading.steady_of_flow snapshot hflow
  refine ⟨outcome, later, hlater, fun workspace => ?_⟩
  obtain ⟨journal, hviews, -⟩ := hrun workspace
  exact ⟨journal, hviews⟩

end Viewing

/-! ## Building -/

namespace Workspace

open Snapshot

theorem exists_answers_stock (eager : Bool) {bare : Snapshot} (hflow : bare.flow.isSome) :
    ∃ answer, Answers false (stock eager bare) answer := by
  cases eager with
  | false => exact ⟨_, answers_pure bare⟩
  | true =>
      obtain ⟨outcome, later, -, hrun⟩ := reading_viewAll.quiet bare hflow
      have hviews : Answers false (liftM (viewAll.run.run bare) : Action _) (.ok (outcome, later)) :=
        answers_lift hrun
      cases outcome with
      | error failure => exact ⟨_, hviews.bind (answers_throw failure)⟩
      | ok done => exact ⟨_, hviews.bind (answers_pure later)⟩

theorem spares_settleEager (eager : Option Bool) : Spares (settleEager eager) := by
  cases eager with
  | some eager => exact spares_pure eager
  | none => exact spares_getSettings.bind fun _ _ _ => spares_pure _

theorem answers_announce (flow : Flow) (operations : OperationSet) (eager : Bool)
    (snapshot : Snapshot) : Answers true (announce flow operations eager snapshot) (.ok ()) :=
  (answers_log _ _ _).bind (answers_reportSnapshot snapshot flow)

theorem spares_build (listed : List Operation) (eager : Option Bool) :
    Spares (build listed eager) := by
  rw [build_eq]
  refine (answers_log _ _ _).toSpares.bind fun _ _ _ => ?_
  refine (answers_accept _).toSpares.bind fun _ flow _ => ?_
  refine (spares_settleEager eager).bind fun _ eager _ => ?_
  have hflow : (ofFlow flow (.ofList listed)).flow.isSome := rfl
  obtain ⟨_, hstock⟩ := exists_answers_stock eager hflow
  refine hstock.toSpares.bind fun _ snapshot _ => ?_
  exact (answers_announce _ _ _ _).toSpares.bind fun _ _ _ => spares_pure _

/-- The snapshot of a document changes nothing of a workspace but settings and the journal. -/
theorem spares_snapshotOf (document : Document) (eager : Option Bool) :
    Spares (snapshotOf document eager) := by
  refine (spares_build _ _).bind fun _ snapshot _ => ?_
  split
  · exact spares_pure _
  · split
    · exact spares_pure _
    · exact (answers_reportFault _).toSpares.bind fun _ _ _ => (answers_throw _).toSpares

end Workspace

end Lineage
