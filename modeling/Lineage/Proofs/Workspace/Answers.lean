import Lineage.Proofs.Workspace.Documents
import Lineage.Proofs.Workspace.Emissions
import Lineage.Proofs.Workspace.Frames

/-!
# The surroundings have no part in an answer

What a collection of operations is answered with when it is accepted, sorted or
built, and what a snapshot is answered with when a field is followed, is settled
by the operations and the field.  Of the surroundings neither the level of the
log nor what looks at records, neither the span nor the settings that are in
force change it.

There is one way in which they do take part: events ask for the settings
whether the span records or not, and settings that cannot be made then fail in
place of the answer, be it a snapshot or the fault of the operations
(`settings_hide_fault`).
-/

namespace Lineage

open Lineage.Flow Snapshot

/-! ## Following a field -/

namespace Viewing

variable {α β : Type}

/-- From a snapshot the action does in a workspace what an action of the workspace does. -/
def ActsAs (snapshot : Snapshot) (view : Viewing α) (action : Action α) : Prop :=
  ∀ workspace, ∃ later, (view.run.run snapshot).run workspace =
    (((action.run.run workspace).1, later), (action.run.run workspace).2)

theorem ActsAs.bind {snapshot : Snapshot} {view : Viewing α} {action : Action α}
    {next : α → Viewing β} {nextAction : α → Action β} (h : ActsAs snapshot view action)
    (hnext : ∀ value later, ActsAs later (next value) (nextAction value)) :
    ActsAs snapshot (view >>= next) (action >>= nextAction) := by
  intro workspace
  obtain ⟨later, hrun⟩ := h workspace
  rw [run_bind, Workspace.run_bind, hrun]
  cases (action.run.run workspace).1 with
  | error failure => exact ⟨later, rfl⟩
  | ok value => exact hnext value later _

theorem actsAs_pure (snapshot : Snapshot) (value : α) :
    ActsAs snapshot (pure value) (pure value) :=
  fun _ => ⟨snapshot, rfl⟩

theorem actsAs_ofAction (snapshot : Snapshot) (action : Action α) :
    ActsAs snapshot (ofAction action) action :=
  fun _ => ⟨snapshot, rfl⟩

end Viewing

namespace Snapshot

open Workspace Viewing

/-- The flow that the views of a snapshot go by, or why there is none. -/
def flowOrFault (snapshot : Snapshot) : Except Fault Flow :=
  match snapshot.flow with
  | some flow => .ok flow
  | none => Flow.accept snapshot.operations

/-- What reading the flow of a snapshot does in a workspace. -/
def findFlow (snapshot : Snapshot) : Action Flow :=
  match snapshot.flow with
  | some flow => return flow
  | none => accept snapshot.operations

theorem actsAs_viewFlow (snapshot : Snapshot) : ActsAs snapshot viewFlow snapshot.findFlow := by
  intro workspace
  rcases snapshot with ⟨operations, checksum, _ | flow, ledger, fields, incoming, outgoing⟩
  · let bare : Snapshot := ⟨operations, checksum, none, ledger, fields, incoming, outgoing⟩
    have hkeep (flow : Flow) (held : Snapshot) : ActsAs held
        (do
          modify fun snapshot => { snapshot with flow := some flow }
          return flow)
        (pure flow) :=
      fun _ => ⟨_, rfl⟩
    have haccept := (actsAs_ofAction bare (accept operations)).bind hkeep workspace
    rw [bind_pure] at haccept
    exact haccept
  · exact ⟨_, rfl⟩

theorem answers_findFlow (snapshot : Snapshot) :
    Answers snapshot.flowOrFault.isOk.not snapshot.findFlow
      (snapshot.flowOrFault.mapError .fault) := by
  unfold findFlow flowOrFault
  cases snapshot.flow with
  | some flow => exact answers_pure flow
  | none => exact answers_accept _

/-- What a query finds is settled by the flow, or by the fault that there is in its place. -/
theorem result_query (direction : Direction) (field : EndpointField) (snapshot : Snapshot)
    (workspace : Workspace) :
    (((query direction field).run.run snapshot).run workspace).1.1 = workspace.hindered
      ((snapshot.flowOrFault.map fun flow => flow.follow direction field).mapError .fault) := by
  -- on the snapshot a query acts as an action of the workspace
  have hacts := (actsAs_viewFlow snapshot).bind fun flow held =>
    (actsAs_ofAction held (reportQuery direction.label field (flow.follow direction field).toList)).bind
      fun _ held => actsAs_pure held (flow.follow direction field)
  -- which answers with the flow, when the report is made, or with the fault
  have hanswers : Answers true
      (do
        let flow ← snapshot.findFlow
        reportQuery direction.label field (flow.follow direction field).toList
        return flow.follow direction field)
      ((snapshot.flowOrFault.map fun flow => flow.follow direction field).mapError .fault) := by
    have hfind := answers_findFlow snapshot
    cases hflow : snapshot.flowOrFault with
    | error fault =>
        rw [hflow] at hfind
        exact hfind.bind_error
    | ok flow =>
        rw [hflow] at hfind
        refine hfind.bind (a := flow) ?_
        exact (answers_reportQuery _ _ _).bind (answers_pure _)
  obtain ⟨later, hrun⟩ := hacts workspace
  exact (congrArg (fun outcome => outcome.1.1) hrun).trans (hanswers.result workspace)

end Snapshot

namespace Workspace

/-! ## Building -/

theorem answers_build_of_error {listed : List Operation} {fault : Fault}
    (h : Flow.accept (.ofList listed) = .error fault) (eager : Option Bool) :
    Answers true (build listed eager) (.error (.fault fault)) := by
  have haccept := answers_accept (.ofList listed)
  rw [h] at haccept
  rw [build_eq]
  exact (answers_log _ _ _).bind haccept.bind_error

theorem exists_answers_stock_ok {listed : List Operation} (admitted : Admitted (.ofList listed))
    (eager : Bool) :
    ∃ snapshot, Faithful (.ofList listed) snapshot ∧
      Answers false (stock eager (ofFlow (index (.ofList listed)) (.ofList listed)))
        (.ok snapshot) := by
  have hflow : (ofFlow (index (.ofList listed)) (.ofList listed)).flow.isSome := rfl
  obtain ⟨answer, hstock⟩ := exists_answers_stock eager hflow
  obtain ⟨snapshot, faithful, hemits⟩ := exists_emits_stock admitted eager
  -- the answer is the same everywhere, and the snapshot in a workspace where settings are known
  have hrun := (hemits _ _ (configuration?_fresh "" "")).1
  rw [hstock.eq_of_ok hrun] at hstock
  exact ⟨snapshot, faithful, hstock⟩

theorem exists_answers_build_of_ok {listed : List Operation} {flow : Flow}
    (h : Flow.accept (.ofList listed) = .ok flow) (eager : Bool) :
    ∃ snapshot, Answers true (build listed (some eager)) (.ok snapshot) ∧
      Faithful (.ofList listed) snapshot := by
  obtain ⟨rfl, admitted⟩ := accept_eq_ok_iff.1 h
  have haccept := answers_accept (.ofList listed)
  rw [h] at haccept
  obtain ⟨snapshot, faithful, hstock⟩ := exists_answers_stock_ok admitted eager
  refine ⟨snapshot, ?_, faithful⟩
  rw [build_eq]
  exact (answers_log _ _ _).bind (haccept.bind ((answers_pure eager).bind
    (hstock.bind ((answers_announce _ _ _ _).bind (answers_pure snapshot)))))

/-- Building is answered with a snapshot of the collection or with the fault it is refused for, or
else with the issues of settings. -/
theorem exists_result_build (listed : List Operation) (eager : Bool) :
    ∃ answer : Except Failure Snapshot,
      (match Flow.accept (.ofList listed) with
        | .ok _ => ∃ snapshot, answer = .ok snapshot ∧ Faithful (.ofList listed) snapshot
        | .error fault => answer = .error (.fault fault)) ∧
      ∀ workspace : Workspace,
        ((build listed (some eager)).run.run workspace).1 = workspace.hindered answer := by
  cases h : Flow.accept (.ofList listed) with
  | error fault => exact ⟨_, rfl, (answers_build_of_error h _).result⟩
  | ok flow =>
      obtain ⟨snapshot, hbuild, faithful⟩ := exists_answers_build_of_ok h eager
      exact ⟨_, ⟨snapshot, rfl, faithful⟩, hbuild.result⟩

/-! ## The same answers -/

/-- An answer that is not about settings tells two workspaces apart just if what keeps settings from
being made does. -/
theorem hindered_eq_iff {α : Type} {a b : Workspace} {answer : Except Failure α}
    (hanswer : ∀ found, answer ≠ .error (.issues .tree found)) :
    a.hindered answer = b.hindered answer ↔ a.hindrance? = b.hindrance? := by
  refine ⟨fun h => ?_, fun h => hindered_congr h answer⟩
  -- a hindrance shows in the answer, since the answer itself is none
  cases ha : a.hindrance? with
  | none =>
      cases hb : b.hindrance? with
      | none => rfl
      | some found =>
          rw [hindered_of_none ha, hindered_of_some hb] at h
          exact absurd h (hanswer found)
  | some found =>
      rw [hindered_of_some ha] at h
      cases hb : b.hindrance? with
      | none =>
          rw [hindered_of_none hb] at h
          exact absurd h.symm (hanswer found)
      | some other =>
          rw [hindered_of_some hb] at h
          cases h
          rfl

/-- No answer of the operations is about settings. -/
theorem mapError_fault_ne {α : Type} (answer : Except Fault α) (found : List Issue) :
    answer.mapError Failure.fault ≠ .error (.issues .tree found) := by
  cases answer <;> simp [Except.mapError]

theorem result_accept (operations : OperationSet) (workspace : Workspace) :
    ((accept operations).run.run workspace).1 =
      match Flow.accept operations with
      | .ok flow => .ok flow
      | .error fault => workspace.hindered (.error (.fault fault)) := by
  rw [(answers_accept operations).result]
  cases Flow.accept operations <;> rfl

theorem same_accept_iff (a b : Workspace) (operations : OperationSet) :
    ((accept operations).run.run a).1 = ((accept operations).run.run b).1 ↔
      (∃ flow, Flow.accept operations = .ok flow) ∨ a.hindrance? = b.hindrance? := by
  rw [result_accept, result_accept]
  cases Flow.accept operations with
  | ok flow => exact iff_of_true rfl (.inl ⟨flow, rfl⟩)
  | error fault =>
      have hanswer (found : List Issue) :
          (.error (.fault fault) : Except Failure Flow) ≠ .error (.issues .tree found) := by simp
      exact (hindered_eq_iff hanswer).trans
        ⟨.inr, fun h => h.resolve_left fun ⟨_, hflow⟩ => nomatch hflow⟩

theorem same_build_iff (a b : Workspace) (listed : List Operation) (eager : Bool) :
    ((build listed (some eager)).run.run a).1 = ((build listed (some eager)).run.run b).1 ↔
      a.hindrance? = b.hindrance? := by
  obtain ⟨answer, hanswer, hresult⟩ := exists_result_build listed eager
  rw [hresult, hresult]
  refine hindered_eq_iff fun found hfound => ?_
  subst hfound
  split at hanswer
  · obtain ⟨_, hsnapshot, -⟩ := hanswer
    cases hsnapshot
  · cases hanswer

/-- Two workspaces, whatever they hold, give the same answers just if the same issues keep settings
from being made in them, and so in particular if settings are in force or can be made in both; and
operations that are accepted without more are accepted in all workspaces. -/
theorem same_answers_iff (a b : Workspace) (listed : List Operation) (eager : Bool)
    (direction : Direction) (field : EndpointField) (snapshot : Snapshot) :
    (((accept (.ofList listed)).run.run a).1 = ((accept (.ofList listed)).run.run b).1 ↔
      (∃ flow, Flow.accept (.ofList listed) = .ok flow) ∨ a.hindrance? = b.hindrance?) ∧
    (((build listed (some eager)).run.run a).1 = ((build listed (some eager)).run.run b).1 ↔
      a.hindrance? = b.hindrance?) ∧
    (((sort listed).run.run a).1 = ((sort listed).run.run b).1 ↔
      a.hindrance? = b.hindrance?) ∧
    ((((query direction field).run.run snapshot).run a).1.1 =
        (((query direction field).run.run snapshot).run b).1.1 ↔
      a.hindrance? = b.hindrance?) := by
  refine ⟨?_, ?_, ?_, ?_⟩
  · exact same_accept_iff a b _
  · exact same_build_iff a b listed eager
  · rw [(answers_sort listed).result, (answers_sort listed).result, if_pos rfl, if_pos rfl]
    exact hindered_eq_iff (mapError_fault_ne _)
  · rw [result_query, result_query]
    exact hindered_eq_iff (mapError_fault_ne _)

/-- With a variable for a level that there is not, the settings hide the fault of the operations,
though the span does not record. -/
theorem settings_hide_fault : ∃ plain bad : Workspace,
    bad = { plain with environment := [("FIELDLINEAGE_LOG_LEVEL", some "bogus")] } ∧
    plain.recording = false ∧
    ((build [] (some false)).run.run plain).1 = .error (.fault .noReads) ∧
    ∃ found, ((build [] (some false)).run.run bad).1 = .error (.issues .tree found) := by
  let plain : Workspace := { fresh "/work" "now" with recording := false }
  let bad : Workspace :=
    { plain with environment := [("FIELDLINEAGE_LOG_LEVEL", some "bogus")] }
  have hplain : plain.hindrance? = none := hindrance?_eq_none_iff.2 (ready_fresh "/work" "now")
  -- the level of the variable is no level, so settings cannot be made
  have hbad : bad.hindrance?.isSome := by
    have hmade : (bad.makeSettings []).isOk = false := by
      rw [makeSettings, settingsFile_eq_nil rfl]
      decide +kernel
    unfold hindrance?
    cases hissues : bad.makeSettings [] with
    | error found => rfl
    | ok settings => simp [hissues, Except.isOk, Except.toBool] at hmade
  obtain ⟨found, hfound⟩ := Option.isSome_iff_exists.1 hbad
  have hrefused : Flow.accept (.ofList []) = .error .noReads := rfl
  have hbuild := (answers_build_of_error hrefused (some false)).result
  refine ⟨plain, bad, rfl, rfl, ?_, found, ?_⟩
  · rw [hbuild, if_pos rfl, hindered_of_none hplain]
  · rw [hbuild, if_pos rfl, hindered_of_some hfound]

end Workspace

end Lineage
