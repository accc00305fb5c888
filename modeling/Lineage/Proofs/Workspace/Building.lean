import Lineage.Proofs.Workspace.Actions
import Lineage.Snapshot.Views

/-!
# The stages of building a snapshot

A snapshot is built in four stages: the operations are accepted, it is settled
whether all views are worked out at once, they are worked out or not, and what
was built is reported.  Each stage is an action of its own here, and building is
one after the other (`build_eq`), so that what a stage does has to be said of this
stage only.
-/

namespace Lineage

namespace Snapshot

/-- Work out all views that a stored snapshot keeps. -/
def viewAll : Viewing Unit := do
  let _ ← viewDestinationFields
  let _ ← viewIncoming
  let _ ← viewOutgoing

end Snapshot

namespace Workspace

open Snapshot

/-- Whether all views are worked out at once: as it was said, or else as the settings say. -/
def settleEager : Option Bool → Action Bool
  | some eager => return eager
  | none => return (← getSettings []).value.computeSummaries

/-- A new snapshot, with all views if they are wanted. -/
def stock (eager : Bool) (bare : Snapshot) : Action Snapshot :=
  if eager then do
    let (result, snapshot) ← (viewAll.run.run bare : StateM Workspace _)
    match result with
    | .ok () => return snapshot
    | .error failure => throw failure
  else return bare

/-- Report a new snapshot. -/
def announce (flow : Flow) (operations : OperationSet) (eager : Bool) (snapshot : Snapshot) :
    Action Unit := do
  log Level.info "fieldlineage.info"
    ("Built field lineage snapshot: checksum=" ++ toString snapshot.checksum ++ " operations=" ++
      toString operations.size ++ " summaries=" ++ (if eager then "eager" else "lazy"))
  reportSnapshot snapshot flow

theorem build_eq (listed : List Operation) (eager : Option Bool) : build listed eager = (do
    log Level.debug "fieldlineage.info"
      ("Received field lineage operations " ++
        Canonical.text (SortedSet.ofList listed : OperationSet).toList)
    let flow ← accept (.ofList listed)
    let eager ← settleEager eager
    let snapshot ← stock eager (ofFlow flow (.ofList listed))
    announce flow (.ofList listed) eager snapshot
    return snapshot) := by
  unfold build
  refine bind_congr fun _ => bind_congr fun flow => ?_
  -- settings are only looked up when the caller leaves the choice open
  cases eager
  case' none =>
    simp only [settleEager, bind_assoc, pure_bind]
    refine bind_congr fun settings => ?_
    generalize settings.value.computeSummaries = eager
  case' some eager => simp only [settleEager, pure_bind]
  all_goals
    cases eager
    · simp only [stock, announce, bind_assoc, pure_bind, Bool.false_eq_true, if_false]
    · simp only [stock, announce, bind_assoc, if_true]
      refine bind_congr fun outcome => ?_
      -- a view may fail, and then nothing is announced
      rcases outcome with ⟨_ | ⟨⟩, snapshot⟩
      · rfl
      · simp only [pure_bind]

end Workspace

end Lineage
