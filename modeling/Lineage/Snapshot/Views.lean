import Lineage.Flow.Order
import Lineage.Snapshot.Basic
import Lineage.Workspace.Basic

/-!
# Building snapshots and reading their views

A snapshot is built from a list of operations, with all views at once or with
none.  Reading a view works it out if it is not there and keeps it.  Building,
queries and sorting report what they found; reading a view reports nothing but
log records.
-/

namespace Lineage

/-- An action that may fill in views of a snapshot; what it filled in stays even if it fails. -/
abbrev Viewing (α : Type) := ExceptT Failure (StateT Snapshot (StateM Workspace)) α

/-- An action of the workspace that leaves the snapshot alone. -/
def Viewing.ofAction {α : Type} (action : Action α) : Viewing α :=
  ExceptT.mk (StateT.lift action.run)

namespace Workspace

/-- The flow of a set of operations, if it is admitted.  A refusal is reported. -/
def accept (operations : OperationSet) : Action Flow :=
  match Flow.accept operations with
  | .error fault => do
    reportFault fault
    throw (.fault fault)
  | .ok flow => do
    log Level.debug "fieldlineage.graph"
      ("Validated " ++ toString operations.size ++ " operation(s): " ++ toString flow.reads.size ++
        " read, " ++ toString flow.writes.size ++ " write, " ++ toString flow.droppedFields.size ++
        " dropped field(s)")
    return flow

end Workspace

namespace Snapshot

open Workspace

/-! ## Views -/

/-- The flow of a snapshot. -/
def viewFlow : Viewing Flow := do
  match (← get).flow with
  | some flow => return flow
  | none =>
    let flow ← Viewing.ofAction (accept (← get).operations)
    modify fun snapshot => { snapshot with flow := some flow }
    return flow

/-- The ledger that the summaries of a snapshot share. -/
def viewLedger : Viewing Ledger := do
  match (← get).ledger with
  | some ledger => return ledger
  | none =>
    let _ ← viewFlow
    modify fun snapshot => { snapshot with ledger := some [] }
    return []

/-- What a computation on the shared ledger gives; the ledger keeps what was settled. -/
def traced {α : Type} (computation : Flow → Tracing α) : Viewing α := do
  let ledger ← viewLedger
  let flow ← viewFlow
  let (result, ledger) := (computation flow).run ledger
  modify fun snapshot => { snapshot with ledger := some ledger }
  match result with
  | .ok value => return value
  | .error found => throw (.tracing found)

/-- The field names written to each destination. -/
def viewDestinationFields : Viewing (SortedMap (Option Endpoint) (SortedSet Name)) := do
  match (← get).destinationFields with
  | some fields => return fields
  | none =>
    let fields ← traced fun flow => return flow.destinationFields
    modify fun snapshot => { snapshot with destinationFields := some fields }
    return fields

/-- The incoming summary. -/
def viewIncoming : Viewing Summary := do
  match (← get).incoming with
  | some summary => return summary
  | none =>
    let summary ← traced Flow.incoming
    log Level.debug "fieldlineage.summary"
      ("Computed incoming summary for " ++ toString summary.size ++ " destination field(s)")
    modify fun snapshot => { snapshot with incoming := some summary }
    return summary

/-- The outgoing summary. -/
def viewOutgoing : Viewing Summary := do
  match (← get).outgoing with
  | some summary => return summary
  | none =>
    let _ ← viewLedger
    let incoming ← viewIncoming
    let summary ← traced fun flow => flow.outgoing incoming
    modify fun snapshot => { snapshot with outgoing := some summary }
    return summary

end Snapshot

/-! ## Queries, order and building -/

namespace Workspace

/-- Report what a query found. -/
def reportQuery (direction : String) (field : EndpointField) (operations : List Operation) :
    Action Unit := do
  let names := (operations.map fun operation => operation.name.text).mergeSort fun a b => (compare a b).isLE
  log Level.debug "fieldlineage.otel"
    ("Lineage " ++ direction ++ " query for " ++ field.shown ++ " matched " ++
      toString names.length ++ " operation(s)")
  spanEvent "lineage.query.complete"
    [("lineage.direction", .text direction), ("lineage.field", .text field.shown),
      ("lineage.matched", .int names.length),
      ("lineage.operations", .text (",".intercalate names))]

/-- The operations of a list in order. -/
def sort (operations : List Operation) : Action (List Operation) :=
  match Order.sort operations with
  | .ok sorted => do
    let names := sorted.map fun operation => operation.name.text
    log Level.debug "fieldlineage.ordering"
      ("Sorted " ++ toString sorted.length ++ " operation(s): " ++ Text.quotedList names)
    spanEvent "lineage.sort.complete"
      [("lineage.operations", .int sorted.length), ("lineage.order", .text (",".intercalate names))]
    return sorted
  | .error fault => do
    log Level.warning "fieldlineage.otel" fault.message
    let names := match fault with
      | .cycle residual => residual.toList.map Prod.fst
      | _ => []
    spanEvent "lineage.sort.cycle"
      [("lineage.cycle_operations", .text (",".intercalate names)),
        ("lineage.message", .text fault.message)]
    throw (.fault fault)

/-- Report that a snapshot was built. -/
def reportSnapshot (snapshot : Snapshot) (flow : Flow) : Action Unit :=
  spanEvent "lineage.snapshot.built"
    [("lineage.checksum", .int snapshot.checksum), ("lineage.operations", .int snapshot.operations.size),
      ("lineage.sources", .int flow.sources.size),
      ("lineage.destinations", .int flow.destinations.size),
      ("lineage.dropped_fields", .int flow.droppedFields.size)]

/-- Build the snapshot of a list of operations.  Whether all views are worked out at once is said
explicitly or by the settings. -/
def build (listed : List Operation) (eager : Option Bool) : Action Snapshot := do
  let operations : OperationSet := .ofList listed
  log Level.debug "fieldlineage.info"
    ("Received field lineage operations " ++ Canonical.text operations.toList)
  let flow ← accept operations
  let eager ← match eager with
    | some eager => pure eager
    | none => do
      let settings ← getSettings []
      pure settings.value.computeSummaries
  let bare := Snapshot.ofFlow flow operations
  let snapshot ←
    if eager then do
      let views : Viewing Unit := do
        let _ ← Snapshot.viewDestinationFields
        let _ ← Snapshot.viewIncoming
        let _ ← Snapshot.viewOutgoing
      let (result, snapshot) ← (views.run.run bare : StateM Workspace _)
      match result with
      | .ok () => pure snapshot
      | .error failure => throw failure
    else pure bare
  log Level.info "fieldlineage.info"
    ("Built field lineage snapshot: checksum=" ++ toString snapshot.checksum ++ " operations=" ++
      toString operations.size ++ " summaries=" ++ (if eager then "eager" else "lazy"))
  reportSnapshot snapshot flow
  return snapshot

end Workspace

namespace Snapshot

/-- The operations found when a field is followed in a direction. -/
def query (direction : Flow.Direction) (field : EndpointField) : Viewing OperationSet := do
  let flow ← viewFlow
  let found := flow.follow direction field
  Viewing.ofAction (Workspace.reportQuery direction.label field found.toList)
  return found

end Snapshot

end Lineage
