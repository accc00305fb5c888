import Lineage.Operation
import Lineage.Sorted.Map

/-!
# Flows

A flow is a set of operations together with the lookups that every traversal
needs: the operation of a name, the reads and writes, the operations that
consume what a name produces, and the fields that each transform drops.

A flow can be indexed from any set of operations.  Origins may then name no
operation, and of several operations that share a name the lookup finds the one
whose kind comes first.
-/

namespace Lineage

/-- A set of operations with its lookups. -/
structure Flow where
  operations : OperationSet
  byName : SortedMap Name Operation
  reads : OperationSet
  writes : OperationSet
  /-- For every operation and every origin, the operations that consume what it produces. -/
  consumers : SortedMap Name OperationSet
  /-- For every transform that drops fields, their names. -/
  dropped : SortedMap Name (SortedSet Name)

namespace Operation

/-- The fields that a transform consumes and does not produce.  They count as dropped only if the
transform produces nothing that it does not consume. -/
def droppedFields (operation : Operation) : SortedSet Name :=
  match operation.kind with
  | .transform =>
    let consumed := operation.consumed.toList.map Name.text
    if operation.outputs.toList.all consumed.contains then
      operation.consumed.filter fun name => decide (¬ name.text ∈ operation.outputs)
    else ∅
  | _ => ∅

end Operation

namespace Flow

/-- The flow without operations. -/
def empty : Flow := ⟨∅, ∅, ∅, ∅, ∅, ∅⟩

/-- The consumers with one more operation among those of its origins. -/
def withConsumer (consumers : SortedMap Name OperationSet) (operation : Operation) :
    SortedMap Name OperationSet :=
  operation.origins.toList.foldl
    (fun consumers origin => consumers.alter origin fun known => (known.getD ∅).insert operation)
    (consumers.alter operation.name fun known => known.getD ∅)

/-- The flow with one more operation. -/
def enter (flow : Flow) (operation : Operation) : Flow where
  operations := flow.operations.insert operation
  byName := flow.byName.alter operation.name fun known => known.getD operation
  reads := if operation.kind = .read then flow.reads.insert operation else flow.reads
  writes := if operation.kind = .write then flow.writes.insert operation else flow.writes
  consumers := withConsumer flow.consumers operation
  dropped :=
    if operation.droppedFields.isEmpty then flow.dropped
    else flow.dropped.insert operation.name operation.droppedFields

/-- The flow of a set of operations, entered in order of name and kind. -/
def index (operations : OperationSet) : Flow := operations.toList.foldl enter empty

/-- The operation of a name. -/
def operation? (flow : Flow) (name : Name) : Option Operation := flow.byName.find? name

/-- The operations that consume what a name produces. -/
def consumersOf (flow : Flow) (name : Name) : OperationSet := (flow.consumers.find? name).getD ∅

/-- All fields that some transform drops. -/
def droppedFields (flow : Flow) : SortedSet Name := SortedSet.unions flow.dropped.values id

/-- The endpoints that are read from. -/
def sources (flow : Flow) : SortedSet (Option Endpoint) := flow.reads.map Operation.endpoint?

/-- The endpoints that are written to. -/
def destinations (flow : Flow) : SortedSet (Option Endpoint) := flow.writes.map Operation.endpoint?

end Flow

end Lineage
