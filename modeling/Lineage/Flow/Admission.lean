import Lineage.Fault
import Lineage.Flow.Basic

/-!
# Admission

A set of operations is admitted as a snapshot if names are unique, every read
has a source and every write a destination, there is a read and a write, and
every origin names an operation.  Otherwise the first of these faults, in this
order, is the answer; where several names are at fault it names the least one.

Whether sources and destinations are connected is not asked.
-/

namespace Lineage.Flow

/-- The least name that two different operations share. -/
def sharedName? (operations : List Operation) : Option Name :=
  (operations.find? fun operation =>
    operations.any fun other => other.name = operation.name ∧ other ≠ operation).map (·.name)

/-- The least name of an operation of a kind that has no endpoint. -/
def withoutEndpoint? (kind : Kind) (operations : List Operation) : Option Name :=
  (operations.find? fun operation =>
    operation.kind = kind ∧ operation.endpoint? = none).map (·.name)

/-- The origins that name no operation. -/
def unknownOrigins (flow : Flow) : SortedSet Name :=
  (SortedSet.unions flow.operations.toList Operation.origins).filter fun origin =>
    (flow.operation? origin).isNone

/-- The flow of a valid snapshot, or the first fault. -/
def accept (operations : OperationSet) : Except Fault Flow :=
  match sharedName? operations.toList with
  | some name => .error (.duplicateName name.text)
  | none =>
    match withoutEndpoint? .read operations.toList with
    | some name => .error (.missingSource name.text)
    | none =>
      match withoutEndpoint? .write operations.toList with
      | some name => .error (.missingDestination name.text)
      | none =>
        let flow := index operations
        if flow.reads.isEmpty then .error .noReads
        else if flow.writes.isEmpty then .error .noWrites
        else
          let unknown := flow.unknownOrigins
          if unknown.isEmpty then .ok flow
          else .error (.unknownOrigins (unknown.toList.map Name.text))

end Lineage.Flow
