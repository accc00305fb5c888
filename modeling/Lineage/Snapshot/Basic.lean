import Lineage.Canonical
import Lineage.Flow.Admission
import Lineage.Flow.Reach
import Lineage.Flow.Summary

/-!
# Snapshots

A snapshot is an admitted set of operations with its checksum.  The views that
are worked out on demand are kept once they are there: the flow, the ledger
that the summaries share, the destination fields and the two summaries.

Storing a snapshot keeps the operations, the checksum and those of the last
three views that are there; the flow and the ledger are worked out anew.
-/

namespace Lineage

structure Snapshot where
  operations : OperationSet
  checksum : Int
  flow : Option Flow
  ledger : Option Ledger
  destinationFields : Option (SortedMap (Option Endpoint) (SortedSet Name))
  incoming : Option Summary
  outgoing : Option Summary

namespace Snapshot

/-- The snapshot of an admitted set of operations. -/
def ofFlow (flow : Flow) (operations : OperationSet) : Snapshot where
  operations
  checksum := Canonical.checksum operations.toList
  flow := some flow
  ledger := none
  destinationFields := none
  incoming := none
  outgoing := none

/-- Snapshots are told apart by their checksums. -/
instance : BEq Snapshot := ⟨fun a b => a.checksum == b.checksum⟩

/-- The snapshot as messages show it. -/
def shown (snapshot : Snapshot) : String :=
  "FieldLineageInfo(checksum=" ++ toString snapshot.checksum ++ ", operations=" ++
    Text.quotedList (snapshot.operations.toList.map fun operation => operation.name.text) ++ ")"

/-- The views that a stored snapshot keeps, by name, with whether they are there. -/
def storedViews (snapshot : Snapshot) : List (String × Bool) :=
  [("destination_fields", snapshot.destinationFields.isSome),
    ("incoming_summary", snapshot.incoming.isSome),
    ("outgoing_summary", snapshot.outgoing.isSome)]

/-- The views that are there, by name. -/
def presentViews (snapshot : Snapshot) : List String :=
  ([("graph", snapshot.flow.isSome), ("_summaries", snapshot.ledger.isSome)] ++
    snapshot.storedViews).filterMap fun view => if view.2 then some view.1 else none

/-- The parts that a stored snapshot has, by name. -/
def storedParts (snapshot : Snapshot) : List String :=
  ["_checksum", "_operations"] ++
    snapshot.storedViews.filterMap fun view => if view.2 then some view.1 else none

/-- The snapshot after it was stored and restored. -/
def restored (snapshot : Snapshot) : Snapshot := { snapshot with flow := none, ledger := none }

end Snapshot

end Lineage
