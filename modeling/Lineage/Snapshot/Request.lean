import Lineage.Snapshot.Views

/-!
# Requests to a snapshot

What can be asked of a snapshot one thing after another, in any order and as
often as one likes: its views, the endpoints it reads from and writes to, the
fields that were dropped, and the operations found when a field is followed.
-/

namespace Lineage

/-- A question to a snapshot. -/
inductive Request where
  | destinationFields
  | incoming
  | outgoing
  | droppedFields
  | sources
  | destinations
  | follow (direction : Flow.Direction) (field : EndpointField)

/-- What a snapshot replies. -/
inductive Reply where
  | fieldsByDestination (found : SortedMap (Option Endpoint) (SortedSet Name))
  | summary (found : Summary)
  | names (found : SortedSet Name)
  | endpoints (found : SortedSet (Option Endpoint))
  | operations (found : OperationSet)

namespace Request

/-- The views that a reply leaves behind, of those that a stored snapshot keeps. -/
def storedViews : Request → List String
  | destinationFields => ["destination_fields"]
  | incoming => ["incoming_summary"]
  | outgoing => ["incoming_summary", "outgoing_summary"]
  | droppedFields | sources | destinations | follow .. => []

end Request

namespace Snapshot

/-- The reply to a question. -/
def reply : Request → Viewing Reply
  | .destinationFields => return .fieldsByDestination (← viewDestinationFields)
  | .incoming => return .summary (← viewIncoming)
  | .outgoing => return .summary (← viewOutgoing)
  | .droppedFields => return .names (← viewFlow).droppedFields
  | .sources => return .endpoints (← viewFlow).sources
  | .destinations => return .endpoints (← viewFlow).destinations
  | .follow direction field => return .operations (← query direction field)

/-- The reply of a snapshot in a workspace, with what becomes of both. -/
def ask (snapshot : Snapshot) (request : Request) (workspace : Workspace) :
    (Except Failure Reply × Snapshot) × Workspace :=
  ((reply request).run.run snapshot).run workspace

/-- Whether a view is there, of those that a stored snapshot keeps. -/
def Holds (snapshot : Snapshot) (view : String) : Prop := (view, true) ∈ snapshot.storedViews

end Snapshot

end Lineage
