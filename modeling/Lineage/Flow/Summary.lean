import Lineage.Flow.Walk

/-!
# Summaries of a flow

The incoming summary says of every written field which source fields it was
computed from; the outgoing summary says of every source field what was
computed from it, and marks with an empty entry the source fields that a
transform dropped.  Both extend the ledger of the flow.
-/

namespace Lineage

/-- For each of some endpoint fields, a set of others. -/
abbrev Summary := SortedMap EndpointField (SortedSet EndpointField)

namespace Summary

/-- The summary with more fields under a key. -/
def extend (summary : Summary) (key : EndpointField) (fields : SortedSet EndpointField) : Summary :=
  summary.alter key fun known => known.getD ∅ ∪ fields

/-- The summary read the other way round. -/
def inverse (summary : Summary) : Summary :=
  summary.toList.foldl (fun inverted (key, fields) =>
    fields.toList.foldl (fun inverted field => inverted.extend field (SortedSet.ofList [key]))
      inverted) ∅

end Summary

namespace Flow

/-- The field names written to each destination; dropped fields count under every one. -/
def destinationFields (flow : Flow) : SortedMap (Option Endpoint) (SortedSet Name) :=
  flow.writes.toList.foldl (fun fields write =>
    fields.alter write.endpoint? fun known => known.getD ∅ ∪ write.consumed ∪ flow.droppedFields) ∅

/-- The source fields that one input brings to a write.  From a read a write takes all the fields
that it consumes of it, as a transform does. -/
def writtenSources (flow : Flow) (write : Operation) (input : FieldRef) :
    Tracing (SortedSet EndpointField) :=
  match flow.operation? input.origin with
  | none => return ∅
  | some origin =>
    match origin.kind with
    | .read =>
      (write.inputs.toList.filter fun other => other.origin = input.origin).foldlM
        (fun sources other => do
          let field ← fieldOf origin.endpoint? other.name
          return sources.insert field) ∅
    | .transform => flow.sourcesThrough input.origin
    | .write => return ∅

/-- The source fields that each written field was computed from; a field that was computed from
none is left out. -/
def incoming (flow : Flow) : Tracing Summary :=
  flow.writes.toList.foldlM (fun summary write =>
    write.inputs.toList.foldlM (fun summary input => do
      let destination ← fieldOf write.endpoint? input.name
      let sources ← flow.writtenSources write input
      return if sources.isEmpty then summary else summary.extend destination sources) summary) ∅

/-- The endpoints from which a dropped field of a transform could have been read. -/
def endpointsFeeding (flow : Flow) (transform : Operation) (field : Name) :
    Tracing (SortedSet (Option Endpoint)) :=
  (transform.inputs.toList.filter fun input => input.name = field).foldlM (fun endpoints input =>
    match flow.operation? input.origin with
    | none => return endpoints
    | some origin =>
      match origin.kind with
      | .read => return endpoints.insert origin.endpoint?
      | .transform => do
        let sources ← flow.sourcesThrough input.origin
        return endpoints ∪ sources.map fun source => some source.endpoint
      | .write => return endpoints) ∅

/-- The summary with an empty entry for each source field that one dropped field could be, unless
there is an entry. -/
def markDropped (flow : Flow) (name : Name) (summary : Summary) (field : Name) :
    Tracing Summary := do
  match flow.operation? name with
  | none => return summary
  | some operation =>
    if operation.kind = .read then throw (.hiddenTransform name)
    else
      let endpoints ← flow.endpointsFeeding operation field
      endpoints.toList.foldlM (fun summary endpoint => do
        let source ← fieldOf endpoint field
        return summary.extend source ∅) summary

/-- The fields that were computed from each source field, given the incoming summary. -/
def outgoing (flow : Flow) (incoming : Summary) : Tracing Summary :=
  flow.dropped.toList.foldlM (fun summary (name, fields) =>
    fields.toList.foldlM (flow.markDropped name) summary) incoming.inverse

/-- The outgoing summary for the incoming summary of the flow. -/
def ownOutgoing (flow : Flow) : Tracing Summary := do
  let incoming ← flow.incoming
  flow.outgoing incoming

end Flow

end Lineage
