import Lineage.Flow.Summary

/-!
# Inquiries on one ledger

What can be asked of a flow one after another, in any order and as often as one
likes.  All inquiries share a ledger, and what one of them settled stays there
for the next even if it failed.
-/

namespace Lineage

/-- A question about a flow. -/
inductive Inquiry where
  | sourcesThrough (name : Name)
  | incoming
  /-- The outgoing summary for an incoming one, if it is given, else for that of the flow. -/
  | outgoing (given : Option Summary)
  | destinationFields

/-- What an inquiry finds. -/
inductive Finding where
  | fields (found : SortedSet EndpointField)
  | summary (found : Summary)
  | destinations (found : SortedMap (Option Endpoint) (SortedSet Name))

namespace Flow

/-- What an inquiry finds on the ledger of those before it. -/
def answer (flow : Flow) : Inquiry → Tracing Finding
  | .sourcesThrough name => return .fields (← flow.sourcesThrough name)
  | .incoming => return .summary (← flow.incoming)
  | .outgoing (some incoming) => return .summary (← flow.outgoing incoming)
  | .outgoing none => return .summary (← flow.ownOutgoing)
  | .destinationFields => return .destinations flow.destinationFields

/-- The ledger after inquiries one after another. -/
def ledgerAfter (flow : Flow) (inquiries : List Inquiry) : Ledger :=
  inquiries.foldl (fun ledger inquiry => ((flow.answer inquiry).run ledger).2) []

end Flow

end Lineage
