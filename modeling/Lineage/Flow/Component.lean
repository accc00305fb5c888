import Lineage.Fault
import Lineage.Flow.Basic

/-!
# Components and the ledger

Every output of a transform depends on all its inputs, so the source fields
that reach a transform are the same for all of its outputs.  They are worked
out once: transforms that feed one another in a circle share one answer, and
such a circle, or a single transform outside all circles, is a component.
Settled components go into a ledger, which later questions use and extend.

A component is settled from its own inputs and from the ledger alone, so
everything that feeds it from outside has to be in the ledger before.
-/

namespace Lineage

/-- Transforms that feed one another, and the source fields that reach them. -/
structure Component where
  members : List Name
  sources : SortedSet EndpointField

/-- The settled components, the latest first. -/
abbrev Ledger := List Component

/-- Why the sources or the uses of a field cannot be told. -/
inductive TracingFault where
  /-- The field would be one of an endpoint that is missing. -/
  | missingEndpoint
  /-- A read hides the transform of the same name that drops fields. -/
  | hiddenTransform (name : Name)
  /-- The ledger was asked for a transform before its component was settled. -/
  | unsettled (name : Name)
deriving DecidableEq

/-- A computation that extends the ledger, and that may fail. -/
abbrev Tracing (α : Type) := ExceptT TracingFault (StateM Ledger) α

namespace Ledger

/-- The settled source fields of a transform. -/
def sources? (ledger : Ledger) (name : Name) : Option (SortedSet EndpointField) :=
  (ledger.find? fun component => component.members.contains name).map Component.sources

end Ledger

namespace Flow

/-- A field of an endpoint that may be missing. -/
def fieldOf : Option Endpoint → Name → Except TracingFault EndpointField
  | some endpoint, field => .ok ⟨endpoint, field⟩
  | none, _ => .error .missingEndpoint

/-- The operation of a name, if it is a transform. -/
def transform? (flow : Flow) (name : Name) : Option Operation :=
  (flow.operation? name).filter fun operation => operation.kind = .transform

/-- The transforms that feed a transform directly. -/
def feeding (flow : Flow) (name : Name) : List Name :=
  match flow.transform? name with
  | none => []
  | some transform =>
    transform.origins.toList.filter fun origin => (flow.transform? origin).isSome

/-- The inputs of a transform. -/
def inputsOf (flow : Flow) (name : Name) : List FieldRef :=
  ((flow.transform? name).map fun transform => transform.inputs.toList).getD []

/-- The source fields that an input of a component brings along: the field itself if its origin is
a read, and all that reaches its origin if that is a transform outside the component. -/
def inputSources (flow : Flow) (ledger : Ledger) (members : List Name) (input : FieldRef) :
    Except TracingFault (SortedSet EndpointField) :=
  match flow.operation? input.origin with
  | none => .ok ∅
  | some origin =>
    match origin.kind with
    | .read => (fieldOf origin.endpoint? input.name).map fun field => SortedSet.ofList [field]
    | .transform =>
      if members.contains input.origin then .ok ∅
      else
        match ledger.sources? input.origin with
        | some sources => .ok sources
        | none => .error (.unsettled input.origin)
    | .write => .ok ∅

/-- The source fields of all members of a component together. -/
def componentSources (flow : Flow) (ledger : Ledger) (members : List Name) :
    Except TracingFault (SortedSet EndpointField) :=
  (members.flatMap flow.inputsOf).foldlM (fun sources input =>
    (flow.inputSources ledger members input).map (sources ∪ ·)) ∅

/-- The ledger with one more component. -/
def settle (flow : Flow) (ledger : Ledger) (members : List Name) : Except TracingFault Ledger :=
  (flow.componentSources ledger members).map fun sources => ⟨members, sources⟩ :: ledger

end Flow

end Lineage
