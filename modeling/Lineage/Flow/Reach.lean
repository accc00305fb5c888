import Lineage.Flow.Basic

/-!
# What a field depends on and what depends on it

`contributors` collects the operations that contributed to a field of a
destination, from the writes back to the reads.  `dependents` collects the
operations that used a field of a source.  Both start at the operations that
touch the field itself, and from there on follow every input of a transform,
since a transform may mix its inputs.  Reads and writes end the walk, and so do
origins that name no operation.

The walk takes each operation off the list of those not reached yet, so it ends
on cycles as well.
-/

namespace Lineage.Flow

/-- The operations reached from the pending ones, each once, in the order in which they are
reached. -/
def reach (next : Operation → List Operation) (unreached : List Operation) :
    List Operation → List Operation
  | [] => []
  | operation :: pending =>
    if operation ∈ unreached then
      operation :: reach next (unreached.erase operation) (next operation ++ pending)
    else reach next unreached pending
termination_by pending => (unreached.length, pending.length)
decreasing_by
  · rename_i hmem
    have hpos := List.length_pos_of_mem hmem
    simp only [List.length_erase_of_mem hmem]
    exact Prod.Lex.left _ _ (by omega)
  · exact Prod.Lex.right _ (by simp)

/-- The operations that inputs come from. -/
def originsOf (flow : Flow) (inputs : List FieldRef) : List Operation :=
  inputs.filterMap fun input => flow.operation? input.origin

/-- One step back: from a transform to the operations that its inputs come from. -/
def back (flow : Flow) (operation : Operation) : List Operation :=
  if operation.kind = .transform then flow.originsOf operation.inputs.toList else []

/-- One step ahead: from a transform to the operations that consume its output. -/
def ahead (flow : Flow) (operation : Operation) : List Operation :=
  if operation.kind = .transform then (flow.consumersOf operation.name).toList else []

/-- The inputs of a write that become the given field of its destination. -/
def matching (field : EndpointField) (write : Operation) : List FieldRef :=
  if write.endpoint? = some field.endpoint then
    write.inputs.toList.filter fun input => input.name = field.field
  else []

/-- The operations that contributed to a field of a destination. -/
def contributors (flow : Flow) (field : EndpointField) : OperationSet :=
  let writes := flow.writes.toList.filter fun write => !(matching field write).isEmpty
  let origins := flow.originsOf (writes.flatMap (matching field))
  SortedSet.ofList (writes ++ reach flow.back flow.operations.toList origins)

/-- Whether a read produces the given field of its source. -/
def produces (field : EndpointField) (read : Operation) : Bool :=
  read.endpoint? = some field.endpoint ∧ field.field.text ∈ read.outputs

/-- The operations that use a field of a source, directly or through transforms. -/
def dependents (flow : Flow) (field : EndpointField) : OperationSet :=
  let reads := flow.reads.toList.filter (produces field)
  let users := reads.flatMap fun read =>
    (flow.consumersOf read.name).toList.filter fun consumer =>
      decide (⟨read.name, field.field⟩ ∈ consumer.inputs)
  SortedSet.ofList (reads ++ reach flow.ahead flow.operations.toList users)

/-- The two ways to follow a field. -/
inductive Direction where
  | incoming
  | outgoing
deriving DecidableEq, Repr

/-- The word for a direction. -/
def Direction.label : Direction → String
  | incoming => "incoming"
  | outgoing => "outgoing"

/-- The operations found when a field is followed in a direction. -/
def follow (flow : Flow) : Direction → EndpointField → OperationSet
  | .incoming => flow.contributors
  | .outgoing => flow.dependents

end Lineage.Flow
