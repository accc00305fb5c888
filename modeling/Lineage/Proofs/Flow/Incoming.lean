import Lineage.Proofs.Flow.Admission
import Lineage.Proofs.Flow.Gathering

/-!
# The incoming summary is exact

A source field flows into a field of a destination if some write carries it
there (`EndpointField.FlowsInto`).  What a write carries is said of the
operations alone: an input whose origin is a transform brings all that the
transform receives, and one whose origin is a read brings all fields of this
read among the inputs of the write.

The summary says this and nothing else (`Traceable.gives_incoming`).
-/

namespace Lineage

namespace Operation

/-- From an origin that is a read a write takes over all the fields that it consumes of it, and
from a transform all that the transform receives. -/
def TakesOver (operations : OperationSet) (write : Operation) (origin : Name)
    (source : EndpointField) : Prop :=
  (∃ read ∈ operations, read.name = origin ∧ read.kind = .read ∧
    read.endpoint? = some source.endpoint ∧ (⟨origin, source.field⟩ : FieldRef) ∈ write.inputs) ∨
  ∃ transform ∈ operations, transform.name = origin ∧ transform.kind = .transform ∧
    transform.Receives operations (some source.endpoint) source.field

/-- The operation is a write to the destination, and takes the source field over from the origin of
an input of the destination field's name. -/
def Carries (operations : OperationSet) (write : Operation) (source destination : EndpointField) :
    Prop :=
  write.kind = .write ∧ write.endpoint? = some destination.endpoint ∧
    ∃ input ∈ write.inputs, input.name = destination.field ∧
      write.TakesOver operations input.origin source

end Operation

/-- Some write carries the source field to the destination field. -/
def EndpointField.FlowsInto (operations : OperationSet) (source destination : EndpointField) :
    Prop :=
  ∃ write ∈ operations, write.Carries operations source destination

namespace Flow

variable {operations : OperationSet}

/-- The fields of one endpoint by their names. -/
theorem adds_fieldsOf (flow : Flow) (endpoint : Endpoint) (inputs : List FieldRef) :
    flow.Adds Membership.mem (fun sources : SortedSet EndpointField =>
        inputs.foldlM (fun sources other => do
          let field ← fieldOf (some endpoint) other.name
          return sources.insert field) sources)
      fun source => ∃ input ∈ inputs, source = ⟨endpoint, input.name⟩ := by
  refine adds_foldlM fun input _ => .bind (gives_lift _) (adds_pure _ fun before source => ?_)
  exact SortedSet.mem_insert.trans or_comm

namespace Traceable

variable (traceable : Traceable operations)
include traceable

/-- The source fields of a transform are told, and none of them lacks its endpoint. -/
theorem gives_sourcesThrough {transform : Operation} (hmem : transform ∈ operations)
    (hkind : transform.kind = .transform) :
    ∃ sources, (index operations).Gives ((index operations).sourcesThrough transform.name)
        (.ok sources) ∧
      ∀ source, source ∈ sources ↔
        transform.Receives operations (some source.endpoint) source.field := by
  obtain ⟨result, hgives, htells⟩ := Flow.gives_sourcesThrough (index operations) transform.name
  have htells := htells.congr fun source field => traceable.unique.receives_iff hmem hkind
  have hnone : ¬ ∃ field, transform.Receives operations none field :=
    fun ⟨field, hfield⟩ => Operation.not_receives_none traceable.sourced hfield
  obtain ⟨sources, rfl, hsources⟩ := htells.exists_ok hnone
  exact ⟨sources, hgives, hsources⟩

theorem gives_writtenSources (write : Operation) (input : FieldRef) :
    ∃ sources, (index operations).Gives ((index operations).writtenSources write input)
        (.ok sources) ∧
      ∀ source, source ∈ sources ↔ write.TakesOver operations input.origin source := by
  unfold writtenSources Operation.TakesOver
  cases horigin : (index operations).operation? input.origin with
  | none =>
      -- an origin that names no operation brings nothing, in the summary as here
      refine ⟨∅, gives_pure ∅, fun source => iff_of_false (SortedSet.not_mem_empty source) ?_⟩
      exact not_or.2 ⟨not_exists_of_operation? horigin, not_exists_of_operation? horigin⟩
  | some origin =>
      obtain ⟨hmem, hname⟩ := traceable.unique.operation?_eq_some.1 horigin
      dsimp only
      simp only [← hname, traceable.unique.exists_iff hmem]
      cases hkind : origin.kind with
      | read =>
          obtain ⟨endpoint, hendpoint⟩ :=
            Option.ne_none_iff_exists'.1 (traceable.sourced origin hmem hkind)
          rw [hendpoint]
          obtain ⟨sources, hgives, hsources⟩ := adds_fieldsOf (index operations) endpoint
            (write.inputs.toList.filter fun other => other.origin = origin.name) ∅
          refine ⟨sources, hgives, fun source => ?_⟩
          rw [hsources, or_iff_right (SortedSet.not_mem_empty source)]
          simp only [List.mem_filter, decide_eq_true_eq, true_and, reduceCtorEq, false_and,
            or_false, Option.some.injEq]
          constructor
          · rintro ⟨⟨_, field⟩, ⟨hinput, rfl⟩, rfl⟩
            exact ⟨rfl, hinput⟩
          · rintro ⟨rfl, hinput⟩
            exact ⟨_, ⟨hinput, rfl⟩, rfl⟩
      | transform =>
          obtain ⟨sources, hgives, hsources⟩ := traceable.gives_sourcesThrough hmem hkind
          exact ⟨sources, hgives, fun source => by simp [hsources]⟩
      | write => exact ⟨∅, gives_pure ∅, fun source => by simp⟩

/-- An input of a write brings what the write takes over from its origin. -/
theorem adds_written {write : Operation} {endpoint : Endpoint}
    (hendpoint : write.endpoint? = some endpoint) (input : FieldRef) :
    (index operations).Adds Summary.Says (fun summary => do
        let destination ← fieldOf write.endpoint? input.name
        let sources ← (index operations).writtenSources write input
        return if sources.isEmpty then summary else summary.extend destination sources)
      fun fact => ∃ source, write.TakesOver operations input.origin source ∧
        fact.IsPair ⟨endpoint, input.name⟩ source := by
  obtain ⟨sources, hgives, hsources⟩ := traceable.gives_writtenSources write input
  rw [hendpoint]
  refine .bind (gives_lift _) (.bind hgives (adds_pure _ fun before fact => ?_))
  simp only [← hsources]
  split
  · -- no entry is made for an input that brings nothing
    rename_i hempty
    simp [SortedSet.isEmpty_iff.1 hempty]
  · rename_i hempty
    obtain ⟨source, hsource⟩ := not_forall_not.1 fun h => hempty (SortedSet.isEmpty_iff.2 h)
    rw [Summary.says_extend]
    refine or_congr_right ⟨?_, ?_⟩
    · rintro (rfl | ⟨other, hother, rfl⟩)
      · exact ⟨source, hsource, .inl rfl⟩
      · exact ⟨other, hother, .inr rfl⟩
    · rintro ⟨other, hother, rfl | rfl⟩
      · exact .inl rfl
      · exact .inr ⟨other, hother, rfl⟩

/-- The inputs of a write bring what the write carries. -/
theorem adds_write {write : Operation} (hmem : write ∈ operations) (hkind : write.kind = .write) :
    (index operations).Adds Summary.Says (fun summary =>
        write.inputs.toList.foldlM (fun summary input => do
          let destination ← fieldOf write.endpoint? input.name
          let sources ← (index operations).writtenSources write input
          return if sources.isEmpty then summary else summary.extend destination sources) summary)
      fun fact => ∃ source destination, write.Carries operations source destination ∧
        fact.IsPair destination source := by
  obtain ⟨endpoint, hendpoint⟩ := Option.ne_none_iff_exists'.1 (traceable.destined write hmem hkind)
  refine (adds_foldlM fun input _ => traceable.adds_written hendpoint input).congr fun fact => ?_
  constructor
  · intro hbrings
    obtain ⟨input, hinput, source, htakes, hpair⟩ := hbrings
    have hcarries : write.Carries operations source ⟨endpoint, input.name⟩ :=
      ⟨hkind, hendpoint, input, hinput, rfl, htakes⟩
    exact ⟨source, ⟨endpoint, input.name⟩, hcarries, hpair⟩
  · intro hcarries
    obtain ⟨source, ⟨_, _⟩, ⟨-, hother, input, hinput, rfl, htakes⟩, hpair⟩ := hcarries
    obtain rfl := Option.some_inj.1 (hendpoint.symm.trans hother)
    exact ⟨input, hinput, source, htakes, hpair⟩

/-- The incoming summary is told, and states of each destination field all that flows into it. -/
theorem gives_incoming :
    ∃ summary, (index operations).Gives (index operations).incoming (.ok summary) ∧
      (∀ destination source, source ∈ summary.fieldsOf destination ↔
        source.FlowsInto operations destination) ∧
      ∀ destination, destination ∈ summary.keys ↔
        ∃ source : EndpointField, source.FlowsInto operations destination := by
  obtain ⟨summary, hgives, hsummary⟩ := adds_foldlM
    (fun write (hwrite : write ∈ (index operations).writes.toList) =>
      have ⟨hmem, hkind⟩ := mem_writes_index.1 hwrite
      traceable.adds_write hmem hkind) ∅
  have hsays : ∀ fact, summary.Says fact ↔ ∃ source destination,
      source.FlowsInto operations destination ∧ fact.IsPair destination source := by
    intro fact
    rw [hsummary, or_iff_right Summary.not_says_empty]
    constructor
    · intro hbrings
      obtain ⟨write, hwrite, source, destination, hcarries, hpair⟩ := hbrings
      exact ⟨source, destination, ⟨write, (mem_writes_index.1 hwrite).1, hcarries⟩, hpair⟩
    · intro hflows
      obtain ⟨source, destination, ⟨write, hmem, hcarries⟩, hpair⟩ := hflows
      exact ⟨write, mem_writes_index.2 ⟨hmem, hcarries.1⟩, source, destination, hcarries, hpair⟩
  exact ⟨summary, hgives, Summary.mem_fieldsOf_of_says hsays, Summary.mem_keys_of_says hsays⟩

end Traceable

/-- The incoming summary of a valid snapshot can always be told, whatever was asked before.  It
lists a source field under a destination field exactly if it flows into it, and has no empty
entries. -/
theorem incoming_of_accept {flow : Flow} (h : accept operations = .ok flow)
    (earlier : List Inquiry) :
    ∃ summary, (flow.incoming.run (flow.ledgerAfter earlier)).1 = .ok summary ∧
      ∀ destination,
        (∀ source, source ∈ summary.fieldsOf destination ↔
          source.FlowsInto operations destination) ∧
        (destination ∈ summary.keys ↔
          ∃ source : EndpointField, source.FlowsInto operations destination) ∧
        summary.find? destination ≠ some ∅ := by
  obtain ⟨rfl, admitted⟩ := accept_eq_ok_iff.1 h
  obtain ⟨summary, hgives, hlists, hkeys⟩ := admitted.gives_incoming
  refine ⟨summary, (hgives _ (sound_ledgerAfter _ earlier)).1, fun destination =>
    ⟨fun source => hlists destination source, hkeys destination, fun hempty => ?_⟩⟩
  obtain ⟨hkey, hnone⟩ := Summary.find?_eq_some_empty.1 hempty
  obtain ⟨source, hflows⟩ := (hkeys destination).1 hkey
  exact hnone source ((hlists destination source).2 hflows)

namespace Sample

theorem admitted : Admitted snapshot where
  unique := by decide +kernel
  sourced := by decide +kernel
  destined := by decide +kernel
  hasRead := by decide +kernel
  hasWrite := by decide +kernel
  knownOrigins := by decide +kernel

theorem accepted : accept snapshot = .ok (index snapshot) := accept_eq_ok_iff.2 ⟨rfl, admitted⟩

theorem body_flowsInto_text :
    (⟨peopleFile, body⟩ : EndpointField).FlowsInto snapshot ⟨storeFile, text⟩ :=
  ⟨store, by decide +kernel, rfl, rfl, ⟨clean.name, text⟩, by decide +kernel, rfl,
    .inr ⟨clean, by decide +kernel, rfl, rfl, clean_receives⟩⟩

end Sample

theorem incoming_sample : accept Sample.snapshot = .ok (index Sample.snapshot) ∧ ∃ summary,
    ((index Sample.snapshot).incoming.run
      ((index Sample.snapshot).ledgerAfter [.sourcesThrough Sample.clean.name])).1 =
        .ok summary ∧
    ⟨Sample.peopleFile, Sample.body⟩ ∈ summary.fieldsOf ⟨Sample.storeFile, Sample.text⟩ := by
  obtain ⟨summary, hresult, hexact⟩ :=
    incoming_of_accept Sample.accepted [.sourcesThrough Sample.clean.name]
  exact ⟨Sample.accepted, summary, hresult, ((hexact _).1 _).2 Sample.body_flowsInto_text⟩

end Flow

end Lineage
