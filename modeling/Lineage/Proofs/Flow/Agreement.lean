import Lineage.Proofs.Flow.Outgoing
import Lineage.Proofs.Flow.Reach

/-!
# Summaries and following agree

Following a field back goes through operations one at a time, and so does
following it ahead, in the other direction.  Both are said here in terms of the
same relation upstream that the summaries are exact about.

Hence the reads that contribute to a field have the endpoints that the incoming
summary lists for it (`endpointsOf_contributors`).  Following ahead starts only at reads
that produce the field, so it may find fewer writes than the outgoing summary
lists destinations, but not if every input from a read names one of the outputs
of the read (`NamesOutputs`).
-/

namespace Lineage

open Relation

namespace Operation

variable {operations : OperationSet} {operation : Operation} {source : Option Endpoint}

theorem exists_takes : (∃ field, operation.Takes operations source field) ↔
    ∃ read ∈ operations, read.kind = .read ∧ read.endpoint? = source ∧
      read.name ∈ operation.origins := by
  constructor
  · intro htakes
    obtain ⟨field, read, hmem, hkind, hsource, hinput⟩ := htakes
    exact ⟨read, hmem, hkind, hsource, mem_origins.2 ⟨_, hinput, rfl⟩⟩
  · intro hread
    obtain ⟨read, hmem, hkind, hsource, horigin⟩ := hread
    obtain ⟨⟨_, field⟩, hinput, rfl⟩ := mem_origins.1 horigin
    exact ⟨field, read, hmem, hkind, hsource, hinput⟩

/-- What a write receives it takes over from the origin of some input. -/
theorem receives_iff_takesOver {source : EndpointField} :
    operation.Receives operations (some source.endpoint) source.field ↔
      ∃ input ∈ operation.inputs, operation.TakesOver operations input.origin source := by
  constructor
  · intro hreceives
    obtain ⟨upstream, hupstream, htakes⟩ := hreceives
    rcases hupstream.cases_head with rfl | ⟨transform, ⟨hmem, hkind, horigin⟩, hbeyond⟩
    · obtain ⟨read, hmem, hkind, hsource, hinput⟩ := htakes
      exact ⟨_, hinput, .inl ⟨read, hmem, rfl, hkind, hsource, hinput⟩⟩
    · obtain ⟨input, hinput, hname⟩ := mem_origins.1 horigin
      exact ⟨input, hinput, .inr ⟨transform, hmem, hname.symm, hkind, upstream, hbeyond, htakes⟩⟩
  · rintro ⟨input, hinput, ⟨read, hmem, hname, hkind, hsource, hfield⟩ |
      ⟨transform, hmem, hname, hkind, upstream, hupstream, htakes⟩⟩
    · exact ⟨operation, .refl, read, hmem, hkind, hsource, hname ▸ hfield⟩
    · have hfed : operation.FedBy operations transform :=
        ⟨hmem, hkind, mem_origins.2 ⟨input, hinput, hname.symm⟩⟩
      exact ⟨upstream, hupstream.head hfed, htakes⟩

/-- What is taken over from the origin of an input has the endpoints that feed the origin. -/
theorem exists_takesOver {input : FieldRef} (hinput : input ∈ operation.inputs)
    {endpoint : Endpoint} :
    (∃ field, operation.TakesOver operations input.origin ⟨endpoint, field⟩) ↔
      FeedsFrom operations input.origin endpoint := by
  constructor
  · rintro ⟨field, ⟨read, hmem, hname, hkind, hendpoint, -⟩ |
      ⟨transform, hmem, hname, hkind, hreceives⟩⟩
    · exact .inl ⟨read, hmem, hname, hkind, hendpoint⟩
    · exact .inr ⟨transform, hmem, hname, hkind, field, hreceives⟩
  · rintro (⟨read, hmem, hname, hkind, hendpoint⟩ |
      ⟨transform, hmem, hname, hkind, field, hreceives⟩)
    · exact ⟨input.name, .inl ⟨read, hmem, hname, hkind, hendpoint, hinput⟩⟩
    · exact ⟨field, .inr ⟨transform, hmem, hname, hkind, hreceives⟩⟩

theorem FeedsFrom.exists_origin {origin : Name} {endpoint : Endpoint}
    (h : FeedsFrom operations origin endpoint) : ∃ start ∈ operations, start.name = origin := by
  rcases h with ⟨read, hmem, hname, -⟩ | ⟨transform, hmem, hname, -⟩
  · exact ⟨read, hmem, hname⟩
  · exact ⟨transform, hmem, hname⟩

end Operation

namespace Flow

variable {operations : OperationSet} {start operation : Operation}

/-! ## Going back -/

theorem UniqueNames.mem_back_iff (unique : UniqueNames operations) {before : Operation} :
    operation ∈ (index operations).back before ↔
      before.kind = .transform ∧ operation ∈ operations ∧ operation.name ∈ before.origins := by
  rw [mem_back]
  refine and_congr_right fun _ => ?_
  simp only [unique.operation?_eq_some, Operation.mem_origins]
  constructor
  · rintro ⟨input, hinput, hmem, hname⟩
    exact ⟨hmem, input, hinput, hname.symm⟩
  · rintro ⟨hmem, input, hinput, hname⟩
    exact ⟨input, hinput, hmem, hname.symm⟩

/-- A transform to which one gets by going back is upstream of a transform. -/
theorem UniqueNames.upstream_of_back (unique : UniqueNames operations)
    (h : Reached (index operations).back start operation) (hkind : operation.kind = .transform) :
    start.kind = .transform ∧ start.Upstream operations operation := by
  induction h with
  | refl => exact ⟨hkind, .refl⟩
  | tail _ hstep ih =>
      obtain ⟨hmiddle, hmem, horigin⟩ := unique.mem_back_iff.1 hstep
      obtain ⟨hstart, hupstream⟩ := ih hmiddle
      exact ⟨hstart, hupstream.tail ⟨hmem, hkind, horigin⟩⟩

theorem UniqueNames.back_of_upstream (unique : UniqueNames operations)
    (hkind : start.kind = .transform) (h : start.Upstream operations operation) :
    operation.kind = .transform ∧ Reached (index operations).back start operation := by
  induction h with
  | refl => exact ⟨hkind, .refl⟩
  | tail _ hstep ih =>
      obtain ⟨hmem, hlast, horigin⟩ := hstep
      exact ⟨hlast, ih.2.tail (unique.mem_back_iff.2 ⟨ih.1, hmem, horigin⟩)⟩

/-- The reads to which one gets by going back feed what one started from. -/
theorem UniqueNames.back_to_read_iff (unique : UniqueNames operations) (hstart : start ∈ operations)
    {endpoint : Endpoint} :
    (∃ read, read.kind = .read ∧ read.endpoint? = some endpoint ∧
        Reached (index operations).back start read) ↔
      Operation.FeedsFrom operations start.name endpoint := by
  unfold Operation.FeedsFrom
  simp only [unique.exists_iff hstart]
  constructor
  · intro hread
    obtain ⟨read, hkind, hendpoint, hpath⟩ := hread
    rcases hpath.cases_tail with rfl | ⟨last, hlast, hstep⟩
    · exact .inl ⟨hkind, hendpoint⟩
    · obtain ⟨hlastkind, hmem, horigin⟩ := unique.mem_back_iff.1 hstep
      obtain ⟨hstartkind, hupstream⟩ := unique.upstream_of_back hlast hlastkind
      obtain ⟨field, htakes⟩ := Operation.exists_takes.2 ⟨read, hmem, hkind, hendpoint, horigin⟩
      exact .inr ⟨hstartkind, field, last, hupstream, htakes⟩
  · rintro (⟨hkind, hendpoint⟩ | ⟨hkind, field, last, hupstream, htakes⟩)
    · exact ⟨start, hkind, hendpoint, .refl⟩
    · obtain ⟨hlastkind, hpath⟩ := unique.back_of_upstream hkind hupstream
      obtain ⟨read, hmem, hreadkind, hendpoint, horigin⟩ := Operation.exists_takes.1 ⟨field, htakes⟩
      have hstep := unique.mem_back_iff.2 ⟨hlastkind, hmem, horigin⟩
      exact ⟨read, hreadkind, hendpoint, hpath.tail hstep⟩

/-- The reads that contribute to a field feed the origins of the inputs that are written to it. -/
theorem UniqueNames.read_mem_contributors (unique : UniqueNames operations)
    {destination : EndpointField} {endpoint : Endpoint} :
    (∃ read ∈ (index operations).contributors destination, read.kind = .read ∧
        read.endpoint? = some endpoint) ↔
      ∃ write ∈ operations, write.kind = .write ∧ ∃ input ∈ matching destination write,
        Operation.FeedsFrom operations input.origin endpoint := by
  constructor
  · intro hfound
    obtain ⟨read, hread, hkind, hendpoint⟩ := hfound
    rcases mem_contributors.1 hread with ⟨-, hwrite, -⟩ | ⟨start, hstart, hpath⟩
    · -- the writes themselves are no reads
      simp [hkind] at hwrite
    · obtain ⟨write, hwrite, hwritekind, input, hinput, hfound⟩ := hstart
      obtain ⟨hmem, hname⟩ := mem_of_operation? hfound
      have hfeeds := (unique.back_to_read_iff hmem).1 ⟨read, hkind, hendpoint, hpath⟩
      exact ⟨write, hwrite, hwritekind, input, hinput, hname ▸ hfeeds⟩
  · intro hwritten
    obtain ⟨write, hwrite, hwritekind, input, hinput, hfeeds⟩ := hwritten
    obtain ⟨start, hmem, hname⟩ := hfeeds.exists_origin
    obtain ⟨read, hkind, hendpoint, hpath⟩ :=
      (unique.back_to_read_iff hmem).2 (hname.symm ▸ hfeeds)
    have hfound := unique.operation?_eq_some.2 ⟨hmem, hname⟩
    have hread : read ∈ (index operations).contributors destination :=
      mem_contributors.2
        (.inr ⟨start, ⟨write, hwrite, hwritekind, input, hinput, hfound⟩, hpath⟩)
    exact ⟨read, hread, hkind, hendpoint⟩

/-! ## Going ahead -/

/-- Going ahead from an operation one gets to all that it is upstream of. -/
theorem ahead_iff_upstream (hstart : start ∈ operations) :
    Reached (index operations).ahead start operation ↔
      operation ∈ operations ∧ operation.Upstream operations start := by
  constructor
  · intro h
    -- each step ahead is a step of the other relation, taken from its far end
    induction h with
    | refl => exact ⟨hstart, .refl⟩
    | tail _ hstep ih =>
        obtain ⟨hkind, hmem, horigin⟩ := mem_ahead.1 hstep
        exact ⟨hmem, ih.2.head ⟨ih.1, hkind, horigin⟩⟩
  · rintro ⟨hmem, h⟩
    induction h using ReflTransGen.head_induction_on with
    | refl => exact .refl
    | head hfed _ ih =>
        obtain ⟨hmiddle, hkind, horigin⟩ := hfed
        exact (ih hmiddle).tail (mem_ahead.2 ⟨hkind, hmem, horigin⟩)

/-- A write is found from a field if something upstream of it consumes the field of a read that
produces it. -/
theorem write_mem_dependents {field : EndpointField} (hkind : operation.kind = .write) :
    operation ∈ (index operations).dependents field ↔ operation ∈ operations ∧
      ∃ user, operation.Upstream operations user ∧ ∃ read ∈ operations, read.kind = .read ∧
        produces field read = true ∧ (⟨read.name, field.field⟩ : FieldRef) ∈ user.inputs := by
  rw [mem_dependents, hkind]
  simp only [reduceCtorEq, false_and, and_false, false_or]
  constructor
  · intro hfound
    obtain ⟨user, ⟨read, hread, hreadkind, hproduces, huser, hinput⟩, hpath⟩ := hfound
    obtain ⟨hmem, hupstream⟩ := (ahead_iff_upstream huser).1 hpath
    exact ⟨hmem, user, hupstream, read, hread, hreadkind, hproduces, hinput⟩
  · intro hused
    obtain ⟨hmem, user, hupstream, read, hread, hreadkind, hproduces, hinput⟩ := hused
    have huser := hupstream.mem hmem
    exact ⟨user, ⟨read, hread, hreadkind, hproduces, huser, hinput⟩,
      (ahead_iff_upstream huser).2 ⟨hmem, hupstream⟩⟩

/-- Every input whose origin is a read names one of its outputs. -/
def NamesOutputs (operations : OperationSet) : Prop :=
  ∀ operation ∈ operations, ∀ input ∈ operation.inputs, ∀ read ∈ operations, read.kind = .read →
    read.name = input.origin → input.name.text ∈ read.outputs

/-- The writes found from a field receive it. -/
theorem receives_of_write_mem_dependents {field : EndpointField} (hkind : operation.kind = .write)
    (h : operation ∈ (index operations).dependents field) :
    operation.Receives operations (some field.endpoint) field.field := by
  obtain ⟨-, user, hupstream, read, hread, hreadkind, hproduces, hinput⟩ :=
    (write_mem_dependents hkind).1 h
  exact ⟨user, hupstream, read, hread, hreadkind, (produces_iff.1 hproduces).1, hinput⟩

/-- If inputs from reads name their outputs, all writes that receive a field are found from it. -/
theorem NamesOutputs.write_mem_dependents (names : NamesOutputs operations) {field : EndpointField}
    (hmem : operation ∈ operations) (hkind : operation.kind = .write)
    (h : operation.Receives operations (some field.endpoint) field.field) :
    operation ∈ (index operations).dependents field := by
  obtain ⟨user, hupstream, read, hread, hreadkind, hendpoint, hinput⟩ := h
  have hnames := names user (hupstream.mem hmem) _ hinput read hread hreadkind rfl
  have hproduces := produces_iff.2 ⟨hendpoint, hnames⟩
  exact (Flow.write_mem_dependents hkind).2
    ⟨hmem, user, hupstream, read, hread, hreadkind, hproduces, hinput⟩

end Flow

/-! ## What flows, by endpoints -/

namespace EndpointField

variable {operations : OperationSet}

theorem exists_flowsInto_destination {destination : EndpointField} {endpoint : Endpoint} :
    (∃ source : EndpointField, source.FlowsInto operations destination ∧
        source.endpoint = endpoint) ↔
      ∃ write ∈ operations, write.kind = .write ∧ ∃ input ∈ Flow.matching destination write,
        Operation.FeedsFrom operations input.origin endpoint := by
  simp only [Flow.mem_matching]
  constructor
  · intro hflows
    obtain ⟨⟨_, field⟩, ⟨write, hmem, hkind, hendpoint, hinputs⟩, rfl⟩ := hflows
    obtain ⟨input, hinput, hname, htakes⟩ := hinputs
    exact ⟨write, hmem, hkind, input, ⟨hendpoint, hinput, hname⟩,
      (Operation.exists_takesOver hinput).1 ⟨field, htakes⟩⟩
  · intro hwritten
    obtain ⟨write, hmem, hkind, input, ⟨hendpoint, hinput, hname⟩, hfeeds⟩ := hwritten
    obtain ⟨field, htakes⟩ := (Operation.exists_takesOver hinput).2 hfeeds
    have hflows : (⟨endpoint, field⟩ : EndpointField).FlowsInto operations destination :=
      ⟨write, hmem, hkind, hendpoint, input, hinput, hname, htakes⟩
    exact ⟨⟨endpoint, field⟩, hflows, rfl⟩

theorem exists_flowsInto_source {source : EndpointField} {endpoint : Endpoint} :
    (∃ destination, source.FlowsInto operations destination ∧ destination.endpoint = endpoint) ↔
      ∃ write ∈ operations, write.kind = .write ∧ write.endpoint? = some endpoint ∧
        write.Receives operations (some source.endpoint) source.field := by
  simp only [Operation.receives_iff_takesOver]
  constructor
  · intro hflows
    obtain ⟨destination, ⟨write, hmem, hkind, hendpoint, input, hinput, -, htakes⟩, rfl⟩ := hflows
    exact ⟨write, hmem, hkind, hendpoint, input, hinput, htakes⟩
  · intro hreceives
    obtain ⟨write, hmem, hkind, hendpoint, input, hinput, htakes⟩ := hreceives
    have hflows : source.FlowsInto operations ⟨endpoint, input.name⟩ :=
      ⟨write, hmem, hkind, hendpoint, input, hinput, rfl, htakes⟩
    exact ⟨⟨endpoint, input.name⟩, hflows, rfl⟩

end EndpointField

/-! ## Sets of endpoints -/

/-- The endpoints of the fields under a key. -/
def Summary.endpointsUnder (summary : Summary) (key : EndpointField) :
    SortedSet (Option Endpoint) :=
  (summary.fieldsOf key).map fun field => some field.endpoint

theorem Summary.mem_endpointsUnder {summary : Summary} {key : EndpointField} {endpoint : Endpoint} :
    some endpoint ∈ summary.endpointsUnder key ↔
      ∃ field ∈ summary.fieldsOf key, field.endpoint = endpoint := by
  simp [endpointsUnder]

theorem Summary.none_not_mem_endpointsUnder {summary : Summary} {key : EndpointField} :
    ¬ none ∈ summary.endpointsUnder key := by
  simp [endpointsUnder]

namespace Flow

/-- The endpoints of the operations of a kind. -/
def endpointsOf (kind : Kind) (operations : OperationSet) : SortedSet (Option Endpoint) :=
  (operations.filter fun operation => operation.kind = kind).map Operation.endpoint?

variable {operations : OperationSet}

theorem mem_endpointsOf {kind : Kind} {endpoint : Option Endpoint} :
    endpoint ∈ endpointsOf kind operations ↔
      ∃ operation ∈ operations, operation.kind = kind ∧ operation.endpoint? = endpoint := by
  simp [endpointsOf, and_assoc]

namespace Traceable

variable (traceable : Traceable operations) {summary : Summary}
include traceable

/-- The reads that contribute to a field have the endpoints from which something flows into it. -/
theorem endpointsOf_contributors {destination : EndpointField}
    (h : ∀ source, source ∈ summary.fieldsOf destination ↔
      source.FlowsInto operations destination) :
    endpointsOf .read ((index operations).contributors destination) =
      summary.endpointsUnder destination := by
  refine SortedSet.ext_mem fun endpoint => ?_
  cases endpoint with
  | none =>
      refine iff_of_false ?_ Summary.none_not_mem_endpointsUnder
      rw [mem_endpointsOf]
      rintro ⟨read, hread, hkind, hnone⟩
      exact traceable.sourced read (operations_of_contributors hread) hkind hnone
  | some endpoint =>
      rw [mem_endpointsOf, Summary.mem_endpointsUnder, traceable.unique.read_mem_contributors]
      simp only [h]
      exact EndpointField.exists_flowsInto_destination.symm

section Dependents

variable {source : EndpointField}
  (h : ∀ destination, destination ∈ summary.fieldsOf source ↔
    source.FlowsInto operations destination)
include h

/-- The writes found from a field have endpoints to which something flows from it. -/
theorem endpointsOf_dependents_subset {endpoint : Option Endpoint}
    (hendpoint : endpoint ∈ endpointsOf .write ((index operations).dependents source)) :
    endpoint ∈ summary.endpointsUnder source := by
  obtain ⟨write, hwrite, hkind, rfl⟩ := mem_endpointsOf.1 hendpoint
  have hmem := operations_of_dependents hwrite
  obtain ⟨endpoint, hendpoint⟩ := Option.ne_none_iff_exists'.1 (traceable.destined write hmem hkind)
  have hreceives := receives_of_write_mem_dependents hkind hwrite
  rw [hendpoint, Summary.mem_endpointsUnder]
  simp only [h]
  exact EndpointField.exists_flowsInto_source.2 ⟨write, hmem, hkind, hendpoint, hreceives⟩

theorem endpointsOf_dependents (names : NamesOutputs operations) :
    endpointsOf .write ((index operations).dependents source) = summary.endpointsUnder source := by
  refine SortedSet.ext_mem fun endpoint =>
    ⟨traceable.endpointsOf_dependents_subset h, fun hendpoint => ?_⟩
  cases endpoint with
  | none => exact absurd hendpoint Summary.none_not_mem_endpointsUnder
  | some endpoint =>
      rw [Summary.mem_endpointsUnder] at hendpoint
      simp only [h] at hendpoint
      obtain ⟨write, hmem, hkind, hendpoint, hreceives⟩ :=
        EndpointField.exists_flowsInto_source.1 hendpoint
      have hwrite := names.write_mem_dependents hmem hkind hreceives
      exact mem_endpointsOf.2 ⟨write, hwrite, hkind, hendpoint⟩

end Dependents

end Traceable

/-- On a valid snapshot the reads that contribute to a field have the endpoints that the incoming
summary lists for it.  The writes that depend on a field have only endpoints that the outgoing
summary lists for it, and have all of them if every input from a read names one of its outputs. -/
theorem following_agrees_with_summaries {flow : Flow} (h : accept operations = .ok flow)
    (earlier : List Inquiry) :
    ∃ incoming outgoing, (flow.incoming.run (flow.ledgerAfter earlier)).1 = .ok incoming ∧
      (flow.ownOutgoing.run (flow.ledgerAfter earlier)).1 = .ok outgoing ∧
      (∀ destination, endpointsOf .read (flow.contributors destination) =
        incoming.endpointsUnder destination) ∧
      ∀ source,
        (∀ endpoint ∈ endpointsOf .write (flow.dependents source),
          endpoint ∈ outgoing.endpointsUnder source) ∧
        (NamesOutputs operations →
          endpointsOf .write (flow.dependents source) = outgoing.endpointsUnder source) := by
  obtain ⟨rfl, admitted⟩ := accept_eq_ok_iff.1 h
  obtain ⟨incoming, hincoming, hinto, -⟩ := admitted.gives_incoming
  obtain ⟨outgoing, houtgoing, hfields, -⟩ := admitted.gives_outgoing incoming
  have sound := sound_ledgerAfter (index operations) earlier
  have hflows (source destination : EndpointField) :
      destination ∈ outgoing.fieldsOf source ↔ source.FlowsInto operations destination :=
    (hfields source destination).trans (hinto destination source)
  exact ⟨incoming, outgoing, (hincoming _ sound).1, ((hincoming.bind houtgoing) _ sound).1,
    fun destination => admitted.endpointsOf_contributors (hinto destination),
    fun source => ⟨fun endpoint => admitted.endpointsOf_dependents_subset (hflows source),
      admitted.endpointsOf_dependents (hflows source)⟩⟩

theorem Sample.namesOutputs : NamesOutputs snapshot := by
  unfold NamesOutputs
  decide +kernel

theorem following_sample : accept Sample.snapshot = .ok (index Sample.snapshot) ∧
    NamesOutputs Sample.snapshot ∧ ∃ outgoing,
      ((index Sample.snapshot).ownOutgoing.run
        ((index Sample.snapshot).ledgerAfter [.sourcesThrough Sample.clean.name])).1 =
          .ok outgoing ∧
      endpointsOf .write
          ((index Sample.snapshot).dependents ⟨Sample.peopleFile, Sample.body⟩) =
        outgoing.endpointsUnder ⟨Sample.peopleFile, Sample.body⟩ := by
  obtain ⟨incoming, outgoing, -, hresult, -, hdependents⟩ :=
    following_agrees_with_summaries Sample.accepted [.sourcesThrough Sample.clean.name]
  exact ⟨Sample.accepted, Sample.namesOutputs, outgoing, hresult,
    (hdependents _).2 Sample.namesOutputs⟩

end Flow

end Lineage
