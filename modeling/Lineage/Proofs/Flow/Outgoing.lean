import Mathlib.Tactic.MkIffOfInductiveProp
import Lineage.Proofs.Flow.Incoming

/-!
# The outgoing summary is the inverse with marks

A transform that produces only part of what it consumes drops the other fields
(`Operation.Drops`).  It marks a dropped field of each endpoint from which the
field could have been read (`Operation.Marks`).

The outgoing summary lists a destination field under a source field exactly if
the incoming summary lists the source field under the destination field.  Beyond
this it has an entry for every marked field, which is empty if nothing flows
from the field (`Traceable.gives_outgoing`).
-/

namespace Lineage

namespace Operation

/-- The transform produces nothing that it does not consume, and consumes the field without
producing it.  So its inputs name strictly more fields than its outputs. -/
@[mk_iff] structure Drops (transform : Operation) (field : Name) : Prop where
  kind : transform.kind = .transform
  covered : ∀ output ∈ transform.outputs, ∃ input ∈ transform.inputs, input.name.text = output
  consumed : ∃ input ∈ transform.inputs, input.name = field
  notProduced : ¬ field.text ∈ transform.outputs

/-- The origin is a read of the endpoint, or a transform that receives some field of it. -/
def FeedsFrom (operations : OperationSet) (origin : Name) (endpoint : Endpoint) : Prop :=
  (∃ read ∈ operations, read.name = origin ∧ read.kind = .read ∧
    read.endpoint? = some endpoint) ∨
  ∃ transform ∈ operations, transform.name = origin ∧ transform.kind = .transform ∧
    ∃ field, transform.Receives operations (some endpoint) field

/-- The transform drops a field of this name, and an input of the name is fed from the endpoint. -/
def Marks (operations : OperationSet) (transform : Operation) (source : EndpointField) : Prop :=
  transform.Drops source.field ∧ ∃ input ∈ transform.inputs, input.name = source.field ∧
    FeedsFrom operations input.origin source.endpoint

theorem mem_consumed {operation : Operation} {field : Name} :
    field ∈ operation.consumed ↔ ∃ input ∈ operation.inputs, input.name = field :=
  SortedSet.mem_map

private theorem all_outputs_consumed {operation : Operation} :
    operation.outputs.toList.all (operation.consumed.toList.map Name.text).contains = true ↔
      ∀ output ∈ operation.outputs, ∃ input ∈ operation.inputs, input.name.text = output := by
  rw [List.all_eq_true]
  refine forall₂_congr fun output _ => ?_
  rw [List.contains_iff_mem, List.mem_map]
  constructor
  · rintro ⟨name, hname, rfl⟩
    obtain ⟨input, hinput, rfl⟩ := mem_consumed.1 hname
    exact ⟨input, hinput, rfl⟩
  · rintro ⟨input, hinput, rfl⟩
    exact ⟨input.name, mem_consumed.2 ⟨input, hinput, rfl⟩, rfl⟩

theorem mem_droppedFields {operation : Operation} {field : Name} :
    field ∈ operation.droppedFields ↔ operation.Drops field := by
  rw [drops_iff, droppedFields]
  cases hkind : operation.kind with
  | read => simp
  | write => simp
  | transform =>
      dsimp only
      split
      · rename_i hcovered
        rw [SortedSet.mem_filter, mem_consumed, decide_eq_true_eq]
        exact ⟨fun h => ⟨rfl, all_outputs_consumed.1 hcovered, h⟩, fun h => h.2.2⟩
      · rename_i hcovered
        rw [all_outputs_consumed] at hcovered
        simp [hcovered]

end Operation

/-- Some transform marks the field. -/
def EndpointField.Marked (operations : OperationSet) (source : EndpointField) : Prop :=
  ∃ transform ∈ operations, transform.Marks operations source

namespace Flow.Traceable

variable {operations : OperationSet} (traceable : Traceable operations)
include traceable

/-- An input of a transform brings the endpoints that feed its origin. -/
theorem adds_endpoints (input : FieldRef) :
    (index operations).Adds Membership.mem (fun endpoints : SortedSet (Option Endpoint) =>
        match (index operations).operation? input.origin with
        | none => return endpoints
        | some origin =>
          match origin.kind with
          | .read => return endpoints.insert origin.endpoint?
          | .transform => do
            let sources ← (index operations).sourcesThrough input.origin
            return endpoints ∪ sources.map fun source => some source.endpoint
          | .write => return endpoints)
      fun candidate => ∃ endpoint, candidate = some endpoint ∧
        Operation.FeedsFrom operations input.origin endpoint := by
  -- by what the origin is; a write feeds nothing, and neither does a name that is not known
  unfold Operation.FeedsFrom
  cases horigin : (index operations).operation? input.origin with
  | none =>
      refine adds_pure id fun before candidate => (or_iff_left ?_).symm
      rintro ⟨_, -, hread | htransform⟩
      · exact not_exists_of_operation? horigin hread
      · exact not_exists_of_operation? horigin htransform
  | some origin =>
      obtain ⟨hmem, hname⟩ := traceable.unique.operation?_eq_some.1 horigin
      simp only [← hname, traceable.unique.exists_iff hmem]
      cases hkind : origin.kind with
      | read =>
          obtain ⟨endpoint, hendpoint⟩ :=
            Option.ne_none_iff_exists'.1 (traceable.sourced origin hmem hkind)
          refine adds_pure (SortedSet.insert · origin.endpoint?) fun before candidate => ?_
          simp [hendpoint, or_comm]
      | transform =>
          obtain ⟨sources, hgives, hsources⟩ := traceable.gives_sourcesThrough hmem hkind
          refine .bind hgives (adds_pure _ fun before candidate => ?_)
          rw [SortedSet.mem_union_iff, SortedSet.mem_map]
          refine or_congr_right ⟨?_, ?_⟩
          · rintro ⟨source, hsource, rfl⟩
            exact ⟨source.endpoint, rfl, .inr ⟨rfl, source.field, (hsources source).1 hsource⟩⟩
          · rintro ⟨endpoint, rfl, ⟨hread, -⟩ | ⟨-, field, hreceives⟩⟩
            · cases hread
            · exact ⟨⟨endpoint, field⟩, (hsources _).2 hreceives, rfl⟩
      | write => exact adds_pure id fun before candidate => by simp

theorem gives_endpointsFeeding (transform : Operation) (field : Name) :
    ∃ endpoints, (index operations).Gives
        ((index operations).endpointsFeeding transform field) (.ok endpoints) ∧
      ∀ candidate, candidate ∈ endpoints ↔ ∃ endpoint, candidate = some endpoint ∧
        ∃ input ∈ transform.inputs, input.name = field ∧
          Operation.FeedsFrom operations input.origin endpoint := by
  obtain ⟨endpoints, hgives, hendpoints⟩ := adds_foldlM (fun input
    (_ : input ∈ transform.inputs.toList.filter fun input => input.name = field) =>
      traceable.adds_endpoints input) ∅
  refine ⟨endpoints, hgives, fun candidate => ?_⟩
  rw [hendpoints, or_iff_right (SortedSet.not_mem_empty candidate)]
  constructor
  · intro hbrings
    obtain ⟨input, hinput, endpoint, rfl, hfeeds⟩ := hbrings
    obtain ⟨hinput, hname⟩ := List.mem_filter.1 hinput
    exact ⟨endpoint, rfl, input, hinput, by simpa using hname, hfeeds⟩
  · intro hfed
    obtain ⟨endpoint, rfl, input, hinput, hname, hfeeds⟩ := hfed
    exact ⟨input, List.mem_filter.2 ⟨hinput, by simpa using hname⟩, endpoint, rfl, hfeeds⟩

/-- A dropped field of a transform brings entries for the fields that the transform marks. -/
theorem adds_markDropped {transform : Operation} (hmem : transform ∈ operations) {field : Name}
    (hdrops : transform.Drops field) :
    (index operations).Adds Summary.Says
      (fun summary => (index operations).markDropped transform.name summary field)
      fun fact => ∃ endpoint, transform.Marks operations ⟨endpoint, field⟩ ∧
        fact = .entry ⟨endpoint, field⟩ := by
  obtain ⟨endpoints, hgives, hendpoints⟩ := traceable.gives_endpointsFeeding transform field
  -- names are unique, so no read hides the transform
  have hread : transform.kind ≠ .read := by simp [hdrops.kind]
  simp only [markDropped, traceable.unique.operation?_eq_some.2 ⟨hmem, rfl⟩, if_neg hread]
  refine .bind hgives ?_
  have hmarks : ∀ candidate ∈ endpoints.toList, (index operations).Adds Summary.Says
      (fun summary => do
        let source ← fieldOf candidate field
        return summary.extend source ∅)
      fun fact => ∃ endpoint, candidate = some endpoint ∧ fact = .entry ⟨endpoint, field⟩ := by
    intro candidate hcandidate
    obtain ⟨endpoint, rfl, -⟩ := (hendpoints candidate).1 hcandidate
    refine .bind (gives_lift _) (adds_pure _ fun before fact => ?_)
    simp [Summary.says_extend]
  refine (adds_foldlM hmarks).congr fun fact => ?_
  constructor
  · intro hentry
    obtain ⟨candidate, hcandidate, endpoint, rfl, rfl⟩ := hentry
    obtain ⟨_, heq, hfeeds⟩ := (hendpoints _).1 hcandidate
    cases heq
    exact ⟨endpoint, ⟨hdrops, hfeeds⟩, rfl⟩
  · rintro ⟨endpoint, ⟨-, hfeeds⟩, rfl⟩
    exact ⟨some endpoint, (hendpoints _).2 ⟨endpoint, rfl, hfeeds⟩, endpoint, rfl, rfl⟩

/-- The marks bring entries for all marked fields. -/
theorem adds_marks : (index operations).Adds Summary.Says
    (fun summary => (index operations).dropped.toList.foldlM (fun summary (name, fields) =>
      fields.toList.foldlM ((index operations).markDropped name) summary) summary)
    fun fact => ∃ source : EndpointField, source.Marked operations ∧ fact = .entry source := by
  have hentries : ∀ entry ∈ (index operations).dropped.toList,
      (index operations).Adds Summary.Says
        (fun summary => entry.2.toList.foldlM ((index operations).markDropped entry.1) summary)
        fun fact => ∃ field ∈ entry.2.toList, ∃ transform ∈ operations, transform.name = entry.1 ∧
          ∃ endpoint, transform.Marks operations ⟨endpoint, field⟩ ∧
            fact = .entry ⟨endpoint, field⟩ := by
    rintro ⟨name, fields⟩ hentry
    obtain ⟨transform, hmem, rfl, rfl, -⟩ :=
      traceable.unique.apartByKind.dropped_find?_eq_some.1 ((SortedMap.mem_toList_iff _).1 hentry)
    refine adds_foldlM fun field hfield => ?_
    simp only [traceable.unique.exists_iff hmem]
    exact traceable.adds_markDropped hmem (Operation.mem_droppedFields.1 hfield)
  -- a transform that marks a field drops it, and so has its own entry among the dropped fields
  refine (adds_foldlM hentries).congr fun fact => ⟨?_, ?_⟩
  · intro hbrings
    obtain ⟨entry, -, field, -, transform, hmem, -, endpoint, hmarks, rfl⟩ := hbrings
    exact ⟨⟨endpoint, field⟩, ⟨transform, hmem, hmarks⟩, rfl⟩
  · intro hmarked
    obtain ⟨⟨endpoint, field⟩, ⟨transform, hmem, hmarks⟩, rfl⟩ := hmarked
    have hfield : field ∈ transform.droppedFields := Operation.mem_droppedFields.2 hmarks.1
    have hnonempty : transform.droppedFields.isEmpty = false :=
      Bool.eq_false_iff.2 fun hempty => SortedSet.isEmpty_iff.1 hempty field hfield
    have hfind := traceable.unique.apartByKind.dropped_find?_eq_some.2
      ⟨transform, hmem, rfl, rfl, hnonempty⟩
    have hentry := (SortedMap.mem_toList_iff _).2 hfind
    exact ⟨_, hentry, field, hfield, transform, hmem, rfl, endpoint, hmarks, rfl⟩

/-- The outgoing summary is told.  It lists what the inverse of the incoming one lists, and has
further entries for the marked fields. -/
theorem gives_outgoing (incoming : Summary) :
    ∃ summary, (index operations).Gives ((index operations).outgoing incoming) (.ok summary) ∧
      (∀ source destination, destination ∈ summary.fieldsOf source ↔
        source ∈ incoming.fieldsOf destination) ∧
      ∀ source, source ∈ summary.keys ↔
        (∃ destination, source ∈ incoming.fieldsOf destination) ∨ source.Marked operations := by
  obtain ⟨summary, hgives, hsummary⟩ := traceable.adds_marks incoming.inverse
  refine ⟨summary, hgives, fun source destination => ?_, fun source => ?_⟩
  · refine (hsummary (.lists source destination)).trans ((or_iff_left ?_).trans ?_)
    · rintro ⟨_, -, heq⟩
      cases heq
    · exact Summary.mem_fieldsOf_of_says (fun _ => Summary.says_inverse) source destination
  · refine (hsummary (.entry source)).trans (or_congr ?_ ?_)
    · exact Summary.mem_keys_of_says (fun _ => Summary.says_inverse) source
    · simp

end Flow.Traceable

namespace Flow

/-- The outgoing summary of a valid snapshot can always be told, whatever was asked before, and also
from an incoming summary told before.  It is the inverse of the incoming summary, with further
entries exactly for the marked fields; an entry is empty exactly if it is there for a mark only. -/
theorem outgoing_of_accept {operations : OperationSet} {flow : Flow}
    (h : accept operations = .ok flow) (earlier : List Inquiry) :
    ∃ incoming outgoing, (flow.incoming.run (flow.ledgerAfter earlier)).1 = .ok incoming ∧
      (flow.ownOutgoing.run (flow.ledgerAfter earlier)).1 = .ok outgoing ∧
      ((flow.outgoing incoming).run (flow.ledgerAfter earlier)).1 = .ok outgoing ∧
      ∀ source,
        (∀ destination, destination ∈ outgoing.fieldsOf source ↔
          source ∈ incoming.fieldsOf destination) ∧
        (source ∈ outgoing.keys ↔
          (∃ destination, source ∈ incoming.fieldsOf destination) ∨ source.Marked operations) ∧
        (outgoing.find? source = some ∅ ↔
          source.Marked operations ∧ ∀ destination, ¬ source ∈ incoming.fieldsOf destination) := by
  obtain ⟨rfl, admitted⟩ := accept_eq_ok_iff.1 h
  obtain ⟨incoming, hincoming, -⟩ := admitted.gives_incoming
  obtain ⟨outgoing, hgives, hfields, hkeys⟩ := admitted.gives_outgoing incoming
  have sound := sound_ledgerAfter (index operations) earlier
  refine ⟨incoming, outgoing, (hincoming _ sound).1, ((hincoming.bind hgives) _ sound).1,
    (hgives _ sound).1, fun source => ⟨hfields source, hkeys source, ?_⟩⟩
  rw [Summary.find?_eq_some_empty, hkeys]
  simp only [hfields]
  constructor
  · rintro ⟨⟨destination, hflows⟩ | hmarked, hnone⟩
    · exact absurd hflows (hnone destination)
    · exact ⟨hmarked, hnone⟩
  · rintro ⟨hmarked, hnone⟩
    exact ⟨.inr hmarked, hnone⟩

theorem Sample.offset_marked :
    (⟨peopleFile, offset⟩ : EndpointField).Marked snapshot := by
  have hdrops : count.Drops offset :=
    ⟨rfl, by decide +kernel, by decide +kernel, by decide +kernel⟩
  exact ⟨count, by decide +kernel, hdrops, ⟨people.name, offset⟩, by decide +kernel, rfl,
    .inl ⟨people, by decide +kernel, rfl, rfl, rfl⟩⟩

theorem outgoing_sample : accept Sample.snapshot = .ok (index Sample.snapshot) ∧ ∃ outgoing,
    ((index Sample.snapshot).ownOutgoing.run
      ((index Sample.snapshot).ledgerAfter [.sourcesThrough Sample.clean.name])).1 =
        .ok outgoing ∧
    ⟨Sample.peopleFile, Sample.offset⟩ ∈ outgoing.keys := by
  obtain ⟨incoming, outgoing, -, hresult, -, hexact⟩ :=
    outgoing_of_accept Sample.accepted [.sourcesThrough Sample.clean.name]
  exact ⟨Sample.accepted, outgoing, hresult, (hexact _).2.1.2 (.inr Sample.offset_marked)⟩

end Flow

end Lineage
