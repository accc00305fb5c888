import Lineage.Proofs.Flow.Order
import Lineage.Proofs.Flow.Part

/-!
# Merging snapshots merges lineage

Two valid snapshots may share operations.  If operations of one name are the
same in both (`Agree`), their union is a valid snapshot again.  Every origin in
one of them names an operation of that one, so whatever is traced from one of its
operations stays in it (`Admitted.closedIn`): no path, no component and no cycle
of the union mixes operations of the one with others of the other.

So the union says of every field what the two say together.
-/

namespace Lineage

/-- Field by field a summary says what two others say together, and has an entry where one of them
has one. -/
def Summary.IsUnion (merged first second : Summary) : Prop :=
  ∀ key, merged.fieldsOf key = first.fieldsOf key ∪ second.fieldsOf key ∧
    (key ∈ merged.keys ↔ key ∈ first.keys ∨ key ∈ second.keys)

namespace Flow

/-- Whatever was asked of the flow before, the computation has this value. -/
def Answers {α : Type} (flow : Flow) (computation : Tracing α) (value : α) : Prop :=
  ∀ earlier, (computation.run (flow.ledgerAfter earlier)).1 = .ok value

theorem Gives.answers {α : Type} {flow : Flow} {computation : Tracing α} {value : α}
    (h : flow.Gives computation (.ok value)) : flow.Answers computation value :=
  fun earlier => (h _ (sound_ledgerAfter flow earlier)).1

/-- The two summaries of a valid snapshot, with what they state. -/
structure Summaries (operations : OperationSet) (incoming outgoing : Summary) : Prop where
  answers_incoming : (index operations).Answers (index operations).incoming incoming
  answers_outgoing : (index operations).Answers (index operations).ownOutgoing outgoing
  mem_incoming (destination source : EndpointField) :
    source ∈ incoming.fieldsOf destination ↔ source.FlowsInto operations destination
  mem_incoming_keys (destination : EndpointField) : destination ∈ incoming.keys ↔
    ∃ source : EndpointField, source.FlowsInto operations destination
  mem_outgoing (source destination : EndpointField) :
    destination ∈ outgoing.fieldsOf source ↔ source.FlowsInto operations destination
  mem_outgoing_keys (source : EndpointField) : source ∈ outgoing.keys ↔
    (∃ destination, source.FlowsInto operations destination) ∨ source.Marked operations

theorem Admitted.exists_summaries {operations : OperationSet} (admitted : Admitted operations) :
    ∃ incoming outgoing, Summaries operations incoming outgoing := by
  obtain ⟨incoming, hincoming, hinto, hinKeys⟩ := admitted.gives_incoming
  obtain ⟨outgoing, houtgoing, hfrom, houtKeys⟩ := admitted.gives_outgoing incoming
  simp only [hinto] at hfrom houtKeys
  exact ⟨incoming, outgoing, hincoming.answers, (hincoming.bind houtgoing).answers, hinto, hinKeys,
    hfrom, houtKeys⟩

/-- Operations of the same name in both sets are the same. -/
def Agree (first second : OperationSet) : Prop :=
  ∀ a ∈ first, ∀ b ∈ second, a.name = b.name → a = b

variable {first second part whole : OperationSet}

/-! ## A valid snapshot inside a set with unique names -/

section Inside

variable (admitted : Admitted part) (unique : UniqueNames whole)
  (hsubset : ∀ operation ∈ part, operation ∈ whole)
include admitted unique hsubset

/-- All origins of a valid snapshot are its own. -/
theorem Admitted.supplies {operation : Operation} (hmem : operation ∈ part) {origin : Name}
    (horigin : origin ∈ operation.origins) : Supplies part whole origin := by
  intro other hother hname
  obtain ⟨own, hown, hownName⟩ := admitted.knownOrigins operation hmem origin horigin
  rw [unique other hother own (hsubset own hown) (hname.trans hownName.symm)]
  exact hown

theorem Admitted.closedIn : ClosedIn part whole where
  subset := hsubset
  supplied _ hmem _ _ := admitted.supplies unique hsubset hmem

theorem Admitted.carries_iff {write : Operation} (hmem : write ∈ part)
    {source destination : EndpointField} :
    write.Carries part source destination ↔ write.Carries whole source destination := by
  refine Operation.carries_part_iff (admitted.closedIn unique hsubset) fun input hinput => ?_
  have horigin := Operation.mem_origins.2 ⟨input, (mem_matching.1 hinput).2.1, rfl⟩
  exact admitted.supplies unique hsubset hmem horigin

theorem Admitted.foundFrom_iff {write : Operation} (hmem : write ∈ part)
    {destination : EndpointField} {operation : Operation} :
    FoundFrom part destination write operation ↔ FoundFrom whole destination write operation := by
  refine foundFrom_part_iff (admitted.closedIn unique hsubset) unique fun input hinput => ?_
  have horigin := Operation.mem_origins.2 ⟨input, (mem_matching.1 hinput).2.1, rfl⟩
  exact admitted.supplies unique hsubset hmem horigin

theorem Admitted.marks_iff {transform : Operation} (hmem : transform ∈ part)
    {source : EndpointField} : transform.Marks part source ↔ transform.Marks whole source :=
  Operation.marks_part_iff (admitted.closedIn unique hsubset) hmem

theorem Admitted.uses_iff {operation : Operation} (hmem : operation ∈ part)
    {source : EndpointField} : Uses part source operation ↔ Uses whole source operation :=
  uses_part_iff (admitted.closedIn unique hsubset) fun _ => admitted.supplies unique hsubset hmem

/-- Of operations that hold one another back, those in the snapshot do so among themselves. -/
theorem Admitted.holdBack {held : Operation → Prop} (hheld : Order.HoldBack held)
    (hwhole : ∀ operation, held operation → operation ∈ whole) :
    Order.HoldBack fun operation => held operation ∧ operation ∈ part := by
  rintro operation ⟨hoperation, hmem⟩
  obtain ⟨other, hother, horigin⟩ := hheld operation hoperation
  have hpart := admitted.supplies unique hsubset hmem horigin other (hwhole other hother) rfl
  exact ⟨other, ⟨hother, hpart⟩, horigin⟩

end Inside

/-! ## The union -/

theorem mem_union_left {operation : Operation} (hmem : operation ∈ first) :
    operation ∈ first ∪ second :=
  SortedSet.mem_union_iff.2 (.inl hmem)

theorem mem_union_right {operation : Operation} (hmem : operation ∈ second) :
    operation ∈ first ∪ second :=
  SortedSet.mem_union_iff.2 (.inr hmem)

theorem Agree.union_unique (agree : Agree first second) (uniqueFirst : UniqueNames first)
    (uniqueSecond : UniqueNames second) : UniqueNames (first ∪ second) := by
  intro a ha b hb hname
  rcases SortedSet.mem_union_iff.1 ha with ha | ha <;>
    rcases SortedSet.mem_union_iff.1 hb with hb | hb
  · exact uniqueFirst a ha b hb hname
  · exact agree a ha b hb hname
  · exact (agree b hb a ha hname.symm).symm
  · exact uniqueSecond a ha b hb hname

section Union

variable (admittedFirst : Admitted first) (admittedSecond : Admitted second)
  (agree : Agree first second)
include admittedFirst admittedSecond agree

theorem Admitted.union : Admitted (first ∪ second) where
  unique := agree.union_unique admittedFirst.unique admittedSecond.unique
  sourced read hread := by
    rcases SortedSet.mem_union_iff.1 hread with hread | hread
    · exact admittedFirst.sourced read hread
    · exact admittedSecond.sourced read hread
  destined write hwrite := by
    rcases SortedSet.mem_union_iff.1 hwrite with hwrite | hwrite
    · exact admittedFirst.destined write hwrite
    · exact admittedSecond.destined write hwrite
  hasRead := SortedSet.exists_mem_union.2 (.inl admittedFirst.hasRead)
  hasWrite := SortedSet.exists_mem_union.2 (.inl admittedFirst.hasWrite)
  knownOrigins operation hmem origin horigin := by
    rcases SortedSet.mem_union_iff.1 hmem with hmem | hmem
    · exact SortedSet.exists_mem_union.2
        (.inl (admittedFirst.knownOrigins operation hmem origin horigin))
    · exact SortedSet.exists_mem_union.2
        (.inr (admittedSecond.knownOrigins operation hmem origin horigin))

omit agree in
/-- If a property of an operation is the same in a snapshot and in the union, some operation of the
union has it if one of the first or one of the second has it there. -/
theorem exists_union_iff {p : OperationSet → Operation → Prop}
    (hsame : ∀ part, Admitted part → (∀ operation ∈ part, operation ∈ first ∪ second) →
      ∀ operation ∈ part, (p part operation ↔ p (first ∪ second) operation)) :
    (∃ operation ∈ first ∪ second, p (first ∪ second) operation) ↔
      (∃ operation ∈ first, p first operation) ∨ ∃ operation ∈ second, p second operation := by
  rw [SortedSet.exists_mem_union]
  refine or_congr (exists_congr fun operation => and_congr_right fun hmem => ?_)
    (exists_congr fun operation => and_congr_right fun hmem => ?_)
  · exact (hsame first admittedFirst (fun _ => mem_union_left) operation hmem).symm
  · exact (hsame second admittedSecond (fun _ => mem_union_right) operation hmem).symm

theorem flowsInto_union {source destination : EndpointField} :
    source.FlowsInto (first ∪ second) destination ↔
      source.FlowsInto first destination ∨ source.FlowsInto second destination := by
  have unique := agree.union_unique admittedFirst.unique admittedSecond.unique
  exact exists_union_iff admittedFirst admittedSecond
    fun part admitted hsubset write hmem => admitted.carries_iff unique hsubset hmem

theorem marked_union {source : EndpointField} :
    source.Marked (first ∪ second) ↔ source.Marked first ∨ source.Marked second := by
  have unique := agree.union_unique admittedFirst.unique admittedSecond.unique
  exact exists_union_iff admittedFirst admittedSecond
    fun part admitted hsubset transform hmem => admitted.marks_iff unique hsubset hmem

theorem contributors_union (destination : EndpointField) :
    (index (first ∪ second)).contributors destination =
      (index first).contributors destination ∪ (index second).contributors destination := by
  have unique := agree.union_unique admittedFirst.unique admittedSecond.unique
  refine SortedSet.ext_mem fun operation => ?_
  rw [SortedSet.mem_union_iff, unique.mem_contributors_iff,
    admittedFirst.unique.mem_contributors_iff, admittedSecond.unique.mem_contributors_iff]
  exact exists_union_iff admittedFirst admittedSecond
    fun part admitted hsubset write hmem => admitted.foundFrom_iff unique hsubset hmem

theorem dependents_union (source : EndpointField) :
    (index (first ∪ second)).dependents source =
      (index first).dependents source ∪ (index second).dependents source := by
  have unique := agree.union_unique admittedFirst.unique admittedSecond.unique
  refine SortedSet.ext_mem fun operation => ?_
  rw [SortedSet.mem_union_iff, mem_dependents_iff, mem_dependents_iff, mem_dependents_iff,
    SortedSet.mem_union_iff, or_and_right]
  refine or_congr (and_congr_right fun hmem => ?_) (and_congr_right fun hmem => ?_)
  · exact (admittedFirst.uses_iff unique (fun _ => mem_union_left) hmem).symm
  · exact (admittedSecond.uses_iff unique (fun _ => mem_union_right) hmem).symm

/-- Listed in any way, the union has a cycle exactly if one of the two has one. -/
theorem cyclic_union {listing listing₁ listing₂ : List Operation}
    (hlisting : ∀ operation, operation ∈ listing ↔ operation ∈ first ∪ second)
    (hlisting₁ : ∀ operation, operation ∈ listing₁ ↔ operation ∈ first)
    (hlisting₂ : ∀ operation, operation ∈ listing₂ ↔ operation ∈ second) :
    Order.Cyclic listing ↔ Order.Cyclic listing₁ ∨ Order.Cyclic listing₂ := by
  have unique := agree.union_unique admittedFirst.unique admittedSecond.unique
  rw [Order.cyclic_iff unique hlisting, Order.cyclic_iff admittedFirst.unique hlisting₁,
    Order.cyclic_iff admittedSecond.unique hlisting₂]
  constructor
  · rintro ⟨held, hheld, hmem, operation, hoperation⟩
    -- an operation that is held back is in one of the two, and those that hold it are there too
    rcases SortedSet.mem_union_iff.1 (hmem operation hoperation) with hfirst | hsecond
    · exact .inl ⟨_, admittedFirst.holdBack unique (fun _ => mem_union_left) hheld hmem,
        fun other hother => hother.2, operation, hoperation, hfirst⟩
    · exact .inr ⟨_, admittedSecond.holdBack unique (fun _ => mem_union_right) hheld hmem,
        fun other hother => hother.2, operation, hoperation, hsecond⟩
  · rintro (⟨held, hheld, hmem, hexists⟩ | ⟨held, hheld, hmem, hexists⟩)
    · exact ⟨held, hheld, fun other hother => mem_union_left (hmem other hother), hexists⟩
    · exact ⟨held, hheld, fun other hother => mem_union_right (hmem other hother), hexists⟩

/-- The summaries of the union are the unions of the summaries. -/
theorem Summaries.isUnion {incoming incoming₁ incoming₂ outgoing outgoing₁ outgoing₂ : Summary}
    (merged : Summaries (first ∪ second) incoming outgoing)
    (one : Summaries first incoming₁ outgoing₁) (other : Summaries second incoming₂ outgoing₂) :
    incoming.IsUnion incoming₁ incoming₂ ∧ outgoing.IsUnion outgoing₁ outgoing₂ := by
  -- no flow leads from one snapshot into the other, so the union has no more of them
  have hflows (source destination : EndpointField) :
      source.FlowsInto (first ∪ second) destination ↔
        source.FlowsInto first destination ∨ source.FlowsInto second destination :=
    flowsInto_union admittedFirst admittedSecond agree
  constructor
  · intro destination
    constructor
    · refine SortedSet.ext_mem fun source => ?_
      rw [SortedSet.mem_union_iff, merged.mem_incoming, one.mem_incoming, other.mem_incoming, hflows]
    · rw [merged.mem_incoming_keys, one.mem_incoming_keys, other.mem_incoming_keys, ← exists_or]
      exact exists_congr fun source => hflows source destination
  · intro source
    constructor
    · refine SortedSet.ext_mem fun destination => ?_
      rw [SortedSet.mem_union_iff, merged.mem_outgoing, one.mem_outgoing, other.mem_outgoing, hflows]
    · rw [merged.mem_outgoing_keys, one.mem_outgoing_keys, other.mem_outgoing_keys,
        marked_union admittedFirst admittedSecond agree]
      simp only [hflows, exists_or]
      exact or_or_or_comm

end Union

/-- Two valid snapshots in which operations of one name are the same make up one valid snapshot.
Its summaries and what is found in it for a field are the unions of theirs, and it has a cycle if
one of them has one. -/
theorem merge_of_accept {flow₁ flow₂ : Flow} (hfirst : accept first = .ok flow₁)
    (hsecond : accept second = .ok flow₂) (agree : Agree first second) :
    ∃ flow, accept (first ∪ second) = .ok flow ∧
      (∃ merged incoming₁ incoming₂, flow.Answers flow.incoming merged ∧
        flow₁.Answers flow₁.incoming incoming₁ ∧ flow₂.Answers flow₂.incoming incoming₂ ∧
        merged.IsUnion incoming₁ incoming₂) ∧
      (∃ merged outgoing₁ outgoing₂, flow.Answers flow.ownOutgoing merged ∧
        flow₁.Answers flow₁.ownOutgoing outgoing₁ ∧ flow₂.Answers flow₂.ownOutgoing outgoing₂ ∧
        merged.IsUnion outgoing₁ outgoing₂) ∧
      (∀ direction field,
        flow.follow direction field = flow₁.follow direction field ∪ flow₂.follow direction field) ∧
      ∀ listing listing₁ listing₂, (∀ operation, operation ∈ listing ↔ operation ∈ first ∪ second) →
        (∀ operation, operation ∈ listing₁ ↔ operation ∈ first) →
        (∀ operation, operation ∈ listing₂ ↔ operation ∈ second) →
        (Order.Cyclic listing ↔ Order.Cyclic listing₁ ∨ Order.Cyclic listing₂) := by
  obtain ⟨rfl, admittedFirst⟩ := accept_eq_ok_iff.1 hfirst
  obtain ⟨rfl, admittedSecond⟩ := accept_eq_ok_iff.1 hsecond
  have admitted := admittedFirst.union admittedSecond agree
  obtain ⟨incoming, outgoing, merged⟩ := admitted.exists_summaries
  obtain ⟨incoming₁, outgoing₁, one⟩ := admittedFirst.exists_summaries
  obtain ⟨incoming₂, outgoing₂, other⟩ := admittedSecond.exists_summaries
  obtain ⟨hincoming, houtgoing⟩ := merged.isUnion admittedFirst admittedSecond agree one other
  refine ⟨index (first ∪ second), accept_eq_ok_iff.2 ⟨rfl, admitted⟩,
    ⟨incoming, incoming₁, incoming₂, merged.answers_incoming,
      one.answers_incoming, other.answers_incoming, hincoming⟩,
    ⟨outgoing, outgoing₁, outgoing₂, merged.answers_outgoing,
      one.answers_outgoing, other.answers_outgoing, houtgoing⟩,
    ?_, fun listing listing₁ listing₂ => cyclic_union admittedFirst admittedSecond agree⟩
  intro direction field
  cases direction with
  | incoming => exact contributors_union admittedFirst admittedSecond agree field
  | outgoing => exact dependents_union admittedFirst admittedSecond agree field

namespace Sample

def archiveFile : Endpoint := ⟨storeFile.namespaceName, ⟨"archive", by decide⟩⟩

def archive : Operation :=
  ⟨⟨archiveFile.name, ""⟩, .write (some archiveFile) (.ofList [⟨count.name, body⟩])⟩

/-- Another snapshot with a read and a transform of the first one. -/
def archived : OperationSet := .ofList [people, count, archive]

theorem archived_accepted : accept archived = .ok (index archived) := by
  refine accept_eq_ok_iff.2 ⟨rfl, ⟨?_, ?_, ?_⟩, ?_, ?_, ?_⟩ <;> decide +kernel

theorem archived_agrees : Agree snapshot archived := by
  unfold Agree
  decide +kernel

end Sample

theorem merge_sample : accept Sample.snapshot = .ok (index Sample.snapshot) ∧
    accept Sample.archived = .ok (index Sample.archived) ∧
    Agree Sample.snapshot Sample.archived ∧
    ∃ flow, accept (Sample.snapshot ∪ Sample.archived) = .ok flow ∧
      flow.follow .outgoing ⟨Sample.peopleFile, Sample.body⟩ =
        (index Sample.snapshot).follow .outgoing ⟨Sample.peopleFile, Sample.body⟩ ∪
          (index Sample.archived).follow .outgoing ⟨Sample.peopleFile, Sample.body⟩ := by
  obtain ⟨flow, haccept, -, -, hfollow, -⟩ :=
    merge_of_accept Sample.accepted Sample.archived_accepted Sample.archived_agrees
  exact ⟨Sample.accepted, Sample.archived_accepted, Sample.archived_agrees, flow, haccept,
    hfollow _ _⟩

end Flow

end Lineage
