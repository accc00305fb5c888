import Lineage.Proofs.Flow.Outgoing

/-!
# The one flow that a list of operations has

Every lookup of a flow is described here by the operations of a list, which may be
listed in any order and several times (`Describes`).  Origins may be missing and
go round in cycles, endpoints may be missing, and operations of different kinds may
share a name; only of one name and one kind there must not be two.

The description leaves nothing open, since a set is told by its members and a map by
what it finds (`Describes.unique`).  The index fits it (`describes_index`): of the
operations that share a name the first one entered is that of the first kind, and of
those that drop fields under one name there is only one.
-/

namespace Lineage

namespace Operation

variable {transform : Operation}

/-- A transform that consumes all fields that it produces, and others besides. -/
structure Narrows (transform : Operation) : Prop where
  kind : transform.kind = .transform
  covered : ∀ output ∈ transform.outputs, ∃ input ∈ transform.inputs, input.name.text = output
  more : ∃ input ∈ transform.inputs, ¬ input.name.text ∈ transform.outputs

theorem narrows_iff_drops : transform.Narrows ↔ ∃ field, transform.Drops field := by
  constructor
  · intro hnarrows
    obtain ⟨hkind, hcovered, input, hinput, hout⟩ := hnarrows
    exact ⟨input.name, hkind, hcovered, ⟨input, hinput, rfl⟩, hout⟩
  · intro hdrops
    obtain ⟨field, hkind, hcovered, ⟨input, hinput, rfl⟩, hout⟩ := hdrops
    exact ⟨hkind, hcovered, input, hinput, hout⟩

/-- What a transform that narrows does not produce of what it consumes, it drops. -/
theorem Narrows.drops_iff (h : transform.Narrows) (field : Name) : transform.Drops field ↔
    (∃ input ∈ transform.inputs, input.name = field) ∧ ¬ field.text ∈ transform.outputs := by
  obtain ⟨other, hother⟩ := narrows_iff_drops.1 h
  constructor
  · intro hdrops
    exact ⟨hdrops.consumed, hdrops.notProduced⟩
  · intro hfield
    exact ⟨hother.kind, hother.covered, hfield.1, hfield.2⟩

theorem narrows_iff_isEmpty : transform.Narrows ↔ transform.droppedFields.isEmpty = false := by
  rw [narrows_iff_drops, ← Bool.not_eq_true, SortedSet.isEmpty_iff, not_forall_not]
  exact exists_congr fun field => mem_droppedFields.symm

/-- The dropped fields of a transform that narrows, told by what it consumes and produces. -/
theorem Narrows.droppedFields_eq_iff (h : transform.Narrows) {fields : SortedSet Name} :
    transform.droppedFields = fields ↔ ∀ field, field ∈ fields ↔
      (∃ input ∈ transform.inputs, input.name = field) ∧ ¬ field.text ∈ transform.outputs := by
  constructor
  · rintro rfl field
    exact mem_droppedFields.trans (h.drops_iff field)
  · intro hfields
    exact SortedSet.ext_mem fun field =>
      mem_droppedFields.trans ((h.drops_iff field).trans (hfields field).symm)

end Operation

namespace Flow

variable {listed : List Operation} {operations : OperationSet} {operation : Operation}
  {name : Name} {flow other : Flow}

/-- Of the operations of this name in the list it has the kind that comes first. -/
structure IsFirstNamed (listed : List Operation) (name : Name) (operation : Operation) : Prop where
  mem : operation ∈ listed
  name_eq : operation.name = name
  first : ∀ other ∈ listed, other.name = name →
    (compare operation.kind.label other.kind.label).isLE = true

/-- The lookups of a flow are those of the operations of a list. -/
structure Describes (listed : List Operation) (flow : Flow) : Prop where
  operations : ∀ operation, operation ∈ flow.operations ↔ operation ∈ listed
  reads : ∀ read, read ∈ flow.reads ↔ read ∈ listed ∧ read.kind = .read
  writes : ∀ write, write ∈ flow.writes ↔ write ∈ listed ∧ write.kind = .write
  found : ∀ name operation,
    flow.operation? name = some operation ↔ IsFirstNamed listed name operation
  absent : ∀ name, flow.operation? name = none ↔ ∀ operation ∈ listed, operation.name ≠ name
  consumers : ∀ name consumer, consumer ∈ flow.consumersOf name ↔
    consumer ∈ listed ∧ ∃ input ∈ consumer.inputs, input.origin = name
  entries : ∀ name, name ∈ flow.consumers.keys ↔
    (∃ operation ∈ listed, operation.name = name) ∨
      ∃ operation ∈ listed, ∃ input ∈ operation.inputs, input.origin = name
  dropped : ∀ name fields, flow.dropped.find? name = some fields ↔
    ∃ transform ∈ listed, transform.name = name ∧ transform.Narrows ∧
      ∀ field, field ∈ fields ↔ (∃ input ∈ transform.inputs, input.name = field) ∧
        ¬ field.text ∈ transform.outputs

/-! ## Nothing is left open -/

/-- The consumers under a name are an entry of their own, even if there are none. -/
theorem find?_consumers (flow : Flow) (name : Name) :
    flow.consumers.find? name =
      if (flow.consumers.find? name).isSome then some (flow.consumersOf name) else none := by
  unfold consumersOf
  cases flow.consumers.find? name <;> rfl

/-- No two flows have the lookups of one list. -/
theorem Describes.unique (h : Describes listed flow) (hother : Describes listed other) :
    flow = other := by
  have hoperations : flow.operations = other.operations := SortedSet.ext_mem fun operation =>
    (h.operations operation).trans (hother.operations operation).symm
  have hreads : flow.reads = other.reads := SortedSet.ext_mem fun read =>
    (h.reads read).trans (hother.reads read).symm
  have hwrites : flow.writes = other.writes := SortedSet.ext_mem fun write =>
    (h.writes write).trans (hother.writes write).symm
  have hbyName : flow.byName = other.byName := SortedMap.ext_find? fun name =>
    Option.ext fun operation => (h.found name operation).trans (hother.found name operation).symm
  have hconsumers : flow.consumers = other.consumers := by
    refine SortedMap.ext_find? fun name => ?_
    have hentry : name ∈ flow.consumers.keys ↔ name ∈ other.consumers.keys :=
      (h.entries name).trans (hother.entries name).symm
    have hset : flow.consumersOf name = other.consumersOf name := SortedSet.ext_mem fun consumer =>
      (h.consumers name consumer).trans (hother.consumers name consumer).symm
    -- an entry without consumers is told from a missing one by the keys
    rw [SortedMap.mem_keys, SortedMap.mem_keys] at hentry
    rw [find?_consumers flow, find?_consumers other, hset]
    simp only [hentry]
  have hdropped : flow.dropped = other.dropped := SortedMap.ext_find? fun name =>
    Option.ext fun fields => (h.dropped name fields).trans (hother.dropped name fields).symm
  cases flow
  cases other
  simp_all

/-! ## What the index finds -/

theorem compare_label (a b : Kind) : compare a.label b.label = compare a b := by
  cases a <;> cases b <;> decide

/-- Of operations of one name those come first whose kind does. -/
theorem isLE_kind_of_compare {a b : Operation} (h : compare a b = .lt) (hname : a.name = b.name) :
    (compare a.kind b.kind).isLE = true := by
  cases hkind : compare a.kind b.kind with
  | lt => rfl
  | eq => rfl
  | gt =>
      -- next to the name the kind has the most weight in the order of operations
      have hgt : compare a b = .gt := by
        show Ordering.then (compare a.name b.name) (Ordering.then (compare a.kind b.kind) _) = .gt
        rw [hname, Std.ReflOrd.compare_self, hkind]
        rfl
      simp [h] at hgt

theorem isFirstNamed_of_operation? (h : (index (.ofList listed)).operation? name = some operation) :
    IsFirstNamed listed name operation := by
  obtain ⟨hmem, hname⟩ := mem_of_operation? h
  refine ⟨SortedSet.mem_ofList.1 hmem, hname, ?_⟩
  intro other hother hsame
  rw [compare_label]
  rw [operation?_index] at h
  have htest : decide (other.name = name) = true := decide_eq_true hsame
  rcases SortedSet.eq_or_lt_of_find? h (SortedSet.mem_ofList.2 hother) htest with rfl | hlt
  · rw [Std.ReflOrd.compare_self]
    rfl
  · exact isLE_kind_of_compare hlt (hname.trans hsame.symm)

/-- Under a name the index finds the operation that comes first by kind. -/
theorem ApartByKind.operation?_eq_some (apart : ApartByKind (.ofList listed)) :
    (index (.ofList listed)).operation? name = some operation ↔
      IsFirstNamed listed name operation := by
  refine ⟨isFirstNamed_of_operation?, ?_⟩
  intro hfirst
  have hmem : operation ∈ SortedSet.ofList listed := SortedSet.mem_ofList.2 hfirst.mem
  cases hfind : (index (.ofList listed)).operation? name with
  | none => exact absurd ⟨operation, hmem, hfirst.name_eq⟩ (operation?_index_eq_none.1 hfind)
  | some found =>
      -- both come first, so they are of one kind
      have hfound := isFirstNamed_of_operation? hfind
      have hle := hfirst.first found hfound.mem hfound.name_eq
      have hge := hfound.first operation hfirst.mem hfirst.name_eq
      rw [compare_label] at hle hge
      have hkind := Std.LawfulEqOrd.eq_of_compare (Std.OrientedCmp.isLE_antisymm hge hle)
      have hname := hfound.name_eq.trans hfirst.name_eq.symm
      rw [apart found (SortedSet.mem_ofList.2 hfound.mem) operation hmem hname hkind]

/-- The lookups of an index are those of the list, if kinds keep operations of one name apart. -/
theorem describes_index (apart : ApartByKind (.ofList listed)) :
    Describes listed (index (.ofList listed)) where
  operations operation := by rw [operations_index, SortedSet.mem_ofList]
  reads read := by rw [mem_reads_index, SortedSet.mem_ofList]
  writes write := by rw [mem_writes_index, SortedSet.mem_ofList]
  found _ _ := apart.operation?_eq_some
  absent name := by
    rw [operation?_index_eq_none]
    simp
  consumers name consumer := by
    rw [mem_consumersOf_index, SortedSet.mem_ofList, Operation.origins, SortedSet.mem_map]
  entries name := by
    rw [mem_consumers_index]
    simp only [SortedSet.mem_ofList, Operation.origins, SortedSet.mem_map, and_or_left, exists_or]
  dropped name fields := by
    rw [apart.dropped_find?_eq_some]
    refine exists_congr fun transform => ?_
    rw [SortedSet.mem_ofList]
    refine and_congr_right fun _ => and_congr_right fun _ => ?_
    constructor
    · rintro ⟨rfl, hnonempty⟩
      have hnarrows := Operation.narrows_iff_isEmpty.2 hnonempty
      exact ⟨hnarrows, hnarrows.droppedFields_eq_iff.1 rfl⟩
    · intro h
      obtain ⟨hnarrows, hfields⟩ := h
      obtain rfl := hnarrows.droppedFields_eq_iff.2 hfields
      exact ⟨rfl, Operation.narrows_iff_isEmpty.1 hnarrows⟩

/-- If no two operations of a list share name and kind, the index is the one flow whose lookups are
those of the list.  It is also the index of every other list of the same operations. -/
theorem eq_index_iff_describes (listed : List Operation) (apart : ApartByKind (.ofList listed)) :
    (∀ flow, flow = index (.ofList listed) ↔ Describes listed flow) ∧
    ∀ again : List Operation, (∀ operation, operation ∈ again ↔ operation ∈ listed) →
      index (.ofList again) = index (.ofList listed) := by
  have hdescribes := describes_index apart
  constructor
  · intro flow
    constructor
    · rintro rfl
      exact hdescribes
    · intro h
      exact h.unique hdescribes
  · intro again hsame
    rw [SortedSet.ofList_eq_iff.2 hsame]

namespace Sample

/-- Its origin is no operation of the list. -/
def twig : FieldRef := ⟨⟨"nowhere", by decide⟩, ⟨"twig", by decide⟩⟩

/-- A transform that drops all that it consumes. -/
def prune : Operation := ⟨⟨⟨"prune", by decide⟩, ""⟩, .transform (.ofList [twig]) ∅⟩

/-- A write that has the name of the transform and takes from it. -/
def pruned : Operation := ⟨⟨prune.name, ""⟩, .write none (.ofList [⟨prune.name, twig.name⟩])⟩

end Sample

open Sample in
/-- The transform is found under the name that it shares and drops a field; the write is a consumer
of this name, and the origin that is missing has an entry. -/
theorem eq_index_iff_describes_sample :
    ApartByKind (.ofList [pruned, prune, pruned]) ∧
    (index (.ofList [pruned, prune, pruned])).operation? pruned.name = some prune ∧
    pruned ∈ (index (.ofList [pruned, prune, pruned])).consumersOf pruned.name ∧
    twig.origin ∈ (index (.ofList [pruned, prune, pruned])).consumers.keys ∧
    (index (.ofList [pruned, prune, pruned])).dropped.find? pruned.name =
      some (.ofList [twig.name]) := by
  have apart : ApartByKind (.ofList [pruned, prune, pruned]) := by decide +kernel
  have hdescribes := ((eq_index_iff_describes [pruned, prune, pruned] apart).1 _).1 rfl
  have hinputs : prune.inputs = .ofList [twig] := rfl
  have houtputs : prune.outputs = ∅ := rfl
  have hinput : twig ∈ prune.inputs := by simp [hinputs]
  have hnarrows : prune.Narrows :=
    ⟨rfl, fun _ hout => absurd hout (SortedSet.not_mem_empty _), twig, hinput,
      SortedSet.not_mem_empty _⟩
  refine ⟨apart, (hdescribes.found _ _).2 ⟨by decide, rfl, by decide⟩, ?_, ?_, ?_⟩
  · exact (hdescribes.consumers _ _).2 ⟨by decide, ⟨prune.name, twig.name⟩, by decide +kernel, rfl⟩
  · exact (hdescribes.entries _).2 (.inr ⟨prune, by decide, twig, hinput, rfl⟩)
  · refine (hdescribes.dropped _ _).2 ⟨prune, by decide, rfl, hnarrows, fun field => ?_⟩
    simp [hinputs, houtputs, eq_comm]

end Flow

end Lineage
