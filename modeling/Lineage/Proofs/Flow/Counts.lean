import Mathlib.Data.Set.Card
import Lineage.Proofs.Flow.Outgoing

/-!
# How many operations, endpoints and dropped fields

A flow lists each of its operations, sources, destinations and dropped fields once.
So how many it lists is how many different ones there are among the operations that
it was made of, however often these were listed.
-/

namespace Lineage

open Lineage.Flow

variable {listed : List Operation}

/-- A set has as many elements as there are different members. -/
theorem SortedSet.ncard_mem {α : Type} [Ord α] [Std.TransOrd α] [Std.LawfulEqOrd α]
    (s : SortedSet α) : {a | a ∈ s}.ncard = s.size := by
  let members : Finset α := ⟨s.toList, s.nodup_toList⟩
  have hmembers : {a | a ∈ s} = (members : Set α) := rfl
  rw [hmembers, Set.ncard_coe_finset]
  rfl

/-- The endpoints of the operations of a kind. -/
def endpointsAmong (kind : Kind) (listed : List Operation) : Set Endpoint :=
  {endpoint | ∃ operation ∈ listed, operation.kind = kind ∧ operation.endpoint? = some endpoint}

/-- The fields that some transform drops. -/
def droppedAmong (listed : List Operation) : Set Name :=
  {field | ∃ transform ∈ listed, transform.Drops field}

namespace Flow

theorem size_map_endpoint? {kind : Kind} {operations : OperationSet}
    (hmem : ∀ operation, operation ∈ operations ↔ operation ∈ listed ∧ operation.kind = kind)
    (hsome : ∀ operation ∈ operations, operation.endpoint? ≠ none) :
    (operations.map Operation.endpoint?).size = (endpointsAmong kind listed).ncard := by
  have himage : {endpoint | endpoint ∈ operations.map Operation.endpoint?} =
      some '' endpointsAmong kind listed := by
    ext endpoint
    simp only [Set.mem_ofPred_eq, SortedSet.mem_map, Set.mem_image, endpointsAmong]
    constructor
    · rintro ⟨operation, hoperation, rfl⟩
      obtain ⟨endpoint, hendpoint⟩ := Option.ne_none_iff_exists'.1 (hsome operation hoperation)
      obtain ⟨hlisted, hkind⟩ := (hmem operation).1 hoperation
      exact ⟨endpoint, ⟨operation, hlisted, hkind, hendpoint⟩, hendpoint.symm⟩
    · rintro ⟨endpoint, ⟨operation, hlisted, hkind, hendpoint⟩, rfl⟩
      exact ⟨operation, (hmem operation).2 ⟨hlisted, hkind⟩, hendpoint⟩
  rw [← SortedSet.ncard_mem, himage, Set.ncard_image_of_injective _ (Option.some_injective _)]

theorem UniqueNames.mem_droppedFields_index {operations : OperationSet}
    (unique : UniqueNames operations) {field : Name} :
    field ∈ (index operations).droppedFields ↔
      ∃ operation ∈ operations, operation.Drops field := by
  simp only [droppedFields, SortedSet.mem_unions, SortedMap.mem_values, id]
  constructor
  · rintro ⟨fields, ⟨name, hfind⟩, hfield⟩
    obtain ⟨operation, hmem, -, rfl, -⟩ := unique.apartByKind.dropped_find?_eq_some.1 hfind
    exact ⟨operation, hmem, Operation.mem_droppedFields.1 hfield⟩
  · rintro ⟨operation, hmem, hdrops⟩
    have hfield := Operation.mem_droppedFields.2 hdrops
    have hsome : operation.droppedFields.isEmpty = false := by
      rw [← Bool.not_eq_true, SortedSet.isEmpty_iff]
      exact fun hnone => hnone field hfield
    have hfind := unique.apartByKind.dropped_find?_eq_some.2 ⟨operation, hmem, rfl, rfl, hsome⟩
    exact ⟨_, ⟨operation.name, hfind⟩, hfield⟩

section

variable (admitted : Admitted (.ofList listed))
include admitted

theorem size_sources :
    (index (.ofList listed)).sources.size = (endpointsAmong .read listed).ncard := by
  refine size_map_endpoint? (by simp) fun read hread => ?_
  obtain ⟨hmem, hkind⟩ := mem_reads_index.1 hread
  exact admitted.sourced read hmem hkind

theorem size_destinations :
    (index (.ofList listed)).destinations.size = (endpointsAmong .write listed).ncard := by
  refine size_map_endpoint? (by simp) fun write hwrite => ?_
  obtain ⟨hmem, hkind⟩ := mem_writes_index.1 hwrite
  exact admitted.destined write hmem hkind

theorem size_droppedFields :
    (index (.ofList listed)).droppedFields.size = (droppedAmong listed).ncard := by
  rw [← SortedSet.ncard_mem]
  congr 1
  ext field
  simp [admitted.unique.mem_droppedFields_index, droppedAmong]

end

theorem size_ofList (listed : List Operation) :
    (SortedSet.ofList listed : OperationSet).size = {operation | operation ∈ listed}.ncard := by
  rw [← SortedSet.ncard_mem]
  simp only [SortedSet.mem_ofList]

end Flow

end Lineage
