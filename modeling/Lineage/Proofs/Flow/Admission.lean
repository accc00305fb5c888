import Mathlib.Logic.Basic
import Mathlib.Tactic.SplitIfs
import Lineage.Flow.Admission
import Lineage.Proofs.Flow.Lookup

/-!
# What admission asks

`accept` runs through its checks one after another.  It gives a flow exactly
for the sets that pass all of them (`accept_eq_ok_iff`), and that flow is the
index of the set.

The traversals need less: names are unique, and reads and writes have their
endpoints (`Traceable`).
-/

namespace Lineage.Flow

/-- Names are unique, every read has its source and every write its destination. -/
structure Traceable (operations : OperationSet) : Prop where
  unique : UniqueNames operations
  sourced : ∀ read ∈ operations, read.kind = .read → read.endpoint? ≠ none
  destined : ∀ write ∈ operations, write.kind = .write → write.endpoint? ≠ none

/-- A valid snapshot: there is also a read and a write, and every origin names an operation. -/
structure Admitted (operations : OperationSet) : Prop extends Traceable operations where
  hasRead : ∃ read ∈ operations, read.kind = .read
  hasWrite : ∃ write ∈ operations, write.kind = .write
  knownOrigins : ∀ operation ∈ operations, ∀ origin ∈ operation.origins,
    ∃ other ∈ operations, other.name = origin

variable {operations : OperationSet}

/-! ## The checks one by one -/

theorem sharedName?_eq_none : sharedName? operations.toList = none ↔ UniqueNames operations := by
  rw [sharedName?, Option.map_eq_none_iff, List.find?_eq_none]
  refine forall₂_congr fun operation _ => ?_
  rw [List.any_eq_true, not_exists]
  refine forall_congr' fun other => ?_
  rw [not_and, decide_eq_true_eq, not_and_not_right]
  exact forall_congr' fun _ => by rw [eq_comm (a := other.name), eq_comm (a := other)]

theorem withoutEndpoint?_eq_none {kind : Kind} :
    withoutEndpoint? kind operations.toList = none ↔
      ∀ operation ∈ operations, operation.kind = kind → operation.endpoint? ≠ none := by
  rw [withoutEndpoint?, Option.map_eq_none_iff, List.find?_eq_none]
  refine forall₂_congr fun operation _ => ?_
  rw [decide_eq_true_eq, not_and]

theorem unknownOrigins_isEmpty : (index operations).unknownOrigins.isEmpty = true ↔
    ∀ operation ∈ operations, ∀ origin ∈ operation.origins,
      ∃ other ∈ operations, other.name = origin := by
  rw [SortedSet.isEmpty_iff, unknownOrigins, operations_index]
  simp only [SortedSet.mem_filter, SortedSet.mem_unions, Option.isNone_iff_eq_none,
    operation?_index_eq_none, not_and_not_right]
  constructor
  · intro h operation hmem origin horigin
    exact h origin ⟨operation, hmem, horigin⟩
  · rintro h origin ⟨operation, hmem, horigin⟩
    exact h operation hmem origin horigin

theorem reads_index_isEmpty : (index operations).reads.isEmpty = true ↔
    ¬ ∃ read ∈ operations, read.kind = .read := by
  simp [SortedSet.isEmpty_iff]

theorem writes_index_isEmpty : (index operations).writes.isEmpty = true ↔
    ¬ ∃ write ∈ operations, write.kind = .write := by
  simp [SortedSet.isEmpty_iff]

/-! ## All of them together -/

/-- A set is accepted exactly if it is a valid snapshot, and then its index is the result. -/
theorem accept_eq_ok_iff {flow : Flow} :
    accept operations = .ok flow ↔ flow = index operations ∧ Admitted operations := by
  unfold accept
  constructor
  · intro h
    split at h
    · cases h
    rename_i hunique
    split at h
    · cases h
    rename_i hsourced
    split at h
    · cases h
    rename_i hdestined
    dsimp only at h
    split_ifs at h with hreads hwrites hknown
    cases h
    refine ⟨rfl, ⟨sharedName?_eq_none.1 hunique, withoutEndpoint?_eq_none.1 hsourced,
      withoutEndpoint?_eq_none.1 hdestined⟩, ?_, ?_, unknownOrigins_isEmpty.1 hknown⟩
    · exact not_not.1 fun hnone => hreads (reads_index_isEmpty.2 hnone)
    · exact not_not.1 fun hnone => hwrites (writes_index_isEmpty.2 hnone)
  · rintro ⟨rfl, admitted⟩
    rw [sharedName?_eq_none.2 admitted.unique, withoutEndpoint?_eq_none.2 admitted.sourced,
      withoutEndpoint?_eq_none.2 admitted.destined]
    dsimp only
    rw [if_neg fun h => reads_index_isEmpty.1 h admitted.hasRead,
      if_neg fun h => writes_index_isEmpty.1 h admitted.hasWrite,
      if_pos (unknownOrigins_isEmpty.2 admitted.knownOrigins)]

end Lineage.Flow
