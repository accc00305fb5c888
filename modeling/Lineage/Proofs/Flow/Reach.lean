import Mathlib.Logic.Relation
import Lineage.Flow.Reach
import Lineage.Proofs.Flow.Lookup

/-!
# What following a field finds

`reach` goes from some operations to all that can be reached from them
(`mem_reach`).  An operation that was taken off the list of those not reached is
not entered again, which loses nothing: a path that enters it can be cut at its
last visit, and the rest starts at one of its successors (`path_avoiding`).

So the operations found when a field is followed back or ahead are those that
touch the field itself and all that are reached from there step by step
(`mem_contributors`, `mem_dependents`).
-/

namespace Lineage.Flow

open Relation

variable {next : Operation → List Operation} {unreached pending : List Operation}
  {start operation : Operation}

/-! ## Paths -/

/-- Operation by operation one gets from the one to the other, and each that one gets to is among
the given ones. -/
def PathIn (next : Operation → List Operation) (unreached : List Operation) :
    Operation → Operation → Prop :=
  ReflTransGen fun before after => after ∈ next before ∧ after ∈ unreached

/-- Operation by operation one gets from the one to the other. -/
def Reached (next : Operation → List Operation) : Operation → Operation → Prop :=
  ReflTransGen fun before after => after ∈ next before

/-- A path either ends at an operation, or does not enter it after starting anew at one of its
successors, or avoids it from the start. -/
theorem path_avoiding {passed : Operation} (hstart : start ∈ unreached)
    (h : PathIn next unreached start operation) :
    operation = passed ∨ ∃ first, (first = start ∨ first ∈ next passed) ∧ first ≠ passed ∧
      first ∈ unreached ∧ PathIn next (unreached.erase passed) first operation := by
  -- following the path, what is kept is where it last started anew
  induction h with
  | refl =>
      by_cases heq : start = passed
      · exact .inl heq
      · exact .inr ⟨start, .inl rfl, heq, hstart, .refl⟩
  | @tail middle last _ hlast ih =>
      by_cases heq : last = passed
      · exact .inl heq
      rcases ih with rfl | ⟨first, hfirst, hne, hmem, hpath⟩
      · exact .inr ⟨last, .inr hlast.1, heq, hlast.2, .refl⟩
      · exact .inr ⟨first, hfirst, hne, hmem,
          hpath.tail ⟨hlast.1, (List.mem_erase_of_ne heq).2 hlast.2⟩⟩

theorem PathIn.of_erase {passed : Operation}
    (h : PathIn next (unreached.erase passed) start operation) :
    PathIn next unreached start operation := by
  induction h with
  | refl => exact .refl
  | tail _ hlast ih => exact ih.tail ⟨hlast.1, List.mem_of_mem_erase hlast.2⟩

/-- The walk reaches exactly the ends of paths from the pending operations. -/
theorem mem_reach : operation ∈ reach next unreached pending ↔
    ∃ start ∈ pending, start ∈ unreached ∧ PathIn next unreached start operation := by
  fun_induction reach next unreached pending with
  | case1 => simp
  | case2 unreached passed pending hpassed ih =>
      -- an operation is reached here, and its successors go to the front
      rw [List.mem_cons, ih]
      constructor
      · rintro (rfl | ⟨start, hstart, hmem, hpath⟩)
        · exact ⟨operation, by simp, hpassed, .refl⟩
        · have hmem := List.mem_of_mem_erase hmem
          rcases List.mem_append.1 hstart with hnext | hpending
          · exact ⟨passed, by simp, hpassed, hpath.of_erase.head ⟨hnext, hmem⟩⟩
          · exact ⟨start, by simp [hpending], hmem, hpath.of_erase⟩
      · intro hreached
        obtain ⟨start, hstart, hmem, hpath⟩ := hreached
        rcases path_avoiding hmem hpath with heq | ⟨first, hfirst, hne, hmem, hpath⟩
        · exact .inl heq
        refine .inr ⟨first, List.mem_append.2 ?_, (List.mem_erase_of_ne hne).2 hmem, hpath⟩
        rcases hfirst with rfl | hnext
        · exact .inr ((List.mem_cons.1 hstart).resolve_left hne)
        · exact .inl hnext
  | case3 unreached passed pending hpassed ih =>
      -- an operation that was reached before starts no path among those that were not
      rw [ih]
      constructor
      · intro hreached
        obtain ⟨start, hstart, hmem, hpath⟩ := hreached
        exact ⟨start, by simp [hstart], hmem, hpath⟩
      · intro hreached
        obtain ⟨start, hstart, hmem, hpath⟩ := hreached
        have hne : start ≠ passed := fun heq => hpassed (heq ▸ hmem)
        exact ⟨start, (List.mem_cons.1 hstart).resolve_left hne, hmem, hpath⟩

/-- Steps that do not leave the set need not be told to stay in it. -/
theorem mem_reach_of_closed (hnext : ∀ before, ∀ after ∈ next before, after ∈ unreached)
    (hpending : ∀ start ∈ pending, start ∈ unreached) :
    operation ∈ reach next unreached pending ↔
      ∃ start ∈ pending, Reached next start operation := by
  have hsteps : (fun before after => after ∈ next before ∧ after ∈ unreached) =
      fun before after => after ∈ next before :=
    funext₂ fun before after => propext (and_iff_left_of_imp (hnext before after))
  rw [mem_reach, PathIn, hsteps, ← Reached]
  refine exists_congr fun start => and_congr_right fun hstart => ?_
  exact and_iff_right (hpending start hstart)

/-! ## Steps in an indexed flow -/

variable {operations : OperationSet} {field : EndpointField} {input : FieldRef}
  {write read : Operation}

theorem mem_originsOf {inputs : List FieldRef} (flow : Flow) :
    operation ∈ flow.originsOf inputs ↔
      ∃ input ∈ inputs, flow.operation? input.origin = some operation :=
  List.mem_filterMap

theorem mem_back (flow : Flow) (before : Operation) : operation ∈ flow.back before ↔
    before.kind = .transform ∧
      ∃ input ∈ before.inputs, flow.operation? input.origin = some operation := by
  unfold back
  split
  · rename_i hkind
    simp [mem_originsOf, hkind, SortedSet.mem_def]
  · rename_i hkind
    simp [hkind]

theorem mem_ahead {before : Operation} : operation ∈ (index operations).ahead before ↔
    before.kind = .transform ∧ operation ∈ operations ∧ before.name ∈ operation.origins := by
  unfold ahead
  split
  · rename_i hkind
    rw [← SortedSet.mem_def, mem_consumersOf_index]
    simp [hkind]
  · rename_i hkind
    simp [hkind]

theorem mem_matching : input ∈ matching field write ↔
    write.endpoint? = some field.endpoint ∧ input ∈ write.inputs ∧ input.name = field.field := by
  unfold matching
  split
  · rename_i hendpoint
    simp [hendpoint, SortedSet.mem_def]
  · rename_i hendpoint
    simp [hendpoint]

theorem produces_iff : produces field read = true ↔
    read.endpoint? = some field.endpoint ∧ field.field.text ∈ read.outputs := by
  simp [produces]

theorem operations_of_back {before : Operation} (h : operation ∈ (index operations).back before) :
    operation ∈ operations := by
  obtain ⟨-, input, -, hfound⟩ := (mem_back _ _).1 h
  exact (mem_of_operation? hfound).1

theorem operations_of_ahead {before : Operation} (h : operation ∈ (index operations).ahead before) :
    operation ∈ operations :=
  (mem_ahead.1 h).2.1

/-! ## Where following starts -/

private theorem mem_writesOf : write ∈ ((index operations).writes.toList.filter
      fun write => !(matching field write).isEmpty) ↔
    write ∈ operations ∧ write.kind = .write ∧ ∃ input, input ∈ matching field write := by
  rw [List.mem_filter, ← SortedSet.mem_def, mem_writes_index, and_assoc]
  simp [List.eq_nil_iff_forall_not_mem]

private theorem mem_originsOf_writes : start ∈ (index operations).originsOf
      (((index operations).writes.toList.filter fun write =>
        !(matching field write).isEmpty).flatMap (matching field)) ↔
    ∃ write ∈ operations, write.kind = .write ∧ ∃ input ∈ matching field write,
      (index operations).operation? input.origin = some start := by
  rw [mem_originsOf]
  constructor
  · intro horigin
    obtain ⟨input, hinput, hstart⟩ := horigin
    obtain ⟨write, hwrite, hinput⟩ := List.mem_flatMap.1 hinput
    obtain ⟨hmem, hkind, -⟩ := mem_writesOf.1 hwrite
    exact ⟨write, hmem, hkind, input, hinput, hstart⟩
  · intro hwritten
    obtain ⟨write, hmem, hkind, input, hinput, hstart⟩ := hwritten
    have hwrite := mem_writesOf.2 ⟨hmem, hkind, input, hinput⟩
    exact ⟨input, List.mem_flatMap.2 ⟨write, hwrite, hinput⟩, hstart⟩

private theorem mem_readsOf : read ∈ (index operations).reads.toList.filter (produces field) ↔
    read ∈ operations ∧ read.kind = .read ∧ produces field read = true := by
  rw [List.mem_filter, ← SortedSet.mem_def, mem_reads_index, and_assoc]

private theorem mem_usersOf_reads : start ∈ (((index operations).reads.toList.filter
      (produces field)).flatMap fun read => ((index operations).consumersOf read.name).toList.filter
        fun consumer => decide (⟨read.name, field.field⟩ ∈ consumer.inputs)) ↔
    ∃ read ∈ operations, read.kind = .read ∧ produces field read = true ∧
      start ∈ operations ∧ (⟨read.name, field.field⟩ : FieldRef) ∈ start.inputs := by
  rw [List.mem_flatMap]
  constructor
  · intro huser
    obtain ⟨read, hread, hstart⟩ := huser
    obtain ⟨hmem, hkind, hproduces⟩ := mem_readsOf.1 hread
    rw [List.mem_filter, ← SortedSet.mem_def, mem_consumersOf_index, decide_eq_true_eq] at hstart
    exact ⟨read, hmem, hkind, hproduces, hstart.1.1, hstart.2⟩
  · intro hused
    obtain ⟨read, hmem, hkind, hproduces, hstart, hinput⟩ := hused
    refine ⟨read, mem_readsOf.2 ⟨hmem, hkind, hproduces⟩, ?_⟩
    rw [List.mem_filter, ← SortedSet.mem_def, mem_consumersOf_index, decide_eq_true_eq]
    exact ⟨⟨hstart, SortedSet.mem_map.2 ⟨_, hinput, rfl⟩⟩, hinput⟩

/-! ## What following finds -/

/-- The contributors are the writes of the field, and what is found by going back from the origins
of their inputs of its name. -/
theorem mem_contributors : operation ∈ (index operations).contributors field ↔
    (operation ∈ operations ∧ operation.kind = .write ∧ ∃ input, input ∈ matching field operation) ∨
    ∃ start, (∃ write ∈ operations, write.kind = .write ∧ ∃ input ∈ matching field write,
        (index operations).operation? input.origin = some start) ∧
      Reached (index operations).back start operation := by
  rw [contributors, operations_index, SortedSet.mem_ofList, List.mem_append, mem_writesOf,
    mem_reach_of_closed fun before after h => operations_of_back h]
  · simp only [mem_originsOf_writes]
  · intro start hstart
    obtain ⟨_, -, -, _, -, hfound⟩ := mem_originsOf_writes.1 hstart
    exact (mem_of_operation? hfound).1

/-- The dependents are the reads that produce the field, and what is found by going ahead from
the operations that consume it of them. -/
theorem mem_dependents : operation ∈ (index operations).dependents field ↔
    (operation ∈ operations ∧ operation.kind = .read ∧ produces field operation = true) ∨
    ∃ start, (∃ read ∈ operations, read.kind = .read ∧ produces field read = true ∧
        start ∈ operations ∧ (⟨read.name, field.field⟩ : FieldRef) ∈ start.inputs) ∧
      Reached (index operations).ahead start operation := by
  rw [dependents, operations_index, SortedSet.mem_ofList, List.mem_append, mem_readsOf,
    mem_reach_of_closed fun before after h => operations_of_ahead h]
  · simp only [mem_usersOf_reads]
  · intro start hstart
    obtain ⟨_, -, -, -, hmem, -⟩ := mem_usersOf_reads.1 hstart
    exact hmem

theorem operations_of_contributors (h : operation ∈ (index operations).contributors field) :
    operation ∈ operations := by
  rcases mem_contributors.1 h with ⟨hmem, -⟩ | ⟨start, ⟨_, -, -, _, -, hfound⟩, hpath⟩
  · exact hmem
  rcases hpath.cases_tail with rfl | ⟨_, -, hstep⟩
  · exact (mem_of_operation? hfound).1
  · exact operations_of_back hstep

theorem operations_of_dependents (h : operation ∈ (index operations).dependents field) :
    operation ∈ operations := by
  rcases mem_dependents.1 h with ⟨hmem, -⟩ | ⟨start, ⟨_, -, -, -, hmem, -⟩, hpath⟩
  · exact hmem
  rcases hpath.cases_tail with rfl | ⟨_, -, hstep⟩
  · exact hmem
  · exact operations_of_ahead hstep

end Lineage.Flow
