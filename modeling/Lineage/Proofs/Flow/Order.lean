import Lineage.Proofs.Flow.Lookup
import Lineage.Proofs.Flow.Queue

/-!
# When operations cannot be ordered

Operations hold one another back if each of them consumes what one of them
produces (`HoldBack`).  Placing never takes such an operation, and where it ends
all that are left hold one another back.  So what is left in the end are the
operations of all such groups (`mem_stuck`), and an order exists exactly if there
is no such group (`cyclic_iff`).
-/

namespace Lineage.Order

variable {unplaced operations : List Operation} {operation : Operation}

/-- Each of these operations consumes what one of them produces. -/
def HoldBack (held : Operation → Prop) : Prop :=
  ∀ operation, held operation → ∃ other, held other ∧ other.name ∈ operation.origins

/-! ## What is left by placing -/

theorem mem_of_mem_stuck (h : operation ∈ (place unplaced).2) : operation ∈ unplaced :=
  (perm_place unplaced).mem_iff.1 (List.mem_append_right _ h)

theorem holdBack_stuck (unplaced : List Operation) : HoldBack (· ∈ (place unplaced).2) := by
  fun_induction place unplaced with
  | case1 unplaced hnone =>
      intro operation hmem
      have hready := List.find?_eq_none.1 hnone operation hmem
      rw [isReady_iff] at hready
      obtain ⟨other, hother, horigin⟩ := not_forall₂.1 hready
      exact ⟨other, hother, not_not.1 horigin⟩
  | case2 unplaced ready hfind placed stuck hplace ih =>
      rw [hplace] at ih
      exact ih

/-- Operations that hold one another back are never ready, so none of them is placed. -/
theorem HoldBack.mem_stuck {held : Operation → Prop} (hheld : HoldBack held)
    (hunplaced : ∀ other, held other → other ∈ unplaced) (h : held operation) :
    operation ∈ (place unplaced).2 := by
  fun_induction place unplaced with
  | case1 unplaced hnone => exact hunplaced operation h
  | case2 unplaced ready hfind placed stuck hplace ih =>
      rw [hplace] at ih
      refine ih fun other hother => ?_
      have hne : other ≠ ready := by
        rintro rfl
        obtain ⟨producer, hproducer, horigin⟩ := hheld other hother
        have hready := isReady_iff.1 (List.find?_some hfind)
        exact hready producer (hunplaced producer hproducer) horigin
      exact (List.mem_erase_of_ne hne).2 (hunplaced other hother)

theorem mem_stuck : operation ∈ (place unplaced).2 ↔
    ∃ held, HoldBack held ∧ (∀ other, held other → other ∈ unplaced) ∧ held operation := by
  constructor
  · intro h
    exact ⟨_, holdBack_stuck unplaced, fun other => mem_of_mem_stuck, h⟩
  · rintro ⟨held, hheld, hunplaced, h⟩
    exact hheld.mem_stuck hunplaced h

/-! ## The last operation of each name -/

theorem mem_distinct : operation ∈ distinct operations ↔
    operations.reverse.find? (fun other => other.name = operation.name) = some operation := by
  rw [← find?_byName, find?_byName_eq_some, and_iff_left rfl]

theorem mem_of_mem_distinct (h : operation ∈ distinct operations) : operation ∈ operations :=
  List.mem_reverse.1 (List.mem_of_find?_eq_some (mem_distinct.1 h))

/-- If names are unique, no operation is replaced by another one. -/
theorem mem_distinct_of_unique
    (unique : ∀ a ∈ operations, ∀ b ∈ operations, a.name = b.name → a = b) :
    operation ∈ distinct operations ↔ operation ∈ operations := by
  refine ⟨mem_of_mem_distinct, fun hmem => mem_distinct.2 ?_⟩
  cases hfind : operations.reverse.find? fun other => other.name = operation.name with
  | none => simpa using List.find?_eq_none.1 hfind operation (List.mem_reverse.2 hmem)
  | some other =>
      have hother := List.mem_reverse.1 (List.mem_of_find?_eq_some hfind)
      have hname : other.name = operation.name := by simpa using List.find?_some hfind
      rw [unique other hother operation hmem hname]

theorem mem_distinct_of_nodup (hnames : (operations.map (·.name)).Nodup) :
    operation ∈ distinct operations ↔ operation ∈ operations :=
  mem_distinct_of_unique fun _ ha _ hb => List.inj_on_of_nodup_map hnames ha hb

/-! ## Sorting -/

/-- Operations are stuck exactly if others wait for one of them. -/
theorem residual_isEmpty_iff {last : Queue} (fits : last.Fits (place unplaced).2) :
    last.residual.isEmpty = true ↔ (place unplaced).2 = [] := by
  rw [SortedMap.isEmpty_iff]
  constructor
  · intro hnone
    refine List.eq_nil_iff_forall_not_mem.2 fun operation hmem => ?_
    obtain ⟨other, hother, horigin⟩ := holdBack_stuck unplaced operation hmem
    have hentry : last.residual.find? other.name.text = some _ :=
      last.find?_residual.2 ⟨other.name, rfl, ⟨operation.name, (fits.waiting _ _).2
        ⟨other, hother, operation, hmem, rfl, rfl, horigin⟩⟩, rfl⟩
    rw [hnone] at hentry
    cases hentry
  · intro hnil text
    refine Option.eq_none_iff_forall_ne_some.2 fun texts hentry => ?_
    obtain ⟨name, -, ⟨consumer, hwaiting⟩, -⟩ := last.find?_residual.1 hentry
    exact not_linked_nil _ _ (hnil ▸ (fits.waiting _ _).1 hwaiting)

/-- Sorting gives what is placed.  If operations are stuck, it gives instead what a queue that fits
them has left. -/
theorem sort_eq (operations : List Operation) : ∃ last : Queue,
    last.Fits (place (distinct operations)).2 ∧
    sort operations = if (place (distinct operations)).2 = [] then
      .ok (place (distinct operations)).1 else .error (.cycle last.residual) := by
  obtain ⟨hplaced, hfits⟩ :=
    (Queue.fits_ofKnown operations).run (nameOrder_distinct operations)
  have hknown : ((place (distinct operations)).1.map (·.name)).filterMap (byName operations).find? =
      (place (distinct operations)).1 := by
    rw [List.filterMap_map]
    refine (List.filterMap_congr fun operation hmem => ?_).trans List.filterMap_some
    refine find?_byName_eq_some.2 ⟨?_, rfl⟩
    exact (perm_place _).mem_iff.1 (List.mem_append_left _ hmem)
  refine ⟨_, hfits, ?_⟩
  simp only [sort, residual_isEmpty_iff hfits, hplaced, hknown]

theorem sort_of_place {placed : List Operation} (h : place (distinct operations) = (placed, [])) :
    sort operations = .ok placed := by
  obtain ⟨last, -, hsort⟩ := sort_eq operations
  rw [hsort, h, if_pos rfl]

/-- The operations are found to form a cycle. -/
def Cyclic (operations : List Operation) : Prop :=
  ∃ residual, sort operations = .error (.cycle residual)

theorem cyclic_iff_stuck : Cyclic operations ↔
    ∃ operation, operation ∈ (place (distinct operations)).2 := by
  obtain ⟨last, -, hsort⟩ := sort_eq operations
  rw [Cyclic, hsort]
  split
  · next hnil => simp [hnil]
  · next hstuck => simpa using List.exists_mem_of_ne_nil _ hstuck

/-- However operations are listed, sorting fails exactly if some of them hold one another back. -/
theorem cyclic_iff {operations : OperationSet} (unique : Flow.UniqueNames operations)
    {listing : List Operation} (hlisting : ∀ operation, operation ∈ listing ↔ operation ∈ operations) :
    Cyclic listing ↔ ∃ held, HoldBack held ∧ (∀ other, held other → other ∈ operations) ∧
      ∃ operation, held operation := by
  have hdistinct : ∀ operation, operation ∈ distinct listing ↔ operation ∈ operations := by
    intro operation
    rw [mem_distinct_of_unique, hlisting]
    intro a ha b hb
    exact unique a ((hlisting a).1 ha) b ((hlisting b).1 hb)
  simp only [cyclic_iff_stuck, mem_stuck, hdistinct]
  constructor
  · rintro ⟨operation, held, hheld, hmem, h⟩
    exact ⟨held, hheld, hmem, operation, h⟩
  · rintro ⟨held, hheld, hmem, operation, h⟩
    exact ⟨operation, held, hheld, hmem, h⟩

end Lineage.Order
