import Mathlib.Data.List.Nodup
import Mathlib.Logic.Basic
import Lineage.Flow.Order
import Lineage.Proofs.Flow.Upstream

/-!
# Placing what is ready first

Said without a queue, placing takes from the operations that are left the first
one that none of them produces an input of, as long as there is one (`place`).
Since the operations stand in name order (`nameOrder_distinct`), the first one is
the one with the least name (`NameOrder.find?_le`).

Who waits for whom among the operations that are left is said by name (`Linked`).
With an operation that waits for none, only the links from it fall away, and those
that waited for it alone wait for none any more (`NameOrder.free_erase_iff`).
-/

namespace Lineage.Order

variable {unplaced operations : List Operation} {operation : Operation}

/-! ## Placing without a queue -/

/-- Whether none of the operations still to be placed produces an input of the given one. -/
def isReady (unplaced : List Operation) (operation : Operation) : Bool :=
  !unplaced.any fun other => decide (other.name ∈ operation.origins)

/-- The operations that could be placed, in order, and those that hold one another back. -/
def place (unplaced : List Operation) : List Operation × List Operation :=
  match _h : unplaced.find? (isReady unplaced) with
  | none => ([], unplaced)
  | some operation =>
    let (placed, stuck) := place (unplaced.erase operation)
    (operation :: placed, stuck)
termination_by unplaced.length
decreasing_by
  have hmem := List.mem_of_find?_eq_some _h
  have hpos := List.length_pos_of_mem hmem
  rw [List.length_erase_of_mem hmem]
  omega

theorem place_nil : place [] = ([], []) := by
  rw [place]
  rfl

theorem place_of_find? (h : unplaced.find? (isReady unplaced) = some operation) :
    place unplaced =
      (operation :: (place (unplaced.erase operation)).1, (place (unplaced.erase operation)).2) := by
  rw [place]
  split
  · next hnone => cases hnone.symm.trans h
  · next other hother =>
      obtain rfl := Option.some.inj (hother.symm.trans h)
      rfl

theorem isReady_iff : isReady unplaced operation = true ↔
    ∀ other ∈ unplaced, ¬ other.name ∈ operation.origins := by
  simp [isReady]

/-- What is placed and what is stuck is what there was. -/
theorem perm_place (unplaced : List Operation) :
    ((place unplaced).1 ++ (place unplaced).2).Perm unplaced := by
  fun_induction place unplaced with
  | case1 unplaced hnone => exact .refl _
  | case2 unplaced operation hfind placed stuck hplace ih =>
      rw [hplace] at ih
      exact (ih.cons operation).trans (List.perm_cons_erase (List.mem_of_find?_eq_some hfind)).symm

/-! ## Operations in name order -/

/-- The operations stand in name order, and no two of them share a name. -/
def NameOrder (operations : List Operation) : Prop :=
  operations.Pairwise fun a b => compare a.name b.name = .lt

theorem NameOrder.nodup_names (ordered : NameOrder operations) :
    (operations.map (·.name)).Nodup :=
  List.pairwise_map.2 (ordered.imp fun hlt heq => by simp [heq, Std.ReflCmp.compare_self] at hlt)

theorem NameOrder.nodup (ordered : NameOrder operations) : operations.Nodup :=
  ordered.nodup_names.of_map _

theorem NameOrder.eq_of_name (ordered : NameOrder operations) {a b : Operation}
    (ha : a ∈ operations) (hb : b ∈ operations) (hname : a.name = b.name) : a = b :=
  List.inj_on_of_nodup_map ordered.nodup_names ha hb hname

theorem NameOrder.erase (ordered : NameOrder operations) (operation : Operation) :
    NameOrder (operations.erase operation) :=
  ordered.sublist List.erase_sublist

/-- Without an operation those are left that have another name. -/
theorem NameOrder.mem_erase (ordered : NameOrder operations) (hmem : operation ∈ operations)
    {other : Operation} :
    other ∈ operations.erase operation ↔ other ∈ operations ∧ other.name ≠ operation.name := by
  rw [ordered.nodup.mem_erase_iff, and_comm]
  refine and_congr_right fun hother => not_congr ⟨fun h => by rw [h], ?_⟩
  exact ordered.eq_of_name hother hmem

/-- Of the operations that pass a test the first one has the least name. -/
theorem NameOrder.find?_le (ordered : NameOrder operations) {test : Operation → Bool}
    (hfind : operations.find? test = some operation) {other : Operation}
    (hother : other ∈ operations) (htest : test other = true) :
    operation = other ∨ compare operation.name other.name = .lt := by
  obtain ⟨-, earlier, later, rfl, hearlier⟩ := List.find?_eq_some_iff_append.1 hfind
  rcases List.mem_append.1 hother with hmem | hmem
  · simpa [htest] using hearlier other hmem
  · rcases List.mem_cons.1 hmem with rfl | hmem
    · exact .inl rfl
    · exact .inr ((List.pairwise_cons.1 (List.pairwise_append.1 ordered).2.1).1 other hmem)

/-! ## The last operation of each name -/

theorem find?_byName (operations : List Operation) (name : Name) :
    (byName operations).find? name =
      operations.reverse.find? fun operation => operation.name = name := by
  rw [byName, SortedMap.find?_ofList, ← List.map_reverse, List.find?_map, Option.map_map]
  exact congrFun Option.map_id _

theorem name_of_find?_byName {name : Name} (h : (byName operations).find? name = some operation) :
    operation.name = name := by
  rw [find?_byName] at h
  simpa using List.find?_some h

theorem find?_byName_eq_some {name : Name} : (byName operations).find? name = some operation ↔
    operation ∈ distinct operations ∧ operation.name = name := by
  rw [distinct, SortedMap.mem_values]
  constructor
  · intro h
    exact ⟨⟨name, h⟩, name_of_find?_byName h⟩
  · rintro ⟨⟨other, h⟩, rfl⟩
    rwa [name_of_find?_byName h]

theorem contains_byName {name : Name} : (byName operations).contains name = true ↔
    ∃ operation ∈ distinct operations, operation.name = name := by
  simp only [SortedMap.contains, Option.isSome_iff_exists, find?_byName_eq_some]

theorem nameOrder_distinct (operations : List Operation) : NameOrder (distinct operations) := by
  have hname : ∀ entry ∈ (byName operations).toList, entry.2.name = entry.1 := fun entry hentry =>
    name_of_find?_byName ((byName operations).mem_toList_iff.1 hentry)
  rw [NameOrder, distinct, SortedMap.values, List.pairwise_map]
  refine (byName operations).ascending.imp_of_mem fun ha hb hlt => ?_
  rwa [hname _ ha, hname _ hb]

/-! ## Who waits for whom -/

/-- Operations of these two names are still to be placed, and the one consumes what the other
produces. -/
def Linked (unplaced : List Operation) (producer consumer : Name) : Prop :=
  ∃ a ∈ unplaced, ∃ b ∈ unplaced, a.name = producer ∧ b.name = consumer ∧ a.name ∈ b.origins

theorem Linked.exists_consumer {producer consumer : Name} (h : Linked unplaced producer consumer) :
    ∃ operation ∈ unplaced, operation.name = consumer := by
  obtain ⟨-, -, b, hb, -, hname, -⟩ := h
  exact ⟨b, hb, hname⟩

theorem not_linked_nil (producer consumer : Name) : ¬ Linked [] producer consumer := by
  simp [Linked]

/-- An operation of this name is still to be placed, and waits for no other one. -/
def Free (unplaced : List Operation) (name : Name) : Prop :=
  (∃ operation ∈ unplaced, operation.name = name) ∧ ∀ producer, ¬ Linked unplaced producer name

section

variable (ordered : NameOrder unplaced) (hmem : operation ∈ unplaced)
include ordered hmem

theorem NameOrder.isReady_iff_free :
    isReady unplaced operation = true ↔ Free unplaced operation.name := by
  rw [isReady_iff]
  constructor
  · intro hready
    refine ⟨⟨operation, hmem, rfl⟩, ?_⟩
    rintro _ ⟨a, ha, b, hb, rfl, hname, horigin⟩
    exact hready a ha (ordered.eq_of_name hb hmem hname ▸ horigin)
  · intro hfree other hother horigin
    exact hfree.2 other.name ⟨other, hother, operation, hmem, rfl, rfl, horigin⟩

variable (hfree : Free unplaced operation.name) {producer consumer name : Name}
include hfree

/-- When an operation is placed that waits for no other one, the links from it fall away and no
others. -/
theorem NameOrder.linked_erase_iff : Linked (unplaced.erase operation) producer consumer ↔
    Linked unplaced producer consumer ∧ producer ≠ operation.name := by
  constructor
  · rintro ⟨a, ha, b, hb, rfl, rfl, horigin⟩
    rw [ordered.mem_erase hmem] at ha hb
    exact ⟨⟨a, ha.1, b, hb.1, rfl, rfl, horigin⟩, ha.2⟩
  · rintro ⟨⟨a, ha, b, hb, rfl, rfl, horigin⟩, hne⟩
    have hconsumer : b.name ≠ operation.name := fun hname =>
      hfree.2 a.name ⟨a, ha, b, hb, rfl, hname, horigin⟩
    exact ⟨a, (ordered.mem_erase hmem).2 ⟨ha, hne⟩, b, (ordered.mem_erase hmem).2 ⟨hb, hconsumer⟩,
      rfl, rfl, horigin⟩

/-- Then those are free that were free before, and those that waited for this operation alone. -/
theorem NameOrder.free_erase_iff : Free (unplaced.erase operation) name ↔
    Free unplaced name ∧ name ≠ operation.name ∨
    Linked unplaced operation.name name ∧
      ∀ producer, Linked unplaced producer name → producer = operation.name := by
  have hleft : (∃ other ∈ unplaced.erase operation, other.name = name) ↔
      (∃ other ∈ unplaced, other.name = name) ∧ name ≠ operation.name := by
    simp only [ordered.mem_erase hmem]
    constructor
    · rintro ⟨other, ⟨hother, hne⟩, rfl⟩
      exact ⟨⟨other, hother, rfl⟩, hne⟩
    · rintro ⟨⟨other, hother, rfl⟩, hne⟩
      exact ⟨other, ⟨hother, hne⟩, rfl⟩
  unfold Free
  simp only [hleft, ordered.linked_erase_iff hmem hfree, not_and_not_right]
  constructor
  · rintro ⟨⟨hnamed, hne⟩, honly⟩
    by_cases hlink : Linked unplaced operation.name name
    · exact .inr ⟨hlink, honly⟩
    · exact .inl ⟨⟨hnamed, fun producer hother => hlink (honly producer hother ▸ hother)⟩, hne⟩
  · rintro (⟨⟨hnamed, hnone⟩, hne⟩ | ⟨hlink, honly⟩)
    · exact ⟨⟨hnamed, hne⟩, fun producer hother => absurd hother (hnone producer)⟩
    · exact ⟨⟨hlink.exists_consumer, fun hname => hfree.2 _ (hname ▸ hlink)⟩, honly⟩

end

end Lineage.Order
