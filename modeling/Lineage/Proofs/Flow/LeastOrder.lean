import Mathlib.Data.String.Basic
import Lineage.Proofs.Flow.Merge

/-!
# The least of all orders

Of the operations of a list those stay that no later one of the same name replaces
(`Stays`).  An order of them has each of them once, and each after those whose
output it consumes (`Orders`).

Placing finds such an order if there is one.  It is no greater than any other:
whatever stands first in another order consumes nothing from the collection, so
that it could be placed first as well, and of the operations that could, placing
takes the one with the least name.  If both have the same operation first, the rest
of each is an order of what is left (`least_place`).
-/

namespace Lineage.Order

variable {unplaced operations ordered other : List Operation} {operation : Operation}

/-- An operation of a list that no later one replaces. -/
def Stays (listed : List Operation) (operation : Operation) : Prop :=
  ∃ earlier later, listed = earlier ++ operation :: later ∧
    ∀ other ∈ later, other.name ≠ operation.name

/-- An order of some operations: each of them once, and each after all those of them that it names
as the origin of an input. -/
structure Orders (among : Operation → Prop) (ordered : List Operation) : Prop where
  nodup : ordered.Nodup
  mem_iff : ∀ operation, operation ∈ ordered ↔ among operation
  after : ∀ {earlier consumer later}, ordered = earlier ++ consumer :: later →
    ∀ producer, among producer → producer.name ∈ consumer.origins → producer ∈ earlier

/-! ## An order and its first operation -/

/-- What stands first consumes nothing from the others. -/
theorem Orders.isReady_head {rest : List Operation}
    (orders : Orders (· ∈ unplaced) (operation :: rest)) : isReady unplaced operation = true :=
  isReady_iff.2 fun producer hmem horigin =>
    List.not_mem_nil (@orders.after [] _ _ rfl producer hmem horigin)

/-- Without what stands first the others are in order. -/
theorem Orders.tail {rest : List Operation} (orders : Orders (· ∈ unplaced) (operation :: rest))
    (hunplaced : unplaced.Nodup) : Orders (· ∈ unplaced.erase operation) rest where
  nodup := (List.nodup_cons.1 orders.nodup).2
  mem_iff other := by
    rw [hunplaced.mem_erase_iff, ← orders.mem_iff, List.mem_cons, and_or_left, and_comm,
      and_not_self_iff, false_or]
    refine (and_iff_right_of_imp ?_).symm
    rintro hother rfl
    exact (List.nodup_cons.1 orders.nodup).1 hother
  after := fun {earlier _ _} hsplit producer hmem horigin => by
    obtain ⟨hne, hmem⟩ := hunplaced.mem_erase_iff.1 hmem
    have hearlier :=
      @orders.after (operation :: earlier) _ _ (by rw [hsplit]; rfl) producer hmem horigin
    exact (List.mem_cons.1 hearlier).resolve_left hne

/-- An operation that consumes nothing from some others stands in order before them. -/
theorem Orders.cons (orders : Orders (· ∈ unplaced.erase operation) ordered)
    (hunplaced : unplaced.Nodup) (hmem : operation ∈ unplaced)
    (hready : isReady unplaced operation = true) :
    Orders (· ∈ unplaced) (operation :: ordered) where
  nodup := List.nodup_cons.2 ⟨fun h => by
    simpa [hunplaced.mem_erase_iff] using (orders.mem_iff operation).1 h, orders.nodup⟩
  mem_iff other := by
    rw [List.mem_cons, orders.mem_iff, hunplaced.mem_erase_iff]
    by_cases hother : other = operation
    · simp [hother, hmem]
    · simp [hother]
  after := fun {earlier consumer later} hsplit producer hproducer horigin => by
    rcases earlier with _ | ⟨first, earlier⟩
    · obtain ⟨rfl, -⟩ := List.cons.inj hsplit
      exact absurd horigin (isReady_iff.1 hready producer hproducer)
    · obtain ⟨rfl, hrest⟩ := List.cons.inj hsplit
      by_cases hsame : producer = operation
      · exact hsame ▸ List.mem_cons_self ..
      · refine List.mem_cons_of_mem _ (orders.after hrest producer ?_ horigin)
        exact hunplaced.mem_erase_iff.2 ⟨hsame, hproducer⟩

/-! ## Placing -/

/-- If nothing is stuck, what is placed is in order. -/
theorem orders_place (hunplaced : unplaced.Nodup) (hall : (place unplaced).2 = []) :
    Orders (· ∈ unplaced) (place unplaced).1 := by
  fun_induction place unplaced with
  | case1 unplaced hnone =>
      subst hall
      exact ⟨.nil, fun _ => Iff.rfl, fun hsplit => by simp at hsplit⟩
  | case2 unplaced operation hfind placed stuck hplace ih =>
      rw [hplace] at ih
      exact (ih (hunplaced.erase _) hall).cons hunplaced (List.mem_of_find?_eq_some hfind)
        (List.find?_some hfind)

/-- If there is an order, no operations hold one another back: the first of them in the order would
come after another one. -/
theorem Orders.not_holdBack {held : Operation → Prop} (orders : Orders (· ∈ unplaced) ordered)
    (hheld : HoldBack held) (hunplaced : ∀ other, held other → other ∈ unplaced) :
    ¬ held operation := by
  intro h
  have hmem := (orders.mem_iff operation).2 (hunplaced operation h)
  obtain ⟨earlier, later, hsplit⟩ := List.append_of_mem hmem
  induction hlength : earlier.length using Nat.strong_induction_on
    generalizing operation earlier later with
  | _ length ih =>
      obtain ⟨producer, hproducer, horigin⟩ := hheld operation h
      have hearlier := orders.after hsplit producer (hunplaced producer hproducer) horigin
      obtain ⟨before, between, rfl⟩ := List.append_of_mem hearlier
      refine ih before.length ?_ hproducer ((orders.mem_iff _).2 (hunplaced _ hproducer)) before
        (between ++ operation :: later) (by simpa using hsplit) rfl
      simp only [List.length_append, List.length_cons] at hlength
      omega

theorem Orders.stuck_eq_nil (orders : Orders (· ∈ unplaced) ordered) : (place unplaced).2 = [] :=
  List.eq_nil_iff_forall_not_mem.2 fun _ =>
    orders.not_holdBack (holdBack_stuck unplaced) fun _ => mem_of_mem_stuck

/-- No other order is less than what is placed. -/
theorem least_place (inOrder : NameOrder unplaced) (orders : Orders (· ∈ unplaced) other) :
    (place unplaced).1.map (·.name.text) ≤ other.map (·.name.text) := by
  fun_induction place unplaced generalizing other with
  | case1 unplaced hnone => exact not_lt.1 (List.not_lt_nil _)
  | case2 unplaced operation hfind placed stuck hplace ih =>
      rw [hplace] at ih
      have hmem := List.mem_of_find?_eq_some hfind
      rcases other with _ | ⟨first, rest⟩
      · exact absurd ((orders.mem_iff operation).2 hmem) List.not_mem_nil
      · have hfirst := (orders.mem_iff first).1 (List.mem_cons_self ..)
        refine not_lt.1 fun hlt => ?_
        have hlt := List.cons_lt_cons_iff.1 hlt
        rcases inOrder.find?_le hfind hfirst orders.isReady_head with rfl | hless
        · have hrest := ih (inOrder.erase _) (orders.tail inOrder.nodup)
          exact hrest.not_gt (hlt.resolve_left (lt_irrefl _)).2
        · have hless : operation.name.text < first.name.text := compareOfLessAndEq_eq_lt.1 hless
          rcases hlt with hgreater | ⟨hsame, -⟩
          · exact hless.asymm hgreater
          · exact hless.ne' hsame

/-! ## Sorting -/

theorem mem_distinct_iff_stays : operation ∈ distinct operations ↔ Stays operations operation := by
  rw [mem_distinct, List.find?_eq_some_iff_append]
  constructor
  · rintro ⟨-, later, earlier, hsplit, hlater⟩
    refine ⟨earlier.reverse, later.reverse, ?_, fun other hother => ?_⟩
    · simpa using congrArg List.reverse hsplit
    · simpa using hlater other (List.mem_reverse.1 hother)
  · rintro ⟨earlier, later, rfl, hlater⟩
    refine ⟨by simp, later.reverse, earlier.reverse, by simp, fun other hother => ?_⟩
    simpa using hlater other (List.mem_reverse.1 hother)

theorem orders_stays_iff : Orders (Stays operations) ordered ↔
    Orders (· ∈ distinct operations) ordered := by
  rw [show (· ∈ distinct operations) = Stays operations from
    funext fun _ => propext mem_distinct_iff_stays]

/-- If no name is repeated, only the operations matter and not how they are listed. -/
theorem sort_perm (hnames : (operations.map (·.name)).Nodup) (hperm : other.Perm operations) :
    sort other = sort operations := by
  have hknown : byName other = byName operations := by
    refine SortedMap.ext_find? fun name => Option.ext fun operation => ?_
    rw [find?_byName_eq_some, find?_byName_eq_some, mem_distinct_of_nodup hnames,
      mem_distinct_of_nodup ((hperm.map _).nodup_iff.2 hnames), hperm.mem_iff]
  rw [sort, sort, hknown]

/-- Sorting succeeds exactly if there is an order of the operations that stay, and it gives the one
whose names come first.  Where no name is repeated, it is the same however they are listed. -/
theorem sort_least (listed : List Operation) :
    ((∃ ordered, sort listed = .ok ordered) ↔ ∃ ordered, Orders (Stays listed) ordered) ∧
    (∀ ordered, sort listed = .ok ordered → Orders (Stays listed) ordered ∧
      ∀ other, Orders (Stays listed) other →
        ordered.map (·.name.text) ≤ other.map (·.name.text)) ∧
    ((listed.map (·.name)).Nodup → ∀ shuffled, shuffled.Perm listed → sort shuffled = sort listed) := by
  simp only [orders_stays_iff]
  have inOrder := nameOrder_distinct listed
  have hok (ordered : List Operation) : sort listed = .ok ordered ↔
      (place (distinct listed)).2 = [] ∧ (place (distinct listed)).1 = ordered := by
    obtain ⟨last, -, hsort⟩ := sort_eq listed
    rw [hsort]
    split
    · next hall => simp [hall]
    · next hstuck => simp [hstuck]
  refine ⟨⟨?_, ?_⟩, ?_, fun hnames shuffled hperm => sort_perm hnames hperm⟩
  · rintro ⟨ordered, h⟩
    exact ⟨_, orders_place inOrder.nodup ((hok ordered).1 h).1⟩
  · rintro ⟨ordered, orders⟩
    exact ⟨_, (hok _).2 ⟨orders.stuck_eq_nil, rfl⟩⟩
  · intro ordered h
    obtain ⟨hall, rfl⟩ := (hok ordered).1 h
    exact ⟨orders_place inOrder.nodup hall, fun other orders => least_place inOrder orders⟩

namespace Sample

open Flow.Sample

/-- The read of the sample before it had any outputs. -/
def draft : Operation := ⟨people.toHeading, .read (some peopleFile) ∅⟩

/-- The names alone would put these the other way round, and one of them is replaced. -/
def listed : List Operation := [archive, draft, count, people]

theorem sort_listed : sort listed = .ok [people, count, archive] := by
  have hdistinct : distinct listed = [archive, count, people] := by decide +kernel
  have hpeople : place [archive, count, people] =
      (people :: (place [archive, count]).1, (place [archive, count]).2) :=
    place_of_find? (by decide +kernel)
  have hcount : place [archive, count] = (count :: (place [archive]).1, (place [archive]).2) :=
    place_of_find? (by decide +kernel)
  have harchive : place [archive] = (archive :: (place []).1, (place []).2) :=
    place_of_find? (by decide +kernel)
  refine sort_of_place ?_
  rw [hdistinct, hpeople, hcount, harchive, place_nil]

end Sample

open Flow.Sample in
theorem sort_least_sample :
    sort Sample.listed = .ok [people, count, archive] ∧
    (∀ other, Orders (Stays Sample.listed) other →
      ["people", "count", "archive"] ≤ other.map (·.name.text)) ∧
    ([archive, count, people].map (·.name)).Nodup ∧
    sort [people, archive, count] = sort [archive, count, people] := by
  have hnames : ([archive, count, people].map (·.name)).Nodup := by decide
  obtain ⟨-, hleast, -⟩ := sort_least Sample.listed
  obtain ⟨-, -, hperm⟩ := sort_least [archive, count, people]
  exact ⟨Sample.sort_listed, (hleast _ Sample.sort_listed).2, hnames,
    hperm hnames _ (by decide)⟩

end Lineage.Order
