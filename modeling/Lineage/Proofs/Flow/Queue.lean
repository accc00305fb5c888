import Lineage.Proofs.Flow.Placing

/-!
# The queue places what is ready first

The queue comes to the same as placing without one (`Fits.run`), though it never
looks at the inputs again: at each stage it records which of the operations that
are left wait for which, on both sides alike, and exactly those that wait for none
are ready, each once and in name order (`Fits`).

The three ways in which a queue changes are followed one by one.  Filling it adds
links, for each input of an operation; releasing a consumer takes a single link
away, and makes the consumer ready if it was the last one; and when all consumers
of an operation are released, what the queue records is what it would record
without that operation (`Fits.advance`).
-/

namespace Lineage

theorem Name.text_injective : Function.Injective Name.text := by
  rintro ⟨a, _⟩ ⟨b, _⟩ h
  cases h
  rfl

/-- If no key is repeated, the map of a list has the entries of the list. -/
theorem SortedMap.find?_ofList_of_nodup {κ β : Type} [Ord κ] [Std.TransOrd κ] [Std.LawfulEqOrd κ]
    [DecidableEq κ] {entries : List (κ × β)} (hkeys : (entries.map Prod.fst).Nodup) {k : κ} {v : β} :
    (SortedMap.ofList entries).find? k = some v ↔ (k, v) ∈ entries := by
  rw [SortedMap.find?_ofList, Option.map_eq_some_iff]
  constructor
  · rintro ⟨entry, hfind, rfl⟩
    obtain rfl : entry.1 = k := by simpa using List.find?_some hfind
    exact List.mem_reverse.1 (List.mem_of_find?_eq_some hfind)
  · intro hmem
    have hsome : (entries.reverse.find? fun entry => entry.1 = k).isSome := by
      rw [List.find?_isSome]
      exact ⟨(k, v), List.mem_reverse.2 hmem, by simp⟩
    obtain ⟨entry, hfind⟩ := Option.isSome_iff_exists.1 hsome
    have hkey : entry.1 = k := by simpa using List.find?_some hfind
    have hentry := List.mem_reverse.1 (List.mem_of_find?_eq_some hfind)
    exact ⟨entry, hfind, by rw [List.inj_on_of_nodup_map hkeys hentry hmem hkey]⟩

namespace Order

variable {unplaced operations : List Operation} {operation : Operation}

namespace Queue

/-- The queue records these links, on both sides alike. -/
structure Records (queue : Queue) (links : Name → Name → Prop) : Prop where
  waiting : ∀ producer consumer, consumer ∈ queue.waitingFor producer ↔ links producer consumer
  awaited : ∀ producer consumer, producer ∈ queue.awaitedBy consumer ↔ links producer consumer

/-! ## Filling -/

/-- The queue records these links, and has an entry for each of these consumers, linked or not. -/
structure Filled (queue : Queue) (known : Name → Prop) (links : Name → Name → Prop) : Prop extends
    Records queue links where
  keys : ∀ name, name ∈ queue.awaited.keys ↔ known name

theorem mem_alter_insert (linked : SortedMap Name (SortedSet Name)) (key added : Name)
    {name other : Name} :
    other ∈ ((linked.alter key fun known => (known.getD ∅).insert added).find? name).getD ∅ ↔
      name = key ∧ other = added ∨ other ∈ (linked.find? name).getD ∅ := by
  by_cases hname : name = key
  · subst hname
    simp
  · simp [SortedMap.find?_alter_of_ne _ _ hname, hname]

variable {queue : Queue} {known : Name → Prop} {links : Name → Name → Prop}

theorem Filled.congr {more : Name → Name → Prop} (h : queue.Filled known links)
    (hlinks : ∀ producer consumer, links producer consumer ↔ more producer consumer) :
    queue.Filled known more where
  waiting producer consumer := (h.waiting producer consumer).trans (hlinks producer consumer)
  awaited producer consumer := (h.awaited producer consumer).trans (hlinks producer consumer)
  keys := h.keys

theorem Filled.link (h : queue.Filled known links) {first second : Name} (hknown : known second) :
    (queue.link first second).Filled known fun producer consumer =>
      producer = first ∧ consumer = second ∨ links producer consumer where
  waiting producer consumer :=
    (mem_alter_insert _ _ _).trans (or_congr_right (h.waiting producer consumer))
  awaited producer consumer := by
    refine (mem_alter_insert _ _ _).trans (or_congr and_comm ?_)
    exact h.awaited producer consumer
  keys name := by
    refine (SortedMap.mem_keys_alter _ _ _).trans ((or_congr_right (h.keys name)).trans ?_)
    exact or_iff_right_of_imp fun hname => hname ▸ hknown

/-- What is added for each entry of a list is added for some entry. -/
theorem Filled.foldl {α : Type} (h : queue.Filled known links) (add : Queue → α → Queue)
    (adds : α → Name → Name → Prop) (entries : List α)
    (hadd : ∀ entry ∈ entries, ∀ queue links, Filled queue known links →
      (add queue entry).Filled known fun producer consumer =>
        adds entry producer consumer ∨ links producer consumer) :
    (entries.foldl add queue).Filled known fun producer consumer =>
      (∃ entry ∈ entries, adds entry producer consumer) ∨ links producer consumer := by
  induction entries generalizing queue links with
  | nil => simpa using h
  | cons entry rest ih =>
      have hfirst := hadd entry (List.mem_cons_self ..) queue links h
      have hrest := ih hfirst fun other hother => hadd other (List.mem_cons_of_mem _ hother)
      refine hrest.congr fun producer consumer => ?_
      rw [List.exists_mem_cons_iff, or_assoc, or_left_comm]

theorem Filled.enter (h : queue.Filled known links) (byName : SortedMap Name Operation)
    {operation : Operation} (hknown : known operation.name) :
    (queue.enter byName operation).Filled known fun producer consumer =>
      (producer ∈ operation.origins ∧ byName.contains producer = true ∧ consumer = operation.name) ∨
        links producer consumer := by
  have hinputs := h.foldl
    (fun queue input =>
      if byName.contains input.origin then queue.link input.origin operation.name else queue)
    (fun input producer consumer =>
      byName.contains input.origin = true ∧ producer = input.origin ∧ consumer = operation.name)
    operation.inputs.toList fun input _ queue links h => by
      by_cases hcontains : byName.contains input.origin = true
      · simpa [hcontains] using h.link hknown
      · simpa [hcontains] using h
  refine hinputs.congr fun producer consumer => or_congr_left ?_
  rw [Operation.mem_origins]
  constructor
  · rintro ⟨input, hinput, hcontains, rfl, rfl⟩
    exact ⟨⟨input, hinput, rfl⟩, hcontains, rfl⟩
  · rintro ⟨⟨input, hinput, rfl⟩, hcontains, rfl⟩
    exact ⟨input, hinput, hcontains, rfl, rfl⟩

/-- What is known of a queue at the stage at which these operations are left: it records their
links, and those that wait for none of them are ready, each once and in name order. -/
structure Fits (queue : Queue) (unplaced : List Operation) : Prop extends
    Records queue (Linked unplaced) where
  ascending : queue.ready.Pairwise fun a b => compare a b = .lt
  mem_ready : ∀ name, name ∈ queue.ready ↔ Free unplaced name

theorem awaitedBy_isEmpty {links : Name → Name → Prop} (h : queue.Records links) {name : Name} :
    (queue.awaitedBy name).isEmpty = true ↔ ∀ producer, ¬ links producer name := by
  rw [SortedSet.isEmpty_iff]
  exact forall_congr' fun producer => not_congr (h.awaited producer name)

theorem filled_bare (known : SortedMap Name Operation) :
    Filled ⟨known.mapValues fun _ => ∅, known.mapValues fun _ => ∅, []⟩
      (fun name => known.contains name = true) fun _ _ => False where
  waiting producer consumer := by
    unfold waitingFor
    rw [SortedMap.find?_mapValues]
    cases known.find? producer <;> simp
  awaited producer consumer := by
    unfold awaitedBy
    rw [SortedMap.find?_mapValues]
    cases known.find? consumer <;> simp
  keys name := by simp [SortedMap.mem_keys, SortedMap.contains]

/-- Before any operation is placed the queue fits all of them. -/
theorem fits_ofKnown (operations : List Operation) :
    (ofKnown (byName operations)).Fits (distinct operations) := by
  have ordered := nameOrder_distinct operations
  have hfilled := (filled_bare (byName operations)).foldl (enter (byName operations)) _
    (distinct operations) fun operation hmem queue links h =>
      h.enter (byName operations) (contains_byName.2 ⟨operation, hmem, rfl⟩)
  -- an origin that is no known operation makes no link
  have hrecords : ∀ producer consumer,
      ((∃ operation ∈ distinct operations, producer ∈ operation.origins ∧
        (byName operations).contains producer = true ∧ consumer = operation.name) ∨ False) ↔
        Linked (distinct operations) producer consumer := by
    intro producer consumer
    simp only [contains_byName, or_false]
    constructor
    · rintro ⟨b, hb, horigin, ⟨a, ha, rfl⟩, rfl⟩
      exact ⟨a, ha, b, hb, rfl, rfl, horigin⟩
    · rintro ⟨a, ha, b, hb, rfl, rfl, horigin⟩
      exact ⟨b, hb, horigin, ⟨a, ha, rfl⟩, rfl⟩
  have hfits := hfilled.congr hrecords
  exact {
    waiting := hfits.waiting
    awaited := hfits.awaited
    ascending := SortedSet.ascending _ |>.filter _
    mem_ready := fun name => by
      refine List.mem_filter.trans (and_congr ?_ (awaitedBy_isEmpty hfits.toRecords))
      exact (hfits.keys name).trans contains_byName }

/-! ## Releasing -/

theorem mem_push {name other : Name} : other ∈ (queue.push name).ready ↔
    other = name ∨ other ∈ queue.ready := by
  simp [push, List.mem_merge]

/-- A name that is not ready yet comes to stand in its place. -/
theorem ascending_push (queue : Queue) {name : Name} (h : queue.ready.Pairwise fun a b => compare a b = .lt)
    (hnew : name ∉ queue.ready) : (queue.push name).ready.Pairwise fun a b => compare a b = .lt := by
  have hle : (queue.push name).ready.Pairwise fun a b => (compare a b).isLE = true := by
    apply List.pairwise_merge
    · intro a b c hab hbc
      exact Std.TransCmp.isLE_trans hab hbc
    · exact isLE_compare_total
    · exact List.pairwise_singleton _ _
    · exact h.imp fun hlt => by simp [hlt]
  have hnodup : (queue.push name).ready.Nodup := by
    refine (List.merge_perm_append _).nodup_iff.2 (List.nodup_cons.2 ⟨hnew, ?_⟩)
    exact h.imp fun hlt heq => by simp [heq, Std.ReflCmp.compare_self] at hlt
  refine hle.imp₂ (fun a b hab hne => ?_) hnodup
  rcases Ordering.isLE_iff_eq_lt_or_eq_eq.1 hab with hlt | heq
  · exact hlt
  · exact absurd (Std.LawfulEqOrd.eq_of_compare heq) hne

/-- What a queue is like after these consumers were released from a producer: they no longer wait
for it, and those that waited for nothing else have become ready. -/
structure Released (queue : Queue) (producer : Name) (consumers : List Name) (later : Queue) : Prop where
  waiting : later.waiting = queue.waiting
  awaited : ∀ name consumer, name ∈ later.awaitedBy consumer ↔
    name ∈ queue.awaitedBy consumer ∧ ¬ (name = producer ∧ consumer ∈ consumers)
  ascending : later.ready.Pairwise fun a b => compare a b = .lt
  mem_ready : ∀ name, name ∈ later.ready ↔ name ∈ queue.ready ∨
    name ∈ consumers ∧ ∀ other ∈ queue.awaitedBy name, other = producer

variable {producer : Name}

theorem mem_awaitedBy_supply {name consumer other : Name} :
    name ∈ (queue.supply producer consumer).awaitedBy other ↔
      name ∈ queue.awaitedBy other ∧ ¬ (name = producer ∧ other = consumer) := by
  unfold awaitedBy supply
  by_cases hother : other = consumer
  · subst hother
    simp
  · simp [SortedMap.find?_alter_of_ne _ _ hother, hother]

theorem supplied_isEmpty {consumer : Name} :
    ((queue.supply producer consumer).awaitedBy consumer).isEmpty = true ↔
      ∀ other ∈ queue.awaitedBy consumer, other = producer := by
  simp [SortedSet.isEmpty_iff, mem_awaitedBy_supply]

theorem released_release (producer : Name) {consumer : Name}
    (h : queue.ready.Pairwise fun a b => compare a b = .lt) (hnew : consumer ∉ queue.ready) :
    Released queue producer [consumer] (release producer queue consumer) := by
  have hawaited (name other : Name) : name ∈ (queue.supply producer consumer).awaitedBy other ↔
      name ∈ queue.awaitedBy other ∧ ¬ (name = producer ∧ other ∈ [consumer]) := by
    rw [mem_awaitedBy_supply, List.mem_singleton]
  unfold release
  dsimp only
  split
  · next hempty =>
      have hlast := supplied_isEmpty.1 hempty
      have hpush := ascending_push (queue.supply producer consumer) h hnew
      refine ⟨rfl, hawaited, hpush, fun name => ?_⟩
      rw [mem_push, or_comm, List.mem_singleton]
      exact or_congr_right ⟨fun hname => ⟨hname, hname ▸ hlast⟩, And.left⟩
  · next hempty =>
      refine ⟨rfl, hawaited, h, fun name => (or_iff_left ?_).symm⟩
      rw [List.mem_singleton]
      rintro ⟨rfl, hlast⟩
      exact hempty (supplied_isEmpty.2 hlast)

/-- One after the other the consumers are released. -/
theorem released_foldl (queue : Queue) (producer : Name) {consumers : List Name} (hconsumers : consumers.Nodup)
    (h : queue.ready.Pairwise fun a b => compare a b = .lt)
    (hnew : ∀ consumer ∈ consumers, consumer ∉ queue.ready) :
    Released queue producer consumers (consumers.foldl (release producer) queue) := by
  induction consumers generalizing queue with
  | nil => exact ⟨rfl, by simp, h, by simp⟩
  | cons consumer rest ih =>
      obtain ⟨hconsumer, hrest⟩ := List.nodup_cons.1 hconsumers
      obtain ⟨hwaiting, hawaited, hascending, hready⟩ :=
        released_release producer h (hnew consumer (List.mem_cons_self ..))
      have hlater := ih _ hrest hascending fun other hother => by
        rw [hready, List.mem_singleton, not_or]
        exact ⟨hnew other (List.mem_cons_of_mem _ hother), fun ⟨hsame, _⟩ => hconsumer (hsame ▸ hother)⟩
      rw [List.foldl_cons]
      refine ⟨hlater.waiting.trans hwaiting, fun name other => ?_, hlater.ascending, fun name => ?_⟩
      · rw [hlater.awaited, hawaited, List.mem_singleton, List.mem_cons]
        tauto
      · rw [hlater.mem_ready, hready, List.mem_singleton, List.mem_cons]
        -- what the rest still waits for is what it waited for, since it is not released yet
        have hsame (hname : name ∈ rest) (other : Name) :
            other ∈ (release producer queue consumer).awaitedBy name ↔ other ∈ queue.awaitedBy name := by
          rw [hawaited, List.mem_singleton]
          exact and_iff_left fun hboth => hconsumer (hboth.2 ▸ hname)
        constructor
        · rintro ((hmem | ⟨rfl, hall⟩) | ⟨hmem, hall⟩)
          · exact .inl hmem
          · exact .inr ⟨.inl rfl, hall⟩
          · exact .inr ⟨.inr hmem, fun other hother => hall other ((hsame hmem other).2 hother)⟩
        · rintro (hmem | ⟨rfl | hmem, hall⟩)
          · exact .inl (.inl hmem)
          · exact .inl (.inr ⟨rfl, hall⟩)
          · exact .inr ⟨hmem, fun other hother => hall other ((hsame hmem other).1 hother)⟩

/-! ## One stage after another -/

/-- With the first ready operation placed the queue fits those that are left. -/
theorem Fits.advance (fits : queue.Fits unplaced) (ordered : NameOrder unplaced)
    (hmem : operation ∈ unplaced) {others : List Name}
    (hready : queue.ready = operation.name :: others) :
    (queue.advance operation.name others).Fits (unplaced.erase operation) := by
  have hascending := fits.ascending
  rw [hready, List.pairwise_cons] at hascending
  obtain ⟨hfirst, hothers⟩ := hascending
  have hother (name : Name) : name ∈ others ↔ Free unplaced name ∧ name ≠ operation.name := by
    rw [← fits.mem_ready, hready, List.mem_cons, or_and_right, and_not_self_iff, false_or]
    refine (and_iff_left_of_imp fun hname heq => ?_).symm
    simpa [heq, Std.ReflCmp.compare_self] using hfirst name hname
  have hfree : Free unplaced operation.name :=
    (fits.mem_ready operation.name).1 (hready ▸ List.mem_cons_self ..)
  have hconsumers : ∀ consumer ∈ (queue.waitingFor operation.name).toList, consumer ∉ others :=
    fun consumer hconsumer hname =>
      ((hother consumer).1 hname).1.2 _ ((fits.waiting operation.name consumer).1 hconsumer)
  -- the consumers wait for the operation that is placed, so none of them is ready yet
  have hreleased := released_foldl { queue with ready := others } operation.name
    (SortedSet.nodup_toList _) hothers hconsumers
  exact {
    waiting := fun producer consumer => by
      rw [ordered.linked_erase_iff hmem hfree, ← fits.waiting]
      unfold waitingFor Queue.advance
      by_cases hname : producer = operation.name
      · subst hname
        simp
      · simp [SortedMap.find?_alter_of_ne _ _ hname, hname, waiting_foldl_release]
    awaited := fun producer consumer => by
      rw [ordered.linked_erase_iff hmem hfree]
      refine (hreleased.awaited producer consumer).trans ?_
      refine (and_congr_left' (fits.awaited producer consumer)).trans (and_congr_right fun hlink => ?_)
      refine not_congr (and_iff_left_of_imp ?_)
      rintro rfl
      exact (fits.waiting _ _).2 hlink
    ascending := hreleased.ascending
    mem_ready := fun name => by
      rw [ordered.free_erase_iff hmem hfree]
      refine (hreleased.mem_ready name).trans (or_congr (hother name) (and_congr ?_ ?_))
      · exact fits.waiting operation.name name
      · exact forall_congr' fun producer => imp_congr_left (fits.awaited producer name) }

/-- The first operation that can be placed is the one that the queue has first. -/
theorem Fits.exists_ready_eq (fits : queue.Fits unplaced) (ordered : NameOrder unplaced)
    (hfind : unplaced.find? (isReady unplaced) = some operation) :
    ∃ others, queue.ready = operation.name :: others := by
  have hmem := List.mem_of_find?_eq_some hfind
  have hnow : operation.name ∈ queue.ready :=
    (fits.mem_ready _).2 ((ordered.isReady_iff_free hmem).1 (List.find?_some hfind))
  have hascending := fits.ascending
  rcases hqueue : queue.ready with _ | ⟨name, others⟩
  · simp [hqueue] at hnow
  · rw [hqueue, List.pairwise_cons] at hascending
    rw [hqueue] at hnow
    have hfree := (fits.mem_ready name).1 (hqueue ▸ List.mem_cons_self ..)
    obtain ⟨other, hother, rfl⟩ := hfree.1
    -- each of the two is no later than the other
    rcases ordered.find?_le hfind hother ((ordered.isReady_iff_free hother).2 hfree) with rfl | hless
    · exact ⟨others, rfl⟩
    · rcases List.mem_cons.1 hnow with hsame | hlater
      · exact ⟨others, by rw [hsame]⟩
      · have hmore := hascending.1 _ hlater
        rw [Std.OrientedCmp.gt_iff_lt.2 hless] at hmore
        cases hmore

theorem Fits.ready_eq_nil (fits : queue.Fits unplaced) (ordered : NameOrder unplaced)
    (hfind : unplaced.find? (isReady unplaced) = none) : queue.ready = [] := by
  refine List.eq_nil_iff_forall_not_mem.2 fun name hname => ?_
  have hfree := (fits.mem_ready name).1 hname
  obtain ⟨operation, hmem, rfl⟩ := hfree.1
  exact List.find?_eq_none.1 hfind operation hmem ((ordered.isReady_iff_free hmem).2 hfree)

/-- A queue that fits some operations places them as they are placed without it, and what is left of
it fits those that are stuck. -/
theorem Fits.run (fits : queue.Fits unplaced) (ordered : NameOrder unplaced) :
    queue.run.1 = (place unplaced).1.map (·.name) ∧ queue.run.2.Fits (place unplaced).2 := by
  -- step by step with the placing, which takes the operation that is ready first
  fun_induction place unplaced generalizing queue with
  | case1 unplaced hnone =>
      have hempty := fits.ready_eq_nil ordered hnone
      unfold Queue.run
      split
      · exact ⟨rfl, fits⟩
      · next name others hready => simp [hempty] at hready
  | case2 unplaced operation hfind placed stuck hplace ih =>
      obtain ⟨others, hready⟩ := fits.exists_ready_eq ordered hfind
      have hmem := List.mem_of_find?_eq_some hfind
      have hrest := ih (fits.advance ordered hmem hready) (ordered.erase operation)
      rw [hplace] at hrest
      unfold Queue.run
      split
      · next hnil => simp [hready] at hnil
      · next name rest hcons =>
          obtain ⟨rfl, rfl⟩ := List.cons.inj (hready.symm.trans hcons)
          exact ⟨congrArg _ hrest.1, hrest.2⟩

/-! ## What is left -/

/-- The operations that others wait for are the entries that are not empty. -/
theorem waited_iff (queue : Queue) {name : Name} {consumers : SortedSet Name} :
    (queue.waiting.find? name = some consumers ∧ consumers.isEmpty = false) ↔
      queue.waitingFor name = consumers ∧ ∃ consumer, consumer ∈ queue.waitingFor name := by
  have hmembers (consumers : SortedSet Name) :
      consumers.isEmpty = false ↔ ∃ consumer, consumer ∈ consumers := by
    rw [← Bool.not_eq_true, SortedSet.isEmpty_iff]
    exact not_forall_not
  unfold waitingFor
  constructor
  · rintro ⟨hfind, hsome⟩
    rw [hfind]
    exact ⟨rfl, (hmembers _).1 hsome⟩
  · rintro ⟨rfl, hsome⟩
    refine ⟨?_, (hmembers _).2 hsome⟩
    cases hfind : queue.waiting.find? name with
    | none => simp [hfind] at hsome
    | some consumers => rfl

/-- For every operation that others wait for, the residual has the names of these. -/
theorem find?_residual (queue : Queue) {text : String} {texts : SortedSet String} :
    queue.residual.find? text = some texts ↔ ∃ name : Name, name.text = text ∧
      (∃ consumer, consumer ∈ queue.waitingFor name) ∧
      (queue.waitingFor name).map Name.text = texts := by
  have hkeys : (((queue.waiting.toList.filter fun entry => !entry.2.isEmpty).map fun entry =>
      (entry.1.text, entry.2.map Name.text)).map Prod.fst).Nodup := by
    rw [List.map_map, show Prod.fst ∘ _ = Name.text ∘ Prod.fst from rfl, ← List.map_map]
    refine List.Nodup.map Name.text_injective ((List.filter_sublist.map _).nodup ?_)
    exact SortedSet.nodup_toList queue.waiting.keys
  rw [residual, SortedMap.find?_ofList_of_nodup hkeys]
  simp only [List.mem_map, List.mem_filter, SortedMap.mem_toList_iff, Prod.exists, Prod.mk.injEq,
    Bool.not_eq_true', waited_iff]
  constructor
  · rintro ⟨name, _, ⟨rfl, hsome⟩, rfl, rfl⟩
    exact ⟨name, rfl, hsome, rfl⟩
  · rintro ⟨name, rfl, hsome, rfl⟩
    exact ⟨name, _, ⟨rfl, hsome⟩, rfl, rfl⟩

end Queue

end Order

end Lineage
