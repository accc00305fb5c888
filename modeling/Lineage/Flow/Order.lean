import Lineage.Fault
import Lineage.Flow.Basic

/-!
# Putting operations in order

Operations are put in order one at a time.  A queue knows of every operation
which others wait for its output and whose output it waits for itself.  Those
that wait for nothing are ready, and of these the one with the least name comes
next.  When it is placed, all that waited for it are released, and one of them
that now waits for nothing becomes ready.  Origins outside the collection do not
count.

If none is ready any more while some are still waited for, these hold one another
back, and the residual says which operations wait for which.
-/

namespace Lineage.Order

/-- The operations of a list by name; of those that share a name the last counts. -/
def byName (operations : List Operation) : SortedMap Name Operation :=
  SortedMap.ofList (operations.map fun operation => (operation.name, operation))

/-- The operations of a list, the last one of each name, in name order. -/
def distinct (operations : List Operation) : List Operation := (byName operations).values

/-- What is left to do while operations are put in order. -/
structure Queue where
  /-- For every operation, those that wait for its output. -/
  waiting : SortedMap Name (SortedSet Name)
  /-- For every operation, those whose output it waits for. -/
  awaited : SortedMap Name (SortedSet Name)
  /-- The operations that wait for nothing and are not placed yet, in ascending order. -/
  ready : List Name

namespace Queue

/-- The operations that wait for the output of one. -/
def waitingFor (queue : Queue) (producer : Name) : SortedSet Name :=
  (queue.waiting.find? producer).getD ∅

/-- The operations whose output one waits for. -/
def awaitedBy (queue : Queue) (consumer : Name) : SortedSet Name :=
  (queue.awaited.find? consumer).getD ∅

/-! ## Filling -/

/-- One operation waits for the output of another. -/
def link (queue : Queue) (producer consumer : Name) : Queue :=
  { queue with
    waiting := queue.waiting.alter producer fun known => (known.getD ∅).insert consumer
    awaited := queue.awaited.alter consumer fun known => (known.getD ∅).insert producer }

/-- An operation waits for those that its inputs come from, as far as they are known. -/
def enter (known : SortedMap Name Operation) (queue : Queue) (operation : Operation) : Queue :=
  operation.inputs.toList.foldl (fun queue input =>
    if known.contains input.origin then queue.link input.origin operation.name else queue) queue

/-- The queue of some operations before any of them is placed. -/
def ofKnown (known : SortedMap Name Operation) : Queue :=
  let bare : Queue := ⟨known.mapValues fun _ => ∅, known.mapValues fun _ => ∅, []⟩
  let queue := known.values.foldl (enter known) bare
  { queue with ready := queue.awaited.keys.toList.filter fun name => (queue.awaitedBy name).isEmpty }

/-! ## Placing -/

/-- One more operation is ready. -/
def push (queue : Queue) (name : Name) : Queue :=
  { queue with ready := List.merge [name] queue.ready fun a b => (compare a b).isLE }

/-- A consumer gets the output of a producer and no longer waits for it. -/
def supply (queue : Queue) (producer consumer : Name) : Queue :=
  { queue with
    awaited := queue.awaited.alter consumer fun known =>
      (known.getD ∅).filter fun name => decide (name ≠ producer) }

/-- A consumer is released from a producer, and is ready if it waits for nothing else. -/
def release (producer : Name) (queue : Queue) (consumer : Name) : Queue :=
  let queue := queue.supply producer consumer
  if (queue.awaitedBy consumer).isEmpty then queue.push consumer else queue

/-- The least of the ready operations is placed, and the others are left. -/
def advance (queue : Queue) (name : Name) (others : List Name) : Queue :=
  let released :=
    (queue.waitingFor name).toList.foldl (release name) { queue with ready := others }
  { released with waiting := released.waiting.alter name fun _ => ∅ }

/-- How many operations others wait for, each counted once for each of these. -/
def links (queue : Queue) : Nat := (queue.waiting.values.flatMap SortedSet.toList).length

theorem waiting_release (producer : Name) (queue : Queue) (consumer : Name) :
    (queue.release producer consumer).waiting = queue.waiting := by
  unfold release
  dsimp only
  split <;> rfl

theorem length_ready_release_le (producer : Name) (queue : Queue) (consumer : Name) :
    (release producer queue consumer).ready.length ≤ queue.ready.length + 1 := by
  unfold release
  dsimp only
  split
  · simp only [push, supply, List.length_merge, List.length_singleton]
    omega
  · simp [supply]

theorem waiting_foldl_release (producer : Name) (consumers : List Name) (queue : Queue) :
    (consumers.foldl (release producer) queue).waiting = queue.waiting := by
  induction consumers generalizing queue with
  | nil => rfl
  | cons consumer rest ih => rw [List.foldl_cons, ih, waiting_release]

theorem length_ready_foldl_release_le (producer : Name) (consumers : List Name) (queue : Queue) :
    (consumers.foldl (release producer) queue).ready.length ≤
      queue.ready.length + consumers.length := by
  induction consumers generalizing queue with
  | nil => simp
  | cons consumer rest ih =>
    have hrest := ih (release producer queue consumer)
    have hone := length_ready_release_le producer queue consumer
    rw [List.foldl_cons, List.length_cons]
    omega

/-- Whoever waited for a placed operation is released, so that no link to it is left. -/
theorem links_advance_le (queue : Queue) (name : Name) (others : List Name) :
    (queue.advance name others).links + (queue.advance name others).ready.length ≤
      queue.links + others.length := by
  have hlinks :=
    SortedMap.length_flatMap_values_alter queue.waiting name (fun _ => ∅) SortedSet.toList
  have hready := length_ready_foldl_release_le name (queue.waitingFor name).toList
    { queue with ready := others }
  have hcount : (queue.waitingFor name).toList =
      ((queue.waiting.find? name).map SortedSet.toList).getD [] := by
    unfold waitingFor
    cases queue.waiting.find? name <;> rfl
  have hempty : (∅ : SortedSet Name).toList.length = 0 := rfl
  rw [← hcount] at hlinks
  simp only [links, advance, waiting_foldl_release]
  dsimp only at hready
  omega

/-- The operations in the order in which they are placed, and the queue that is left when none is
ready any more. -/
def run (queue : Queue) : List Name × Queue :=
  match _h : queue.ready with
  | [] => ([], queue)
  | name :: others =>
    let (placed, last) := run (queue.advance name others)
    (name :: placed, last)
termination_by queue.links + queue.ready.length
decreasing_by
  have hadvance := links_advance_le queue name others
  simp only [_h, List.length_cons]
  omega

/-- For every operation that others still wait for, the names of these. -/
def residual (queue : Queue) : Residual :=
  SortedMap.ofList ((queue.waiting.toList.filter fun entry => !entry.2.isEmpty).map fun entry =>
    (entry.1.text, entry.2.map Name.text))

end Queue

/-- The operations with every producer before its consumers, the least names first. -/
def sort (operations : List Operation) : Except Fault (List Operation) :=
  let known := byName operations
  let (placed, last) := (Queue.ofKnown known).run
  let residual := last.residual
  if residual.isEmpty then .ok (placed.filterMap known.find?) else .error (.cycle residual)

end Lineage.Order
