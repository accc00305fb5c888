import Lineage.Flow.Basic

/-!
# What the lookups of an indexed flow answer

An index enters the operations of a set one after another.  Each lookup of the
result is said here in terms of the set alone, so that nothing later has to
look at the order of entering.

Of several operations with one name the lookup by name finds the first.  If
names are unique (`UniqueNames`) it finds the operation of that name.  What a
transform drops is found under its name also if an operation of another kind has
the same name (`ApartByKind`).
-/

namespace Lineage.Flow

variable {operations : OperationSet} {operation consumer : Operation} {name : Name}

/-! ## Entering one operation -/

theorem operation?_enter (flow : Flow) (operation : Operation) (name : Name) :
    (flow.enter operation).operation? name =
      (flow.operation? name).or (if operation.name = name then some operation else none) := by
  unfold operation? enter
  by_cases hname : name = operation.name
  · subst hname
    rw [SortedMap.find?_alter_self, if_pos rfl]
    cases flow.byName.find? operation.name <;> rfl
  · rw [SortedMap.find?_alter_of_ne _ _ hname, if_neg (Ne.symm hname), Option.or_none]

private theorem mem_find?_foldl_alter (origins : List Name)
    (consumers : SortedMap Name OperationSet) :
    consumer ∈ ((origins.foldl (fun consumers origin =>
        consumers.alter origin fun known => (known.getD ∅).insert operation)
        consumers).find? name).getD ∅ ↔
      consumer ∈ (consumers.find? name).getD ∅ ∨ consumer = operation ∧ name ∈ origins := by
  induction origins generalizing consumers with
  | nil => simp
  | cons origin rest ih =>
      rw [List.foldl_cons, ih, List.mem_cons]
      by_cases hname : name = origin
      · subst hname
        simp only [SortedMap.find?_alter_self, Option.getD_some, SortedSet.mem_insert, true_or,
          and_true]
        by_cases hconsumer : consumer = operation <;> simp [hconsumer]
      · simp only [SortedMap.find?_alter_of_ne _ _ hname, hname, false_or]

theorem mem_consumersOf_enter (flow : Flow) (operation : Operation) :
    consumer ∈ (flow.enter operation).consumersOf name ↔
      consumer ∈ flow.consumersOf name ∨ consumer = operation ∧ name ∈ operation.origins := by
  unfold consumersOf enter withConsumer
  rw [mem_find?_foldl_alter]
  by_cases hname : name = operation.name
  · subst hname
    rw [SortedMap.find?_alter_self]
    rfl
  · rw [SortedMap.find?_alter_of_ne _ _ hname]
    rfl

private theorem mem_keys_foldl_alter (origins : List Name)
    (consumers : SortedMap Name OperationSet) :
    name ∈ (origins.foldl (fun consumers origin =>
        consumers.alter origin fun known => (known.getD ∅).insert operation) consumers).keys ↔
      name ∈ consumers.keys ∨ name ∈ origins := by
  induction origins generalizing consumers with
  | nil => simp
  | cons origin rest ih =>
      rw [List.foldl_cons, ih, SortedMap.mem_keys_alter, List.mem_cons, ← or_assoc,
        or_comm (a := name ∈ consumers.keys)]

theorem mem_consumers_enter (flow : Flow) (operation : Operation) :
    name ∈ (flow.enter operation).consumers.keys ↔
      name ∈ flow.consumers.keys ∨ operation.name = name ∨ name ∈ operation.origins := by
  unfold enter withConsumer
  rw [mem_keys_foldl_alter, SortedMap.mem_keys_alter, or_right_comm, or_comm, eq_comm]
  rfl

theorem mem_reads_enter (flow : Flow) (operation read : Operation) :
    read ∈ (flow.enter operation).reads ↔
      read ∈ flow.reads ∨ read = operation ∧ operation.kind = .read := by
  unfold enter
  by_cases hkind : operation.kind = .read
  · simp [hkind, or_comm]
  · simp [hkind]

theorem mem_writes_enter (flow : Flow) (operation write : Operation) :
    write ∈ (flow.enter operation).writes ↔
      write ∈ flow.writes ∨ write = operation ∧ operation.kind = .write := by
  unfold enter
  by_cases hkind : operation.kind = .write
  · simp [hkind, or_comm]
  · simp [hkind]

theorem dropped_find?_enter (flow : Flow) (operation : Operation) (name : Name) :
    (flow.enter operation).dropped.find? name =
      if operation.name = name ∧ operation.droppedFields.isEmpty = false then
        some operation.droppedFields
      else flow.dropped.find? name := by
  unfold enter SortedMap.insert
  by_cases hempty : operation.droppedFields.isEmpty = true
  · simp [hempty]
  · by_cases hname : name = operation.name
    · subst hname
      simp [hempty]
    · simp [hempty, SortedMap.find?_alter_of_ne _ _ hname, Ne.symm hname]

/-! ## Entering a list of operations -/

private theorem operations_foldl (listed : List Operation) (flow : Flow) :
    operation ∈ (listed.foldl enter flow).operations ↔
      operation ∈ flow.operations ∨ operation ∈ listed := by
  induction listed generalizing flow with
  | nil => simp
  | cons entered rest ih =>
      rw [List.foldl_cons, ih, List.mem_cons, ← or_assoc,
        or_comm (a := operation ∈ flow.operations)]
      exact or_congr_left SortedSet.mem_insert

private theorem operation?_foldl (listed : List Operation) (flow : Flow) (name : Name) :
    (listed.foldl enter flow).operation? name =
      (flow.operation? name).or (listed.find? fun operation => operation.name = name) := by
  induction listed generalizing flow with
  | nil => simp
  | cons entered rest ih =>
      rw [List.foldl_cons, ih, operation?_enter, List.find?_cons]
      by_cases hname : entered.name = name
      · simp [hname]
      · simp [hname]

private theorem mem_reads_foldl (listed : List Operation) (flow : Flow) :
    operation ∈ (listed.foldl enter flow).reads ↔
      operation ∈ flow.reads ∨ operation ∈ listed ∧ operation.kind = .read := by
  induction listed generalizing flow with
  | nil => simp
  | cons entered rest ih =>
      rw [List.foldl_cons, ih, mem_reads_enter, List.mem_cons, or_assoc, or_and_right]
      refine or_congr_right (or_congr_left (and_congr_right ?_))
      rintro rfl
      rfl

private theorem mem_writes_foldl (listed : List Operation) (flow : Flow) :
    operation ∈ (listed.foldl enter flow).writes ↔
      operation ∈ flow.writes ∨ operation ∈ listed ∧ operation.kind = .write := by
  induction listed generalizing flow with
  | nil => simp
  | cons entered rest ih =>
      rw [List.foldl_cons, ih, mem_writes_enter, List.mem_cons, or_assoc, or_and_right]
      refine or_congr_right (or_congr_left (and_congr_right ?_))
      rintro rfl
      rfl

private theorem mem_consumersOf_foldl (listed : List Operation) (flow : Flow) :
    consumer ∈ (listed.foldl enter flow).consumersOf name ↔
      consumer ∈ flow.consumersOf name ∨ consumer ∈ listed ∧ name ∈ consumer.origins := by
  induction listed generalizing flow with
  | nil => simp
  | cons entered rest ih =>
      rw [List.foldl_cons, ih, mem_consumersOf_enter, List.mem_cons, or_assoc, or_and_right]
      refine or_congr_right (or_congr_left (and_congr_right ?_))
      rintro rfl
      rfl

private theorem mem_consumers_foldl (listed : List Operation) (flow : Flow) :
    name ∈ (listed.foldl enter flow).consumers.keys ↔
      name ∈ flow.consumers.keys ∨
        ∃ operation ∈ listed, operation.name = name ∨ name ∈ operation.origins := by
  induction listed generalizing flow with
  | nil => simp
  | cons entered rest ih =>
      rw [List.foldl_cons, ih, mem_consumers_enter, or_assoc]
      simp only [List.mem_cons, or_and_right, exists_or, exists_eq_left]

/-- Whether an operation of the given name drops fields. -/
def dropsAs (name : Name) (operation : Operation) : Bool :=
  operation.name = name ∧ operation.droppedFields.isEmpty = false

private theorem dropped_find?_foldl (listed : List Operation) (flow : Flow) (name : Name) :
    (listed.foldl enter flow).dropped.find? name =
      ((listed.filter (dropsAs name)).getLast?.map Operation.droppedFields).or
        (flow.dropped.find? name) := by
  induction listed generalizing flow with
  | nil => rfl
  | cons entered rest ih =>
      rw [List.foldl_cons, ih, dropped_find?_enter, List.filter_cons]
      -- what was entered first counts only if nothing after it drops fields under this name
      by_cases hdrops : entered.name = name ∧ entered.droppedFields.isEmpty = false
      · rw [if_pos hdrops, if_pos (by simpa [dropsAs] using hdrops), List.getLast?_cons]
        cases (rest.filter (dropsAs name)).getLast? <;> rfl
      · rw [if_neg hdrops, if_neg (by simpa [dropsAs] using hdrops)]

/-! ## The lookups of an index -/

@[simp] theorem operations_index (operations : OperationSet) :
    (index operations).operations = operations :=
  SortedSet.ext_mem fun operation => by
    rw [index, operations_foldl]
    exact or_iff_right (SortedSet.not_mem_empty operation)

theorem operation?_index (operations : OperationSet) (name : Name) :
    (index operations).operation? name =
      operations.toList.find? fun operation => operation.name = name := by
  rw [index, operation?_foldl]
  rfl

@[simp] theorem mem_reads_index :
    operation ∈ (index operations).reads ↔ operation ∈ operations ∧ operation.kind = .read := by
  rw [index, mem_reads_foldl]
  exact or_iff_right (SortedSet.not_mem_empty operation)

@[simp] theorem mem_writes_index :
    operation ∈ (index operations).writes ↔ operation ∈ operations ∧ operation.kind = .write := by
  rw [index, mem_writes_foldl]
  exact or_iff_right (SortedSet.not_mem_empty operation)

@[simp] theorem mem_consumersOf_index :
    consumer ∈ (index operations).consumersOf name ↔
      consumer ∈ operations ∧ name ∈ consumer.origins := by
  rw [index, mem_consumersOf_foldl]
  exact or_iff_right (SortedSet.not_mem_empty consumer)

/-- There is an entry for every operation, even if nothing consumes what it produces, and for every
origin, even if nothing produces it. -/
theorem mem_consumers_index :
    name ∈ (index operations).consumers.keys ↔
      ∃ operation ∈ operations, operation.name = name ∨ name ∈ operation.origins := by
  rw [index, mem_consumers_foldl]
  exact or_iff_right (SortedSet.not_mem_empty name)

theorem dropped_find?_index (operations : OperationSet) (name : Name) :
    (index operations).dropped.find? name =
      (operations.toList.filter (dropsAs name)).getLast?.map Operation.droppedFields := by
  rw [index, dropped_find?_foldl]
  exact Option.or_none

/-! ## Unique names -/

/-- No two operations of the set share a name. -/
def UniqueNames (operations : OperationSet) : Prop :=
  ∀ a, a ∈ operations → ∀ b, b ∈ operations → a.name = b.name → a = b

instance (operations : OperationSet) : Decidable (UniqueNames operations) :=
  inferInstanceAs (Decidable (∀ a, a ∈ operations → ∀ b, b ∈ operations → a.name = b.name → a = b))

theorem mem_of_operation? (h : (index operations).operation? name = some operation) :
    operation ∈ operations ∧ operation.name = name := by
  rw [operation?_index] at h
  exact ⟨List.mem_of_find?_eq_some h, by simpa using List.find?_some h⟩

theorem operation?_index_eq_none : (index operations).operation? name = none ↔
    ¬ ∃ operation ∈ operations, operation.name = name := by
  rw [operation?_index, List.find?_eq_none]
  simp [SortedSet.mem_def]

/-- Nothing can be said of an operation of a name that is not there. -/
theorem not_exists_of_operation? (h : (index operations).operation? name = none)
    {p : Operation → Prop} : ¬ ∃ operation ∈ operations, operation.name = name ∧ p operation := by
  rintro ⟨operation, hmem, hname, -⟩
  exact operation?_index_eq_none.1 h ⟨operation, hmem, hname⟩

/-- What holds of some operation of a name holds of the one that has it. -/
theorem UniqueNames.exists_iff (unique : UniqueNames operations) (hmem : operation ∈ operations)
    {p : Operation → Prop} :
    (∃ other ∈ operations, other.name = operation.name ∧ p other) ↔ p operation := by
  constructor
  · intro hexists
    obtain ⟨other, hother, hname, hp⟩ := hexists
    exact unique other hother operation hmem hname ▸ hp
  · intro hp
    exact ⟨operation, hmem, rfl, hp⟩

theorem UniqueNames.operation?_eq_some (unique : UniqueNames operations) :
    (index operations).operation? name = some operation ↔
      operation ∈ operations ∧ operation.name = name := by
  refine ⟨mem_of_operation?, ?_⟩
  rintro ⟨hmem, rfl⟩
  cases hfind : (index operations).operation? operation.name with
  | none => exact absurd ⟨operation, hmem, rfl⟩ (operation?_index_eq_none.1 hfind)
  | some other =>
      -- the lookup finds the first of the name, and there is only one
      obtain ⟨hother, hname⟩ := mem_of_operation? hfind
      rw [unique other hother operation hmem hname]

/-- No two operations of the set share both name and kind. -/
def ApartByKind (operations : OperationSet) : Prop :=
  ∀ a, a ∈ operations → ∀ b, b ∈ operations → a.name = b.name → a.kind = b.kind → a = b

instance (operations : OperationSet) : Decidable (ApartByKind operations) :=
  inferInstanceAs (Decidable (∀ a, a ∈ operations → ∀ b, b ∈ operations →
    a.name = b.name → a.kind = b.kind → a = b))

theorem UniqueNames.apartByKind (unique : UniqueNames operations) : ApartByKind operations :=
  fun a ha b hb hname _ => unique a ha b hb hname

/-- Only a transform drops fields. -/
theorem kind_of_droppedFields (h : operation.droppedFields.isEmpty = false) :
    operation.kind = .transform := by
  have hnothing : (∅ : SortedSet Name).isEmpty = true := rfl
  cases hkind : operation.kind with
  | transform => rfl
  | read => simp [Operation.droppedFields, hkind, hnothing] at h
  | write => simp [Operation.droppedFields, hkind, hnothing] at h

/-- Under each name stands what the transform of this name drops. -/
theorem ApartByKind.dropped_find?_eq_some (apart : ApartByKind operations)
    {fields : SortedSet Name} :
    (index operations).dropped.find? name = some fields ↔
      ∃ operation ∈ operations, operation.name = name ∧ operation.droppedFields = fields ∧
        fields.isEmpty = false := by
  rw [dropped_find?_index, Option.map_eq_some_iff]
  constructor
  · intro hfound
    obtain ⟨operation, hlast, rfl⟩ := hfound
    have hmem := List.mem_of_getLast? hlast
    simp only [List.mem_filter, dropsAs, decide_eq_true_eq] at hmem
    exact ⟨operation, hmem.1, hmem.2.1, rfl, hmem.2.2⟩
  · intro hexists
    obtain ⟨operation, hmem, rfl, rfl, hdrops⟩ := hexists
    have hfilter : operation ∈ operations.toList.filter (dropsAs operation.name) :=
      List.mem_filter.2 ⟨hmem, by simp [dropsAs, hdrops]⟩
    cases hlast : (operations.toList.filter (dropsAs operation.name)).getLast? with
    | none => simp [List.getLast?_eq_none_iff.1 hlast] at hfilter
    | some other =>
        -- both are transforms, of which there is one of the name
        have hother := List.mem_filter.1 (List.mem_of_getLast? hlast)
        simp only [dropsAs, decide_eq_true_eq] at hother
        obtain ⟨hother, hname, hdrops'⟩ := hother
        have hkind := (kind_of_droppedFields hdrops').trans (kind_of_droppedFields hdrops).symm
        exact ⟨other, rfl, by rw [apart other hother operation hmem hname hkind]⟩

end Lineage.Flow
