import Lineage.Proofs.Flow.Reach

/-!
# What following a field finds, without a walk

Both ways of following a field are walks with a list of what was not reached yet.
Here the same is said of operations and names alone, by closing what touches the
field under single steps: back from a transform to whatever its inputs are found
to come from (`Contributes`), or ahead from a transform to whatever names it as
an origin (`DependsOn`).  That a walk finds exactly this holds for every set of
operations.  Nothing is asked of their names, which operations of different kinds
may share, nor of their origins, which may be missing or go round in cycles, nor
of their endpoints.

Closing takes no notice of what was reached before, so an operation may contribute
in several ways.  The walks enter it once; `mem_reach` says that nothing is lost by
this, and that they end needs no more than that the list of what was not reached
gets shorter whenever an operation is entered.
-/

namespace Lineage.Flow

variable {operations : OperationSet} {field : EndpointField} {operation : Operation}

/-! ## Back from a destination -/

/-- An input of a write becomes the given field of its destination. -/
structure Fills (operations : OperationSet) (field : EndpointField) (write : Operation)
    (input : FieldRef) : Prop where
  mem : write ∈ operations
  kind : write.kind = .write
  destination : write.endpoint? = some field.endpoint
  mem_inputs : input ∈ write.inputs
  name : input.name = field.field

/-- What contributes to a field of a destination: the writes of the field, what their inputs for the
field come from, and what the inputs of a transform come from that contributes. -/
inductive Contributes (operations : OperationSet) (field : EndpointField) : Operation → Prop where
  | write {write : Operation} {input : FieldRef} (fills : Fills operations field write input) :
      Contributes operations field write
  | origin {write found : Operation} {input : FieldRef}
      (fills : Fills operations field write input)
      (hfound : (index operations).operation? input.origin = some found) :
      Contributes operations field found
  | behind {transform found : Operation} {input : FieldRef}
      (contributes : Contributes operations field transform)
      (kind : transform.kind = .transform) (mem_inputs : input ∈ transform.inputs)
      (hfound : (index operations).operation? input.origin = some found) :
      Contributes operations field found

theorem fills_iff {write : Operation} {input : FieldRef} :
    Fills operations field write input ↔
      write ∈ operations ∧ write.kind = .write ∧ input ∈ matching field write := by
  rw [mem_matching]
  constructor
  · intro fills
    exact ⟨fills.mem, fills.kind, fills.destination, fills.mem_inputs, fills.name⟩
  · rintro ⟨hmem, hkind, hdestination, hinput, hname⟩
    exact ⟨hmem, hkind, hdestination, hinput, hname⟩

theorem Contributes.of_back {start : Operation} (hstart : Contributes operations field start)
    (hpath : Reached (index operations).back start operation) :
    Contributes operations field operation := by
  induction hpath with
  | refl => exact hstart
  | tail _ hstep ih =>
      obtain ⟨hkind, input, hinput, hfound⟩ := (mem_back _ _).1 hstep
      exact ih.behind hkind hinput hfound

theorem contributes_of_mem (h : operation ∈ (index operations).contributors field) :
    Contributes operations field operation := by
  rcases mem_contributors.1 h with ⟨hmem, hkind, input, hinput⟩ |
    ⟨start, ⟨write, hmem, hkind, input, hinput, hfound⟩, hpath⟩
  · exact .write (fills_iff.2 ⟨hmem, hkind, hinput⟩)
  · exact .of_back (.origin (fills_iff.2 ⟨hmem, hkind, hinput⟩) hfound) hpath

/-- The contributors have what the inputs of a transform among them come from. -/
theorem contributors_behind {transform found : Operation} {input : FieldRef}
    (h : transform ∈ (index operations).contributors field) (hkind : transform.kind = .transform)
    (hinput : input ∈ transform.inputs)
    (hfound : (index operations).operation? input.origin = some found) :
    found ∈ (index operations).contributors field := by
  rcases mem_contributors.1 h with ⟨-, hwrite, -⟩ | ⟨start, hstart, hpath⟩
  · -- the writes of the field are no transforms
    simp [hkind] at hwrite
  · have hstep := (mem_back _ _).2 ⟨hkind, input, hinput, hfound⟩
    exact mem_contributors.2 (.inr ⟨start, hstart, hpath.tail hstep⟩)

theorem Contributes.mem (h : Contributes operations field operation) :
    operation ∈ (index operations).contributors field := by
  induction h with
  | write fills =>
      obtain ⟨hmem, hkind, hinput⟩ := fills_iff.1 fills
      exact mem_contributors.2 (.inl ⟨hmem, hkind, _, hinput⟩)
  | @origin write found input fills hfound =>
      obtain ⟨hmem, hkind, hinput⟩ := fills_iff.1 fills
      exact mem_contributors.2
        (.inr ⟨found, ⟨write, hmem, hkind, input, hinput, hfound⟩, .refl⟩)
  | behind _ hkind hinput hfound ih => exact contributors_behind ih hkind hinput hfound

/-- In every set of operations the contributors of a field are what contributes to it, and nothing
else.  So each of them is a write of the field, or the lookup finds it for an input that such a
write has for the field, or for any input of a transform that is a contributor itself; reads, and
writes that were found in this way, lead no further. -/
theorem contributors_exact (operations : OperationSet) (field : EndpointField)
    (operation : Operation) :
    (operation ∈ (index operations).contributors field ↔
      Contributes operations field operation) ∧
    (operation ∈ (index operations).contributors field ↔
      (∃ input, Fills operations field operation input) ∨
      (∃ write input, Fills operations field write input ∧
        (index operations).operation? input.origin = some operation) ∨
      ∃ transform ∈ (index operations).contributors field, transform.kind = .transform ∧
        ∃ input ∈ transform.inputs,
          (index operations).operation? input.origin = some operation) := by
  refine ⟨⟨contributes_of_mem, Contributes.mem⟩, fun hmem => ?_, ?_⟩
  · cases contributes_of_mem hmem with
    | write fills => exact .inl ⟨_, fills⟩
    | origin fills hfound => exact .inr (.inl ⟨_, _, fills, hfound⟩)
    | behind contributes hkind hinput hfound =>
        exact .inr (.inr ⟨_, contributes.mem, hkind, _, hinput, hfound⟩)
  · rintro (⟨input, fills⟩ | ⟨write, input, fills, hfound⟩ |
      ⟨transform, htransform, hkind, input, hinput, hfound⟩)
    · exact (Contributes.write fills).mem
    · exact (Contributes.origin fills hfound).mem
    · exact contributors_behind htransform hkind hinput hfound

/-! ## Ahead from a source -/

/-- A read takes the given field from its source and passes it on. -/
structure Provides (operations : OperationSet) (field : EndpointField) (read : Operation) :
    Prop where
  mem : read ∈ operations
  kind : read.kind = .read
  source : read.endpoint? = some field.endpoint
  mem_outputs : field.field.text ∈ read.outputs

/-- An operation has the given field of a read that provides it among its inputs. -/
structure Consumes (operations : OperationSet) (field : EndpointField) (user : Operation) :
    Prop where
  mem : user ∈ operations
  takes : ∃ read, Provides operations field read ∧
    (⟨read.name, field.field⟩ : FieldRef) ∈ user.inputs

/-- What depends on a field of a source: the reads that provide it, the operations that consume it,
and whatever names a transform as an origin that depends on it. -/
inductive DependsOn (operations : OperationSet) (field : EndpointField) : Operation → Prop where
  | read {read : Operation} (provides : Provides operations field read) :
      DependsOn operations field read
  | user {user : Operation} (consumes : Consumes operations field user) :
      DependsOn operations field user
  | ahead {transform consumer : Operation} (depends : DependsOn operations field transform)
      (kind : transform.kind = .transform) (mem : consumer ∈ operations)
      (mem_origins : transform.name ∈ consumer.origins) :
      DependsOn operations field consumer

theorem provides_iff {read : Operation} : Provides operations field read ↔
    read ∈ operations ∧ read.kind = .read ∧ produces field read = true := by
  rw [produces_iff]
  constructor
  · intro provides
    exact ⟨provides.mem, provides.kind, provides.source, provides.mem_outputs⟩
  · rintro ⟨hmem, hkind, hsource, houtput⟩
    exact ⟨hmem, hkind, hsource, houtput⟩

theorem consumes_iff {user : Operation} : Consumes operations field user ↔
    ∃ read ∈ operations, read.kind = .read ∧ produces field read = true ∧
      user ∈ operations ∧ (⟨read.name, field.field⟩ : FieldRef) ∈ user.inputs := by
  constructor
  · rintro ⟨huser, read, hprovides, hinput⟩
    obtain ⟨hmem, hkind, hproduces⟩ := provides_iff.1 hprovides
    exact ⟨read, hmem, hkind, hproduces, huser, hinput⟩
  · rintro ⟨read, hmem, hkind, hproduces, huser, hinput⟩
    exact ⟨huser, read, provides_iff.2 ⟨hmem, hkind, hproduces⟩, hinput⟩

theorem DependsOn.of_ahead {start : Operation} (hstart : DependsOn operations field start)
    (hpath : Reached (index operations).ahead start operation) :
    DependsOn operations field operation := by
  induction hpath with
  | refl => exact hstart
  | tail _ hstep ih =>
      obtain ⟨hkind, hmem, horigin⟩ := mem_ahead.1 hstep
      exact ih.ahead hkind hmem horigin

theorem dependsOn_of_mem (h : operation ∈ (index operations).dependents field) :
    DependsOn operations field operation := by
  rcases mem_dependents.1 h with hread | ⟨user, huser, hpath⟩
  · exact .read (provides_iff.2 hread)
  · exact .of_ahead (.user (consumes_iff.2 huser)) hpath

/-- The dependents have all that names a transform among them as an origin. -/
theorem dependents_ahead {transform consumer : Operation}
    (h : transform ∈ (index operations).dependents field) (hkind : transform.kind = .transform)
    (hmem : consumer ∈ operations) (horigin : transform.name ∈ consumer.origins) :
    consumer ∈ (index operations).dependents field := by
  rcases mem_dependents.1 h with ⟨-, hread, -⟩ | ⟨user, huser, hpath⟩
  · -- the reads of the field are no transforms
    simp [hkind] at hread
  · have hstep := mem_ahead.2 ⟨hkind, hmem, horigin⟩
    exact mem_dependents.2 (.inr ⟨user, huser, hpath.tail hstep⟩)

theorem DependsOn.mem (h : DependsOn operations field operation) :
    operation ∈ (index operations).dependents field := by
  induction h with
  | read provides => exact mem_dependents.2 (.inl (provides_iff.1 provides))
  | user consumes => exact mem_dependents.2 (.inr ⟨_, consumes_iff.1 consumes, .refl⟩)
  | ahead _ hkind hmem horigin ih => exact dependents_ahead ih hkind hmem horigin

/-- In every set of operations the dependents of a field are what depends on it, and nothing else.
So each of them is a read that provides the field, or it consumes the field itself of such a read,
or it names as an origin a transform that is a dependent.  In particular an operation that takes
only other fields of the reads is there for the sake of a transform, and writes lead no further. -/
theorem dependents_exact (operations : OperationSet) (field : EndpointField)
    (operation : Operation) :
    (operation ∈ (index operations).dependents field ↔ DependsOn operations field operation) ∧
    (operation ∈ (index operations).dependents field ↔
      Provides operations field operation ∨ Consumes operations field operation ∨
      operation ∈ operations ∧ ∃ transform ∈ (index operations).dependents field,
        transform.kind = .transform ∧ transform.name ∈ operation.origins) := by
  refine ⟨⟨dependsOn_of_mem, DependsOn.mem⟩, fun hmem => ?_, ?_⟩
  · cases dependsOn_of_mem hmem with
    | read provides => exact .inl provides
    | user consumes => exact .inr (.inl consumes)
    | ahead depends hkind hmem horigin =>
        exact .inr (.inr ⟨hmem, _, depends.mem, hkind, horigin⟩)
  · rintro (provides | consumes | ⟨hmem, transform, htransform, hkind, horigin⟩)
    · exact (DependsOn.read provides).mem
    · exact (DependsOn.user consumes).mem
    · exact dependents_ahead htransform hkind hmem horigin

end Lineage.Flow
