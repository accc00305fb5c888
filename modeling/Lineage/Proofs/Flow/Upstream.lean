import Mathlib.Logic.Relation
import Lineage.Flow.Component
import Lineage.Proofs.Flow.Lookup

/-!
# What reaches a transform

The source fields that reach a transform are those that it takes from a read,
or that some transform upstream of it takes.  This is said twice: of operations
of a set, which is what a reader means (`Operation.Receives`), and of names in a
flow, which is what the walk follows (`Flow.Receives`).  In an indexed set with
unique names the two are the same (`UniqueNames.receives_iff`).

A read may lack its source here, so the source of a field is an `Option`.
-/

namespace Lineage

open Relation

namespace Operation

/-- An input of the operation has a transform of the set as its origin. -/
def FedBy (operations : OperationSet) (operation transform : Operation) : Prop :=
  transform ∈ operations ∧ transform.kind = .transform ∧ transform.name ∈ operation.origins

/-- An operation can be followed back to another, through transforms, in zero or more steps. -/
def Upstream (operations : OperationSet) : Operation → Operation → Prop :=
  ReflTransGen (FedBy operations)

/-- An input of the operation is a field of a read with the given source. -/
def Takes (operations : OperationSet) (operation : Operation) (source : Option Endpoint)
    (field : Name) : Prop :=
  ∃ read ∈ operations, read.kind = .read ∧ read.endpoint? = source ∧
    (⟨read.name, field⟩ : FieldRef) ∈ operation.inputs

/-- The operation, or a transform upstream of it, takes a field of the given source. -/
def Receives (operations : OperationSet) (operation : Operation) (source : Option Endpoint)
    (field : Name) : Prop :=
  ∃ upstream, Upstream operations operation upstream ∧ upstream.Takes operations source field

theorem mem_origins {operation : Operation} {origin : Name} :
    origin ∈ operation.origins ↔ ∃ input ∈ operation.inputs, input.origin = origin :=
  SortedSet.mem_map

/-- What is upstream of an operation of the set is in the set. -/
theorem Upstream.mem {operations : OperationSet} {operation other : Operation}
    (h : operation.Upstream operations other) (hmem : operation ∈ operations) :
    other ∈ operations := by
  rcases h.cases_tail with rfl | ⟨_, -, hother, -⟩
  · exact hmem
  · exact hother

/-- If every read has its source, no field without a source is received. -/
theorem not_receives_none {operations : OperationSet} {operation : Operation} {field : Name}
    (hsources : ∀ read ∈ operations, read.kind = .read → read.endpoint? ≠ none) :
    ¬ operation.Receives operations none field := by
  rintro ⟨_, _, read, hread, hkind, hnone, _⟩
  exact hsources read hread hkind hnone

end Operation

namespace Flow

/-! ## The same of names in a flow -/

/-- A transform can be followed back to another in zero or more steps. -/
def Upstream (flow : Flow) : Name → Name → Prop :=
  ReflTransGen fun name origin => origin ∈ flow.feeding name

/-- An input of the transform of this name is a field of a read with the given source. -/
def Takes (flow : Flow) (name : Name) (source : Option Endpoint) (field : Name) : Prop :=
  ∃ input ∈ flow.inputsOf name, input.name = field ∧
    ∃ read, flow.operation? input.origin = some read ∧ read.kind = .read ∧ read.endpoint? = source

/-- The transform of this name, or one upstream of it, takes a field of the given source. -/
def Receives (flow : Flow) (name : Name) (source : Option Endpoint) (field : Name) : Prop :=
  ∃ upstream, flow.Upstream name upstream ∧ flow.Takes upstream source field

variable {flow : Flow} {operations : OperationSet} {name origin : Name} {transform : Operation}

theorem transform?_eq_some : flow.transform? name = some transform ↔
    flow.operation? name = some transform ∧ transform.kind = .transform := by
  simp [transform?, Option.filter_eq_some_iff]

theorem inputsOf_eq (h : flow.transform? name = some transform) :
    flow.inputsOf name = transform.inputs.toList := by
  simp [inputsOf, h]

theorem feeding_eq_nil (h : flow.transform? name = none) : flow.feeding name = [] := by
  simp [feeding, h]

theorem mem_feeding : origin ∈ flow.feeding name ↔
    (∃ input ∈ flow.inputsOf name, input.origin = origin) ∧ (flow.transform? origin).isSome := by
  unfold feeding inputsOf
  cases flow.transform? name with
  | none => simp
  | some transform =>
      simp only [Option.map_some, Option.getD_some, List.mem_filter]
      exact and_congr_left' Operation.mem_origins

/-- Only a transform is fed by others. -/
theorem transform?_isSome_of_mem_feeding (h : origin ∈ flow.feeding name) :
    (flow.transform? origin).isSome :=
  (mem_feeding.1 h).2

/-- What reaches a transform reaches all that it feeds, in one step or more. -/
theorem Receives.of_upstream {source : Option Endpoint} {field : Name}
    (hupstream : flow.Upstream name origin) (h : flow.Receives origin source field) :
    flow.Receives name source field := by
  obtain ⟨upstream, horigin, htakes⟩ := h
  exact ⟨upstream, hupstream.trans horigin, htakes⟩

theorem not_receives {source : Option Endpoint} {field : Name}
    (hname : flow.transform? name = none) : ¬ flow.Receives name source field := by
  intro hreceives
  obtain ⟨upstream, hupstream, input, hinput, -⟩ := hreceives
  rcases hupstream.cases_head with rfl | ⟨origin, hfeeding, -⟩
  · simp [inputsOf, hname] at hinput
  · simp [feeding_eq_nil hname] at hfeeding

/-! ## Names and operations -/

theorem UniqueNames.transform?_eq_some (unique : UniqueNames operations) :
    (index operations).transform? name = some transform ↔
      transform ∈ operations ∧ transform.name = name ∧ transform.kind = .transform := by
  rw [Flow.transform?_eq_some, unique.operation?_eq_some, and_assoc]

theorem UniqueNames.mem_feeding_iff (unique : UniqueNames operations)
    (htransform : (index operations).transform? name = some transform) :
    origin ∈ (index operations).feeding name ↔
      ∃ other, transform.FedBy operations other ∧ other.name = origin := by
  rw [mem_feeding, inputsOf_eq htransform, Option.isSome_iff_exists]
  constructor
  · intro horigin
    obtain ⟨hinput, other, hother⟩ := horigin
    obtain ⟨hmem, rfl, hkind⟩ := unique.transform?_eq_some.1 hother
    exact ⟨other, ⟨hmem, hkind, Operation.mem_origins.2 hinput⟩, rfl⟩
  · intro hfed
    obtain ⟨other, ⟨hmem, hkind, horigin⟩, rfl⟩ := hfed
    exact ⟨Operation.mem_origins.1 horigin, other, unique.transform?_eq_some.2 ⟨hmem, rfl, hkind⟩⟩

/-- Whatever is upstream of a transform of the set is one itself. -/
theorem UniqueNames.transform?_of_upstream (unique : UniqueNames operations)
    (hmem : transform ∈ operations) (hkind : transform.kind = .transform) {other : Operation}
    (h : transform.Upstream operations other) :
    (index operations).transform? other.name = some other := by
  rcases h.cases_tail with rfl | ⟨_, _, hother, hotherkind, _⟩
  · exact unique.transform?_eq_some.2 ⟨hmem, rfl, hkind⟩
  · exact unique.transform?_eq_some.2 ⟨hother, rfl, hotherkind⟩

theorem UniqueNames.upstream_iff (unique : UniqueNames operations) (hmem : transform ∈ operations)
    (hkind : transform.kind = .transform) :
    (index operations).Upstream transform.name origin ↔
      ∃ other, transform.Upstream operations other ∧ other.name = origin := by
  constructor
  · intro h
    -- every name on the way is that of a transform of the set, which is what the next step needs
    induction h with
    | refl => exact ⟨transform, .refl, rfl⟩
    | tail _ hfeeding ih =>
        obtain ⟨other, hother, rfl⟩ := ih
        have hfound := unique.transform?_of_upstream hmem hkind hother
        obtain ⟨next, hnext, rfl⟩ := (unique.mem_feeding_iff hfound).1 hfeeding
        exact ⟨next, hother.tail hnext, rfl⟩
  · rintro ⟨other, hother, rfl⟩
    induction hother with
    | refl => exact .refl
    | @tail middle last hmiddle hlast ih =>
        have hfound := unique.transform?_of_upstream hmem hkind hmiddle
        exact ih.tail ((unique.mem_feeding_iff hfound).2 ⟨last, hlast, rfl⟩)

theorem UniqueNames.takes_iff (unique : UniqueNames operations) {source : Option Endpoint}
    {field : Name} (htransform : (index operations).transform? name = some transform) :
    (index operations).Takes name source field ↔ transform.Takes operations source field := by
  unfold Takes Operation.Takes
  rw [inputsOf_eq htransform]
  constructor
  · intro htakes
    obtain ⟨⟨origin, _⟩, hinput, rfl, read, hread, hkind, hsource⟩ := htakes
    obtain ⟨hmem, rfl⟩ := unique.operation?_eq_some.1 hread
    exact ⟨read, hmem, hkind, hsource, hinput⟩
  · intro htakes
    obtain ⟨read, hmem, hkind, hsource, hinput⟩ := htakes
    exact ⟨_, hinput, rfl, read, unique.operation?_eq_some.2 ⟨hmem, rfl⟩, hkind, hsource⟩

/-- What reaches a transform by following names is what reaches it by following operations. -/
theorem UniqueNames.receives_iff (unique : UniqueNames operations) {source : Option Endpoint}
    {field : Name} (hmem : transform ∈ operations) (hkind : transform.kind = .transform) :
    (index operations).Receives transform.name source field ↔
      transform.Receives operations source field := by
  constructor
  · intro hreceives
    obtain ⟨upstream, hupstream, htakes⟩ := hreceives
    obtain ⟨other, hother, rfl⟩ := (unique.upstream_iff hmem hkind).1 hupstream
    have hfound := unique.transform?_of_upstream hmem hkind hother
    exact ⟨other, hother, (unique.takes_iff hfound).1 htakes⟩
  · intro hreceives
    obtain ⟨other, hother, htakes⟩ := hreceives
    have hfound := unique.transform?_of_upstream hmem hkind hother
    exact ⟨other.name, (unique.upstream_iff hmem hkind).2 ⟨other, hother, rfl⟩,
      (unique.takes_iff hfound).2 htakes⟩

end Flow

end Lineage
