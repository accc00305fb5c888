import Mathlib.Data.String.Basic
import Mathlib.Order.Bounds.Basic
import Lineage.Proofs.Flow.Admission
import Lineage.Proofs.Flow.Upstream

/-!
# What is refused, and for what

There are six ways to object to a list of operations.  Each is said here of the
list alone, whatever else is wrong with it, and none takes notice of the order in
which the operations are listed or of how often (`Objection`).

Objections come in stages, and at one stage there is at most one: it is for the
least of the names that give cause to it, or for all of them
(`Objection.eq_of_stage`).  Admission asks stage by stage.  A check that fails
finds the objection of its stage; one that passes clears the stage (`Cleared`).
So the answer is the first objection there is, and the index only if there is none.
-/

namespace Lineage

/-- The stage at which admission comes to a fault; the last ones are no matter of admission. -/
def Fault.stage : Fault → Nat
  | duplicateName _ => 0
  | missingSource _ => 1
  | missingDestination _ => 2
  | noReads => 3
  | noWrites => 4
  | unknownOrigins _ => 5
  | checksumMismatch .. | cycle _ | unspecified .. => 6

namespace Flow

variable {listed : List Operation} {operations : OperationSet} {operation : Operation}
  {fault other : Fault}

/-! ## Objections -/

/-- The names of some operations, as texts. -/
def namesOf (among : Operation → Prop) : Set String :=
  {text | ∃ operation, among operation ∧ operation.name.text = text}

/-- A different operation of the list has the same name. -/
def SharesName (listed : List Operation) (operation : Operation) : Prop :=
  operation ∈ listed ∧ ∃ other ∈ listed, other.name = operation.name ∧ other ≠ operation

/-- An operation of the list and of the given kind has no endpoint. -/
def LacksEndpoint (kind : Kind) (listed : List Operation) (operation : Operation) : Prop :=
  operation ∈ listed ∧ operation.kind = kind ∧ operation.endpoint? = none

/-- An input of the list has this origin, and no operation of the list has this name. -/
def IsUnknownOrigin (listed : List Operation) (origin : Name) : Prop :=
  (∃ operation ∈ listed, ∃ input ∈ operation.inputs, input.origin = origin) ∧
    ∀ operation ∈ listed, operation.name ≠ origin

/-- There is cause for a fault, whether or not there is cause for others. -/
inductive Objection (listed : List Operation) : Fault → Prop where
  | duplicateName {name : String} (least : IsLeast (namesOf (SharesName listed)) name) :
      Objection listed (.duplicateName name)
  | missingSource {name : String} (least : IsLeast (namesOf (LacksEndpoint .read listed)) name) :
      Objection listed (.missingSource name)
  | missingDestination {name : String}
      (least : IsLeast (namesOf (LacksEndpoint .write listed)) name) :
      Objection listed (.missingDestination name)
  | noReads (none : ∀ operation ∈ listed, operation.kind ≠ .read) : Objection listed .noReads
  | noWrites (none : ∀ operation ∈ listed, operation.kind ≠ .write) : Objection listed .noWrites
  | unknownOrigins {origins : List String} (nonempty : origins ≠ [])
      (ascending : origins.Pairwise (· < ·))
      (mem_iff : ∀ text, text ∈ origins ↔ ∃ origin, IsUnknownOrigin listed origin ∧
        origin.text = text) :
      Objection listed (.unknownOrigins origins)

theorem Objection.stage_lt (h : Objection listed fault) : fault.stage < 6 := by
  cases h <;> simp [Fault.stage]

/-- At one stage there is at most one objection. -/
theorem Objection.eq_of_stage (h : Objection listed fault) (hother : Objection listed other)
    (hstage : fault.stage = other.stage) : fault = other := by
  -- the stage tells the kinds of objection apart, and the least witness is the only one
  cases h with
  | duplicateName least =>
      cases hother with
      | duplicateName least' => rw [least.unique least']
      | _ => cases hstage
  | missingSource least =>
      cases hother with
      | missingSource least' => rw [least.unique least']
      | _ => cases hstage
  | missingDestination least =>
      cases hother with
      | missingDestination least' => rw [least.unique least']
      | _ => cases hstage
  | noReads =>
      cases hother with
      | noReads => rfl
      | _ => cases hstage
  | noWrites =>
      cases hother with
      | noWrites => rfl
      | _ => cases hstage
  | unknownOrigins _ ascending mem_iff =>
      cases hother with
      | unknownOrigins _ ascending' mem_iff' =>
          have hperm := (List.perm_ext_iff_of_nodup (ascending.imp ne_of_lt)
            (ascending'.imp ne_of_lt)).2 fun text => (mem_iff text).trans (mem_iff' text).symm
          rw [hperm.eq_of_pairwise (fun _ _ _ _ hlt hgt => absurd hgt hlt.asymm) ascending
            ascending']
      | _ => cases hstage

/-! ## What a check finds -/

theorem name_le_of_compare {a b : Operation} (h : compare a b = .lt) :
    a.name.text ≤ b.name.text := by
  cases hname : compare a.name b.name with
  | lt => exact (compareOfLessAndEq_eq_lt.1 hname).le
  | eq => rw [Std.LawfulEqOrd.eq_of_compare hname]
  | gt =>
      -- the name has the most weight in the order of operations
      have hgt : compare a b = .gt := by
        show Ordering.then (compare a.name b.name) _ = .gt
        rw [hname]
        rfl
      simp [h] at hgt

/-- The first operation that passes a test has the least name of those that do. -/
theorem isLeast_of_find? {test : Operation → Bool} {among : Operation → Prop}
    (hamong : ∀ other, among other ↔ other ∈ operations ∧ test other = true)
    (hfind : operations.toList.find? test = some operation) :
    IsLeast (namesOf among) operation.name.text := by
  have hmem : operation ∈ operations := List.mem_of_find?_eq_some hfind
  refine ⟨⟨operation, (hamong operation).2 ⟨hmem, List.find?_some hfind⟩, rfl⟩, ?_⟩
  intro text hpasses
  obtain ⟨other, hother, rfl⟩ := hpasses
  obtain ⟨hothermem, htest⟩ := (hamong other).1 hother
  rcases SortedSet.eq_or_lt_of_find? hfind hothermem htest with rfl | hlt
  · exact le_rfl
  · exact name_le_of_compare hlt

theorem objection_of_sharedName? {name : Name}
    (h : sharedName? (SortedSet.ofList listed).toList = some name) :
    Objection listed (.duplicateName name.text) := by
  obtain ⟨operation, hfind, rfl⟩ := Option.map_eq_some_iff.1 h
  refine .duplicateName (isLeast_of_find? (fun other => ?_) hfind)
  simp [SharesName, ← SortedSet.mem_def]

theorem isLeast_of_withoutEndpoint? {kind : Kind} {name : Name}
    (h : withoutEndpoint? kind (SortedSet.ofList listed).toList = some name) :
    IsLeast (namesOf (LacksEndpoint kind listed)) name.text := by
  obtain ⟨operation, hfind, rfl⟩ := Option.map_eq_some_iff.1 h
  refine isLeast_of_find? (fun other => ?_) hfind
  simp [LacksEndpoint]

theorem mem_unknownOrigins_iff {origin : Name} :
    origin ∈ (index (.ofList listed)).unknownOrigins ↔ IsUnknownOrigin listed origin := by
  rw [unknownOrigins, operations_index]
  simp only [SortedSet.mem_filter, SortedSet.mem_unions, Option.isNone_iff_eq_none,
    operation?_index_eq_none, ← SortedSet.mem_def, SortedSet.mem_ofList, Operation.mem_origins,
    not_exists, not_and, IsUnknownOrigin, ne_eq]

theorem objection_of_unknownOrigins
    (h : (index (.ofList listed)).unknownOrigins.isEmpty ≠ true) :
    Objection listed
      (.unknownOrigins ((index (.ofList listed)).unknownOrigins.toList.map Name.text)) := by
  refine .unknownOrigins ?_ ?_ ?_
  · simpa [SortedSet.isEmpty] using h
  · exact List.pairwise_map.2
      ((index (.ofList listed)).unknownOrigins.ascending.imp compareOfLessAndEq_eq_lt.1)
  · intro text
    rw [List.mem_map]
    exact exists_congr fun origin => and_congr_left' mem_unknownOrigins_iff

/-! ## Stages that are cleared -/

/-- There are no objections of earlier stages. -/
def Cleared (listed : List Operation) (stage : Nat) : Prop :=
  ∀ fault, Objection listed fault → stage ≤ fault.stage

theorem Cleared.succ {stage : Nat} (cleared : Cleared listed stage)
    (h : ∀ fault, Objection listed fault → fault.stage ≠ stage) : Cleared listed (stage + 1) :=
  fun fault hfault => Nat.lt_of_le_of_ne (cleared fault hfault) (h fault hfault).symm

theorem cleared_zero (listed : List Operation) : Cleared listed 0 :=
  fun fault _ => Nat.zero_le fault.stage

theorem Cleared.of_unique (cleared : Cleared listed 0)
    (h : sharedName? (SortedSet.ofList listed).toList = none) : Cleared listed 1 := by
  have unique := sharedName?_eq_none.1 h
  refine cleared.succ fun fault hfault => ?_
  cases hfault with
  | duplicateName least =>
      obtain ⟨operation, ⟨hmem, other, hother, hname, hne⟩, -⟩ := least.1
      exact absurd (unique other (SortedSet.mem_ofList.2 hother) operation
        (SortedSet.mem_ofList.2 hmem) hname) hne
  | _ => simp [Fault.stage]

theorem not_isLeast_of_withoutEndpoint? {kind : Kind} {name : String}
    (h : withoutEndpoint? kind (SortedSet.ofList listed).toList = none) :
    ¬ IsLeast (namesOf (LacksEndpoint kind listed)) name := by
  intro least
  obtain ⟨operation, ⟨hmem, hkind, hnone⟩, -⟩ := least.1
  exact withoutEndpoint?_eq_none.1 h operation (SortedSet.mem_ofList.2 hmem) hkind hnone

theorem Cleared.of_sourced (cleared : Cleared listed 1)
    (h : withoutEndpoint? .read (SortedSet.ofList listed).toList = none) : Cleared listed 2 := by
  refine cleared.succ fun fault hfault => ?_
  cases hfault with
  | missingSource least => exact absurd least (not_isLeast_of_withoutEndpoint? h)
  | _ => simp [Fault.stage]

theorem Cleared.of_destined (cleared : Cleared listed 2)
    (h : withoutEndpoint? .write (SortedSet.ofList listed).toList = none) : Cleared listed 3 := by
  refine cleared.succ fun fault hfault => ?_
  cases hfault with
  | missingDestination least => exact absurd least (not_isLeast_of_withoutEndpoint? h)
  | _ => simp [Fault.stage]

theorem reads_isEmpty_iff : (index (.ofList listed)).reads.isEmpty = true ↔
    ∀ operation ∈ listed, operation.kind ≠ .read := by
  simp [reads_index_isEmpty]

theorem writes_isEmpty_iff : (index (.ofList listed)).writes.isEmpty = true ↔
    ∀ operation ∈ listed, operation.kind ≠ .write := by
  simp [writes_index_isEmpty]

theorem Cleared.of_reads (cleared : Cleared listed 3)
    (h : (index (.ofList listed)).reads.isEmpty ≠ true) : Cleared listed 4 := by
  refine cleared.succ fun fault hfault => ?_
  cases hfault with
  | noReads none => exact absurd (reads_isEmpty_iff.2 none) h
  | _ => simp [Fault.stage]

theorem Cleared.of_writes (cleared : Cleared listed 4)
    (h : (index (.ofList listed)).writes.isEmpty ≠ true) : Cleared listed 5 := by
  refine cleared.succ fun fault hfault => ?_
  cases hfault with
  | noWrites none => exact absurd (writes_isEmpty_iff.2 none) h
  | _ => simp [Fault.stage]

theorem Cleared.of_known (cleared : Cleared listed 5)
    (h : (index (.ofList listed)).unknownOrigins.isEmpty = true) : Cleared listed 6 := by
  refine cleared.succ fun fault hfault => ?_
  cases hfault with
  | unknownOrigins nonempty _ mem_iff =>
      obtain ⟨text, htext⟩ := List.exists_mem_of_ne_nil _ nonempty
      obtain ⟨origin, horigin, -⟩ := (mem_iff text).1 htext
      exact absurd (mem_unknownOrigins_iff.2 horigin) (SortedSet.isEmpty_iff.1 h origin)
  | _ => simp [Fault.stage]

/-! ## Admission -/

/-- What admission answers: the objection of the first stage that is not cleared, or the index once
all of them are. -/
theorem accept_cases (listed : List Operation) :
    (∃ fault, accept (.ofList listed) = .error fault ∧ Objection listed fault ∧
      Cleared listed fault.stage) ∨
    accept (.ofList listed) = .ok (index (.ofList listed)) ∧ Cleared listed 6 := by
  unfold accept
  split
  · next name hshared =>
      exact .inl ⟨_, rfl, objection_of_sharedName? hshared, cleared_zero listed⟩
  rename_i hshared
  have unique := (cleared_zero listed).of_unique hshared
  split
  · next name hsource =>
      exact .inl ⟨_, rfl, .missingSource (isLeast_of_withoutEndpoint? hsource), unique⟩
  rename_i hsource
  have sourced := unique.of_sourced hsource
  split
  · next name hdestination =>
      exact .inl ⟨_, rfl, .missingDestination (isLeast_of_withoutEndpoint? hdestination), sourced⟩
  rename_i hdestination
  have destined := sourced.of_destined hdestination
  -- the last three checks ask the index, which is not the answer yet
  dsimp only
  split_ifs with hreads hwrites hknown
  · exact .inl ⟨_, rfl, .noReads (reads_isEmpty_iff.1 hreads), destined⟩
  · exact .inl ⟨_, rfl, .noWrites (writes_isEmpty_iff.1 hwrites), destined.of_reads hreads⟩
  · exact .inr ⟨rfl, ((destined.of_reads hreads).of_writes hwrites).of_known hknown⟩
  · exact .inl ⟨_, rfl, objection_of_unknownOrigins hknown,
      (destined.of_reads hreads).of_writes hwrites⟩

/-- Whatever is listed, in any order and however often, the answer is the first objection to it, if
there is one, and else the index of the set; so no flow is given where there is an objection. -/
theorem accept_first_objection (listed : List Operation) :
    (∀ fault, accept (.ofList listed) = .error fault ↔ Objection listed fault ∧
      ∀ other, Objection listed other → fault.stage ≤ other.stage) ∧
    (∀ flow, accept (.ofList listed) = .ok flow ↔
      flow = index (.ofList listed) ∧ ∀ fault, ¬ Objection listed fault) ∧
    ∀ again : List Operation, (∀ operation, operation ∈ again ↔ operation ∈ listed) →
      accept (.ofList again) = accept (.ofList listed) := by
  refine ⟨?_, ?_, ?_⟩
  · intro fault
    rcases accept_cases listed with ⟨found, haccept, hfound, hfirst⟩ | ⟨haccept, cleared⟩
    · rw [haccept, Except.error.injEq]
      constructor
      · intro heq
        exact heq ▸ ⟨hfound, hfirst⟩
      · intro hfault
        have hstage := Nat.le_antisymm (hfirst fault hfault.1) (hfault.2 found hfound)
        exact hfound.eq_of_stage hfault.1 hstage
    · rw [haccept]
      refine iff_of_false (by simp) fun hfault => ?_
      exact absurd hfault.1.stage_lt (cleared fault hfault.1).not_gt
  · intro flow
    rcases accept_cases listed with ⟨found, haccept, hfound, -⟩ | ⟨haccept, cleared⟩
    · rw [haccept]
      exact iff_of_false (by simp) fun hflow => hflow.2 found hfound
    · rw [haccept, Except.ok.injEq, eq_comm]
      refine (and_iff_left fun fault hfault => ?_).symm
      exact absurd hfault.stage_lt (cleared fault hfault).not_gt
  · intro again hsame
    rw [SortedSet.ofList_eq_iff.2 hsame]

namespace Sample

/-- A read without a source, and later in name order than the other one. -/
def orders : Operation := ⟨⟨⟨"orders", by decide⟩, ""⟩, .read none (.ofList ["total"])⟩

def clients : Operation := ⟨⟨⟨"clients", by decide⟩, ""⟩, .read none ∅⟩

/-- Its origin is no operation of the list. -/
def bill : Operation :=
  ⟨⟨⟨"bill", by decide⟩, ""⟩, .transform (.ofList [⟨⟨"prices", by decide⟩, orders.name⟩]) ∅⟩

end Sample

open Sample in
/-- There are also no writes and an unknown origin, and the list may be given otherwise. -/
theorem accept_first_objection_sample :
    (∀ operation, operation ∈ [bill, orders, clients, bill] ↔
      operation ∈ [orders, clients, bill]) ∧
    accept (.ofList [bill, orders, clients, bill]) = accept (.ofList [orders, clients, bill]) ∧
    accept (.ofList [orders, clients, bill]) = .error (.missingSource "clients") ∧
    Objection [orders, clients, bill] (.missingSource "clients") ∧
    Objection [orders, clients, bill] .noWrites ∧
    ¬ ∃ name, Objection [orders, clients, bill] (.duplicateName name) := by
  obtain ⟨hrefused, -, hsame⟩ := accept_first_objection [orders, clients, bill]
  have hlisted : ∀ operation, operation ∈ [bill, orders, clients, bill] ↔
      operation ∈ [orders, clients, bill] := by
    intro operation
    simp only [List.mem_cons, List.not_mem_nil, or_false]
    tauto
  have hanswer : accept (.ofList [orders, clients, bill]) = .error (.missingSource "clients") := rfl
  obtain ⟨hobjection, hfirst⟩ := (hrefused _).1 hanswer
  refine ⟨hlisted, hsame _ hlisted, hanswer, hobjection, .noWrites (by decide), ?_⟩
  rintro ⟨name, hshared⟩
  exact absurd (hfirst _ hshared) (by simp [Fault.stage])

end Flow

end Lineage
