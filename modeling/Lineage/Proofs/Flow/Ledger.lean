import Lineage.Proofs.Flow.Upstream

/-!
# What a ledger knows

A ledger is sound if each of its components was settled when it was ready
(`Ready`): its members feed one another, and all that feeds them from outside
was in the ledger before.

Then an entry is exact (`Sound.tells`).  The inputs of a component bring its
fields along either from a read or from an entry below it, and since the
members feed one another, what one of them receives all of them receive.

Fields of a read without a source cannot be told.  `Tells` covers both outcomes:
the set of all that arrives, or the fault if a field without a source does.
-/

namespace Lineage

namespace Ledger

variable {ledger : Ledger} {component : Component} {name : Name}

/-- The ledger has an entry for a transform. -/
def Settled (ledger : Ledger) (name : Name) : Prop := (ledger.sources? name).isSome

theorem not_settled_iff : ¬ ledger.Settled name ↔ ledger.sources? name = none := by
  simp [Settled]

@[simp] theorem not_settled_nil : ¬ Settled [] name := by
  simp [Settled, sources?]

theorem sources?_cons : sources? (component :: ledger) name =
    if name ∈ component.members then some component.sources else ledger.sources? name := by
  unfold sources?
  by_cases hmem : name ∈ component.members <;> simp [hmem]

@[simp] theorem settled_cons : Settled (component :: ledger) name ↔
    name ∈ component.members ∨ ledger.Settled name := by
  unfold Settled
  rw [sources?_cons]
  by_cases hmem : name ∈ component.members <;> simp [hmem]

end Ledger

namespace Flow

/-! ## Telling what arrives -/

/-- The result is the set of all source fields that arrive, or the fault if a field without a
source does. -/
def Tells (arrives : Option Endpoint → Name → Prop) :
    Except TracingFault (SortedSet EndpointField) → Prop
  | .ok sources =>
    (∀ found, found ∈ sources ↔ arrives (some found.endpoint) found.field) ∧
      ∀ field, ¬ arrives none field
  | .error fault => fault = .missingEndpoint ∧ ∃ field, arrives none field

section Tells

variable {arrives others : Option Endpoint → Name → Prop}
  {result : Except TracingFault (SortedSet EndpointField)}

theorem Tells.congr (h : ∀ source field, arrives source field ↔ others source field)
    (htells : Tells arrives result) : Tells others result := by
  have : arrives = others := funext₂ fun source field => propext (h source field)
  exact this ▸ htells

/-- What arrives determines the result. -/
theorem Tells.unique {other : Except TracingFault (SortedSet EndpointField)}
    (h : Tells arrives result) (hother : Tells arrives other) : result = other := by
  cases result with
  | ok sources =>
      cases other with
      | ok found =>
          rw [SortedSet.ext_mem fun field => (h.1 field).trans (hother.1 field).symm]
      | error fault =>
          obtain ⟨field, harrives⟩ := hother.2
          exact absurd harrives (h.2 field)
  | error fault =>
      cases other with
      | ok found =>
          obtain ⟨field, harrives⟩ := h.2
          exact absurd harrives (hother.2 field)
      | error fault => rw [h.1, hother.1]

/-- The fault is the answer exactly if a field without a source arrives. -/
theorem Tells.error_iff (h : Tells arrives result) :
    result = .error .missingEndpoint ↔ ∃ field, arrives none field := by
  cases result with
  | ok sources =>
      have hnone : ¬ ∃ field, arrives none field := fun ⟨field, hfield⟩ => h.2 field hfield
      simp [hnone]
  | error fault =>
      obtain ⟨rfl, hfield⟩ := h
      simp [hfield]

/-- If all that arrives has its source, the answer is the set of it. -/
theorem Tells.exists_ok (h : Tells arrives result) (hnone : ¬ ∃ field, arrives none field) :
    ∃ sources, result = .ok sources ∧
      ∀ found, found ∈ sources ↔ arrives (some found.endpoint) found.field := by
  cases result with
  | ok sources => exact ⟨sources, rfl, h.1⟩
  | error fault => exact absurd h.2 hnone

theorem Tells.empty (h : ∀ source field, ¬ arrives source field) : Tells arrives (.ok ∅) :=
  ⟨fun found => by simp [h], fun field => h none field⟩

theorem Tells.union {sources found : SortedSet EndpointField}
    (h : Tells arrives (.ok sources)) (hfound : Tells others (.ok found)) :
    Tells (fun source field => arrives source field ∨ others source field)
      (.ok (sources ∪ found)) := by
  refine ⟨fun candidate => ?_, fun field => not_or.2 ⟨h.2 field, hfound.2 field⟩⟩
  rw [SortedSet.mem_union_iff, h.1, hfound.1]

/-- A field of an endpoint tells itself. -/
theorem tells_fieldOf (endpoint : Option Endpoint) (name : Name) :
    Tells (fun source field => endpoint = source ∧ name = field)
      ((fieldOf endpoint name).map fun field => SortedSet.ofList [field]) := by
  cases endpoint with
  | none => exact ⟨rfl, name, rfl, rfl⟩
  | some endpoint =>
      refine ⟨fun found => ?_, by simp⟩
      obtain ⟨source, field⟩ := found
      simp only [SortedSet.mem_ofList, List.mem_singleton, EndpointField.mk.injEq,
        Option.some.injEq, eq_comm]

/-- Results that are put together tell all that one of them tells. -/
theorem Tells.foldlM {α : Type} {brings : α → Option Endpoint → Name → Prop}
    {result : α → Except TracingFault (SortedSet EndpointField)} {parts : List α}
    (hparts : ∀ part ∈ parts, Tells (brings part) (result part))
    {known : SortedSet EndpointField} (hknown : Tells arrives (.ok known)) :
    Tells (fun source field => arrives source field ∨ ∃ part ∈ parts, brings part source field)
      (parts.foldlM (fun sources part => (result part).map (sources ∪ ·)) known) := by
  induction parts generalizing known arrives with
  | nil => exact hknown.congr fun source field => by simp
  | cons part rest ih =>
      have hpart := hparts part (by simp)
      rw [List.foldlM_cons]
      cases hresult : result part with
      | error fault =>
          rw [hresult] at hpart
          obtain ⟨hfault, field, hbrings⟩ := hpart
          exact ⟨hfault, field, .inr ⟨part, by simp, hbrings⟩⟩
      | ok found =>
          rw [hresult] at hpart
          have hothers := fun other hother => hparts other (List.mem_cons_of_mem part hother)
          have hrest := ih hothers (hknown.union hpart)
          exact hrest.congr fun source field => by simp [or_assoc]

end Tells

/-! ## Components that are ready -/

/-- The transforms can be settled together: they feed one another, all that feeds them from outside
is settled, and none of them is. -/
structure Ready (flow : Flow) (ledger : Ledger) (members : List Name) : Prop where
  connected : ∀ name ∈ members, ∀ other ∈ members, flow.Upstream name other
  closed : ∀ name ∈ members, ∀ origin ∈ flow.feeding name,
    origin ∈ members ∨ ledger.Settled origin
  fresh : ∀ name ∈ members, ¬ ledger.Settled name
  nonempty : members ≠ []
  nodup : members.Nodup

/-- Every component of the ledger was ready when it was settled. -/
inductive Sound (flow : Flow) : Ledger → Prop
  | nil : Sound flow []
  | cons {ledger : Ledger} {members : List Name} {sources : SortedSet EndpointField} :
      Sound flow ledger → flow.Ready ledger members →
      flow.componentSources ledger members = .ok sources →
      Sound flow (⟨members, sources⟩ :: ledger)

variable {flow : Flow} {ledger : Ledger} {members : List Name} {name origin : Name}
  {source : Option Endpoint} {field : Name}

/-- What an input of a component brings along. -/
def Brings (flow : Flow) (members : List Name) (input : FieldRef) (source : Option Endpoint)
    (field : Name) : Prop :=
  (input.name = field ∧ ∃ read, flow.operation? input.origin = some read ∧ read.kind = .read ∧
      read.endpoint? = source) ∨
    (flow.transform? input.origin).isSome ∧ input.origin ∉ members ∧
      flow.Receives input.origin source field

/-- On the way upstream from a member one either stays in the component or leaves it to a transform
that feeds it from outside. -/
theorem upstream_cases (hname : name ∈ members)
    {upstream : Name} (h : flow.Upstream name upstream) :
    upstream ∈ members ∨ ∃ member ∈ members, ∃ origin ∈ flow.feeding member,
      origin ∉ members ∧ flow.Upstream origin upstream := by
  induction h using Relation.ReflTransGen.head_induction_on with
  | refl => exact .inl hname
  | @head member origin hfeeding hupstream ih =>
      by_cases horigin : origin ∈ members
      · exact ih horigin
      · exact .inr ⟨member, hname, origin, hfeeding, horigin, hupstream⟩

/-- What a member receives is what the inputs of its component bring along. -/
theorem Ready.receives_iff (ready : flow.Ready ledger members) (hname : name ∈ members) :
    flow.Receives name source field ↔
      ∃ input ∈ members.flatMap flow.inputsOf, flow.Brings members input source field := by
  constructor
  · -- the way upstream either stays among the members or leaves them by some input
    intro hreceives
    obtain ⟨upstream, hupstream, htakes⟩ := hreceives
    rcases upstream_cases hname hupstream with hmem | ⟨member, hmember, hexit⟩
    · obtain ⟨input, hinput, hfield, hread⟩ := htakes
      exact ⟨input, List.mem_flatMap.2 ⟨upstream, hmem, hinput⟩, .inl ⟨hfield, hread⟩⟩
    · obtain ⟨origin, hfeeding, horigin, hbeyond⟩ := hexit
      obtain ⟨⟨input, hinput, rfl⟩, htransform⟩ := mem_feeding.1 hfeeding
      exact ⟨input, List.mem_flatMap.2 ⟨member, hmember, hinput⟩,
        .inr ⟨htransform, horigin, upstream, hbeyond, htakes⟩⟩
  · -- whichever member the input belongs to, it is upstream of the one asked for
    intro hinputs
    obtain ⟨input, hinput, hbrings⟩ := hinputs
    obtain ⟨member, hmember, hinput⟩ := List.mem_flatMap.1 hinput
    refine .of_upstream (ready.connected name hname member hmember) ?_
    rcases hbrings with ⟨hfield, hread⟩ | ⟨htransform, -, hreceives⟩
    · exact ⟨member, .refl, input, hinput, hfield, hread⟩
    · exact .of_upstream (.single (mem_feeding.2 ⟨⟨input, hinput, rfl⟩, htransform⟩)) hreceives

/-! ## Entries of a sound ledger -/

/-- All that feeds a settled transform is settled. -/
theorem Sound.settled_of_feeding (sound : flow.Sound ledger) (hname : ledger.Settled name)
    (horigin : origin ∈ flow.feeding name) : ledger.Settled origin := by
  induction sound with
  | nil => exact absurd hname Ledger.not_settled_nil
  | cons _ ready _ ih =>
      rw [Ledger.settled_cons] at hname ⊢
      rcases hname with hmem | hsettled
      · exact ready.closed name hmem origin horigin
      · exact .inr (ih hsettled)

/-- What an input of a component brings along is told, if the entries of the ledger tell what
reaches them. -/
theorem tells_inputSources {input : FieldRef}
    (hledger : ∀ {name sources}, ledger.sources? name = some sources →
      Tells (flow.Receives name) (.ok sources))
    (hsettled : (flow.transform? input.origin).isSome →
      input.origin ∈ members ∨ ledger.Settled input.origin) :
    Tells (flow.Brings members input) (flow.inputSources ledger members input) := by
  have hother (hkind : ∀ origin, flow.operation? input.origin = some origin →
      origin.kind ≠ .transform) : flow.transform? input.origin = none := by
    cases horigin : flow.operation? input.origin <;> simp_all [transform?]
  unfold inputSources
  cases horigin : flow.operation? input.origin with
  | none => exact .empty fun source field => by simp [Brings, horigin, hother]
  | some origin =>
      dsimp only
      cases hkind : origin.kind with
      | read =>
          refine (tells_fieldOf origin.endpoint? input.name).congr fun source field => ?_
          simp [Brings, horigin, hother, hkind, and_comm]
      | write => exact .empty fun source field => by simp [Brings, horigin, hother, hkind]
      | transform =>
          have htransform : (flow.transform? input.origin).isSome := by
            simp [transform?, horigin, hkind]
          dsimp only
          split
          · rename_i hmem
            rw [List.contains_iff_mem] at hmem
            exact .empty fun source field => by simp [Brings, horigin, hkind, hmem]
          · rename_i hmem
            rw [List.contains_iff_mem] at hmem
            obtain ⟨sources, hsources⟩ :=
              Option.isSome_iff_exists.1 ((hsettled htransform).resolve_left hmem)
            rw [hsources]
            refine (hledger hsources).congr fun source field => ?_
            simp [Brings, horigin, hkind, htransform, hmem]

/-- The inputs of a component that is ready tell what reaches each of its members. -/
theorem Ready.tells_componentSources (ready : flow.Ready ledger members)
    (hledger : ∀ {name sources}, ledger.sources? name = some sources →
      Tells (flow.Receives name) (.ok sources)) (hname : name ∈ members) :
    Tells (flow.Receives name) (flow.componentSources ledger members) := by
  have hinputs : ∀ input ∈ members.flatMap flow.inputsOf,
      Tells (flow.Brings members input) (flow.inputSources ledger members input) := by
    intro input hinput
    obtain ⟨member, hmember, hinput⟩ := List.mem_flatMap.1 hinput
    exact tells_inputSources hledger fun htransform =>
      ready.closed member hmember input.origin (mem_feeding.2 ⟨⟨input, hinput, rfl⟩, htransform⟩)
  have hnothing : Tells (fun _ _ => False) (.ok ∅) := .empty fun _ _ => id
  refine (Tells.foldlM hinputs hnothing).congr fun source field => ?_
  rw [ready.receives_iff hname, false_or]

/-- An entry of a sound ledger is all that reaches its transform, and has all its sources. -/
theorem Sound.tells (sound : flow.Sound ledger) {sources : SortedSet EndpointField}
    (hsources : ledger.sources? name = some sources) :
    Tells (flow.Receives name) (.ok sources) := by
  induction sound generalizing name sources with
  | nil => simp [Ledger.sources?] at hsources
  | @cons ledger members found _ ready htold ih =>
      rw [Ledger.sources?_cons] at hsources
      split at hsources
      · rename_i hmem
        obtain rfl := Option.some_inj.1 hsources
        exact htold ▸ ready.tells_componentSources ih hmem
      · exact ih hsources

/-- A component that is ready is settled, unless a field without a source reaches it. -/
theorem Sound.settle (sound : flow.Sound ledger) (ready : flow.Ready ledger members) :
    (∃ sources, flow.settle ledger members = .ok (⟨members, sources⟩ :: ledger) ∧
      flow.Sound (⟨members, sources⟩ :: ledger)) ∨
    flow.settle ledger members = .error .missingEndpoint ∧
      ∀ name ∈ members, ∃ field, flow.Receives name none field := by
  unfold Flow.settle
  cases htold : flow.componentSources ledger members with
  | ok sources => exact .inl ⟨sources, rfl, .cons sound ready htold⟩
  | error fault =>
      have hmembers (name : Name) (hname : name ∈ members) :
          fault = .missingEndpoint ∧ ∃ field, flow.Receives name none field := by
        have htells := ready.tells_componentSources sound.tells hname
        rwa [htold] at htells
      obtain ⟨name, hname⟩ := List.exists_mem_of_ne_nil members ready.nonempty
      obtain ⟨rfl, -⟩ := hmembers name hname
      exact .inr ⟨rfl, fun name hname => (hmembers name hname).2⟩

end Flow

end Lineage
