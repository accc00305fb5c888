import Lineage.Proofs.Flow.Tracing

/-!
# The walk settles one component at a time

Whenever a step of a walk settles transforms, they are one strongly connected
component, and all that feeds it from outside is settled.  The invariant of the walk
says that what is due is ready (`Invariant.ready_due?`); a sound ledger makes more of
it: a transform of the same component that was not due would be settled, and with it
the ones that are due (`Ready.mem_iff`).

The ledger keeps all that was ever settled, of this walk and of earlier ones.  So it
also tells that nothing is settled twice (`Sound.nodup_members`).
-/

namespace Lineage

open Relation

/-- The names are those of a transform and of all others that can be followed back to it and from
it, each once. -/
def Operation.FormComponent (operations : OperationSet) (members : List Name) : Prop :=
  members.Nodup ∧ ∃ transform ∈ operations, transform.kind = .transform ∧
    ∀ name, name ∈ members ↔ ∃ other, other.name = name ∧
      transform.Upstream operations other ∧ other.Upstream operations transform

namespace Walk

variable {flow : Flow} {walk next : Walk} {members : List Name} {root name : Name}

/-- The transforms that the next step settles, if it settles any: those opened since the innermost
visit began, if this has looked at everything and was led back no further than its own place. -/
def due? (walk : Walk) : Option (List Name) :=
  match walk.visits with
  | [] => none
  | visit :: _ =>
    if visit.pending = [] ∧ visit.least = visit.place then
      some ((walk.openedBy visit).map Opened.name)
    else none

/-- One step of a walk that is not over. -/
def Steps (flow : Flow) (walk next : Walk) : Prop := walk.visits ≠ [] ∧ walk.step flow = .ok next

/-- A walk comes to a state after zero or more steps. -/
def Reaches (flow : Flow) : Walk → Walk → Prop := ReflTransGen (Steps flow)

/-! ## What a step settles -/

theorem due?_eq_some : walk.due? = some members ↔ ∃ visit outer, walk.visits = visit :: outer ∧
    visit.pending = [] ∧ visit.least = visit.place ∧
      (walk.openedBy visit).map Opened.name = members := by
  unfold due?
  cases walk.visits with
  | nil => simp
  | cons visit outer =>
      dsimp only
      split_ifs with hdue
      · simp [hdue]
      · simp only [List.cons.injEq, false_iff]
        rintro ⟨_, _, ⟨rfl, rfl⟩, hpending, hleast, -⟩
        exact hdue ⟨hpending, hleast⟩

theorem settle_eq_ok {ledger later : Ledger} (h : flow.settle ledger members = .ok later) :
    ∃ sources, later = ⟨members, sources⟩ :: ledger := by
  unfold Flow.settle at h
  cases hsources : flow.componentSources ledger members with
  | error fault => simp [hsources, Except.map] at h
  | ok sources =>
      simp only [hsources, Except.map, Except.ok.injEq] at h
      exact ⟨sources, h.symm⟩

/-- A step settles what is due. -/
theorem settle_of_due (hdue : walk.due? = some members) (hstep : walk.step flow = .ok next) :
    ∃ sources, flow.settle walk.ledger members = .ok (⟨members, sources⟩ :: walk.ledger) ∧
      next.ledger = ⟨members, sources⟩ :: walk.ledger := by
  obtain ⟨visit, outer, hvisits, hpending, hleast, rfl⟩ := due?_eq_some.1 hdue
  simp only [step, hvisits, hpending, leave, if_pos hleast] at hstep
  cases hsettle : flow.settle walk.ledger ((walk.openedBy visit).map Opened.name) with
  | error fault => simp [hsettle, Except.map] at hstep
  | ok ledger =>
      simp only [hsettle, Except.map, Except.ok.injEq] at hstep
      obtain ⟨sources, rfl⟩ := settle_eq_ok hsettle
      exact ⟨sources, rfl, hstep ▸ rfl⟩

/-- A step settles nothing else. -/
theorem ledger_of_not_due (hdue : walk.due? = none) (hstep : walk.step flow = .ok next) :
    next.ledger = walk.ledger := by
  unfold due? at hdue
  unfold step at hstep
  split at hstep
  · simp only [Except.ok.injEq] at hstep
    rw [← hstep]
  · rename_i visit outer hvisits
    simp only [hvisits, ite_eq_right_iff, reduceCtorEq, imp_false] at hdue
    split at hstep
    · rename_i hpending
      have hleast : visit.least ≠ visit.place := fun hleast => hdue ⟨hpending, hleast⟩
      simp only [leave, if_neg hleast, Except.ok.injEq] at hstep
      rw [← hstep]
    · simp only [look, Except.ok.injEq] at hstep
      rw [← hstep]
      split_ifs
      · rfl
      · split <;> rfl

/-- What is due can be settled together, and is made up of transforms. -/
theorem Invariant.ready_due? (h : Invariant flow root walk) (hdue : walk.due? = some members) :
    flow.Ready walk.ledger members ∧ ∀ name ∈ members, (flow.transform? name).isSome := by
  obtain ⟨visit, outer, hvisits, hpending, hleast, rfl⟩ := due?_eq_some.1 hdue
  have hnested := h.nested
  rw [hvisits] at hnested
  obtain ⟨above, below, hopened, segment, -, -⟩ := hnested.exists_segment
  rw [(openedBy_eq hopened h.tally.places).1]
  refine ⟨segment.ready h.tally hopened hpending hleast, ?_⟩
  intro name hname
  have hopen : name ∈ walk.opened.map Opened.name := by
    rw [hopened, List.append_cons, List.map_append]
    exact List.mem_append_left _ hname
  exact ((h.tally.mem_iff name).1 (List.mem_append_left _ hopen)).1

/-! ## From state to state -/

theorem Invariant.steps (h : Invariant flow root walk) (hsteps : Steps flow walk next) :
    Invariant flow root next := by
  obtain ⟨hvisits, hstep⟩ := hsteps
  obtain ⟨visit, outer, hvisits⟩ := List.exists_cons_of_ne_nil hvisits
  rcases h.step hvisits with ⟨reached, hreached, hnext⟩ | ⟨hfault, -⟩
  · rw [hstep, Except.ok.injEq] at hreached
    exact hreached ▸ hnext
  · simp [hstep] at hfault

theorem Invariant.reaches (h : Invariant flow root walk) (hreaches : Reaches flow walk next) :
    Invariant flow root next := by
  induction hreaches with
  | refl => exact h
  | tail _ hsteps ih => exact ih.steps hsteps

theorem run_of_steps (h : Steps flow walk next) : walk.run flow = next.run flow := by
  obtain ⟨hvisits, hstep⟩ := h
  rw [run]
  split
  · rename_i hnil
    exact absurd hnil hvisits
  · split
    · rename_i reached hreached
      rw [hstep, Except.ok.injEq] at hreached
      rw [hreached]
    · rename_i hfault
      simp [hstep] at hfault

/-- From every state that a walk comes to, it goes the same way to the end. -/
theorem run_of_reaches (h : Reaches flow walk next) : walk.run flow = next.run flow := by
  induction h with
  | refl => rfl
  | tail _ hsteps ih => exact ih.trans (run_of_steps hsteps)

/-- To the end a walk settles only what is due in some state that it comes to. -/
theorem run_settles (flow : Flow) (walk : Walk) :
    ∃ settled, (walk.run flow).2 = settled ++ walk.ledger ∧
      ∀ component ∈ settled, ∃ later, Reaches flow walk later ∧
        later.due? = some component.members := by
  fun_induction Walk.run flow walk with
  | case1 walk hvisits => exact ⟨[], rfl, by simp⟩
  | case3 walk visit outer hvisits found hstep => exact ⟨[], rfl, by simp⟩
  | case2 walk visit outer hvisits next hstep ih =>
      obtain ⟨settled, hrun, hsettled⟩ := ih
      have hsteps : Steps flow walk next := ⟨by simp [hvisits], hstep⟩
      -- what is settled behind this step is due in a state behind it
      have hlater : ∀ component ∈ settled, ∃ later, Reaches flow walk later ∧
          later.due? = some component.members := by
        intro component hcomponent
        obtain ⟨later, hreaches, hdue⟩ := hsettled component hcomponent
        exact ⟨later, hreaches.head hsteps, hdue⟩
      cases hdue : walk.due? with
      | none => exact ⟨settled, by rw [hrun, ledger_of_not_due hdue hstep], hlater⟩
      | some members =>
          obtain ⟨sources, -, hledger⟩ := settle_of_due hdue hstep
          refine ⟨settled ++ [⟨members, sources⟩], by simp [hrun, hledger], ?_⟩
          intro component hcomponent
          rcases List.mem_append.1 hcomponent with hcomponent | hlast
          · exact hlater component hcomponent
          · rw [List.mem_singleton.1 hlast]
            exact ⟨walk, .refl, hdue⟩

/-- If a walk comes to its end, all that is due on the way is in the ledger, above what was there at
that time. -/
theorem settled_of_due (hdue : walk.due? = some members) (hrun : (walk.run flow).1 = .ok ()) :
    ∃ sources, flow.settle walk.ledger members = .ok (⟨members, sources⟩ :: walk.ledger) ∧
      (⟨members, sources⟩ :: walk.ledger) <:+ (walk.run flow).2 := by
  have hvisits : walk.visits ≠ [] := by
    obtain ⟨visit, outer, hvisits, -⟩ := due?_eq_some.1 hdue
    simp [hvisits]
  cases hstep : walk.step flow with
  | error fault =>
      rw [run] at hrun
      split at hrun
      · rename_i hnil
        exact absurd hnil hvisits
      · split at hrun
        · rename_i hnext
          simp [hstep] at hnext
        · simp at hrun
  | ok next =>
      obtain ⟨sources, hsettle, hledger⟩ := settle_of_due hdue hstep
      obtain ⟨settled, hend, -⟩ := run_settles flow next
      refine ⟨sources, hsettle, ?_⟩
      rw [run_of_steps ⟨hvisits, hstep⟩, hend, hledger]
      exact List.suffix_append settled _

end Walk

namespace Flow

variable {flow : Flow} {ledger : Ledger} {members : List Name} {name origin other : Name}
  {operations : OperationSet}

/-! ## What a sound ledger makes of it -/

/-- All that is upstream of a settled transform is settled. -/
theorem Sound.settled_of_upstream (sound : flow.Sound ledger) (hname : ledger.Settled name)
    (h : flow.Upstream name origin) : ledger.Settled origin := by
  induction h with
  | refl => exact hname
  | tail _ hfeeding ih => exact sound.settled_of_feeding ih hfeeding

/-- Transforms that are ready are all that can be followed back to one of them and from it. -/
theorem Ready.mem_iff (ready : flow.Ready ledger members) (sound : flow.Sound ledger)
    (hname : name ∈ members) :
    other ∈ members ↔ flow.Upstream name other ∧ flow.Upstream other name := by
  constructor
  · intro hother
    exact ⟨ready.connected name hname other hother, ready.connected other hother name hname⟩
  · intro h
    obtain ⟨hto, hback⟩ := h
    rcases upstream_cases hname hto with hmem | ⟨member, hmember, origin, hfeeding, hout, hother⟩
    · exact hmem
    · -- the way out of the members would lead over what is settled back to them
      have horigin := (ready.closed member hmember origin hfeeding).resolve_left hout
      have hsettled := sound.settled_of_upstream horigin (hother.trans hback)
      exact absurd hsettled (ready.fresh name hname)

theorem settled_iff_mem : ledger.Settled name ↔ name ∈ ledger.flatMap Component.members := by
  induction ledger with
  | nil => simp
  | cons component rest ih => rw [Ledger.settled_cons, ih, List.flatMap_cons, List.mem_append]

/-- No transform was settled twice. -/
theorem Sound.nodup_members (sound : flow.Sound ledger) :
    (ledger.flatMap Component.members).Nodup := by
  induction sound with
  | nil => exact List.nodup_nil
  | cons _ ready _ ih =>
      rw [List.flatMap_cons]
      refine List.nodup_append.2 ⟨ready.nodup, ih, ?_⟩
      rintro name hname _ hsettled rfl
      exact ready.fresh name hname (settled_iff_mem.2 hsettled)

/-- Under unique names, transforms that are ready form a component also as operations. -/
theorem UniqueNames.formComponent (unique : UniqueNames operations)
    (sound : (index operations).Sound ledger) (ready : (index operations).Ready ledger members)
    (htransforms : ∀ name ∈ members, ((index operations).transform? name).isSome) :
    Operation.FormComponent operations members := by
  obtain ⟨first, hfirst⟩ := List.exists_mem_of_ne_nil members ready.nonempty
  obtain ⟨transform, hfound⟩ := Option.isSome_iff_exists.1 (htransforms first hfirst)
  obtain ⟨hmem, rfl, hkind⟩ := unique.transform?_eq_some.1 hfound
  refine ⟨ready.nodup, transform, hmem, hkind, fun name => ?_⟩
  -- what is upstream of a transform is one of the set, so the way back is one of operations too
  rw [ready.mem_iff sound hfirst, unique.upstream_iff hmem hkind]
  constructor
  · rintro ⟨⟨other, hother, rfl⟩, hback⟩
    obtain ⟨hothermem, -, hotherkind⟩ :=
      unique.transform?_eq_some.1 (unique.transform?_of_upstream hmem hkind hother)
    obtain ⟨same, hsame, hname⟩ := (unique.upstream_iff hothermem hotherkind).1 hback
    obtain rfl := unique same (hsame.mem hothermem) transform hmem hname
    exact ⟨other, rfl, hother, hsame⟩
  · rintro ⟨other, rfl, hother, hback⟩
    obtain ⟨hothermem, -, hotherkind⟩ :=
      unique.transform?_eq_some.1 (unique.transform?_of_upstream hmem hkind hother)
    exact ⟨⟨other, hother, rfl⟩,
      (unique.upstream_iff hothermem hotherkind).2 ⟨transform, hback, rfl⟩⟩

/-! ## The walk of an inquiry -/

/-- The inquiry for the source fields of a transform comes to this state of its walk.  There is no
walk if the transform is settled already. -/
def Passes (flow : Flow) (ledger : Ledger) (name : Name) (walk : Walk) : Prop :=
  ¬ ledger.Settled name ∧ (flow.transform? name).isSome ∧
    Walk.Reaches flow (Walk.initial flow ledger name) walk

theorem Passes.invariant {walk : Walk} (h : flow.Passes ledger name walk)
    (sound : flow.Sound ledger) : Walk.Invariant flow name walk :=
  (Walk.invariant_initial sound h.2.1 h.1).reaches h.2.2

theorem ledger_sourcesThrough (hname : (flow.transform? name).isSome)
    (hunsettled : ¬ ledger.Settled name) :
    ((flow.sourcesThrough name).run ledger).2 = ((Walk.initial flow ledger name).run flow).2 := by
  rw [run_sourcesThrough (Ledger.not_settled_iff.1 hunsettled) hname]
  rcases (Walk.initial flow ledger name).run flow with ⟨fault | ⟨⟩, settled⟩
  · rfl
  · dsimp only
    cases settled.sources? name <;> rfl

theorem walk_of_sourcesThrough {sources : SortedSet EndpointField}
    (hname : (flow.transform? name).isSome) (hunsettled : ¬ ledger.Settled name)
    (hresult : ((flow.sourcesThrough name).run ledger).1 = .ok sources) :
    ((Walk.initial flow ledger name).run flow).1 = .ok () := by
  rw [run_sourcesThrough (Ledger.not_settled_iff.1 hunsettled) hname] at hresult
  rcases hrun : (Walk.initial flow ledger name).run flow with ⟨fault | ⟨⟩, settled⟩
  · simp [hrun] at hresult
  · rfl

/-- An inquiry settles only what is due in some state of its walk. -/
theorem sourcesThrough_settles (flow : Flow) (ledger : Ledger) (name : Name) :
    ∃ settled, ((flow.sourcesThrough name).run ledger).2 = settled ++ ledger ∧
      ∀ component ∈ settled, ∃ walk, flow.Passes ledger name walk ∧
        walk.due? = some component.members := by
  by_cases hsettled : ledger.Settled name
  · obtain ⟨sources, hsources⟩ := Option.isSome_iff_exists.1 hsettled
    exact ⟨[], by rw [run_sourcesThrough_of_settled hsources]; rfl, by simp⟩
  · cases hname : flow.transform? name with
    | none =>
        have hsources := Ledger.not_settled_iff.1 hsettled
        exact ⟨[], by rw [run_sourcesThrough_of_other hsources hname]; rfl, by simp⟩
    | some transform =>
        have htransform : (flow.transform? name).isSome := by simp [hname]
        obtain ⟨settled, hrun, hdue⟩ := Walk.run_settles flow (Walk.initial flow ledger name)
        refine ⟨settled, (ledger_sourcesThrough htransform hsettled).trans hrun, ?_⟩
        intro component hcomponent
        obtain ⟨walk, hreaches, hmembers⟩ := hdue component hcomponent
        exact ⟨walk, ⟨hsettled, htransform, hreaches⟩, hmembers⟩

/-- An inquiry that succeeds has settled all that was due on its walk. -/
theorem Passes.settles {walk : Walk} {sources : SortedSet EndpointField}
    (h : flow.Passes ledger name walk) (hdue : walk.due? = some members)
    (hresult : ((flow.sourcesThrough name).run ledger).1 = .ok sources) :
    ∃ found, flow.settle walk.ledger members = .ok (⟨members, found⟩ :: walk.ledger) ∧
      (⟨members, found⟩ :: walk.ledger) <:+ ((flow.sourcesThrough name).run ledger).2 := by
  obtain ⟨hunsettled, htransform, hreaches⟩ := h
  have hrun := walk_of_sourcesThrough htransform hunsettled hresult
  rw [ledger_sourcesThrough htransform hunsettled]
  rw [Walk.run_of_reaches hreaches] at hrun ⊢
  exact Walk.settled_of_due hdue hrun

/-- If every read has its source, no field without a source reaches a name. -/
theorem not_receives_none
    (sourced : ∀ read ∈ operations, read.kind = .read → read.endpoint? ≠ none) (name : Name) :
    ¬ ∃ field, (index operations).Receives name none field := by
  rintro ⟨field, upstream, -, input, -, -, read, hfound, hkind, hnone⟩
  exact sourced read (mem_of_operation? hfound).1 hkind hnone

/-- Whatever was asked before, an inquiry for source fields succeeds, and what it settled is above
what was settled before; all this together names no transform twice.  Each entry that it adds was
due in a state of its walk.  Whenever transforms are due, they form one component, all that feeds
them from outside is settled and none of them is, and the next step settles them for good. -/
theorem sourcesThrough_settles_components (operations : OperationSet)
    (unique : UniqueNames operations)
    (sourced : ∀ read ∈ operations, read.kind = .read → read.endpoint? ≠ none)
    (earlier : List Inquiry) (name : Name) :
    let flow := index operations
    let before := flow.ledgerAfter earlier
    ∃ sources settled,
      (flow.sourcesThrough name).run before = (.ok sources, settled ++ before) ∧
      ((settled ++ before).flatMap Component.members).Nodup ∧
      (∀ component ∈ settled, ∃ walk, flow.Passes before name walk ∧
        walk.due? = some component.members) ∧
      ∀ walk members, flow.Passes before name walk → walk.due? = some members →
        Operation.FormComponent operations members ∧
        (∀ member ∈ operations, member.name ∈ members → ∀ origin,
          member.FedBy operations origin → origin.name ∉ members →
            walk.ledger.Settled origin.name) ∧
        (∀ member ∈ members, ¬ walk.ledger.Settled member) ∧
        ∃ found, flow.settle walk.ledger members = .ok (⟨members, found⟩ :: walk.ledger) ∧
          (⟨members, found⟩ :: walk.ledger) <:+ settled ++ before := by
  intro flow before
  have sound : flow.Sound before := sound_ledgerAfter flow earlier
  obtain ⟨htells, hafter⟩ := tells_sourcesThrough flow sound name
  obtain ⟨sources, hresult, -⟩ := htells.exists_ok (not_receives_none sourced name)
  obtain ⟨settled, hledger, hdue⟩ := sourcesThrough_settles flow before name
  refine ⟨sources, settled, Prod.ext hresult hledger, hledger ▸ hafter.nodup_members, hdue, ?_⟩
  intro walk members hpasses hmembers
  have invariant := hpasses.invariant sound
  obtain ⟨ready, htransforms⟩ := invariant.ready_due? hmembers
  refine ⟨unique.formComponent invariant.tally.sound ready htransforms, ?_, ready.fresh,
    hledger ▸ hpasses.settles hmembers hresult⟩
  intro member hmember hname origin hfed hout
  -- the member is the transform that is found under its name
  obtain ⟨transform, hfound⟩ := Option.isSome_iff_exists.1 (htransforms _ hname)
  obtain ⟨hmem, hsame, -⟩ := unique.transform?_eq_some.1 hfound
  obtain rfl := unique transform hmem member hmember hsame
  have hfeeding := (unique.mem_feeding_iff hfound).2 ⟨origin, hfed, rfl⟩
  exact (ready.closed _ hname _ hfeeding).resolve_left hout

namespace Sample

/-- The transform `count`, settled alone. -/
def counted : Component := ⟨[count.name], .ofList [⟨peopleFile, offset⟩, ⟨peopleFile, body⟩]⟩

theorem ledgerAfter_count :
    (index snapshot).ledgerAfter [.sourcesThrough count.name] = [counted] := by
  have hsteps : Walk.Steps (index snapshot) (Walk.initial (index snapshot) [] count.name)
      ⟨[counted], [clean.name, parse.name], 1, [], []⟩ :=
    ⟨by simp [Walk.initial, Walk.start], rfl⟩
  have hsettled : ((index snapshot).sourcesThrough count.name).run [] =
      (.ok counted.sources, [counted]) := by
    rw [run_sourcesThrough rfl (by decide +kernel), Walk.run_of_steps hsteps, Walk.run]
    rfl
  show (((index snapshot).answer (.sourcesThrough count.name)).run []).2 = [counted]
  rw [answer, run_bind, hsettled]
  rfl

/-- From `clean` the walk is led to `parse`, and from there back to `clean`. -/
theorem passes_clean : ∃ walk, (index snapshot).Passes [counted] clean.name walk ∧
    walk.ledger = [counted] ∧ walk.due? = some [parse.name, clean.name] := by
  let opened : List Opened := [⟨parse.name, 1⟩, ⟨clean.name, 0⟩]
  let atClean (pending : List Name) : Visit := ⟨⟨clean.name, 0⟩, 0, pending⟩
  let atParse (least : Nat) (pending : List Name) : Visit := ⟨⟨parse.name, 1⟩, least, pending⟩
  let first : Walk :=
    ⟨[counted], [parse.name], 1, [⟨clean.name, 0⟩], [atClean [parse.name]]⟩
  let second : Walk := ⟨[counted], [], 2, opened, [atParse 1 [clean.name], atClean []]⟩
  let third : Walk := ⟨[counted], [], 2, opened, [atParse 0 [], atClean []]⟩
  let last : Walk := ⟨[counted], [], 2, opened, [atClean []]⟩
  have hself : Walk.Steps (index snapshot)
      (Walk.initial (index snapshot) [counted] clean.name) first :=
    ⟨by simp [Walk.initial, Walk.start], rfl⟩
  have hparse : Walk.Steps (index snapshot) first second := ⟨by simp [first], rfl⟩
  have hback : Walk.Steps (index snapshot) second third := ⟨by simp [second], rfl⟩
  have hleave : Walk.Steps (index snapshot) third last := ⟨by simp [third], rfl⟩
  have hreaches := (((ReflTransGen.single hself).tail hparse).tail hback).tail hleave
  exact ⟨last, ⟨Ledger.not_settled_iff.2 rfl, by decide +kernel, hreaches⟩, rfl, rfl⟩

end Sample

open Sample in
/-- With `count` settled before, the walk from `clean` settles `clean` and `parse` together. -/
theorem sourcesThrough_settles_components_sample :
    UniqueNames snapshot ∧
    (∀ read ∈ snapshot, read.kind = .read → read.endpoint? ≠ none) ∧
    Operation.FormComponent snapshot [parse.name, clean.name] ∧
    ∃ sources settled, ((index snapshot).sourcesThrough clean.name).run
        ((index snapshot).ledgerAfter [.sourcesThrough count.name]) =
          (.ok sources, settled ++ [counted]) ∧
      ∃ found, [⟨[parse.name, clean.name], found⟩, counted] <:+ settled ++ [counted] := by
  have unique : UniqueNames snapshot := by decide +kernel
  have sourced : ∀ read ∈ snapshot, read.kind = .read → read.endpoint? ≠ none := by
    decide +kernel
  obtain ⟨sources, settled, hrun, -, -, hdue⟩ := sourcesThrough_settles_components snapshot
    unique sourced [.sourcesThrough count.name] clean.name
  rw [ledgerAfter_count] at hrun hdue ⊢
  obtain ⟨walk, hpasses, hledger, hmembers⟩ := passes_clean
  obtain ⟨hform, -, -, found, -, hsuffix⟩ := hdue walk _ hpasses hmembers
  exact ⟨unique, sourced, hform, sources, settled, hrun, found, hledger ▸ hsuffix⟩

end Flow

end Lineage
