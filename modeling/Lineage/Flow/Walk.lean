import Lineage.Flow.Component

/-!
# The walk that settles components

To settle a transform, the walk goes depth first against the flow, with a list
of the visits under way instead of recursion.  Every transform gets a place
when it is found, and stays open until its component is settled.  A visit
keeps the least place that was come across from it.  When it has looked at
everything that feeds its transform and that place is its own, the transforms
opened since then form a component with it, and everything that feeds them from
outside is settled already.  Otherwise they stay open, and the visit around it
takes over the least place.

The walk skips what earlier walks have settled.  A read that lacks its source
stops it; what was settled before stays in the ledger.
-/

namespace Lineage

/-- A transform that was found and is not settled yet, with the number of those found before it. -/
structure Opened where
  name : Name
  place : Nat

/-- The visit of an open transform: the least place come across so far, and the transforms feeding
it that it has not looked at. -/
structure Visit extends Opened where
  least : Nat
  pending : List Name

/-- The state of a walk.  Open transforms and visits are kept the latest first. -/
structure Walk where
  ledger : Ledger
  unfound : List Name
  found : Nat
  opened : List Opened
  visits : List Visit

namespace Visit

/-- The visit after it came across a place. -/
def noting (visit : Visit) (place : Nat) : Visit := { visit with least := min visit.least place }

end Visit

namespace Walk

/-- The place of a transform that is open. -/
def place? (walk : Walk) (name : Name) : Option Nat :=
  (walk.opened.find? fun opened => opened.name = name).map Opened.place

/-- Open a transform and begin its visit.  It has to look at what feeds the transform, but for what
is settled. -/
def start (flow : Flow) (walk : Walk) (name : Name) : Walk :=
  let opened : Opened := ⟨name, walk.found⟩
  let pending := (flow.feeding name).filter fun origin => (walk.ledger.sources? origin).isNone
  { walk with
    unfound := walk.unfound.erase name
    found := walk.found + 1
    opened := opened :: walk.opened
    visits := ⟨opened, walk.found, pending⟩ :: walk.visits }

/-- Look from the innermost visit at a transform that feeds it. -/
def look (flow : Flow) (walk : Walk) (visit : Visit) (outer : List Visit) (origin : Name) : Walk :=
  if origin ∈ walk.unfound then start flow { walk with visits := visit :: outer } origin
  else
    match walk.place? origin with
    | some place => { walk with visits := visit.noting place :: outer }
    | none => { walk with visits := visit :: outer }

/-- The visits around one that ends; the next of them comes across what that one did. -/
def handOn (visit : Visit) : List Visit → List Visit
  | [] => []
  | parent :: outer => parent.noting visit.least :: outer

/-- The transforms opened by a visit and since then. -/
def openedBy (walk : Walk) (visit : Visit) : List Opened :=
  walk.opened.takeWhile fun opened => visit.place ≤ opened.place

/-- The transforms opened before a visit. -/
def openedBefore (walk : Walk) (visit : Visit) : List Opened :=
  walk.opened.dropWhile fun opened => visit.place ≤ opened.place

/-- End the innermost visit, and settle its component if it is the first one found of it. -/
def leave (flow : Flow) (walk : Walk) (visit : Visit) (outer : List Visit) :
    Except TracingFault Walk :=
  if visit.least = visit.place then
    (flow.settle walk.ledger ((walk.openedBy visit).map Opened.name)).map fun ledger =>
      { walk with ledger, opened := walk.openedBefore visit, visits := handOn visit outer }
  else .ok { walk with visits := handOn visit outer }

/-- One step of a walk. -/
def step (flow : Flow) (walk : Walk) : Except TracingFault Walk :=
  match walk.visits with
  | [] => .ok walk
  | visit :: outer =>
    match visit.pending with
    | [] => walk.leave flow visit outer
    | origin :: pending => .ok (walk.look flow { visit with pending } outer origin)

/-! ## Every step brings the end nearer

A step either finds a transform, of which there are finitely many, or looks at
one more that feeds a visit, or ends a visit. -/

/-- What visits still have to do. -/
def work : List Visit → Nat
  | [] => 0
  | visit :: outer => visit.pending.length + 1 + work outer

/-- Whether a walk is nearer to its end than another. -/
def Nearer (next walk : Walk) : Prop :=
  Prod.Lex (· < ·) (· < ·) (next.unfound.length, work next.visits)
    (walk.unfound.length, work walk.visits)

theorem work_handOn (visit : Visit) (outer : List Visit) :
    work (handOn visit outer) = work outer := by
  cases outer <;> rfl

theorem nearer_look (flow : Flow) (walk : Walk) {visit : Visit} {outer : List Visit}
    {origin : Name} {pending : List Name} (hvisits : walk.visits = visit :: outer)
    (hpending : visit.pending = origin :: pending) :
    (walk.look flow { visit with pending } outer origin).Nearer walk := by
  unfold look
  split
  · rename_i hunfound
    have hpos := List.length_pos_of_mem hunfound
    refine Prod.Lex.left _ _ ?_
    simp only [start, List.length_erase_of_mem hunfound]
    omega
  · split <;>
      exact Prod.Lex.right _ (by simp [work, Visit.noting, hvisits, hpending])

theorem nearer_leave {flow : Flow} {walk next : Walk} {visit : Visit} {outer : List Visit}
    (hvisits : walk.visits = visit :: outer) (hleave : walk.leave flow visit outer = .ok next) :
    next.Nearer walk := by
  have hwork : work (handOn visit outer) < work walk.visits := by
    rw [work_handOn, hvisits, work]
    omega
  unfold leave at hleave
  split at hleave
  · cases hsettle : flow.settle walk.ledger ((walk.openedBy visit).map Opened.name) with
    | error found => simp [hsettle, Except.map] at hleave
    | ok ledger =>
      simp only [hsettle, Except.map, Except.ok.injEq] at hleave
      exact hleave ▸ Prod.Lex.right _ hwork
  · simp only [Except.ok.injEq] at hleave
    exact hleave ▸ Prod.Lex.right _ hwork

theorem nearer_step {flow : Flow} {walk next : Walk} {visit : Visit} {outer : List Visit}
    (hvisits : walk.visits = visit :: outer) (hstep : walk.step flow = .ok next) :
    next.Nearer walk := by
  simp only [step, hvisits] at hstep
  split at hstep
  · exact nearer_leave hvisits hstep
  · rename_i origin pending hpending
    simp only [Except.ok.injEq] at hstep
    exact hstep ▸ nearer_look flow walk hvisits hpending

/-- Walk to the end.  The answer is the ledger, with the fault if there was one. -/
def run (flow : Flow) (walk : Walk) : Except TracingFault Unit × Ledger :=
  match _hvisits : walk.visits with
  | [] => (.ok (), walk.ledger)
  | _ :: _ =>
    match _hstep : walk.step flow with
    | .ok next => run flow next
    | .error found => (.error found, walk.ledger)
termination_by (walk.unfound.length, work walk.visits)
decreasing_by exact nearer_step _hvisits _hstep

/-- The walk from a transform, when nothing is found yet. -/
def initial (flow : Flow) (ledger : Ledger) (name : Name) : Walk :=
  let unsettled := flow.byName.keys.filter fun name =>
    (flow.transform? name).isSome && (ledger.sources? name).isNone
  start flow ⟨ledger, unsettled.toList, 0, [], []⟩ name

end Walk

namespace Flow

/-- Settle a transform, with all that it needs. -/
def walkFrom (flow : Flow) (name : Name) : Tracing Unit :=
  ExceptT.mk fun ledger => (Walk.initial flow ledger name).run flow

/-- The source fields that reach a transform; nothing reaches any other name. -/
def sourcesThrough (flow : Flow) (name : Name) : Tracing (SortedSet EndpointField) := do
  match (← get).sources? name with
  | some sources => return sources
  | none =>
    if (flow.transform? name).isSome then
      flow.walkFrom name
      match (← get).sources? name with
      | some sources => return sources
      | none => throw (.unsettled name)
    else return ∅

end Flow

end Lineage
