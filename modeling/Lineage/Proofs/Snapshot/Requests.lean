import Lineage.Proofs.Workspace.Building
import Lineage.Proofs.Workspace.Documents
import Lineage.Snapshot.Request

/-!
# A snapshot replies as a fresh one

A snapshot is built with all its views or with none, is asked one thing after
another, and is stored and restored now and then, after which the original and
the copy are both in use.  Whatever has happened, each of the copies replies to
every question as a snapshot does that was just built with all its views.

Two facts about a single question carry this along a run.  Its reply is fixed by
the operations alone and leaves a snapshot faithful to them (`exists_reply`), and
the views that are there afterwards are those that were there before and those
that the reply is worked out from (`holds_of_ask`).
-/

namespace Lineage

open Lineage.Flow Lineage.Workspace

/-! ## Replies that the operations fix -/

namespace Viewing

open Snapshot

variable {α β : Type} {operations : OperationSet}

/-- From every faithful snapshot the action gives the value if the workspace is ready, and leaves a
faithful snapshot and a ready workspace. -/
def Replies (operations : OperationSet) (action : Viewing α) (value : α) : Prop :=
  ∀ snapshot workspace, Faithful operations snapshot → workspace.Ready → ∃ later after,
    (action.run.run snapshot).run workspace = ((.ok value, later), after) ∧
    Faithful operations later ∧ after.Ready

theorem Shows.replies {action : Viewing α} {property : α → Prop} {value : α}
    (h : Shows operations action property) (hunique : ∀ shown, property shown → shown = value) :
    Replies operations action value := by
  intro snapshot workspace faithful hready
  obtain ⟨shown, later, journal, hrun, hshown, hlater⟩ := h snapshot workspace faithful
  obtain rfl := hunique shown hshown
  exact ⟨later, _, hrun, hlater, (ready_journal workspace journal).2 hready⟩

theorem Replies.bind {action : Viewing α} {next : α → Viewing β} {value : α} {last : β}
    (h : Replies operations action value) (hnext : Replies operations (next value) last) :
    Replies operations (action >>= next) last := by
  intro snapshot workspace faithful hready
  obtain ⟨later, after, hrun, hlater, hafter⟩ := h snapshot workspace faithful hready
  rw [run_bind, hrun]
  exact hnext later after hlater hafter

theorem replies_pure (value : α) : Replies operations (pure value) value :=
  fun snapshot workspace faithful hready => ⟨snapshot, workspace, rfl, faithful, hready⟩

theorem replies_ofAction {action : Action α} {value : α} (h : Delivers action fun a => a = value) :
    Replies operations (ofAction action) value := by
  intro snapshot workspace faithful hready
  obtain ⟨a, ha⟩ := h.succeeds workspace hready
  obtain rfl := h.result workspace a ha
  exact ⟨snapshot, _, by rw [run_ofAction, ha], faithful, (h.ready_iff workspace).2 hready⟩

end Viewing

namespace Snapshot

open Viewing

variable {operations : OperationSet} (admitted : Admitted operations)
include admitted

theorem replies_viewFlow : Replies operations viewFlow (index operations) :=
  (shows_viewFlow admitted).replies fun _ h => h

theorem replies_query (direction : Direction) (field : EndpointField) :
    Replies operations (query direction field) ((index operations).follow direction field) := by
  have hreport (label : String) (found : List Operation) :
      Delivers (reportQuery label field found) fun done => done = () :=
    (delivers_log _ _ _).bind fun _ _ =>
      { (depends_spanEvent _ _).toDelivers with result := fun _ _ _ => rfl }
  exact (replies_viewFlow admitted).bind
    ((replies_ofAction (hreport _ _)).bind (replies_pure _))

/-- The operations fix the reply to every question. -/
theorem exists_reply (request : Request) : ∃ value, Replies operations (reply request) value := by
  -- a view fixes its value, for on the empty ledger there is only one
  have hunique {computation : Tracing Summary} {summary : Summary}
      (hgives : (index operations).Gives computation (.ok summary)) (shown : Summary)
      (hshown : (index operations).Gives computation (.ok shown)) : shown = summary :=
    Except.ok.inj ((hshown [] .nil).1.symm.trans (hgives [] .nil).1)
  cases request with
  | destinationFields =>
      exact ⟨_, ((shows_viewDestinationFields admitted).replies fun _ h => h).bind (replies_pure _)⟩
  | incoming =>
      obtain ⟨summary, hgives, -⟩ := admitted.gives_incoming
      exact ⟨_, ((shows_viewIncoming admitted).replies (hunique hgives)).bind (replies_pure _)⟩
  | outgoing =>
      obtain ⟨incoming, hincoming, -⟩ := admitted.gives_incoming
      obtain ⟨summary, hsummary, -⟩ := admitted.gives_outgoing incoming
      have hgives : (index operations).Gives (index operations).ownOutgoing (.ok summary) :=
        hincoming.bind hsummary
      exact ⟨_, ((shows_viewOutgoing admitted).replies (hunique hgives)).bind (replies_pure _)⟩
  | droppedFields => exact ⟨_, (replies_viewFlow admitted).bind (replies_pure _)⟩
  | sources => exact ⟨_, (replies_viewFlow admitted).bind (replies_pure _)⟩
  | destinations => exact ⟨_, (replies_viewFlow admitted).bind (replies_pure _)⟩
  | follow direction field =>
      exact ⟨_, (replies_query admitted direction field).bind (replies_pure _)⟩

end Snapshot

/-! ## The views that a reply leaves behind -/

namespace Snapshot

theorem holds_iff {snapshot : Snapshot} {view : String} : snapshot.Holds view ↔
    view = "destination_fields" ∧ snapshot.destinationFields.isSome ∨
    view = "incoming_summary" ∧ snapshot.incoming.isSome ∨
    view = "outgoing_summary" ∧ snapshot.outgoing.isSome := by
  simp only [Holds, storedViews, List.mem_cons, Prod.mk.injEq, List.not_mem_nil, or_false,
    @eq_comm Bool true]

end Snapshot

namespace Viewing

open Snapshot

variable {α β : Type}

/-- If the action succeeds from a snapshot, the given views have come to those that it held. -/
def FillsFrom (snapshot : Snapshot) (action : Viewing α) (views : List String) : Prop :=
  ∀ workspace value later after,
    (action.run.run snapshot).run workspace = ((.ok value, later), after) →
    ∀ view, later.Holds view ↔ snapshot.Holds view ∨ view ∈ views

theorem fillsFrom_pure {snapshot : Snapshot} {views : List String}
    (h : ∀ view ∈ views, snapshot.Holds view) (value : α) :
    FillsFrom snapshot (pure value : Viewing α) views := by
  intro workspace value later after hrun view
  cases hrun
  exact ⟨.inl, fun hview => hview.elim id (h view)⟩

theorem fillsFrom_pure_nil (snapshot : Snapshot) (value : α) :
    FillsFrom snapshot (pure value : Viewing α) [] :=
  fillsFrom_pure (List.forall_mem_nil _) value

theorem FillsFrom.bind {snapshot : Snapshot} {action : Viewing α} {next : α → Viewing β}
    {views more : List String} (h : FillsFrom snapshot action views)
    (hnext : ∀ value later, (∀ view, later.Holds view ↔ snapshot.Holds view ∨ view ∈ views) →
      FillsFrom later (next value) more) :
    FillsFrom snapshot (action >>= next) (views ++ more) := by
  intro workspace value later after hrun view
  rw [run_bind] at hrun
  rcases hfirst : (action.run.run snapshot).run workspace with ⟨⟨_ | first, between⟩, middle⟩
  · rw [hfirst] at hrun
    cases hrun
  · rw [hfirst] at hrun
    have hbetween := h workspace first between middle hfirst
    rw [hnext first between hbetween middle value later after hrun view, hbetween view, List.mem_append,
      or_assoc]

theorem FillsFrom.bind_of_nil {snapshot : Snapshot} {action : Viewing α} {next : α → Viewing β}
    {views : List String} (h : FillsFrom snapshot action [])
    (hnext : ∀ value later, (∀ view, later.Holds view ↔ snapshot.Holds view) →
      FillsFrom later (next value) views) : FillsFrom snapshot (action >>= next) views :=
  h.bind fun value later hsame => hnext value later (by simpa using hsame)

theorem FillsFrom.bind_pure {snapshot : Snapshot} {action : Viewing α} {views : List String}
    (h : FillsFrom snapshot action views) (f : α → β) :
    FillsFrom snapshot (action >>= fun value => pure (f value)) views := by
  intro workspace value later after hrun
  rw [run_bind] at hrun
  rcases hfirst : (action.run.run snapshot).run workspace with ⟨⟨_ | first, held⟩, between⟩
  · rw [hfirst] at hrun
    cases hrun
  · rw [hfirst] at hrun
    cases hrun
    exact h workspace first _ _ hfirst

theorem fillsFrom_get_bind {snapshot : Snapshot} {next : Snapshot → Viewing β} {views : List String}
    (h : FillsFrom snapshot (next snapshot) views) : FillsFrom snapshot (get >>= next) views :=
  h

theorem fillsFrom_modify {snapshot : Snapshot} {change : Snapshot → Snapshot} {views : List String}
    (h : ∀ view, (change snapshot).Holds view ↔ snapshot.Holds view ∨ view ∈ views) :
    FillsFrom snapshot (modify change : Viewing Unit) views := by
  intro workspace value later after hrun view
  cases hrun
  exact h view

theorem fillsFrom_ofAction (snapshot : Snapshot) (action : Action α) :
    FillsFrom snapshot (ofAction action) [] := by
  intro workspace value later after hrun view
  obtain rfl : snapshot = later := congrArg (fun outcome => outcome.1.2) hrun
  simp

theorem fillsFrom_throw (snapshot : Snapshot) (failure : Failure) (views : List String) :
    FillsFrom snapshot (throw failure : Viewing α) views := by
  intro workspace value later after hrun
  cases hrun

theorem fillsFrom_log (snapshot : Snapshot) (level : Int) (logger message : String) :
    FillsFrom snapshot (liftM (Workspace.log level logger message) : Viewing Unit) [] := by
  intro workspace value later after hrun view
  obtain rfl : snapshot = later := congrArg (fun outcome => outcome.1.2) hrun
  simp

end Viewing

namespace Snapshot

open Viewing

variable (snapshot : Snapshot)

theorem fillsFrom_viewFlow : FillsFrom snapshot viewFlow [] := by
  refine fillsFrom_get_bind ?_
  split
  · exact fillsFrom_pure_nil _ _
  · refine fillsFrom_get_bind ((fillsFrom_ofAction _ _).bind_of_nil fun flow between _ => ?_)
    exact (fillsFrom_modify (by simp [holds_iff])).bind_pure _

theorem fillsFrom_viewLedger : FillsFrom snapshot viewLedger [] := by
  refine fillsFrom_get_bind ?_
  split
  · exact fillsFrom_pure_nil _ _
  · refine (fillsFrom_viewFlow _).bind_of_nil fun _ between _ => ?_
    exact (fillsFrom_modify (by simp [holds_iff])).bind_pure _

theorem fillsFrom_traced {α : Type} (computation : Flow → Tracing α) :
    FillsFrom snapshot (traced computation) [] := by
  refine (fillsFrom_viewLedger _).bind_of_nil fun ledger between _ => ?_
  refine (fillsFrom_viewFlow _).bind_of_nil fun flow between _ => ?_
  refine (fillsFrom_modify (by simp [holds_iff])).bind_of_nil fun _ between _ => ?_
  split
  · exact fillsFrom_pure_nil _ _
  · exact fillsFrom_throw _ _ _

theorem fillsFrom_viewDestinationFields :
    FillsFrom snapshot viewDestinationFields ["destination_fields"] := by
  refine fillsFrom_get_bind ?_
  split
  · next fields hview => exact fillsFrom_pure (by simp [holds_iff, hview]) _
  · refine (fillsFrom_traced _ _).bind_of_nil fun fields between _ => ?_
    refine (fillsFrom_modify fun view => ?_).bind_pure _
    grind [holds_iff]

theorem fillsFrom_viewIncoming : FillsFrom snapshot viewIncoming ["incoming_summary"] := by
  refine fillsFrom_get_bind ?_
  split
  · next summary hview => exact fillsFrom_pure (by simp [holds_iff, hview]) _
  · refine (fillsFrom_traced _ _).bind_of_nil fun summary between _ => ?_
    refine (fillsFrom_log _ _ _ _).bind_of_nil fun _ between _ => ?_
    refine (fillsFrom_modify fun view => ?_).bind_pure _
    grind [holds_iff]

/-- The outgoing summary is worked out from the incoming one, which is there ever since. -/
def Nested : Prop := snapshot.Holds "outgoing_summary" → snapshot.Holds "incoming_summary"

variable {snapshot} in
theorem fillsFrom_viewOutgoing (hnested : snapshot.Nested) :
    FillsFrom snapshot viewOutgoing ["incoming_summary", "outgoing_summary"] := by
  refine fillsFrom_get_bind ?_
  split
  · next summary hview =>
      have houtgoing : snapshot.Holds "outgoing_summary" := by simp [holds_iff, hview]
      refine fillsFrom_pure ?_ _
      simp [houtgoing, hnested houtgoing]
  · refine (fillsFrom_viewLedger _).bind_of_nil fun ledger between _ => ?_
    change FillsFrom between _ (["incoming_summary"] ++ ["outgoing_summary"])
    refine (fillsFrom_viewIncoming _).bind fun incoming between _ => ?_
    refine (fillsFrom_traced _ _).bind_of_nil fun summary between _ => ?_
    refine (fillsFrom_modify fun view => ?_).bind_pure _
    grind [holds_iff]

variable {snapshot}

theorem fillsFrom_reply (hnested : snapshot.Nested) (request : Request) :
    FillsFrom snapshot (reply request) request.storedViews := by
  cases request with
  | destinationFields => exact (fillsFrom_viewDestinationFields _).bind_pure _
  | incoming => exact (fillsFrom_viewIncoming _).bind_pure _
  | outgoing => exact (fillsFrom_viewOutgoing hnested).bind_pure _
  | droppedFields => exact (fillsFrom_viewFlow _).bind_pure _
  | sources => exact (fillsFrom_viewFlow _).bind_pure _
  | destinations => exact (fillsFrom_viewFlow _).bind_pure _
  | follow direction field =>
      have hquery : FillsFrom snapshot (query direction field) [] :=
        (fillsFrom_viewFlow _).bind_of_nil fun _ _ _ => (fillsFrom_ofAction _ _).bind_pure _
      exact hquery.bind_pure _

/-- After a reply those views are there that were there before or were needed for it. -/
theorem holds_of_ask (hnested : snapshot.Nested) {request : Request} {workspace : Workspace}
    {value : Reply} (hreply : (snapshot.ask request workspace).1.1 = .ok value) (view : String) :
    (snapshot.ask request workspace).1.2.Holds view ↔
      snapshot.Holds view ∨ view ∈ request.storedViews :=
  fillsFrom_reply hnested request workspace value _ _ (by rw [← hreply]; rfl) view

theorem Nested.ask (hnested : snapshot.Nested) {request : Request} {workspace : Workspace}
    {value : Reply} (hreply : (snapshot.ask request workspace).1.1 = .ok value) :
    (snapshot.ask request workspace).1.2.Nested := by
  unfold Nested
  rw [holds_of_ask hnested hreply, holds_of_ask hnested hreply]
  rintro (houtgoing | houtgoing)
  · exact .inl (hnested houtgoing)
  · refine .inr ?_
    cases request <;> simp_all [Request.storedViews]

/-! ## The views of a new snapshot -/

/-- The views that a stored snapshot keeps, by name. -/
def storable : List String := ["destination_fields", "incoming_summary", "outgoing_summary"]

/-- A restored snapshot has the views that it was stored with, and neither flow nor ledger. -/
theorem presentViews_restored (snapshot : Snapshot) :
    snapshot.restored.presentViews = storable.filter (snapshot.presentViews.contains ·) := by
  simp only [presentViews, restored, storedViews]
  generalize snapshot.flow.isSome = flow, snapshot.ledger.isSome = ledger,
    snapshot.destinationFields.isSome = fields, snapshot.incoming.isSome = incoming,
    snapshot.outgoing.isSome = outgoing
  revert flow ledger fields incoming outgoing
  decide

theorem fillsFrom_viewAll (snapshot : Snapshot) : FillsFrom snapshot viewAll storable := by
  have hfills := (fillsFrom_viewDestinationFields snapshot).bind fun fields _ _ =>
    (fillsFrom_viewIncoming _).bind fun incoming between hbetween =>
      have hnested : between.Nested := fun _ => (hbetween _).2 (.inr (List.mem_singleton_self _))
      (fillsFrom_viewOutgoing hnested).bind_pure fun _ => ()
  intro workspace value later after hrun view
  rw [hfills workspace value later after hrun view]
  simp [storable]

/-- A new snapshot has all views if they are wanted, and else those that it had. -/
theorem holds_of_stock {all : Bool} {bare stocked : Snapshot} {workspace : Workspace}
    (h : ((stock all bare).run.run workspace).1 = .ok stocked) (view : String) :
    stocked.Holds view ↔ bare.Holds view ∨ all = true ∧ view ∈ storable := by
  cases all with
  | false =>
      obtain rfl : bare = stocked := Except.ok.inj h
      simp
  | true =>
      obtain ⟨⟨outcome, later⟩, hviews, h⟩ := exists_of_run_bind_ok h
      cases outcome with
      | error failure => cases h
      | ok done =>
          obtain rfl : later = stocked := Except.ok.inj h
          have hresult : ((viewAll.run.run bare).run workspace).1 = (.ok done, later) :=
            Except.ok.inj hviews
          rw [fillsFrom_viewAll bare workspace done later _ (Prod.ext hresult rfl) view]
          simp

/-- A new snapshot has all views or none, as it was said. -/
theorem holds_of_build {listed : List Operation} {eager : Option Bool} {workspace : Workspace}
    {built : Snapshot} (h : ((build listed eager).run.run workspace).1 = .ok built) :
    ∃ all : Bool, (∀ said, eager = some said → all = said) ∧
      ∀ view, built.Holds view ↔ all = true ∧ view ∈ storable := by
  rw [build_eq] at h
  obtain ⟨_, -, h⟩ := exists_of_run_bind_ok h
  obtain ⟨flow, -, h⟩ := exists_of_run_bind_ok h
  obtain ⟨all, hall, h⟩ := exists_of_run_bind_ok h
  obtain ⟨stocked, hstock, h⟩ := exists_of_run_bind_ok h
  obtain ⟨_, -, h⟩ := exists_of_run_bind_ok h
  obtain rfl : stocked = built := Except.ok.inj h
  refine ⟨all, ?_, fun view => ?_⟩
  · rintro said rfl
    exact (Except.ok.inj hall).symm
  · rw [holds_of_stock hstock view]
    simp [holds_iff, ofFlow]

/-! ## Runs -/

/-- A snapshot in use, and what was asked of it or of those that it was copied from. -/
structure Copy where
  snapshot : Snapshot
  asked : List Request

/-- What a run can come to that starts with a snapshot in a workspace: the copies in use and the
workspace.  At each step one of the copies is asked something, whatever it replies, or is stored and
restored as one more copy. -/
inductive Run (built : Snapshot) (start : Workspace) : List Copy → Workspace → Prop
  | start : Run built start [⟨built, []⟩] start
  | ask {front back : List Copy} {copy : Copy} {workspace : Workspace}
      (run : Run built start (front ++ copy :: back) workspace) (request : Request) :
      Run built start
        (front ++ ⟨(copy.snapshot.ask request workspace).1.2, request :: copy.asked⟩ :: back)
        (copy.snapshot.ask request workspace).2
  | restore {front back : List Copy} {copy : Copy} {workspace : Workspace}
      (run : Run built start (front ++ copy :: back) workspace) :
      Run built start (front ++ copy :: back ++ [⟨copy.snapshot.restored, copy.asked⟩]) workspace

/-- What holds of every copy along a run. -/
structure Copy.Sound (operations : OperationSet) (built : Snapshot) (copy : Copy) : Prop where
  faithful : Faithful operations copy.snapshot
  nested : copy.snapshot.Nested
  holds_iff : ∀ view, copy.snapshot.Holds view ↔
    built.Holds view ∨ ∃ request ∈ copy.asked, view ∈ request.storedViews

section

variable {operations : OperationSet} {built : Snapshot} {copy : Copy}

/-- Storing and restoring a copy keeps it sound. -/
theorem Copy.Sound.restored (sound : copy.Sound operations built) :
    Copy.Sound operations built ⟨copy.snapshot.restored, copy.asked⟩ where
  faithful := sound.faithful.restored
  nested := sound.nested
  holds_iff := sound.holds_iff

/-- A sound copy in a ready workspace replies, stays sound, and leaves the workspace ready. -/
theorem Copy.Sound.ask (admitted : Admitted operations) (sound : copy.Sound operations built)
    (request : Request) {workspace : Workspace} (hready : workspace.Ready) :
    Copy.Sound operations built
        ⟨(copy.snapshot.ask request workspace).1.2, request :: copy.asked⟩ ∧
      (copy.snapshot.ask request workspace).2.Ready := by
  obtain ⟨value, hvalue⟩ := exists_reply admitted request
  obtain ⟨later, after, hrun, hlater, hafter⟩ := hvalue _ _ sound.faithful hready
  have hask : copy.snapshot.ask request workspace = ((.ok value, later), after) := hrun
  have hreply : (copy.snapshot.ask request workspace).1.1 = .ok value := by rw [hask]
  refine ⟨⟨?_, sound.nested.ask hreply, fun view => ?_⟩, ?_⟩
  · rw [hask]
    exact hlater
  · rw [holds_of_ask sound.nested hreply, sound.holds_iff]
    simp only [List.mem_cons, exists_eq_or_imp]
    exact or_right_comm.trans or_assoc
  · rw [hask]
    exact hafter

/-- Along a run all copies are sound and the workspace is ready. -/
theorem Run.sound (admitted : Admitted operations) {start : Workspace}
    (hbuilt : Copy.Sound operations built ⟨built, []⟩) (hstart : start.Ready)
    {copies : List Copy} {workspace : Workspace} (run : Run built start copies workspace) :
    (∀ copy ∈ copies, copy.Sound operations built) ∧ workspace.Ready := by
  -- every question and every restoring concerns one copy, and the others stay as they are
  induction run with
  | start => simpa using ⟨hbuilt, hstart⟩
  | @ask front back copy workspace _ request ih =>
      obtain ⟨hsound, hready⟩ := ih
      have hmem : copy ∈ front ++ copy :: back := by simp
      obtain ⟨hcopy, hafter⟩ := (hsound copy hmem).ask admitted request hready
      refine ⟨fun other hother => ?_, hafter⟩
      rw [List.mem_append, List.mem_cons] at hother
      rcases hother with hfront | rfl | hback
      · exact hsound other (by simp [hfront])
      · exact hcopy
      · exact hsound other (by simp [hback])
  | @restore front back copy workspace _ ih =>
      obtain ⟨hsound, hready⟩ := ih
      have hmem : copy ∈ front ++ copy :: back := by simp
      refine ⟨fun other hother => ?_, hready⟩
      rw [List.mem_append, List.mem_singleton] at hother
      rcases hother with hother | rfl
      · exact hsound other hother
      · exact (hsound copy hmem).restored

/-- A snapshot that was just built is sound as its only copy. -/
theorem sound_of_build {listed : List Operation} {flow : Flow}
    (haccept : Flow.accept (.ofList listed) = .ok flow) {eager : Option Bool}
    {workspace start : Workspace} (h : (build listed eager).run.run workspace = (.ok built, start)) :
    Copy.Sound (.ofList listed) built ⟨built, []⟩ ∧ start.Ready := by
  obtain ⟨-, admitted⟩ := accept_eq_ok_iff.1 haccept
  have hbuild := depends_build admitted eager
  have hresult : ((build listed eager).run.run workspace).1 = .ok built := by rw [h]
  have hready : ((build listed eager).run.run workspace).2.Ready :=
    (hbuild.ready_iff workspace).2 (hbuild.needs workspace built hresult)
  -- the outgoing summary is held only where all views are
  obtain ⟨all, -, hholds⟩ := holds_of_build hresult
  refine ⟨⟨hbuild.result workspace built hresult, fun houtgoing => ?_, by simp⟩, by rwa [h] at hready⟩
  exact (hholds _).2 ⟨((hholds _).1 houtgoing).1, by simp [storable]⟩

end

/-- A snapshot is built of valid operations exactly in ready workspaces.  In every run that starts
with it each copy has its operations and its checksum, holds the views that it was built with and
those that the replies so far were worked out from, and when it is stored and restored holds these
and nothing else.  To every question it replies as any snapshot of the same operations that was just
built with all views. -/
theorem replies_as_fresh (listed : List Operation) (flow : Flow)
    (haccept : Flow.accept (.ofList listed) = .ok flow) (eager : Option Bool)
    (workspace : Workspace) :
    ((∃ built, ((build listed eager).run.run workspace).1 = .ok built) ↔ workspace.Ready) ∧
    ∀ built start, (build listed eager).run.run workspace = (.ok built, start) →
      (∃ all : Bool, (∀ said, eager = some said → all = said) ∧
        ∀ view, built.Holds view ↔ all = true ∧ view ∈ storable) ∧
      ∀ copies later, Run built start copies later → ∀ copy ∈ copies,
        copy.snapshot.operations = .ofList listed ∧ copy.snapshot.checksum = built.checksum ∧
        (∀ view, copy.snapshot.Holds view ↔
          built.Holds view ∨ ∃ request ∈ copy.asked, view ∈ request.storedViews) ∧
        copy.snapshot.restored.presentViews =
          storable.filter (copy.snapshot.presentViews.contains ·) ∧
        ∀ request, ∃ value, (copy.snapshot.ask request later).1.1 = .ok value ∧
          ∀ again elsewhere fresh after, SortedSet.ofList again = SortedSet.ofList listed →
            (build again (some true)).run.run elsewhere = (.ok fresh, after) →
            (fresh.ask request after).1.1 = .ok value := by
  obtain ⟨-, admitted⟩ := accept_eq_ok_iff.1 haccept
  have hbuild := depends_build admitted eager
  refine ⟨⟨fun ⟨built, hbuilt⟩ => hbuild.needs workspace built hbuilt,
    hbuild.succeeds workspace⟩, fun built start hrun => ?_⟩
  have hresult : ((build listed eager).run.run workspace).1 = .ok built := by rw [hrun]
  obtain ⟨hbuilt, hstart⟩ := sound_of_build haccept hrun
  refine ⟨holds_of_build hresult, fun copies later run copy hcopy => ?_⟩
  obtain ⟨hsound, hlater⟩ := run.sound admitted hbuilt hstart
  have sound := hsound copy hcopy
  refine ⟨sound.faithful.operations_eq, ?_, sound.holds_iff, ?_, fun request => ?_⟩
  · rw [sound.faithful.checksum_eq, hbuilt.faithful.checksum_eq]
  · exact presentViews_restored copy.snapshot
  -- the operations fix the value, and the fresh snapshot has the same ones
  · obtain ⟨value, hvalue⟩ := exists_reply admitted request
    refine ⟨value, ?_, fun again elsewhere fresh after hsame hfresh => ?_⟩
    · obtain ⟨_, _, hask, -⟩ := hvalue _ _ sound.faithful hlater
      exact congrArg (fun outcome => outcome.1.1) hask
    · obtain ⟨hfaithful, hafter⟩ := sound_of_build (hsame ▸ haccept) hfresh
      obtain ⟨_, _, hask, -⟩ := hvalue _ _ (hsame ▸ hfaithful.faithful) hafter
      exact congrArg (fun outcome => outcome.1.1) hask

theorem replies_as_fresh_sample : ∃ built start copy later value,
    (build [Sample.store, Sample.people, Sample.parse, Sample.count, Sample.clean]
      (some false)).run.run (Workspace.fresh "/work" "now") = (.ok built, start) ∧
    ¬ built.Holds "outgoing_summary" ∧
    copy = (built.ask .outgoing start).1.2.restored ∧ copy.Holds "outgoing_summary" ∧
    Run built start [⟨(built.ask .outgoing start).1.2, [.outgoing]⟩, ⟨copy, [.outgoing]⟩] later ∧
    (copy.ask (.follow .incoming ⟨Sample.storeFile, Sample.text⟩) later).1.1 = .ok value := by
  have hlisted : SortedSet.ofList
      [Sample.store, Sample.people, Sample.parse, Sample.count, Sample.clean] = Sample.snapshot := by
    decide +kernel
  obtain ⟨hbuilt, hruns⟩ := replies_as_fresh _ _ (hlisted ▸ Sample.accepted) (some false)
    (Workspace.fresh "/work" "now")
  obtain ⟨built, hresult⟩ := hbuilt.2 (ready_fresh _ _)
  obtain ⟨start, hrun⟩ : ∃ start, (build _ _).run.run _ = (.ok built, start) :=
    ⟨_, Prod.ext hresult rfl⟩
  obtain ⟨⟨all, hall, hholds⟩, hcopies⟩ := hruns built start hrun
  have hnone : ¬ built.Holds "outgoing_summary" := by simp [hholds, hall false rfl]
  have hasked : Run built start [⟨(built.ask .outgoing start).1.2, [.outgoing]⟩]
      (built.ask .outgoing start).2 := @Run.ask _ _ [] [] _ _ .start .outgoing
  have hcopied := @Run.restore _ _ [] [] _ _ hasked
  obtain ⟨-, -, hview, -, hreplies⟩ :=
    hcopies _ _ hcopied _ (List.mem_cons_of_mem _ (List.mem_singleton_self _))
  obtain ⟨value, hvalue, -⟩ := hreplies (.follow .incoming ⟨Sample.storeFile, Sample.text⟩)
  refine ⟨built, start, _, _, value, hrun, hnone, rfl, ?_, hcopied, hvalue⟩
  exact (hview _).2 (.inr ⟨.outgoing, by simp, by simp [Request.storedViews]⟩)

end Snapshot

end Lineage
