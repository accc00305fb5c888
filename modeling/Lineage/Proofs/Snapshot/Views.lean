import Lineage.Proofs.Flow.Outgoing
import Lineage.Proofs.Workspace.Actions
import Lineage.Snapshot.Views

/-!
# The views of a snapshot

A snapshot is faithful to a set of operations if it has these operations and
their checksum, and each view that is there is the one that the operations have;
of the ledger it is enough that it is sound.  Reading a view of a faithful
snapshot of valid operations always succeeds, shows the same whatever was read
before, and leaves the snapshot faithful (`Shows`).
-/

namespace Lineage

open Lineage.Flow

namespace Snapshot

/-- The snapshot is one of the operations, and no view that is there is another one's. -/
structure Faithful (operations : OperationSet) (snapshot : Snapshot) : Prop where
  operations_eq : snapshot.operations = operations
  checksum_eq : snapshot.checksum = Canonical.checksum operations.toList
  flow : ∀ flow, snapshot.flow = some flow → flow = index operations
  ledger : ∀ ledger, snapshot.ledger = some ledger → (index operations).Sound ledger
  destinationFields : ∀ fields, snapshot.destinationFields = some fields →
    fields = (index operations).destinationFields
  incoming : ∀ summary, snapshot.incoming = some summary →
    (index operations).Gives (index operations).incoming (.ok summary)
  outgoing : ∀ summary, snapshot.outgoing = some summary →
    (index operations).Gives (index operations).ownOutgoing (.ok summary)

/-- A snapshot without views is faithful, also with its flow. -/
theorem faithful_ofFlow (operations : OperationSet) :
    Faithful operations (ofFlow (index operations) operations) where
  operations_eq := rfl
  checksum_eq := rfl
  flow _ h := (Option.some.inj h).symm
  ledger _ h := nomatch h
  destinationFields _ h := nomatch h
  incoming _ h := nomatch h
  outgoing _ h := nomatch h

/-- What is left out of a stored snapshot is worked out anew. -/
theorem Faithful.restored {operations : OperationSet} {snapshot : Snapshot}
    (faithful : Faithful operations snapshot) : Faithful operations snapshot.restored :=
  { faithful with
    flow := fun _ h => nomatch h
    ledger := fun _ h => nomatch h }

end Snapshot

namespace Viewing

open Snapshot

variable {α β : Type} {operations : OperationSet}

theorem run_bind (action : Viewing α) (next : α → Viewing β) (snapshot : Snapshot)
    (workspace : Workspace) :
    ((action >>= next).run.run snapshot).run workspace =
      match (action.run.run snapshot).run workspace with
      | ((.ok a, snapshot), workspace) => ((next a).run.run snapshot).run workspace
      | ((.error failure, snapshot), workspace) => ((.error failure, snapshot), workspace) := by
  show (ExceptT.bindCont next ((action.run.run snapshot).run workspace).1.1)
    ((action.run.run snapshot).run workspace).1.2 ((action.run.run snapshot).run workspace).2 = _
  rcases (action.run.run snapshot).run workspace with ⟨⟨_ | a, snapshot⟩, workspace⟩ <;> rfl

theorem run_ofAction (action : Action α) (snapshot : Snapshot) (workspace : Workspace) :
    ((ofAction action).run.run snapshot).run workspace =
      (((action.run.run workspace).1, snapshot), (action.run.run workspace).2) :=
  rfl

theorem run_lift (action : StateM Workspace α) (snapshot : Snapshot) (workspace : Workspace) :
    ((liftM action : Viewing α).run.run snapshot).run workspace =
      ((.ok (action.run workspace).1, snapshot), (action.run workspace).2) :=
  rfl

/-- From a faithful snapshot the action gives a value with a property and leaves a faithful
snapshot, and of the workspace it only adds to the journal. -/
def Shows (operations : OperationSet) (action : Viewing α) (property : α → Prop) : Prop :=
  ∀ snapshot workspace, Faithful operations snapshot → ∃ value later journal,
    (action.run.run snapshot).run workspace =
      ((.ok value, later), { workspace with journal }) ∧
    property value ∧ Faithful operations later

/-! ## One after another -/

theorem shows_pure {property : α → Prop} {value : α} (hvalue : property value) :
    Shows operations (pure value) property :=
  fun snapshot workspace faithful =>
    ⟨value, snapshot, workspace.journal, rfl, hvalue, faithful⟩

theorem Shows.bind {action : Viewing α} {next : α → Viewing β} {property : α → Prop}
    {outcome : β → Prop} (h : Shows operations action property)
    (hnext : ∀ value, property value → Shows operations (next value) outcome) :
    Shows operations (action >>= next) outcome := by
  intro snapshot workspace faithful
  obtain ⟨value, later, journal, hrun, hvalue, hlater⟩ := h snapshot workspace faithful
  obtain ⟨last, final, journal', hrun', hlast, hfinal⟩ :=
    hnext value hvalue later { workspace with journal } hlater
  refine ⟨last, final, journal', ?_, hlast, hfinal⟩
  rw [run_bind, hrun]
  exact hrun'

theorem shows_get_bind {next : Snapshot → Viewing β} {outcome : β → Prop}
    (h : ∀ snapshot, Faithful operations snapshot → Shows operations (next snapshot) outcome) :
    Shows operations (get >>= next) outcome :=
  fun snapshot workspace faithful => h snapshot faithful snapshot workspace faithful

theorem shows_modify {change : Snapshot → Snapshot}
    (h : ∀ snapshot, Faithful operations snapshot → Faithful operations (change snapshot)) :
    Shows operations (modify change : Viewing Unit) fun _ => True :=
  fun snapshot workspace faithful =>
    ⟨(), change snapshot, workspace.journal, rfl, trivial, h snapshot faithful⟩

theorem shows_ofAction {action : Action α} {property : α → Prop}
    (h : ∀ workspace : Workspace, ∃ value journal,
      action.run.run workspace = (.ok value, { workspace with journal }) ∧ property value) :
    Shows operations (ofAction action) property := by
  intro snapshot workspace faithful
  obtain ⟨value, journal, hrun, hvalue⟩ := h workspace
  exact ⟨value, snapshot, journal, by rw [run_ofAction, hrun], hvalue, faithful⟩

theorem shows_log (level : Int) (logger message : String) :
    Shows operations (liftM (Workspace.log level logger message) : Viewing Unit) fun _ => True := by
  intro snapshot workspace faithful
  obtain ⟨journal, hrun⟩ := Workspace.exists_run_log level logger message workspace
  exact ⟨(), snapshot, journal, by rw [run_lift, hrun], trivial, faithful⟩

end Viewing

/-! ## The views one by one -/

theorem Workspace.exists_run_accept {operations : OperationSet} (admitted : Admitted operations)
    (workspace : Workspace) : ∃ flow journal,
      (Workspace.accept operations).run.run workspace = (.ok flow, { workspace with journal }) ∧
        flow = index operations := by
  have haccept : Flow.accept operations = .ok (index operations) :=
    accept_eq_ok_iff.2 ⟨rfl, admitted⟩
  unfold Workspace.accept
  rw [haccept]
  obtain ⟨journal, hrun⟩ := exists_run_log_pure _ _ _ (index operations) workspace
  exact ⟨_, journal, hrun, rfl⟩

namespace Snapshot

open Viewing

variable {operations : OperationSet} (admitted : Admitted operations)
include admitted

theorem shows_viewFlow : Shows operations viewFlow fun flow => flow = index operations := by
  refine shows_get_bind fun snapshot faithful => ?_
  split
  · next flow hview => exact shows_pure (faithful.flow flow hview)
  · refine shows_get_bind fun snapshot faithful => ?_
    rw [faithful.operations_eq]
    refine (shows_ofAction (Workspace.exists_run_accept admitted)).bind fun flow hflow => ?_
    refine (shows_modify fun snapshot faithful => ?_).bind fun _ _ => shows_pure hflow
    exact { faithful with flow := fun other hother => (Option.some.inj hother).symm.trans hflow }

theorem shows_viewLedger : Shows operations viewLedger (index operations).Sound := by
  refine shows_get_bind fun snapshot faithful => ?_
  split
  · next ledger hview => exact shows_pure (faithful.ledger ledger hview)
  · refine (shows_viewFlow admitted).bind fun _ _ => ?_
    refine (shows_modify fun snapshot faithful => ?_).bind fun _ _ => shows_pure .nil
    exact { faithful with ledger := fun ledger hledger => Option.some.inj hledger ▸ .nil }

/-- What is worked out on the shared ledger is what every sound ledger gives. -/
theorem shows_traced {α : Type} (computation : Flow → Tracing α) {value : α}
    (h : (index operations).Gives (computation (index operations)) (.ok value)) :
    Shows operations (traced computation) fun shown => shown = value := by
  refine (shows_viewLedger admitted).bind fun ledger sound => ?_
  refine (shows_viewFlow admitted).bind ?_
  rintro _ rfl
  obtain ⟨hvalue, hsound⟩ := h ledger sound
  have hresult : (computation (index operations) ledger).1 = .ok value := hvalue
  refine (shows_modify fun snapshot faithful => ?_).bind fun _ _ => ?_
  · exact { faithful with ledger := fun later hlater => Option.some.inj hlater ▸ hsound }
  · rw [hresult]
    exact shows_pure rfl

theorem shows_viewDestinationFields : Shows operations viewDestinationFields
    fun fields => fields = (index operations).destinationFields := by
  refine shows_get_bind fun snapshot faithful => ?_
  split
  · next fields hview => exact shows_pure (faithful.destinationFields fields hview)
  · refine (shows_traced admitted (fun flow => return flow.destinationFields) (gives_pure _)).bind
      fun fields hfields => ?_
    refine (shows_modify fun snapshot faithful => ?_).bind fun _ _ => shows_pure hfields
    exact { faithful with
      destinationFields := fun other hother => (Option.some.inj hother).symm.trans hfields }

theorem shows_viewIncoming : Shows operations viewIncoming fun summary =>
    (index operations).Gives (index operations).incoming (.ok summary) := by
  obtain ⟨summary, hgives, -⟩ := admitted.gives_incoming
  refine shows_get_bind fun snapshot faithful => ?_
  split
  · next kept hview => exact shows_pure (faithful.incoming kept hview)
  · refine (shows_traced admitted Flow.incoming hgives).bind ?_
    rintro _ rfl
    refine (shows_log _ _ _).bind fun _ _ => ?_
    refine (shows_modify fun snapshot faithful => ?_).bind fun _ _ => shows_pure hgives
    exact { faithful with incoming := fun other hother => Option.some.inj hother ▸ hgives }

theorem shows_viewOutgoing : Shows operations viewOutgoing fun summary =>
    (index operations).Gives (index operations).ownOutgoing (.ok summary) := by
  refine shows_get_bind fun snapshot faithful => ?_
  split
  · next kept hview => exact shows_pure (faithful.outgoing kept hview)
  · refine (shows_viewLedger admitted).bind fun _ _ => ?_
    refine (shows_viewIncoming admitted).bind fun incoming hincoming => ?_
    obtain ⟨summary, hgives, -⟩ := admitted.gives_outgoing incoming
    have hown : (index operations).Gives (index operations).ownOutgoing (.ok summary) :=
      hincoming.bind hgives
    refine (shows_traced admitted (fun flow => flow.outgoing incoming) hgives).bind ?_
    rintro _ rfl
    refine (shows_modify fun snapshot faithful => ?_).bind fun _ _ => shows_pure hown
    exact { faithful with outgoing := fun other hother => Option.some.inj hother ▸ hown }

end Snapshot

end Lineage
