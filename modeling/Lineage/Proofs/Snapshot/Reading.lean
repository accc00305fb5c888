import Lineage.Proofs.Snapshot.Views
import Lineage.Proofs.Workspace.Building
import Lineage.Workspace.Session

/-!
# What reading views is made of

Views are worked out from the flow of a snapshot and from other views, and are kept
in the snapshot; besides, some messages are logged.  So whatever holds of reading
the flow, of a message and of a change that leaves the operations and the flow
alone, and of several of these in a row, holds of reading any view (`Reading`).

What a view is, and what becomes of the snapshot, does not hang on the workspace,
which gets nothing from it but messages (`Steady`).  This holds if the flow is
there, and also if it has to be built once more, as it has after the snapshot was
restored: the operations are then accepted a second time, and a refusal would be an
event on the span, but the operations of a snapshot are admitted.
-/

namespace Lineage

open Lineage.Flow

namespace Viewing

open Snapshot

variable {α β : Type}

/-- The change leaves the operations of a snapshot, and its flow if it is there. -/
structure Keeps (change : Snapshot → Snapshot) : Prop where
  operations : ∀ snapshot, (change snapshot).operations = snapshot.operations
  flow : ∀ snapshot, (change snapshot).flow = snapshot.flow

/-- The action reads the flow, keeps what it works out, and logs messages, and it does nothing
else. -/
inductive Reading : ∀ {α : Type}, Viewing α → Prop
  | pure {α : Type} (value : α) : Reading (pure value)
  | throw {α : Type} (failure : Failure) : Reading (throw failure : Viewing α)
  | bind {α β : Type} {action : Viewing α} {next : α → Viewing β} (first : Reading action)
      (rest : ∀ value, Reading (next value)) : Reading (action >>= next)
  | get : Reading (get : Viewing Snapshot)
  | modify {change : Snapshot → Snapshot} (keeps : Keeps change) :
      Reading (modify change : Viewing Unit)
  | log (level : Int) (logger message : String) :
      Reading (liftM (Workspace.log level logger message) : Viewing Unit)
  | flow : Reading viewFlow

end Viewing

namespace Snapshot

open Viewing

theorem reading_viewLedger : Reading viewLedger := by
  refine Reading.get.bind fun snapshot => ?_
  split
  · exact .pure _
  · exact Reading.flow.bind fun _ => (Reading.modify ⟨by simp, by simp⟩).bind fun _ => .pure _

theorem reading_traced {α : Type} (computation : Flow → Tracing α) :
    Reading (traced computation) := by
  refine reading_viewLedger.bind fun ledger => Reading.flow.bind fun flow => ?_
  refine (Reading.modify ⟨by simp, by simp⟩).bind fun _ => ?_
  split
  · exact .pure _
  · exact .throw _

theorem reading_viewDestinationFields : Reading viewDestinationFields := by
  refine Reading.get.bind fun snapshot => ?_
  split
  · exact .pure _
  · refine (reading_traced _).bind fun _ => ?_
    exact (Reading.modify ⟨by simp, by simp⟩).bind fun _ => .pure _

theorem reading_viewIncoming : Reading viewIncoming := by
  refine Reading.get.bind fun snapshot => ?_
  split
  · exact .pure _
  · refine (reading_traced _).bind fun _ => (Reading.log _ _ _).bind fun _ => ?_
    exact (Reading.modify ⟨by simp, by simp⟩).bind fun _ => .pure _

theorem reading_viewOutgoing : Reading viewOutgoing := by
  refine Reading.get.bind fun snapshot => ?_
  split
  · exact .pure _
  · refine reading_viewLedger.bind fun _ => reading_viewIncoming.bind fun _ => ?_
    refine (reading_traced _).bind fun _ => ?_
    exact (Reading.modify ⟨by simp, by simp⟩).bind fun _ => .pure _

theorem reading_viewAll : Reading viewAll :=
  reading_viewDestinationFields.bind fun _ => reading_viewIncoming.bind fun _ =>
    reading_viewOutgoing.bind fun _ => .pure _

/-- What a snapshot replies is read from its views, unless a field is followed. -/
theorem reading_reply {request : Request} (h : ∀ direction field, request ≠ .follow direction field) :
    Reading (reply request) := by
  cases request with
  | destinationFields => exact reading_viewDestinationFields.bind fun _ => .pure _
  | incoming => exact reading_viewIncoming.bind fun _ => .pure _
  | outgoing => exact reading_viewOutgoing.bind fun _ => .pure _
  | droppedFields => exact Reading.flow.bind fun _ => .pure _
  | sources => exact Reading.flow.bind fun _ => .pure _
  | destinations => exact Reading.flow.bind fun _ => .pure _
  | follow direction field => exact absurd rfl (h direction field)

end Snapshot

/-! ## Whatever the workspace -/

namespace Workspace

/-- A message is no event. -/
theorem events_log (level : Int) (logger message : String) (workspace : Workspace) :
    ((log level logger message).run workspace).2.events = workspace.events := by
  simp only [log, StateT.run_bind, StateT.run_get]
  show (StateT.run (ite _ _ _ : StateM Workspace Unit) workspace).2.events = _
  split
  · split
    · rfl
    · rfl
  · rfl

theorem events_accept {operations : OperationSet} (admitted : Admitted operations)
    (workspace : Workspace) :
    ((accept operations).run.run workspace).2.events = workspace.events := by
  unfold accept
  rw [accept_eq_ok_iff.2 ⟨rfl, admitted⟩]
  exact events_log _ _ _ _

end Workspace

namespace Viewing

open Snapshot

variable {α β : Type} {property : Snapshot → Prop}

/-- From a snapshot with the property the action gives the same in all workspaces and leaves the
same snapshot, which has the property again, and it adds messages to the journal and nothing
else. -/
def Steady (property : Snapshot → Prop) (action : Viewing α) : Prop :=
  ∀ snapshot, property snapshot → ∃ outcome later, property later ∧ ∀ workspace, ∃ journal,
    (action.run.run snapshot).run workspace = ((outcome, later), { workspace with journal }) ∧
    { workspace with journal }.events = workspace.events

theorem steady_pure (value : α) : Steady property (pure value) :=
  fun snapshot h => ⟨.ok value, snapshot, h, fun workspace => ⟨workspace.journal, rfl, rfl⟩⟩

theorem steady_throw (failure : Failure) : Steady property (throw failure : Viewing α) :=
  fun snapshot h => ⟨.error failure, snapshot, h, fun workspace => ⟨workspace.journal, rfl, rfl⟩⟩

theorem Steady.bind {action : Viewing α} {next : α → Viewing β} (h : Steady property action)
    (hnext : ∀ value, Steady property (next value)) : Steady property (action >>= next) := by
  intro snapshot hsnapshot
  obtain ⟨outcome, between, hbetween, hrun⟩ := h snapshot hsnapshot
  cases outcome with
  | error failure =>
      refine ⟨.error failure, between, hbetween, fun workspace => ?_⟩
      obtain ⟨journal, hfirst, hevents⟩ := hrun workspace
      exact ⟨journal, by rw [run_bind, hfirst], hevents⟩
  | ok value =>
      obtain ⟨last, later, hlater, hthen⟩ := hnext value between hbetween
      refine ⟨last, later, hlater, fun workspace => ?_⟩
      obtain ⟨journal, hfirst, hevents⟩ := hrun workspace
      obtain ⟨journal', hsecond, hmore⟩ := hthen { workspace with journal }
      exact ⟨journal', by rw [run_bind, hfirst]; exact hsecond, hmore.trans hevents⟩

theorem steady_get : Steady property (get : Viewing Snapshot) :=
  fun snapshot h => ⟨.ok snapshot, snapshot, h, fun workspace => ⟨workspace.journal, rfl, rfl⟩⟩

theorem steady_modify {change : Snapshot → Snapshot}
    (h : ∀ snapshot, property snapshot → property (change snapshot)) :
    Steady property (modify change : Viewing Unit) :=
  fun snapshot hsnapshot => ⟨.ok (), change snapshot, h snapshot hsnapshot, fun workspace =>
    ⟨workspace.journal, rfl, rfl⟩⟩

theorem steady_log (level : Int) (logger message : String) :
    Steady property (liftM (Workspace.log level logger message) : Viewing Unit) := by
  refine fun snapshot h => ⟨.ok (), snapshot, h, fun workspace => ?_⟩
  obtain ⟨journal, hrun⟩ := Workspace.exists_run_log level logger message workspace
  have hevents := Workspace.events_log level logger message workspace
  rw [hrun] at hevents
  exact ⟨journal, by rw [run_lift, hrun], hevents⟩

/-- Reading views is steady if reading the flow is, and if the property is one of the operations and
the flow. -/
theorem Reading.steady {action : Viewing α} (reading : Reading action)
    (hflow : Steady property viewFlow)
    (hkeeps : ∀ change snapshot, Keeps change → property snapshot → property (change snapshot)) :
    Steady property action := by
  induction reading with
  | pure value => exact steady_pure value
  | throw failure => exact steady_throw failure
  | bind _ _ ih ihrest => exact ih.bind ihrest
  | get => exact steady_get
  | modify keeps => exact steady_modify fun snapshot => hkeeps _ snapshot keeps
  | log level logger message => exact steady_log level logger message
  | flow => exact hflow

/-- Once the flow of a snapshot is there it is read. -/
theorem Reading.steady_of_flow {action : Viewing α} (reading : Reading action) :
    Steady (·.flow.isSome) action := by
  refine reading.steady ?_ fun _ snapshot keeps h => (keeps.flow snapshot).symm ▸ h
  rintro ⟨operations, checksum, _ | flow, ledger, fields, incoming, outgoing⟩ hflow
  · cases hflow
  · exact ⟨.ok flow, _, hflow, fun workspace => ⟨workspace.journal, rfl, rfl⟩⟩

theorem steady_accept {operations : OperationSet} (admitted : Admitted operations) :
    Steady property (ofAction (Workspace.accept operations)) := by
  refine fun snapshot h => ⟨.ok (index operations), snapshot, h, fun workspace => ?_⟩
  obtain ⟨_, journal, hrun, rfl⟩ := Workspace.exists_run_accept admitted workspace
  have hevents := Workspace.events_accept admitted workspace
  rw [hrun] at hevents
  exact ⟨journal, by rw [run_ofAction, hrun], hevents⟩

/-- If the flow is not there, the operations are accepted once more. -/
theorem steady_viewFlow : Steady (fun snapshot => Admitted snapshot.operations) viewFlow := by
  rintro ⟨operations, checksum, _ | flow, ledger, fields, incoming, outgoing⟩ admitted
  · have hkeep (flow : Flow) : Steady (fun snapshot => Admitted snapshot.operations) (do
        modify fun snapshot => { snapshot with flow := some flow }
        return flow) := by
      refine (steady_modify fun _ hadmitted => ?_).bind fun _ => steady_pure flow
      exact hadmitted
    exact (steady_accept admitted).bind hkeep
      ⟨operations, checksum, none, ledger, fields, incoming, outgoing⟩ admitted
  · exact ⟨.ok flow, _, admitted, fun workspace => ⟨workspace.journal, rfl, rfl⟩⟩

/-- Views of admitted operations are read, whether the flow is there or not. -/
theorem Reading.steady_of_admitted {action : Viewing α} (reading : Reading action) :
    Steady (fun snapshot => Admitted snapshot.operations) action :=
  reading.steady steady_viewFlow fun _ snapshot keeps h => (keeps.operations snapshot).symm ▸ h

end Viewing

end Lineage
