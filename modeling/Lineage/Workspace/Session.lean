import Lineage.Snapshot.Request
import Lineage.Workspace.Documents

/-!
# Sessions

What is done with snapshots in a workspace, one task after another: a snapshot is
built of operations or taken from a document, asked something, or stored and
restored as one more snapshot; and operations are sorted.  Snapshots are counted in
the order in which they came up.  A task may fail; the next one starts from what it
leaves.

Some tasks put events on the current span of the workspace, where they stand in the
order in which they were put.
-/

namespace Lineage

/-! ## Events -/

structure Event where
  name : String
  attributes : List (String × Value)

/-- The event that a report is, if it is one. -/
def Report.event? : Report → Option Event
  | event name attributes => some ⟨name, attributes⟩
  | record _ | line _ => none

/-- The events on the current span, in the order in which they were put there. -/
def Workspace.events (workspace : Workspace) : List Event :=
  (workspace.journal.filterMap Report.event?).reverse

/-! ## Tasks -/

inductive Task where
  | build (listed : List Operation) (eager : Option Bool)
  | openDocument (document : Document) (eager : Option Bool)
  | ask (place : Nat) (request : Request)
  | restore (place : Nat)
  | sort (listed : List Operation)

/-- What comes of a task. -/
inductive Outcome where
  | snapshot (result : Except Failure Snapshot)
  | reply (result : Except Failure Reply)
  | restored
  | sorted (result : Except Failure (List Operation))
  /-- There is no snapshot to ask or to restore. -/
  | absent

/-- The snapshots in use, and the workspace they are used in. -/
structure Session where
  snapshots : List Snapshot
  workspace : Workspace

namespace Session

/-- What comes of a task, and the session that it leaves. -/
def perform (session : Session) : Task → Outcome × Session
  | .build listed eager =>
    let (result, workspace) := (Workspace.build listed eager).run.run session.workspace
    (.snapshot result, ⟨session.snapshots ++ result.toOption.toList, workspace⟩)
  | .openDocument document eager =>
    let (result, workspace) := (Workspace.snapshotOf document eager).run.run session.workspace
    (.snapshot result, ⟨session.snapshots ++ result.toOption.toList, workspace⟩)
  | .ask place request =>
    match session.snapshots[place]? with
    | none => (.absent, session)
    | some snapshot =>
      let ((result, later), workspace) := snapshot.ask request session.workspace
      (.reply result, ⟨session.snapshots.set place later, workspace⟩)
  | .restore place =>
    match session.snapshots[place]? with
    | none => (.absent, session)
    | some snapshot =>
      (.restored, { session with snapshots := session.snapshots ++ [snapshot.restored] })
  | .sort listed =>
    let (result, workspace) := (Workspace.sort listed).run.run session.workspace
    (.sorted result, { session with workspace })

/-- What comes of some tasks, one after another, and the session that they leave. -/
def performAll (session : Session) : List Task → List Outcome × Session
  | [] => ([], session)
  | task :: tasks =>
    let (outcome, later) := session.perform task
    let (outcomes, last) := later.performAll tasks
    (outcome :: outcomes, last)

end Session

end Lineage
