import Lineage.Proofs.Workspace.Emissions

/-!
# What sessions put on the span

Each task of a session puts certain events on the span, which are fixed by what
comes of the task (`Told`): a snapshot that is built one event, one that is refused
one, a document with a wrong checksum two, a sort one, a query one, and reading a
view or storing and restoring a snapshot none.  In a whole session they stand one
after another, and there is nothing else (`events_performAll`).

Neither what comes of the tasks nor the events hang on whether there is anybody to
see them.  This is why a step is described without a workspace (`Performs`): what
comes of a task, the snapshots afterwards and the events are the same in all
workspaces whose configuration says the same about when views are worked out.  Along
a session each snapshot is one of admitted operations, so that it can be read without
the operations being refused again (`Genuine`).
-/

namespace Lineage

open Lineage.Flow Snapshot Workspace

/-- The snapshot is one of operations that are admitted. -/
def Snapshot.Genuine (snapshot : Snapshot) : Prop :=
  ∃ operations, Admitted operations ∧ Faithful operations snapshot

theorem Snapshot.Genuine.restored {snapshot : Snapshot} (h : snapshot.Genuine) :
    snapshot.restored.Genuine := by
  obtain ⟨operations, admitted, faithful⟩ := h
  exact ⟨operations, admitted, faithful.restored⟩

namespace Session

/-- The events that a task puts on the span, by what comes of it. -/
inductive Told : Task → Outcome → List Event → Prop
  | built {listed : List Operation} {eager : Option Bool} {snapshot : Snapshot} :
      Told (.build listed eager) (.snapshot (.ok snapshot)) [.built listed snapshot.checksum]
  | refused {listed : List Operation} {eager : Option Bool} {fault : Fault}
      (refuses : Flow.accept (.ofList listed) = .error fault) :
      Told (.build listed eager) (.snapshot (.error (.fault fault))) [.refused fault]
  /-- The document has no other checksum than the snapshot. -/
  | opened {document : Document} {eager : Option Bool} {snapshot : Snapshot}
      (agrees : ∀ stored, document.checksum = some stored → stored = snapshot.checksum) :
      Told (.openDocument document eager) (.snapshot (.ok snapshot))
        [.built document.operations snapshot.checksum]
  /-- The operations of the document are refused. -/
  | unopened {document : Document} {eager : Option Bool} {fault : Fault}
      (refuses : Flow.accept (.ofList document.operations) = .error fault) :
      Told (.openDocument document eager) (.snapshot (.error (.fault fault))) [.refused fault]
  /-- The document has another checksum than its operations. -/
  | mismatched {document : Document} {eager : Option Bool} {stored computed : Int}
      (computes : computed =
        Canonical.checksum (SortedSet.ofList document.operations : OperationSet).toList)
      (stores : document.checksum = some stored) (differs : stored ≠ computed) :
      Told (.openDocument document eager)
        (.snapshot (.error (.fault (.checksumMismatch stored computed))))
        [.built document.operations computed, .refused (.checksumMismatch stored computed)]
  | viewed {place : Nat} {request : Request} {reply : Reply}
      (views : ∀ direction field, request ≠ .follow direction field) :
      Told (.ask place request) (.reply (.ok reply)) []
  | found {place : Nat} {direction : Direction} {field : EndpointField} {found : OperationSet}
      {names : List String} (lists : names.Perm (found.toList.map (·.name.text)))
      (sorted : names.Pairwise (· ≤ ·)) :
      Told (.ask place (.follow direction field)) (.reply (.ok (.operations found)))
        [.found direction field names]
  | unasked {place : Nat} {request : Request} : Told (.ask place request) .absent []
  | restored {place : Nat} : Told (.restore place) .restored []
  | unrestored {place : Nat} : Told (.restore place) .absent []
  | ordered {listed sorted : List Operation} :
      Told (.sort listed) (.sorted (.ok sorted)) [.ordered sorted]
  | cycle {listed : List Operation} {residual : Residual} :
      Told (.sort listed) (.sorted (.error (.fault (.cycle residual)))) [.cycle residual]

/-- The events that tasks put on the span one after another. -/
inductive ToldAll : List Task → List Outcome → List Event → Prop
  | nil : ToldAll [] [] []
  | cons {task : Task} {tasks : List Task} {outcome : Outcome} {outcomes : List Outcome}
      {events more : List Event} (first : Told task outcome events)
      (rest : ToldAll tasks outcomes more) :
      ToldAll (task :: tasks) (outcome :: outcomes) (events ++ more)

/-! ## One task -/

variable {all : Bool} {snapshots later : List Snapshot} {task : Task} {outcome : Outcome}
  {told : List Event}

/-- With these snapshots the task has such an outcome, leaves these later snapshots and puts these
events on the span, in all workspaces whose configuration says this about working out all views. -/
def Performs (all : Bool) (snapshots : List Snapshot) (task : Task) (outcome : Outcome)
    (later : List Snapshot) (told : List Event) : Prop :=
  ∀ settings : Settings, settings.computeSummaries = all → ∀ workspace : Workspace,
    workspace.configuration? = some settings → ∃ after,
      perform ⟨snapshots, workspace⟩ task = (outcome, ⟨later, after⟩) ∧
        Follows settings workspace told after

/-- A task that is an action of the workspace performs what the action emits. -/
theorem performs_of_emits {α : Type} {action : Action α} {result : Except Failure α}
    (outcome : Except Failure α → Outcome) (later : Except Failure α → List Snapshot)
    (hperform : ∀ workspace, perform ⟨snapshots, workspace⟩ task =
      (outcome (action.run.run workspace).1,
        ⟨later (action.run.run workspace).1, (action.run.run workspace).2⟩))
    (h : ∀ settings : Settings, settings.computeSummaries = all →
      Emits settings action result told) :
    Performs all snapshots task (outcome result) (later result) told := by
  intro settings hall workspace hconfiguration
  obtain ⟨rfl, hfollows⟩ := h settings hall workspace hconfiguration
  exact ⟨_, hperform workspace, hfollows⟩

theorem performs_build (snapshots : List Snapshot) {listed : List Operation} {eager : Option Bool}
    {result : Except Failure Snapshot} (h : ∀ settings : Settings, settings.computeSummaries = all →
      Emits settings (build listed eager) result told) :
    Performs all snapshots (.build listed eager) (.snapshot result)
      (snapshots ++ result.toOption.toList) told :=
  performs_of_emits Outcome.snapshot (snapshots ++ ·.toOption.toList) (fun _ => rfl) h

theorem performs_open (snapshots : List Snapshot) {document : Document} {eager : Option Bool}
    {result : Except Failure Snapshot} (h : ∀ settings : Settings, settings.computeSummaries = all →
      Emits settings (snapshotOf document eager) result told) :
    Performs all snapshots (.openDocument document eager) (.snapshot result)
      (snapshots ++ result.toOption.toList) told :=
  performs_of_emits Outcome.snapshot (snapshots ++ ·.toOption.toList) (fun _ => rfl) h

theorem performs_sort (all : Bool) (snapshots : List Snapshot) {listed : List Operation}
    {result : Except Failure (List Operation)}
    (h : ∀ settings, Emits settings (Workspace.sort listed) result told) :
    Performs all snapshots (.sort listed) (.sorted result) snapshots told :=
  performs_of_emits Outcome.sorted (fun _ => snapshots) (fun _ => rfl) fun settings _ => h settings

/-- What comes of a task with snapshots of admitted operations: it is told, and such snapshots are
left. -/
def Proceeds (all : Bool) (snapshots : List Snapshot) (task : Task) : Prop :=
  ∃ outcome later told, Told task outcome told ∧ (∀ snapshot ∈ later, snapshot.Genuine) ∧
    Performs all snapshots task outcome later told

section

variable (genuine : ∀ snapshot ∈ snapshots, snapshot.Genuine)
include genuine

theorem genuine_append_of_ok {operations : OperationSet} (admitted : Admitted operations)
    {snapshot : Snapshot} (faithful : Faithful operations snapshot) :
    ∀ other ∈ snapshots ++ (Except.ok snapshot : Except Failure Snapshot).toOption.toList,
      other.Genuine := by
  intro other hother
  rw [List.mem_append] at hother
  rcases hother with hold | hnew
  · exact genuine other hold
  · obtain rfl : other = snapshot := by simpa [Except.toOption] using hnew
    exact ⟨operations, admitted, faithful⟩

theorem genuine_append_of_error (failure : Failure) :
    ∀ other ∈ snapshots ++ (Except.error failure : Except Failure Snapshot).toOption.toList,
      other.Genuine := by
  simpa [Except.toOption] using genuine

theorem proceeds_build (listed : List Operation) (eager : Option Bool) :
    Proceeds all snapshots (.build listed eager) := by
  cases haccept : Flow.accept (.ofList listed) with
  | error fault =>
      exact ⟨_, _, _, .refused haccept, genuine_append_of_error genuine _,
        performs_build _ fun _ _ => emits_build_error haccept eager⟩
  | ok flow =>
      obtain ⟨-, admitted⟩ := accept_eq_ok_iff.1 haccept
      obtain ⟨snapshot, faithful, hbuild⟩ := exists_emits_build admitted eager all
      exact ⟨_, _, _, .built, genuine_append_of_ok genuine admitted faithful, performs_build _ hbuild⟩

theorem proceeds_open (document : Document) (eager : Option Bool) :
    Proceeds all snapshots (.openDocument document eager) := by
  cases haccept : Flow.accept (.ofList document.operations) with
  | error fault =>
      exact ⟨_, _, _, .unopened haccept, genuine_append_of_error genuine _,
        performs_open _ fun _ _ => emits_snapshotOf_error (emits_build_error haccept eager)⟩
  | ok flow =>
      obtain ⟨-, admitted⟩ := accept_eq_ok_iff.1 haccept
      obtain ⟨snapshot, faithful, hbuild⟩ := exists_emits_build admitted eager all
      by_cases hchecksum : ∀ stored, document.checksum = some stored → stored = snapshot.checksum
      · exact ⟨_, _, _, .opened hchecksum, genuine_append_of_ok genuine admitted faithful,
          performs_open _ fun settings hall => emits_snapshotOf_ok (hbuild settings hall) hchecksum⟩
      · push Not at hchecksum
        obtain ⟨stored, hstored, hdiffers⟩ := hchecksum
        exact ⟨_, _, _, .mismatched faithful.checksum_eq hstored hdiffers,
          genuine_append_of_error genuine _, performs_open _ fun settings hall =>
            emits_snapshotOf_mismatch (hbuild settings hall) hstored hdiffers⟩

theorem proceeds_sort (listed : List Operation) : Proceeds all snapshots (.sort listed) := by
  obtain ⟨last, -, hsort⟩ := Order.sort_eq listed
  split_ifs at hsort
  · exact ⟨_, _, _, .ordered, genuine, performs_sort _ _ fun _ => emits_sort_ok hsort⟩
  · exact ⟨_, _, _, .cycle, genuine, performs_sort _ _ fun _ => emits_sort_cycle hsort⟩

theorem proceeds_restore (place : Nat) : Proceeds all snapshots (.restore place) := by
  cases hplace : snapshots[place]? with
  | none =>
      refine ⟨.absent, snapshots, [], .unrestored, genuine, fun settings _ workspace h => ?_⟩
      exact ⟨workspace, by simp only [perform, hplace], .refl h⟩
  | some snapshot =>
      refine ⟨.restored, snapshots ++ [snapshot.restored], [], .restored, ?_,
        fun settings _ workspace h => ⟨workspace, by simp only [perform, hplace], .refl h⟩⟩
      have hgenuine := genuine snapshot (List.mem_of_getElem? hplace)
      rintro other hother
      rw [List.mem_append, List.mem_singleton] at hother
      rcases hother with hold | rfl
      · exact genuine other hold
      · exact hgenuine.restored

/-- A snapshot of admitted operations that is asked something replies, and stays one. -/
theorem proceeds_ask (place : Nat) (request : Request) :
    Proceeds all snapshots (.ask place request) := by
  cases hplace : snapshots[place]? with
  | none =>
      refine ⟨.absent, snapshots, [], .unasked, genuine, fun settings _ workspace h => ?_⟩
      exact ⟨workspace, by simp only [perform, hplace], .refl h⟩
  | some snapshot =>
      obtain ⟨operations, admitted, faithful⟩ := genuine snapshot (List.mem_of_getElem? hplace)
      -- the other snapshots stay as they are
      have hset {later : Snapshot} (hlater : Faithful operations later) :
          ∀ other ∈ snapshots.set place later, other.Genuine := by
        intro other hother
        rcases List.mem_or_eq_of_mem_set hother with hold | rfl
        · exact genuine other hold
        · exact ⟨operations, admitted, hlater⟩
      -- only following a field tells an event
      by_cases hviews : ∀ direction field, request ≠ .follow direction field
      · obtain ⟨shown, later, hlater, hask⟩ := exists_ask_view admitted faithful request hviews
        refine ⟨.reply (.ok shown), _, _, .viewed hviews, hset hlater, fun settings _ workspace h => ?_⟩
        obtain ⟨after, hrun, hfollows⟩ := hask settings workspace h
        exact ⟨after, by simp only [perform, hplace, hrun], hfollows⟩
      · push Not at hviews
        obtain ⟨direction, field, rfl⟩ := hviews
        obtain ⟨found, names, later, hnames, hsorted, hlater, hask⟩ :=
          exists_ask_follow admitted faithful direction field
        refine ⟨_, _, _, .found hnames hsorted, hset hlater, fun settings _ workspace h => ?_⟩
        obtain ⟨after, hrun, hfollows⟩ := hask settings workspace h
        exact ⟨after, by simp only [perform, hplace, hrun], hfollows⟩

theorem proceeds (all : Bool) (task : Task) : Proceeds all snapshots task := by
  cases task with
  | build listed eager => exact proceeds_build genuine listed eager
  | openDocument document eager => exact proceeds_open genuine document eager
  | ask place request => exact proceeds_ask genuine place request
  | restore place => exact proceeds_restore genuine place
  | sort listed => exact proceeds_sort genuine listed

end

/-! ## All tasks -/

/-- What comes of all tasks is told, and is the same in all workspaces whose configuration says this
about working out all views. -/
theorem exists_performAll (all : Bool) (tasks : List Task) (snapshots : List Snapshot)
    (genuine : ∀ snapshot ∈ snapshots, snapshot.Genuine) :
    ∃ outcomes told, ToldAll tasks outcomes told ∧
      ∀ settings : Settings, settings.computeSummaries = all → ∀ workspace : Workspace,
        workspace.configuration? = some settings → ∃ last,
          performAll ⟨snapshots, workspace⟩ tasks = (outcomes, last) ∧
            Follows settings workspace told last.workspace := by
  induction tasks generalizing snapshots with
  | nil => exact ⟨[], [], .nil, fun settings _ workspace h => ⟨⟨snapshots, workspace⟩, rfl, .refl h⟩⟩
  | cons task tasks ih =>
      obtain ⟨outcome, later, events, htold, hlater, hperforms⟩ := proceeds genuine all task
      obtain ⟨outcomes, more, hmore, hrest⟩ := ih later hlater
      refine ⟨_, _, .cons htold hmore, fun settings hall workspace h => ?_⟩
      obtain ⟨after, hfirst, hfollows⟩ := hperforms settings hall workspace h
      obtain ⟨last, hlast, hthen⟩ := hrest settings hall after hfollows.configuration
      exact ⟨last, by simp only [performAll, hfirst, hlast], hfollows.trans hthen⟩

/-- With a configuration that wants events and a span that records, a session puts exactly the
events on the span that its tasks tell, one after another; otherwise it puts none there.  What comes
of the tasks is the same in every workspace whose configuration says the same about working out all
views, whether events are wanted, are recorded, or not. -/
theorem events_performAll {settings : Settings} {start : Workspace}
    (configured : start.configuration? = some settings) (tasks : List Task) :
    (∃ told, ToldAll tasks (performAll ⟨[], start⟩ tasks).1 told ∧
      (performAll ⟨[], start⟩ tasks).2.workspace.events =
        start.events ++ if settings.emitSpanEvents && start.recording then told else []) ∧
    ∀ (others : Settings) (other : Workspace), other.configuration? = some others →
      others.computeSummaries = settings.computeSummaries →
        (performAll ⟨[], other⟩ tasks).1 = (performAll ⟨[], start⟩ tasks).1 := by
  obtain ⟨outcomes, told, htold, hruns⟩ :=
    exists_performAll settings.computeSummaries tasks [] nofun
  obtain ⟨last, hrun, hfollows⟩ := hruns settings rfl start configured
  rw [hrun]
  refine ⟨⟨told, htold, hfollows.events⟩, fun others other hother hall => ?_⟩
  obtain ⟨_, hsame, -⟩ := hruns others hall other hother
  rw [hsame]

namespace Sample

open Flow.Sample

def listed : List Operation := [store, people, parse, count, clean]

/-- A snapshot is stored, and what was restored is read; operations are refused, and some sorted. -/
def tasks : List Task :=
  [.build listed (some true), .restore 0, .ask 1 .sources, .build [] none, .sort [people]]

def unrecorded : Workspace := { fresh "/work" "now" with recording := false }

theorem exists_performAll_tasks : ∃ (snapshot : Snapshot) (shown : Reply),
    (performAll ⟨[], fresh "/work" "now"⟩ tasks).1 =
      [.snapshot (.ok snapshot), .restored, .reply (.ok shown), .snapshot (.error (.fault .noReads)),
        .sorted (.ok [people])] := by
  have hconfiguration : (fresh "/work" "now").configuration? = some Settings.default :=
    configuration?_fresh _ _
  have hlisted : SortedSet.ofList listed = Flow.Sample.snapshot := by decide +kernel
  have admitted : Admitted (.ofList listed) := hlisted ▸ Flow.Sample.admitted
  have hnone : Flow.accept (.ofList []) = .error .noReads := rfl
  have hplaced : Order.place [people] = (people :: (Order.place []).1, (Order.place []).2) :=
    Order.place_of_find? (by decide +kernel)
  rw [Order.place_nil] at hplaced
  have hsorted : Order.sort [people] = .ok [people] := Order.sort_of_place hplaced
  obtain ⟨snapshot, faithful, hbuild⟩ :=
    exists_emits_build admitted (some true) Settings.default.computeSummaries
  obtain ⟨shown, later, -, hask⟩ :=
    exists_ask_view admitted faithful.restored .sources (by simp)
  -- the five tasks, each from the workspace that the one before left
  obtain ⟨first, hbuilt, hfirst⟩ := performs_build [] hbuild _ rfl _ hconfiguration
  have hbuilt : perform ⟨[], fresh "/work" "now"⟩ (.build listed (some true)) =
      (.snapshot (.ok snapshot), ⟨[snapshot], first⟩) := hbuilt
  have hrestored : perform ⟨[snapshot], first⟩ (.restore 0) =
      (.restored, ⟨[snapshot, snapshot.restored], first⟩) := rfl
  obtain ⟨second, hasked, hsecond⟩ := hask _ _ hfirst.configuration
  have hread : perform ⟨[snapshot, snapshot.restored], first⟩ (.ask 1 .sources) =
      (.reply (.ok shown), ⟨[snapshot, later], second⟩) := by
    have hplace : [snapshot, snapshot.restored][1]? = some snapshot.restored := rfl
    simp only [perform, hplace, hasked]
    rfl
  obtain ⟨third, hrefused, hthird⟩ := performs_build [snapshot, later]
    (fun _ _ => emits_build_error hnone none) _ rfl _ hsecond.configuration
  have hrefused : perform ⟨[snapshot, later], second⟩ (.build [] none) =
      (.snapshot (.error (.fault .noReads)), ⟨[snapshot, later], third⟩) := hrefused
  obtain ⟨_, hordered, -⟩ := performs_sort Settings.default.computeSummaries
    [snapshot, later] (fun _ => emits_sort_ok hsorted) _ rfl _ hthird.configuration
  refine ⟨snapshot, shown, ?_⟩
  simp only [tasks, performAll, hbuilt, hrestored, hread, hrefused, hordered]

end Sample

theorem events_performAll_sample :
    (fresh "/work" "now").configuration? = some Settings.default ∧
    (∃ snapshot : Snapshot,
      (performAll ⟨[], fresh "/work" "now"⟩ Sample.tasks).2.workspace.events =
        [.built Sample.listed snapshot.checksum, .refused .noReads,
          .ordered [Flow.Sample.people]]) ∧
    (performAll ⟨[], Sample.unrecorded⟩ Sample.tasks).2.workspace.events = [] ∧
    (performAll ⟨[], Sample.unrecorded⟩ Sample.tasks).1 =
      (performAll ⟨[], fresh "/work" "now"⟩ Sample.tasks).1 := by
  have hconfiguration := configuration?_fresh "/work" "now"
  have hunrecorded : Sample.unrecorded.configuration? = some Settings.default := hconfiguration
  obtain ⟨snapshot, shown, houtcomes⟩ := Sample.exists_performAll_tasks
  obtain ⟨⟨told, htold, hevents⟩, hsame⟩ := events_performAll hconfiguration Sample.tasks
  obtain ⟨⟨_, -, hnone⟩, -⟩ := events_performAll hunrecorded Sample.tasks
  rw [houtcomes] at htold
  cases htold with | cons hbuilt htold =>
  cases htold with | cons hrestored htold =>
  cases htold with | cons hread htold =>
  cases htold with | cons hrefused htold =>
  cases htold with | cons hordered htold =>
  cases htold
  cases hbuilt
  cases hrestored
  cases hread
  cases hrefused
  cases hordered
  exact ⟨hconfiguration, ⟨snapshot, hevents⟩, hnone, hsame _ _ hunrecorded rfl⟩

end Session

end Lineage
