import Lineage.Proofs.Flow.Counts
import Lineage.Proofs.Flow.Order
import Lineage.Proofs.Snapshot.Reading
import Lineage.Proofs.Snapshot.Requests

/-!
# What actions put on the span

The configuration of a workspace are the settings in force, or those that are made
when they are first asked for (`configuration?`).  With a configuration an action
has a result and puts certain events on the span, in this order, if the
configuration wants events and the span records; if not, it puts nothing there, and
has the same result (`Emits`).  In either case the configuration stays what it is,
though settings may have come into force.

An action emits what its parts emit, one after another (`Emits.bind`).  Messages emit
nothing, and neither do views (`Viewing.Steady`), so that what is left are the
actions that report an event.
-/

namespace Lineage

open Lineage.Flow Snapshot

/-! ## Events -/

namespace Event

/-- A snapshot of these operations was built. -/
noncomputable def built (listed : List Operation) (checksum : Int) : Event where
  name := "lineage.snapshot.built"
  attributes :=
    [("lineage.checksum", .int checksum),
      ("lineage.operations", .int {operation | operation ∈ listed}.ncard),
      ("lineage.sources", .int (endpointsAmong .read listed).ncard),
      ("lineage.destinations", .int (endpointsAmong .write listed).ncard),
      ("lineage.dropped_fields", .int (droppedAmong listed).ncard)]

/-- Operations were refused. -/
def refused (fault : Fault) : Event where
  name := "lineage.validation.failed"
  attributes := [("lineage.error", .text fault.label), ("lineage.message", .text fault.message)]

/-- Operations were put in order. -/
def ordered (operations : List Operation) : Event where
  name := "lineage.sort.complete"
  attributes :=
    [("lineage.operations", .int operations.length),
      ("lineage.order", .text (",".intercalate (operations.map (·.name.text))))]

/-- Operations could not be put in order. -/
def cycle (residual : Residual) : Event where
  name := "lineage.sort.cycle"
  attributes :=
    [("lineage.cycle_operations", .text (",".intercalate residual.keys.toList)),
      ("lineage.message", .text (Fault.cycle residual).message)]

/-- A field was followed to the operations of these names. -/
def found (direction : Direction) (field : EndpointField) (names : List String) : Event where
  name := "lineage.query.complete"
  attributes :=
    [("lineage.direction", .text direction.label), ("lineage.field", .text field.shown),
      ("lineage.matched", .int names.length),
      ("lineage.operations", .text (",".intercalate names))]

end Event

/-! ## Views -/

/-- If the operations fix what is read of a faithful snapshot, it is read in all workspaces, and
puts nothing on the span. -/
theorem Viewing.Steady.replies {α : Type} {action : Viewing α} {operations : OperationSet} {value : α}
    (h : Steady (fun snapshot => Admitted snapshot.operations) action)
    (hreplies : Replies operations action value) (admitted : Admitted operations)
    {snapshot : Snapshot} (faithful : Faithful operations snapshot) :
    ∃ later, Faithful operations later ∧ ∀ workspace : Workspace, ∃ journal,
      (action.run.run snapshot).run workspace = ((.ok value, later), { workspace with journal }) ∧
      { workspace with journal }.events = workspace.events := by
  have hsnapshot : Admitted snapshot.operations := by rwa [faithful.operations_eq]
  obtain ⟨result, later, -, hrun⟩ := h snapshot hsnapshot
  -- what is read in some ready workspace is read in all
  obtain ⟨shown, _, hthere, hshown, -⟩ :=
    hreplies snapshot (Workspace.fresh "/" "now") faithful (Workspace.ready_fresh _ _)
  obtain ⟨_, hsame, -⟩ := hrun (Workspace.fresh "/" "now")
  obtain ⟨rfl, rfl⟩ : Except.ok value = result ∧ shown = later :=
    Prod.mk.inj (Prod.mk.inj (hthere.symm.trans hsame)).1
  exact ⟨shown, hshown, hrun⟩

namespace Workspace

/-! ## The configuration -/

variable {α β : Type} {settings : Settings}

/-- The settings that are in force or would be made. -/
def configuration? (workspace : Workspace) : Option Settings :=
  match workspace.settings with
  | some kept => some kept.value
  | none => (workspace.makeSettings []).toOption

theorem configuration?_fresh (directory time : String) :
    (fresh directory time).configuration? = some Settings.default := by
  rw [configuration?, makeSettings_fresh]
  rfl

/-- One workspace comes after another with these settings as its configuration all the time, and in
between these events were put on the span, if they are wanted and it records. -/
structure Follows (settings : Settings) (before : Workspace) (events : List Event)
    (after : Workspace) : Prop where
  configuration : after.configuration? = some settings
  recording : after.recording = before.recording
  events : after.events =
    before.events ++ if settings.emitSpanEvents && before.recording then events else []

theorem Follows.refl {workspace : Workspace} (h : workspace.configuration? = some settings) :
    Follows settings workspace [] workspace :=
  ⟨h, rfl, by simp⟩

theorem Follows.trans {first second third : Workspace} {events more : List Event}
    (h : Follows settings first events second) (hmore : Follows settings second more third) :
    Follows settings first (events ++ more) third where
  configuration := hmore.configuration
  recording := hmore.recording.trans h.recording
  events := by
    rw [hmore.events, h.events, h.recording]
    split
    · exact List.append_assoc ..
    · simp

/-- With these settings as the configuration the action has this result and puts these events on the
span. -/
def Emits (settings : Settings) (action : Action α) (result : Except Failure α)
    (events : List Event) : Prop :=
  ∀ workspace : Workspace, workspace.configuration? = some settings →
    (action.run.run workspace).1 = result ∧
      Follows settings workspace events (action.run.run workspace).2

/-! ## One after another -/

theorem emits_pure (a : α) : Emits settings (pure a) (.ok a) [] :=
  fun _ hconfiguration => ⟨rfl, .refl hconfiguration⟩

theorem emits_throw (failure : Failure) :
    Emits settings (throw failure : Action α) (.error failure) [] :=
  fun _ hconfiguration => ⟨rfl, .refl hconfiguration⟩

theorem Emits.bind {action : Action α} {next : α → Action β} {a : α} {result : Except Failure β}
    {events more : List Event} (h : Emits settings action (.ok a) events)
    (hnext : Emits settings (next a) result more) :
    Emits settings (action >>= next) result (events ++ more) := by
  intro workspace hconfiguration
  obtain ⟨hresult, hfollows⟩ := h workspace hconfiguration
  obtain ⟨hlast, hmore⟩ := hnext _ hfollows.configuration
  rw [run_bind, hresult]
  exact ⟨hlast, hfollows.trans hmore⟩

theorem Emits.bind_error {action : Action α} {next : α → Action β} {failure : Failure}
    {events : List Event} (h : Emits settings action (.error failure) events) :
    Emits settings (action >>= next) (.error failure) events := by
  intro workspace hconfiguration
  obtain ⟨hresult, hfollows⟩ := h workspace hconfiguration
  rw [run_bind, hresult]
  exact ⟨rfl, hfollows⟩

/-! ## Messages, settings and events -/

/-- Adding messages to the journal is no event. -/
theorem Follows.of_journal {workspace : Workspace} {journal : List Report}
    (h : workspace.configuration? = some settings)
    (hevents : { workspace with journal }.events = workspace.events) :
    Follows settings workspace [] { workspace with journal } :=
  ⟨h, rfl, by simpa using hevents⟩

/-- What only adds messages to the journal has its result with every configuration. -/
theorem emits_lift {action : StateM Workspace α} {a : α}
    (h : ∀ workspace : Workspace, ∃ journal, action.run workspace = (a, { workspace with journal }) ∧
      { workspace with journal }.events = workspace.events) :
    Emits settings (liftM action : Action α) (.ok a) [] := by
  intro workspace hconfiguration
  obtain ⟨journal, hrun, hevents⟩ := h workspace
  rw [run_lift, hrun]
  exact ⟨rfl, .of_journal hconfiguration hevents⟩

theorem emits_log (level : Int) (logger message : String) :
    Emits settings (liftM (log level logger message) : Action Unit) (.ok ()) [] := by
  refine emits_lift fun workspace => ?_
  obtain ⟨journal, hrun⟩ := exists_run_log level logger message workspace
  have hevents := events_log level logger message workspace
  rw [hrun] at hevents
  exact ⟨journal, hrun, hevents⟩

/-- What asks for settings gets the configuration, whatever its stamp. -/
theorem emits_getSettings_bind {next : Stamped Settings → Action β} {result : Except Failure β}
    {events : List Event} (h : ∀ stamp, Emits settings (next ⟨settings, stamp⟩) result events) :
    Emits settings (getSettings [] >>= next) result events := by
  intro workspace hconfiguration
  rcases run_getSettings_cases [] workspace with
    ⟨kept, -, hkept, hrun⟩ | ⟨hnone, ⟨found, hmade, hrun⟩ | ⟨found, hmade, hrun⟩⟩
  · have hsame := hconfiguration
    rw [configuration?, hkept] at hsame
    obtain rfl := Option.some.inj hsame
    rw [run_bind, hrun]
    exact h kept.stamp workspace hconfiguration
  · rw [configuration?, hnone rfl, hmade] at hconfiguration
    obtain rfl := Option.some.inj hconfiguration
    rw [run_bind, hrun]
    obtain ⟨hresult, hfollows⟩ := h workspace.made
      { workspace with settings := some ⟨found, workspace.made⟩, made := workspace.made + 1 } rfl
    exact ⟨hresult, hfollows.configuration, hfollows.recording, hfollows.events⟩
  · rw [configuration?, hnone rfl, hmade] at hconfiguration
    cases hconfiguration

theorem events_event (name : String) (attributes : List (String × Value)) (workspace : Workspace) :
    events { workspace with journal := .event name attributes :: workspace.journal } =
      workspace.events ++ [⟨name, attributes⟩] := by
  simp [Workspace.events, Report.event?]

theorem emits_spanEvent (name : String) (attributes : List (String × Value)) :
    Emits settings (spanEvent name attributes) (.ok ()) [⟨name, attributes⟩] := by
  refine emits_getSettings_bind fun stamp workspace hconfiguration => ?_
  rw [run_get_bind]
  cases hwanted : settings.emitSpanEvents && workspace.recording with
  | true =>
      refine ⟨rfl, hconfiguration, rfl, ?_⟩
      simp only [hwanted, if_true]
      exact events_event name attributes workspace
  | false =>
      refine ⟨rfl, hconfiguration, rfl, ?_⟩
      simp only [hwanted, Bool.false_eq_true, if_false, List.append_nil]
      rfl

/-! ## What is reported -/

theorem emits_reportFault (fault : Fault) :
    Emits settings (reportFault fault) (.ok ()) [.refused fault] :=
  (emits_log _ _ _).bind (emits_spanEvent _ _)

/-- A fault is reported, and then it is the result. -/
theorem emits_refuse (fault : Fault) :
    Emits settings (reportFault fault >>= fun _ => throw (.fault fault) : Action α)
      (.error (.fault fault)) [.refused fault] :=
  (emits_reportFault fault).bind (emits_throw _)

theorem emits_accept_ok {operations : OperationSet} {flow : Flow}
    (h : Flow.accept operations = .ok flow) :
    Emits settings (accept operations) (.ok flow) [] := by
  unfold accept
  rw [h]
  exact (emits_log _ _ _).bind (emits_pure flow)

theorem emits_accept_error {operations : OperationSet} {fault : Fault}
    (h : Flow.accept operations = .error fault) :
    Emits settings (accept operations) (.error (.fault fault)) [.refused fault] := by
  unfold accept
  rw [h]
  exact emits_refuse fault

theorem emits_sort_ok {listed sorted : List Operation} (h : Order.sort listed = .ok sorted) :
    Emits settings (sort listed) (.ok sorted) [.ordered sorted] := by
  unfold sort
  rw [h]
  exact (emits_log _ _ _).bind ((emits_spanEvent _ _).bind (emits_pure sorted))

theorem emits_sort_cycle {listed : List Operation} {residual : Residual}
    (h : Order.sort listed = .error (.cycle residual)) :
    Emits settings (sort listed) (.error (.fault (.cycle residual))) [.cycle residual] := by
  unfold sort
  rw [h]
  exact (emits_log _ _ _).bind ((emits_spanEvent _ _).bind (emits_throw _))

theorem le_of_isLE_compare {a b : String} (h : (compare a b).isLE = true) : a ≤ b := by
  intro hlt
  have hless : compare b a = .lt := compareOfLessAndEq_eq_lt.2 hlt
  rw [Std.OrientedCmp.gt_iff_lt.2 hless] at h
  cases h

/-- What was found is reported by its names, in order. -/
theorem exists_emits_reportQuery (direction : Direction) (field : EndpointField)
    (found : OperationSet) : ∃ names : List String,
      names.Perm (found.toList.map (·.name.text)) ∧ names.Pairwise (· ≤ ·) ∧
      ∀ settings, Emits settings (reportQuery direction.label field found.toList) (.ok ())
        [.found direction field names] := by
  have hsorted : ((found.toList.map (·.name.text)).mergeSort fun a b =>
      (compare a b).isLE).Pairwise fun a b => (compare a b).isLE = true :=
    List.pairwise_mergeSort (fun _ _ _ => Std.TransCmp.isLE_trans) isLE_compare_total _
  exact ⟨_, List.mergeSort_perm _ _, hsorted.imp le_of_isLE_compare,
    fun _ => (emits_log _ _ _).bind (emits_spanEvent _ _)⟩

/-! ## Asking -/

section

variable {operations : OperationSet} (admitted : Admitted operations) {snapshot : Snapshot}
  (faithful : Faithful operations snapshot)
include admitted faithful

/-- Views are read without an event. -/
theorem exists_ask_view (request : Request)
    (hviews : ∀ direction field, request ≠ .follow direction field) :
    ∃ shown later, Faithful operations later ∧ ∀ settings workspace,
      configuration? workspace = some settings → ∃ after,
        snapshot.ask request workspace = ((.ok shown, later), after) ∧
          Follows settings workspace [] after := by
  obtain ⟨shown, hreplies⟩ := exists_reply admitted request
  obtain ⟨later, hlater, hrun⟩ :=
    (reading_reply hviews).steady_of_admitted.replies hreplies admitted faithful
  refine ⟨shown, later, hlater, fun settings workspace hconfiguration => ?_⟩
  obtain ⟨journal, hask, hevents⟩ := hrun workspace
  exact ⟨_, hask, .of_journal hconfiguration hevents⟩

/-- A field is followed with an event that names what was found. -/
theorem exists_ask_follow (direction : Direction) (field : EndpointField) :
    ∃ found names later, names.Perm (found.toList.map (·.name.text)) ∧ names.Pairwise (· ≤ ·) ∧
      Faithful operations later ∧ ∀ settings workspace,
        configuration? workspace = some settings → ∃ after,
          snapshot.ask (.follow direction field) workspace =
              ((.ok (.operations found), later), after) ∧
            Follows settings workspace [.found direction field names] after := by
  obtain ⟨names, hnames, hsorted, hreport⟩ :=
    exists_emits_reportQuery direction field ((index operations).follow direction field)
  obtain ⟨later, hlater, hrun⟩ :=
    Viewing.steady_viewFlow.replies (replies_viewFlow admitted) admitted faithful
  refine ⟨_, names, later, hnames, hsorted, hlater, fun settings workspace hconfiguration => ?_⟩
  -- first the flow is viewed, which only writes to the journal
  obtain ⟨journal, hflow, hevents⟩ := hrun workspace
  have hfirst : Follows settings workspace [] { workspace with journal } :=
    .of_journal hconfiguration hevents
  -- then what was found is reported
  obtain ⟨hdone, hfollows⟩ := hreport settings _ hfirst.configuration
  have hquery : ((query direction field).run.run snapshot).run workspace =
      ((.ok ((index operations).follow direction field), later), ((reportQuery direction.label field
        ((index operations).follow direction field).toList).run.run { workspace with journal }).2) := by
    rw [query, Viewing.run_bind, hflow]
    dsimp only
    rw [Viewing.run_bind, Viewing.run_ofAction, hdone]
    rfl
  refine ⟨_, ?_, hfirst.trans hfollows⟩
  rw [Snapshot.ask, reply, Viewing.run_bind, hquery]
  rfl

end

/-! ## Building -/

section

variable {listed : List Operation} (admitted : Admitted (.ofList listed))
include admitted

theorem emits_reportSnapshot {snapshot : Snapshot} (faithful : Faithful (.ofList listed) snapshot) :
    Emits settings (reportSnapshot snapshot (index (.ofList listed))) (.ok ())
      [.built listed snapshot.checksum] := by
  rw [reportSnapshot, faithful.operations_eq, size_ofList, size_sources admitted,
    size_destinations admitted, size_droppedFields admitted]
  exact emits_spanEvent _ _

/-- Working out all views puts nothing on the span. -/
theorem exists_emits_stock (eager : Bool) :
    ∃ snapshot, Faithful (.ofList listed) snapshot ∧ ∀ settings,
      Emits settings (stock eager (ofFlow (index (.ofList listed)) (.ofList listed)))
        (.ok snapshot) [] := by
  cases eager with
  | false => exact ⟨_, faithful_ofFlow _, fun _ => emits_pure _⟩
  | true =>
      have hshows : Viewing.Shows (.ofList listed) viewAll fun _ => True :=
        (shows_viewDestinationFields admitted).bind fun _ _ =>
          (shows_viewIncoming admitted).bind fun _ _ =>
            (shows_viewOutgoing admitted).bind fun _ _ => Viewing.shows_pure trivial
      have hreplies : Viewing.Replies (.ofList listed) viewAll () := hshows.replies fun _ _ => rfl
      obtain ⟨snapshot, faithful, hrun⟩ :=
        reading_viewAll.steady_of_admitted.replies hreplies admitted (faithful_ofFlow _)
      exact ⟨snapshot, faithful, fun _ => (emits_lift hrun).bind (emits_pure snapshot)⟩

theorem emits_announce (eager : Bool) {snapshot : Snapshot}
    (faithful : Faithful (.ofList listed) snapshot) :
    Emits settings (announce (index (.ofList listed)) (.ofList listed) eager snapshot) (.ok ())
      [.built listed snapshot.checksum] :=
  (emits_log _ _ _).bind (emits_reportSnapshot admitted faithful)

end

theorem emits_settleEager (eager : Option Bool) :
    Emits settings (settleEager eager) (.ok (eager.getD settings.computeSummaries)) [] := by
  cases eager with
  | some eager => exact emits_pure eager
  | none => exact emits_getSettings_bind fun _ => emits_pure settings.computeSummaries

theorem emits_build_error {listed : List Operation} {fault : Fault}
    (h : Flow.accept (.ofList listed) = .error fault) (eager : Option Bool) :
    Emits settings (build listed eager) (.error (.fault fault)) [.refused fault] := by
  rw [build_eq]
  exact (emits_log _ _ _).bind (emits_accept_error h).bind_error

/-- A snapshot that is built is the same with all configurations that agree on whether views are
worked out at once. -/
theorem exists_emits_build {listed : List Operation} (admitted : Admitted (.ofList listed))
    (eager : Option Bool) (all : Bool) :
    ∃ snapshot, Faithful (.ofList listed) snapshot ∧ ∀ settings : Settings,
      settings.computeSummaries = all →
        Emits settings (build listed eager) (.ok snapshot) [.built listed snapshot.checksum] := by
  obtain ⟨snapshot, faithful, hstock⟩ := exists_emits_stock admitted (eager.getD all)
  refine ⟨snapshot, faithful, ?_⟩
  rintro settings rfl
  rw [build_eq]
  exact (emits_log _ _ _).bind ((emits_accept_ok (accept_eq_ok_iff.2 ⟨rfl, admitted⟩)).bind
    ((emits_settleEager eager).bind ((hstock settings).bind
      ((emits_announce admitted _ faithful).bind (emits_pure snapshot)))))

/-! ## Opening documents -/

section

variable {document : Document} {eager : Option Bool}

theorem emits_snapshotOf_error {failure : Failure} {events : List Event}
    (h : Emits settings (build document.operations eager) (.error failure) events) :
    Emits settings (snapshotOf document eager) (.error failure) events :=
  h.bind_error

variable {snapshot : Snapshot} {events : List Event}

theorem emits_snapshotOf_ok
    (h : Emits settings (build document.operations eager) (.ok snapshot) events)
    (hchecksum : ∀ stored, document.checksum = some stored → stored = snapshot.checksum) :
    Emits settings (snapshotOf document eager) (.ok snapshot) events := by
  rw [← List.append_nil events]
  refine h.bind ?_
  cases hstored : document.checksum with
  | none => exact emits_pure snapshot
  | some stored =>
      dsimp only
      rw [if_pos (hchecksum stored hstored)]
      exact emits_pure snapshot

/-- A checksum that is not that of the snapshot is refused after the snapshot was built. -/
theorem emits_snapshotOf_mismatch {stored : Int}
    (h : Emits settings (build document.operations eager) (.ok snapshot) events)
    (hchecksum : document.checksum = some stored) (hdiffers : stored ≠ snapshot.checksum) :
    Emits settings (snapshotOf document eager)
      (.error (.fault (.checksumMismatch stored snapshot.checksum)))
      (events ++ [.refused (.checksumMismatch stored snapshot.checksum)]) := by
  refine h.bind ?_
  rw [hchecksum]
  dsimp only
  rw [if_neg hdiffers]
  exact emits_refuse _

end

end Workspace

end Lineage
