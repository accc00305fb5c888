import Lineage.Proofs.Canonical
import Lineage.Proofs.Snapshot.Views
import Lineage.Proofs.Stored.Document
import Lineage.Workspace.Documents

/-!
# A snapshot comes back from its document

The document of a snapshot holds its operations in name order.  Read from the
text of the document they are the same operations in some order, so collecting
them gives the set that the snapshot was built of, and with it the same
checksum.  This is why the snapshot of the document is not refused: its
operations are valid as they were, and the stored checksum is theirs.

All that building a snapshot of valid operations needs is a ready workspace, and
when it is done, the workspace is ready for the next one.
-/

namespace Lineage

open Lineage.Flow Snapshot

namespace Workspace

variable {listed : List Operation}

/-! ## Building -/

theorem delivers_accept {operations : OperationSet} (admitted : Admitted operations) :
    Delivers (accept operations) fun flow => flow = index operations :=
  delivers_of_run (exists_run_accept admitted)

/-- All views of a new snapshot can be worked out. -/
theorem delivers_views {operations : OperationSet} (admitted : Admitted operations) :
    Delivers
      (liftM (((do
        let _ ← viewDestinationFields
        let _ ← viewIncoming
        let _ ← viewOutgoing : Viewing Unit).run).run (ofFlow (index operations) operations)) :
        Action (Except Failure Unit × Snapshot))
      fun outcome => outcome.1 = .ok () ∧ Faithful operations outcome.2 := by
  refine delivers_lift fun workspace => ?_
  -- one view after the other, each faithful to the operations
  have hshows : Viewing.Shows operations
      (do
        let _ ← viewDestinationFields
        let _ ← viewIncoming
        let _ ← viewOutgoing : Viewing Unit) fun _ => True :=
    (shows_viewDestinationFields admitted).bind fun _ _ =>
      (shows_viewIncoming admitted).bind fun _ _ =>
        (shows_viewOutgoing admitted).bind fun _ _ => Viewing.shows_pure trivial
  obtain ⟨_, snapshot, journal, hrun, -, faithful⟩ :=
    hshows _ workspace (faithful_ofFlow operations)
  exact ⟨(.ok (), snapshot), journal, hrun, rfl, faithful⟩

/-- A snapshot of valid operations is built exactly in ready workspaces, and faithful to them. -/
theorem depends_build (admitted : Admitted (.ofList listed)) (eager : Option Bool) :
    Depends (build listed eager) (Faithful (.ofList listed)) := by
  have hfinish (message : String) (snapshot : Snapshot)
      (faithful : Faithful (.ofList listed) snapshot) :
      Depends
        (do
          log Level.info "fieldlineage.info" message
          reportSnapshot snapshot (index (.ofList listed))
          return snapshot : Action Snapshot)
        (Faithful (.ofList listed)) :=
    (delivers_log _ _ _).bind_depends fun _ _ =>
      (depends_spanEvent _ _).bind fun _ _ => delivers_pure faithful
  simp only [build, pure_bind]
  refine (delivers_log _ _ _).bind_depends fun _ _ => (delivers_accept admitted).bind_depends ?_
  rintro _ rfl
  cases eager
  case' none => refine depends_getSettings.bind_depends fun settings _ => ?_
  case' some eager => dsimp only
  -- whether it was said explicitly or by the settings, the views are worked out or not
  all_goals
    split
    · refine (delivers_views admitted).bind_depends ?_
      rintro ⟨_, snapshot⟩ ⟨rfl, faithful⟩
      exact hfinish _ snapshot faithful
    · exact hfinish _ _ (faithful_ofFlow _)

/-- The snapshot of a document comes out if the operations are valid and the checksum, if there is
one, is theirs. -/
theorem depends_snapshotOf {document : Document} (admitted : Admitted (.ofList document.operations))
    (hchecksum : ∀ stored, document.checksum = some stored →
      stored = Canonical.checksum (SortedSet.ofList document.operations).toList)
    (eager : Option Bool) :
    Depends (snapshotOf document eager) (Faithful (.ofList document.operations)) := by
  refine (depends_build admitted eager).bind fun snapshot faithful => ?_
  split
  · exact delivers_pure faithful
  · next stored hstored =>
      rw [faithful.checksum_eq, if_pos (hchecksum stored hstored)]
      exact delivers_pure faithful

end Workspace

/-! ## There and back -/

namespace Document

open Workspace

theorem ofList_inNameOrder (operations : OperationSet) :
    SortedSet.ofList (Canonical.inNameOrder operations.toList) = operations := by
  refine SortedSet.ext_mem fun operation => ?_
  rw [SortedSet.mem_ofList, (Canonical.inNameOrder_perm _).mem_iff]
  exact SortedSet.mem_def.symm

/-- The document of a snapshot gives the operations and the checksum back in every ready
workspace. -/
theorem depends_snapshotOf_ofSnapshot {operations : OperationSet} (admitted : Admitted operations)
    {snapshot : Snapshot} (faithful : Faithful operations snapshot) (programRun : Option String)
    (eager : Option Bool) :
    Depends (snapshotOf (ofSnapshot snapshot programRun) eager) (Faithful operations) := by
  have hoperations : SortedSet.ofList (ofSnapshot snapshot programRun).operations = operations := by
    show SortedSet.ofList (Canonical.inNameOrder snapshot.operations.toList) = operations
    rw [ofList_inNameOrder, faithful.operations_eq]
  have hchecksum : ∀ stored, (ofSnapshot snapshot programRun).checksum = some stored →
      stored = Canonical.checksum operations.toList := by
    intro stored hstored
    rw [← Option.some.inj hstored, faithful.checksum_eq]
  rw [← hoperations] at admitted hchecksum ⊢
  exact depends_snapshotOf admitted hchecksum eager

theorem ofJson_ofSnapshot {operations : OperationSet} {snapshot : Snapshot}
    (faithful : Faithful operations snapshot) (programRun : Option String) :
    ofJson (ofSnapshot snapshot programRun).json = .ok (ofSnapshot snapshot programRun) := by
  rw [ofJson_json, if_pos]
  intro n hn
  obtain rfl : snapshot.checksum = n := Option.some.inj hn
  rw [faithful.checksum_eq]
  exact length_checksum_le _

/-- A document is read from its own text just when its checksum has no more than 4300 digits, and
every other one is refused as no JSON.  In particular the document of a snapshot is read, and gives
the operations and the checksum of the snapshot back, in the workspace in which the snapshot was
built and in every other one that is ready. -/
theorem comes_back :
    (∀ document : Document, ofJson document.json =
      if ∀ n, document.checksum = some n → (Nat.toDigits 10 n.natAbs).length ≤ 4300 then
        .ok document
      else Check.fail .notJson) ∧
    ∀ (listed : List Operation) (flow : Flow), Flow.accept (.ofList listed) = .ok flow →
      ∀ (eager : Option Bool) (workspace : Workspace),
        ((∃ snapshot, ((build listed eager).run.run workspace).1 = .ok snapshot) ↔
          workspace.Ready) ∧
        ∀ snapshot after, (build listed eager).run.run workspace = (.ok snapshot, after) →
          after.Ready ∧ snapshot.operations = .ofList listed ∧
          ∀ programRun : Option String, ∃ document,
            ofJson (ofSnapshot snapshot programRun).json = .ok document ∧
            ∀ (again : Option Bool) (later : Workspace), later.Ready → ∃ copy last,
              (snapshotOf document again).run.run later = (.ok copy, last) ∧
              copy.operations = snapshot.operations ∧ copy.checksum = snapshot.checksum := by
  refine ⟨ofJson_json, fun listed flow haccept eager workspace => ?_⟩
  obtain ⟨-, admitted⟩ := accept_eq_ok_iff.1 haccept
  have hbuild := depends_build admitted eager
  refine ⟨⟨fun ⟨snapshot, hsnapshot⟩ => hbuild.needs workspace snapshot hsnapshot,
    hbuild.succeeds workspace⟩, fun snapshot after hrun => ?_⟩
  have hresult : ((build listed eager).run.run workspace).1 = .ok snapshot := by rw [hrun]
  -- a built snapshot holds what was listed, and its workspace is still ready
  have faithful : Faithful (.ofList listed) snapshot := hbuild.result workspace snapshot hresult
  have hready : after.Ready := by
    have hlater := (hbuild.ready_iff workspace).2 (hbuild.needs workspace snapshot hresult)
    rwa [hrun] at hlater
  refine ⟨hready, faithful.operations_eq, fun programRun => ⟨ofSnapshot snapshot programRun, ?_, ?_⟩⟩
  · exact ofJson_ofSnapshot faithful programRun
  · intro again later hlater
    -- any ready workspace builds it again, and both are faithful to one list
    have hback := depends_snapshotOf_ofSnapshot admitted faithful programRun again
    obtain ⟨copy, hcopy⟩ := hback.succeeds later hlater
    have hcopied : Faithful (.ofList listed) copy := hback.result later copy hcopy
    refine ⟨copy, _, Prod.ext hcopy rfl, ?_, ?_⟩
    · rw [hcopied.operations_eq, faithful.operations_eq]
    · rw [hcopied.checksum_eq, faithful.checksum_eq]

theorem comes_back_sample : ∃ snapshot after document copy last,
    (build [Sample.store, Sample.people, Sample.parse, Sample.count, Sample.clean] none).run.run
      (Workspace.fresh "/work" "now") = (.ok snapshot, after) ∧
    ofJson (ofSnapshot snapshot (some "run \"7\"")).json = .ok document ∧
    (snapshotOf document (some false)).run.run after = (.ok copy, last) ∧
    copy.operations = Sample.snapshot ∧ copy.checksum = snapshot.checksum := by
  have hlisted : SortedSet.ofList
      [Sample.store, Sample.people, Sample.parse, Sample.count, Sample.clean] = Sample.snapshot := by
    decide +kernel
  obtain ⟨-, hcome⟩ := comes_back
  obtain ⟨hbuilt, hback⟩ := hcome _ _ (hlisted ▸ Sample.accepted) none (Workspace.fresh "/work" "now")
  obtain ⟨snapshot, hsnapshot⟩ := hbuilt.2 (ready_fresh _ _)
  obtain ⟨hready, hoperations, hdocument⟩ := hback snapshot _ (Prod.ext hsnapshot rfl)
  obtain ⟨document, hread, hcopies⟩ := hdocument (some "run \"7\"")
  obtain ⟨copy, last, hcopy, hsame, hchecksum⟩ := hcopies (some false) _ hready
  rw [hoperations, hlisted] at hsame
  exact ⟨snapshot, _, document, copy, last, Prod.ext hsnapshot rfl, hread, hcopy, hsame, hchecksum⟩

end Document

end Lineage
