import Lineage.Proofs.Fingerprint.Collision
import Lineage.Proofs.Workspace.Answers

/-!
# A document that was altered in one place is refused

A document keeps the checksum of its operations beside them.  Whoever changes the
operations and leaves the checksum is found out if the checksum of the changed
operations is another one, and for a change within eight bytes of the canonical form
it always is.

The operations are looked at first, and a snapshot of them is built before the
checksums are compared.  So a fault of the operations would come first, and so would
settings that cannot be made; but there is no snapshot in any case.
-/

namespace Lineage

open Lineage.Flow Lineage.Fingerprint Snapshot

/-- The bytes of which the checksum is the fingerprint. -/
def Canonical.bytes (operations : List Operation) : List UInt8 :=
  (Canonical.text operations).toUTF8.toList

/-- They encode the characters one after another. -/
theorem Canonical.bytes_eq (operations : List Operation) : Canonical.bytes operations =
    (Json.Layout.compact.tree (Canonical.tree operations)).flatMap String.utf8EncodeChar := by
  rw [Canonical.bytes, toList_eq]
  show (List.toByteArray _).data.toList = _
  rw [List.data_toByteArray]

theorem Canonical.checksum_ne {first second : List Operation}
    (h : DifferWithin 8 (Canonical.bytes first) (Canonical.bytes second)) :
    Canonical.checksum first ≠ Canonical.checksum second :=
  h.ofBytes_ne

/-- The operations of a document, each once. -/
def Document.collected (document : Document) : OperationSet := .ofList document.operations

/-! ## Snapshots with another checksum -/

namespace Workspace

variable {α : Type} {answer : Except Failure α}

/-- What has the same answer whether views are worked out at once or not has it however that is
settled. -/
theorem answers_settleEager_bind (eager : Option Bool) {next : Bool → Action α}
    (hnext : ∀ all, Answers true (next all) answer) :
    Answers true (settleEager eager >>= next) answer := by
  cases eager with
  | some eager => exact (answers_pure eager).bind (hnext eager)
  | none =>
      simp only [settleEager, bind_assoc, pure_bind]
      exact answers_getSettings_bind fun settings => hnext settings.value.computeSummaries

/-- What has the same answer with every snapshot of the operations has it after one was built. -/
theorem answers_build_bind {listed : List Operation} (admitted : Admitted (.ofList listed))
    (eager : Option Bool) {next : Snapshot → Action α}
    (hnext : ∀ snapshot, Faithful (.ofList listed) snapshot →
      Answers true (next snapshot) answer) :
    Answers true (build listed eager >>= next) answer := by
  have haccept := answers_accept (.ofList listed)
  rw [accept_eq_ok_iff.2 ⟨rfl, admitted⟩] at haccept
  rw [build_eq]
  simp only [bind_assoc, pure_bind]
  refine (answers_log _ _ _).bind (haccept.bind (answers_settleEager_bind eager fun all => ?_))
  obtain ⟨snapshot, faithful, hstock⟩ := exists_answers_stock_ok admitted all
  exact hstock.bind ((answers_announce _ _ _ _).bind (hnext snapshot faithful))

variable {document : Document} {stored : Int}

/-- A document of valid operations with another checksum is refused for its checksum. -/
theorem answers_snapshotOf_mismatch (admitted : Admitted document.collected)
    (hstored : document.checksum = some stored)
    (hdiffers : stored ≠ Canonical.checksum document.collected.toList) (eager : Option Bool) :
    Answers true (snapshotOf document eager) (.error (.fault
      (.checksumMismatch stored (Canonical.checksum document.collected.toList)))) := by
  refine answers_build_bind admitted eager fun snapshot faithful => ?_
  have hchecksum : snapshot.checksum = Canonical.checksum document.collected.toList :=
    faithful.checksum_eq
  rw [hstored, hchecksum]
  dsimp only
  rw [if_neg hdiffers]
  exact (answers_reportFault _).bind (answers_throw _)

/-- A fault is what is answered with just where settings can be made. -/
theorem hindered_fault_iff (workspace : Workspace) (fault : Fault) :
    workspace.hindered (.error (.fault fault) : Except Failure α) = .error (.fault fault) ↔
      workspace.Ready := by
  rw [← hindrance?_eq_none_iff, hindered]
  cases workspace.hindrance? <;> simp

end Workspace

/-! ## Altered documents -/

namespace Document

open Workspace

/-- Bytes that are exchanged for as many others, eight at most, change the fingerprint, whatever
stands before and behind them.  So operations whose canonical forms differ within eight bytes have
different checksums; and if the operations of a document that has their checksum are exchanged for
other valid ones of which this is true, the document can still be read from its text, but its
snapshot is refused for the checksum.  Nothing but settings that cannot be made may be answered in
place of this, and a snapshot is not. -/
theorem altered_refused :
    (∀ before old new after : List UInt8, old.length = new.length → old.length ≤ 8 → old ≠ new →
      ofBytes (before ++ old ++ after) ≠ ofBytes (before ++ new ++ after)) ∧
    (∀ first second : List Operation,
      DifferWithin 8 (Canonical.bytes first) (Canonical.bytes second) →
        Canonical.checksum first ≠ Canonical.checksum second) ∧
    ∀ (document altered : Document) (flow : Flow),
      document.checksum = some (Canonical.checksum document.collected.toList) →
      altered.checksum = document.checksum →
      DifferWithin 8 (Canonical.bytes document.collected.toList)
        (Canonical.bytes altered.collected.toList) →
      Flow.accept altered.collected = .ok flow →
        ofJson altered.json = .ok altered ∧
        ∀ (eager : Option Bool) (workspace : Workspace),
          ((snapshotOf altered eager).run.run workspace).1 = workspace.hindered
            (.error (.fault (.checksumMismatch (Canonical.checksum document.collected.toList)
              (Canonical.checksum altered.collected.toList)))) ∧
          (((snapshotOf altered eager).run.run workspace).1 =
            .error (.fault (.checksumMismatch (Canonical.checksum document.collected.toList)
              (Canonical.checksum altered.collected.toList))) ↔ workspace.Ready) := by
  refine ⟨fun _ _ _ _ => ofBytes_window_ne, fun _ _ => Canonical.checksum_ne, ?_⟩
  intro document altered flow hdocument haltered hdiffer haccept
  obtain ⟨-, admitted⟩ := accept_eq_ok_iff.1 haccept
  have hstored := haltered.trans hdocument
  -- the two canonical forms differ in a window, so their checksums do
  have hchecksum := Canonical.checksum_ne hdiffer
  refine ⟨?_, fun eager workspace => ?_⟩
  · rw [ofJson_json, if_pos]
    intro n hn
    obtain rfl := Option.some.inj (hstored.symm.trans hn)
    exact length_checksum_le _
  · rw [(answers_snapshotOf_mismatch admitted hstored hchecksum eager).result, if_pos rfl]
    exact ⟨rfl, hindered_fault_iff _ _⟩

/-- A write of one field of the people that are read. -/
def saving (field : Name) : Operation :=
  ⟨⟨Sample.store.name, ""⟩,
    .write (some Sample.storeFile) (.ofList [⟨Sample.people.name, field⟩])⟩

/-- A document of people being read and one field of them being saved, with the checksum that there
is if this field is the body. -/
def ofSaving (field : Name) : Document :=
  ⟨currentVersion, none, [saving field, Sample.people],
    some (Canonical.checksum [Sample.people, saving Sample.body])⟩

theorem collected_ofSaving :
    (ofSaving Sample.body).collected.toList = [Sample.people, saving Sample.body] ∧
    (ofSaving Sample.text).collected.toList = [Sample.people, saving Sample.text] := by
  decide +kernel

theorem differWithin_ofSaving : DifferWithin 8
    (Canonical.bytes (ofSaving Sample.body).collected.toList)
    (Canonical.bytes (ofSaving Sample.text).collected.toList) := by
  have hordered (field : Name) : Canonical.inNameOrder [Sample.people, saving field] =
      [Sample.people, saving field] := by
    have hnames : (compare Sample.people.name Sample.store.name).isLE = true := by decide +kernel
    exact List.mergeSort_of_pairwise (List.pairwise_pair.2 hnames)
  rw [collected_ofSaving.1, collected_ofSaving.2, Canonical.bytes_eq, Canonical.bytes_eq,
    Canonical.tree, Canonical.tree, hordered, hordered]
  refine ⟨?_, ?_, 253, ?_⟩ <;> decide +kernel

theorem altered_refused_sample :
    ofBytes [1, 2, 3, 4] ≠ ofBytes [1, 3, 2, 4] ∧
    Canonical.checksum [Sample.people, saving Sample.body] ≠
      Canonical.checksum [Sample.people, saving Sample.text] ∧
    Flow.accept (ofSaving Sample.text).collected =
      .ok (index (ofSaving Sample.text).collected) ∧
    ofJson (ofSaving Sample.text).json = .ok (ofSaving Sample.text) ∧
    ((snapshotOf (ofSaving Sample.text) none).run.run (Workspace.fresh "/work" "now")).1 =
      .error (.fault (.checksumMismatch (Canonical.checksum [Sample.people, saving Sample.body])
        (Canonical.checksum [Sample.people, saving Sample.text]))) := by
  have admitted : Admitted (ofSaving Sample.text).collected := by
    refine ⟨⟨?_, ?_, ?_⟩, ?_, ?_, ?_⟩ <;> decide +kernel
  have haccept := accept_eq_ok_iff.2 ⟨rfl, admitted⟩
  have hdocument : (ofSaving Sample.body).checksum =
      some (Canonical.checksum (ofSaving Sample.body).collected.toList) := by
    rw [collected_ofSaving.1]
    rfl
  obtain ⟨hbytes, hchecksums, hdocuments⟩ := altered_refused
  obtain ⟨hread, hrefused⟩ := hdocuments (ofSaving Sample.body) (ofSaving Sample.text) _ hdocument
    rfl differWithin_ofSaving haccept
  have hmismatch := (hrefused none (Workspace.fresh "/work" "now")).2.2 (ready_fresh _ _)
  have hchecksum := hchecksums _ _ differWithin_ofSaving
  rw [collected_ofSaving.1, collected_ofSaving.2] at hmismatch hchecksum
  exact ⟨hbytes [1] [2, 3] [3, 2] [4] rfl (by decide) (by decide), hchecksum, haccept, hread,
    hmismatch⟩

end Document

end Lineage
