import Lineage.Proofs.Workspace.Loading
import Lineage.Proofs.Yaml.Listings
import Lineage.Proofs.Yaml.Reader

/-!
# Documents from JSON, read as YAML

A document is loaded as YAML also where it was written as JSON.  Its record has
named fields only and no integer but the checksum, so what is read depends on its
texts alone, and on how long the checksum is.  The document comes back just if its
texts stay what they are in YAML and the checksum is not too long
(`loads_json_iff`).
-/

namespace Lineage

open Json Yaml

/-! ## The names of fields -/

theorem Endpoint.worded_optionToValue (endpoint : Option Endpoint) :
    Worded (optionToValue endpoint) := by
  have hwords : isWord "namespace" = true ∧ isWord "name" = true := by decide
  cases endpoint with
  | none => exact worded_null
  | some endpoint => simp [optionToValue, toValue, worded_ofFields, hwords]

theorem Role.worded_textSet (texts : SortedSet String) : Worded (textSet texts) := by
  simp [textSet, worded_list]

theorem Role.worded_fieldSet (fields : SortedSet FieldRef) : Worded (fieldSet fields) := by
  have hwords : isWord "origin" = true ∧ isWord "name" = true := by decide
  simp [fieldSet, FieldRef.toValue, worded_list, worded_ofFields, hwords]

theorem Role.worded_toFields (role : Role) :
    ∀ field ∈ role.toFields, isWord field.1 = true ∧ Worded field.2 := by
  have htype : isWord "type" = true := by decide
  have hread : isWord "source" = true ∧ isWord "outputs" = true := by decide
  have hwrite : isWord "destination" = true ∧ isWord "inputs" = true := by decide
  cases role <;>
    simp [toFields, Endpoint.worded_optionToValue, worded_textSet, worded_fieldSet, htype, hread,
      hwrite]

theorem Operation.worded (operation : Operation) : Worded operation.toValue := by
  have hheading : isWord "name" = true ∧ isWord "description" = true := by decide
  rw [toValue, worded_ofFields, List.forall_mem_append]
  exact ⟨by simp [Heading.toFields, hheading], operation.role.worded_toFields⟩

namespace Document

open Workspace

variable (document : Document)

theorem worded : Worded document.toValue := by
  have hwords : ∀ name ∈ fieldNames, isWord name = true := by decide
  have hrun : Worded ((document.programRun.map Value.text).getD .null) := by
    cases document.programRun <;> simp
  have hoperations : Worded (.list (document.operations.map Operation.toValue)) := by
    simp [worded_list, Operation.worded]
  have hchecksum : Worded ((document.checksum.map Value.int).getD .null) := by
    cases document.checksum <;> simp
  simp only [fieldNames, List.forall_mem_cons] at hwords
  simp [toValue, worded_ofFields, toFields, hwords, hrun, hoperations, hchecksum]

/-! ## Loading -/

theorem ofYaml_of_read {text : String} {fields : List (String × Value)}
    (h : Yaml.read text = .ok (.ofFields fields)) (path : Option Path) :
    ofYaml path text = (ofValue (.ofFields fields)).mapError (.issues .tree) := by
  rw [ofYaml, h]
  rfl

/-- From the JSON text of a document the one in its rereading is read, if it is legible, and nothing
else. -/
theorem ofYaml_json_eq_ok_iff {path : Option Path} {found : Document} :
    ofYaml path document.json = .ok found ↔ Legible document.toValue ∧
      ∃ read, document.toValue.reread = .ok read ∧ ofValue read = .ok found := by
  have hread {value : Value} : Yaml.read document.json = .ok value ↔
      Legible document.toValue ∧ document.toValue.reread = .ok value :=
    read_compact_eq_ok_iff (document.storable 0) document.worded
  constructor
  · intro h
    cases hjson : Yaml.read document.json with
    | error fault => simp [ofYaml, hjson] at h
    | ok value =>
        obtain ⟨hlegible, hreread⟩ := hread.1 hjson
        obtain ⟨fields, -, rfl⟩ := Value.reread_ofFields_eq_ok_iff.1 hreread
        rw [ofYaml_of_read hjson, mapError_eq_ok_iff] at h
        exact ⟨hlegible, _, hreread, h⟩
  · rintro ⟨hlegible, value, hreread, hvalue⟩
    obtain ⟨fields, -, rfl⟩ := Value.reread_ofFields_eq_ok_iff.1 hreread
    rw [ofYaml_of_read (hread.2 ⟨hlegible, hreread⟩), mapError_eq_ok_iff]
    exact hvalue

/-- It is the document itself just if there is nothing to fold in its texts. -/
theorem ofYaml_json_eq_self_iff {path : Option Path} :
    ofYaml path document.json = .ok document ↔ Legible document.toValue ∧
      ∀ s ∈ document.toValue.texts, unfolded s.toList = true := by
  rw [ofYaml_json_eq_ok_iff, ← Value.reread_eq_self_iff (document.storable 0)]
  refine and_congr_right fun _ => ⟨?_, fun hreread => ⟨_, hreread, document.ofValue_toValue⟩⟩
  rintro ⟨read, hreread, hvalue⟩
  rw [hreread, eq_toValue_of_reread hreread hvalue]

/-- Whether a text stays what it is between double quotes. -/
def stays (s : String) : Bool := isLegible s.toList && unfolded s.toList

/-- A document comes back from its JSON text just if its texts stay what they are in YAML and its
checksum has no more digits than are read. -/
theorem loads_json_iff (workspace : Workspace) :
    (loadText document.json).run.run workspace = (.ok document, workspace) ↔
      (∀ s ∈ document.toValue.texts, stays s = true) ∧
        ∀ n, document.checksum = some n → (Nat.toDigits 10 n.natAbs).length ≤ 4300 := by
  have hload : (loadText document.json).run.run workspace = (.ok document, workspace) ↔
      ofYaml none document.json = .ok document := by
    rw [Prod.ext_iff, and_iff_left (run_loadText_snd _ workspace)]
    exact result_loadText_eq_ok_iff
  have hlegible : Legible document.toValue ↔
      (∀ s ∈ document.toValue.texts, isLegible s.toList = true) ∧
        ∀ n, document.checksum = some n → (Nat.toDigits 10 n.natAbs).length ≤ 4300 := by
    rw [← document.forall_integers]
    exact ⟨fun h => ⟨h.texts, h.integers⟩, fun h => ⟨h.1, h.2⟩⟩
  rw [hload, ofYaml_json_eq_self_iff, hlegible, and_right_comm, ← forall₂_and]
  simp only [stays, Bool.and_eq_true]

/-- With an illegible text in a document, its JSON text is refused. -/
theorem refuses_json {s : String} (hs : s ∈ document.toValue.texts)
    (hillegible : isLegible s.toList = false) (workspace : Workspace) :
    (loadText document.json).run.run workspace = (.error (.unreadable .malformed), workspace) := by
  have hread : Yaml.read document.json = .error .malformed :=
    read_compact_of_illegible (document.storable 0) document.worded hs hillegible
  rw [loadText, ofYaml, hread]
  rfl

/-- A document of the run U+007F, which JSON writes as itself and YAML does not allow. -/
def deleted : Document := ⟨currentVersion, some "\x7f", [], none⟩

/-- A document in whose run U+0085 stands. -/
def nextLine : Document := ⟨currentVersion, some "line\x85line", [], none⟩

/-- JSON reads both documents from their texts; as YAML the one is refused and the other altered. -/
theorem loads_otherwise : ofJson deleted.json = .ok deleted ∧ ofJson nextLine.json = .ok nextLine ∧
    ((loadText deleted.json).run.run (Workspace.fresh "/work" "now")).1 =
      .error (.unreadable .malformed) ∧
    ((loadText nextLine.json).run.run (Workspace.fresh "/work" "now")).1 =
      .ok { nextLine with programRun := some "line line" } := by
  refine ⟨?_, ?_, ?_, ?_⟩
  · rw [ofJson_json, if_pos (fun n hn => nomatch hn)]
  · rw [ofJson_json, if_pos (fun n hn => nomatch hn)]
  · have hmem : "\x7f" ∈ deleted.toValue.texts := by decide
    rw [refuses_json deleted hmem (by decide)]
  · have hread : (ofYaml none nextLine.json).toOption =
        some { nextLine with programRun := some "line line" } := by decide +kernel
    rw [loadText]
    cases hloaded : ofYaml none nextLine.json with
    | error failure => simp [hloaded, Except.toOption] at hread
    | ok document =>
        rw [hloaded] at hread
        obtain rfl := Option.some.inj hread
        rfl

end Document

end Lineage
