import Lineage.Canonical
import Lineage.Proofs.Stored.Operation
import Lineage.Stored.Document

/-!
# A document is read from its own text

The record of a document is read as this document, and its JSON text as this
record, since it is nested no deeper than texts may be and all the integers in
it are its checksum.  What a text may hold is limited, though: a checksum of
more than 4300 digits is written but not read.  Data may have one, and so may a
YAML text, where an integer of any size can be given in hexadecimal digits.
-/

namespace Lineage.Document

open Json

variable (document : Document)

/-! ## Data -/

theorem nullable_programRun (programRun : Option String) :
    Check.nullable Check.text ((programRun.map Value.text).getD .null) = .ok programRun :=
  Check.nullable_map (fun _ _ => rfl) (fun _ h => nomatch h)

theorem nullable_checksum (checksum : Option Int) :
    Check.nullable Check.integer ((checksum.map Value.int).getD .null) = .ok checksum :=
  Check.nullable_map (fun _ _ => rfl) (fun _ h => nomatch h)

/-- The fields of the record of a document whose operations are still listings. -/
def allFields (listings : List Listing) : List (String × Value) :=
  [("schema_version", .text document.schemaVersion.text),
    ("program_run", (document.programRun.map Value.text).getD .null),
    ("operations", .list (listings.map Listing.toValue)),
    ("checksum", (document.checksum.map Value.int).getD .null)]

/-- The record is read as the document with the operations that the listings are read as. -/
theorem ofValue_allFields (listings : List Listing) :
    ofValue (.ofFields (document.allFields listings)) =
      .ok { document with operations := listings.map Listing.collected } := by
  let fields := document.allFields listings
  have hversion : fields.lookup "schema_version" = some (.text document.schemaVersion.text) := rfl
  have hrun : fields.lookup "program_run" =
      some ((document.programRun.map Value.text).getD .null) := rfl
  have hoperations : fields.lookup "operations" = some (.list (listings.map Listing.toValue)) := rfl
  have hchecksum : fields.lookup "checksum" =
      some ((document.checksum.map Value.int).getD .null) := rfl
  have hclosed : Check.closed (Value.named fields) fieldNames = .ok () :=
    Check.closed_named (by simp [fields, allFields, fieldNames])
  rw [ofValue, Check.record_ofFields, Check.ok_bind,
    Check.optional_named hversion (Check.name_text _),
    Check.optional_named hrun (nullable_programRun _),
    Check.optional_named hoperations (Listing.listOfValue_map _),
    Check.optional_named hchecksum (nullable_checksum _), hclosed]
  rfl

theorem toFields_eq :
    document.toFields = document.allFields (document.operations.map Operation.listed) := by
  simp [toFields, allFields, Function.comp_def, Operation.toValue_listed]

/-- A document is read from its own record. -/
theorem ofValue_toValue : ofValue document.toValue = .ok document := by
  rw [toValue, toFields_eq, ofValue_allFields]
  simp [Function.comp_def, Operation.collected_listed]

/-! ## Text -/

theorem storable_getD_null {α : Type} {write : α → Value} {depth : Nat} (item : Option α)
    (hwrite : ∀ a, Storable depth (write a)) : Storable depth ((item.map write).getD .null) := by
  cases item with
  | none => exact .null
  | some a => exact hwrite a

theorem storable (depth : Nat) : Storable (depth + 5) document.toValue := by
  apply Storable.record
  · simp [toFields]
  · simp only [toFields, List.forall_mem_cons]
    refine ⟨.text _, storable_getD_null _ fun _ => .text _, .list ?_,
      storable_getD_null _ fun _ => .int _, List.forall_mem_nil _⟩
    intro item hitem
    obtain ⟨operation, -, rfl⟩ := List.mem_map.1 hitem
    exact operation.storable _

/-- The only integer in a document is its checksum. -/
theorem forall_integers {p : Int → Prop} :
    (∀ n ∈ document.toValue.integers, p n) ↔ ∀ n, document.checksum = some n → p n := by
  have hrun : ((document.programRun.map Value.text).getD .null).integers = [] := by
    cases document.programRun <;> rfl
  have hoperations : Value.integers (.list (document.operations.map Operation.toValue)) = [] := by
    simp [Value.integers_list_eq_nil_iff, Operation.integers_toValue]
  have hchecksum : ((document.checksum.map Value.int).getD .null).integers =
      document.checksum.toList := by
    cases document.checksum <;> rfl
  rw [toValue, Value.forall_integers_ofFields]
  simp [toFields, hrun, hoperations, hchecksum]

/-- Whether a document fits into the allowed width, only its checksum tells. -/
theorem fits_toValue {width : Nat} : Fits width document.toValue ↔
    ∀ n, document.checksum = some n → (Nat.toDigits 10 n.natAbs).length ≤ width :=
  document.forall_integers

/-- A document whose checksum is not too long is read from its own text, and any other one is
refused as no JSON. -/
theorem ofJson_json : ofJson document.json =
    if ∀ n, document.checksum = some n →
        (Nat.toDigits 10 n.natAbs).length ≤ documentLimits.width then .ok document
    else Check.fail .notJson := by
  have hdepth : Storable documentLimits.depth document.toValue := document.storable 195
  have hread := hdepth.read?_write readable_compact documentLimits
  by_cases hfits : Fits documentLimits.width document.toValue
  · rw [if_pos hfits] at hread
    rw [if_pos (document.fits_toValue.1 hfits), ofJson, json, compact, hread]
    exact document.ofValue_toValue
  · rw [if_neg hfits] at hread
    rw [if_neg fun hall => hfits (document.fits_toValue.2 hall), ofJson, json, compact, hread]

/-! ## The width of a checksum -/

/-- A fingerprint has 64 bits, so it is never too long. -/
theorem length_checksum_le (operations : List Operation) :
    (Nat.toDigits 10 (Canonical.checksum operations).natAbs).length ≤ documentLimits.width := by
  let word := Fingerprint.register (Canonical.text operations).toUTF8.toList
  have hlow : -2 ^ 63 ≤ word.toBitVec.toInt := BitVec.le_toInt word.toBitVec
  have hhigh : word.toBitVec.toInt < 2 ^ 63 := BitVec.toInt_lt
  have hbound : (Canonical.checksum operations).natAbs < 10 ^ 19 := by
    show word.toBitVec.toInt.natAbs < 10 ^ 19
    omega
  calc (Nat.toDigits 10 (Canonical.checksum operations).natAbs).length
      ≤ 19 := (Nat.length_toDigits_le_iff (by decide) (by decide)).2 hbound
    _ ≤ documentLimits.width := by decide

theorem lt_length_toDigits {width n : Nat} (hwidth : 0 < width) (hn : 10 ^ width ≤ n) :
    width < (Nat.toDigits 10 n).length := by
  rw [← not_le, Nat.length_toDigits_le_iff (by decide) hwidth]
  exact Nat.not_lt_of_le hn

/-- A document whose checksum is a one and 3600 zeros in hexadecimal digits. -/
def wide : Document := ⟨currentVersion, none, [], some (16 ^ 3600 : Nat)⟩

/-- It passes as data, but what is written of it is refused. -/
theorem wide_refused : ofValue wide.toValue = .ok wide ∧ ofJson wide.json = Check.fail .notJson ∧
    ¬ ∀ document : Document, ofJson document.json = .ok document := by
  have hlong : 4300 < (Nat.toDigits 10 (16 ^ 3600)).length :=
    lt_length_toDigits (by decide) (by decide +kernel)
  have hrefused : ofJson wide.json = Check.fail .notJson := by
    rw [ofJson_json, if_neg]
    intro hfits
    exact absurd (hfits _ rfl) (Nat.not_le_of_lt hlong)
  refine ⟨wide.ofValue_toValue, hrefused, fun hall => ?_⟩
  rw [hall wide] at hrefused
  cases hrefused

end Lineage.Document
