import Lineage.Json.Printer
import Lineage.Json.Reader
import Lineage.Stored.Operation

/-!
# Documents

A document is the stored form of a snapshot: its operations, and perhaps the
program run that they come from and their checksum.  It is written as compact
JSON with every field present, and read from JSON text or from a data tree.
-/

namespace Lineage

structure Document where
  schemaVersion : Name
  programRun : Option String
  operations : List Operation
  checksum : Option Int
deriving DecidableEq

namespace Document

/-- The schema version of new documents. -/
def currentVersion : Name := ⟨"1.0", by decide⟩

def fieldNames : List String := ["schema_version", "program_run", "operations", "checksum"]

def toFields (document : Document) : List (String × Value) :=
  [("schema_version", .text document.schemaVersion.text),
    ("program_run", (document.programRun.map Value.text).getD .null),
    ("operations", .list (document.operations.map Operation.toValue)),
    ("checksum", (document.checksum.map Value.int).getD .null)]

def toValue (document : Document) : Value := .ofFields document.toFields

def ofValue (value : Value) : Check Document := do
  let fields ← Check.record "LineageDocument" value
  let ((schemaVersion, programRun, operations, checksum), ()) ←
    ((Check.optional fields "schema_version" currentVersion Check.name).zip
      ((Check.optional fields "program_run" none (Check.nullable Check.text)).zip
        ((Check.optional fields "operations" [] Operation.listOfValue).zip
          (Check.optional fields "checksum" none (Check.nullable Check.integer))))).zip
      (Check.closed fields fieldNames)
  return ⟨schemaVersion, programRun, operations, checksum⟩

/-- The document as JSON text. -/
def json (document : Document) : String := Json.compact document.toValue

/-- The document that a JSON text holds. -/
def ofJson (text : String) : Check Document :=
  match Json.read? Json.documentLimits text with
  | some value => ofValue value
  | none => Check.fail .notJson

end Document

end Lineage
