import Lineage.Fingerprint
import Lineage.Json.Printer
import Lineage.Stored.Operation

/-!
# The canonical form of operations

Operations are named, as a collection, by the compact JSON list of their
records in name order.  Every set in a record is written in ascending order, so
neither the order of the operations nor the order inside them leaves a trace.
The checksum of a collection is the fingerprint of its canonical text.
-/

namespace Lineage.Canonical

/-- The operations in name order; those of one name keep their order. -/
def inNameOrder (operations : List Operation) : List Operation :=
  operations.mergeSort fun a b => (compare a.name b.name).isLE

/-- The canonical form as a data tree. -/
def tree (operations : List Operation) : Value :=
  .list ((inNameOrder operations).map Operation.toValue)

/-- The canonical form. -/
def text (operations : List Operation) : String := Json.compact (tree operations)

/-- The fingerprint of the canonical form. -/
def checksum (operations : List Operation) : Int := Fingerprint.ofText (text operations)

end Lineage.Canonical
