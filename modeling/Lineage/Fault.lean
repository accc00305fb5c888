import Lineage.Sorted.Map
import Lineage.Text.Quoted

/-!
# Faults

What can be wrong with a collection of operations.  A fault is its cause with
the names that it is about; `Fault.label` and `Fault.message` are the two texts
it is reported by.  All faults but a cycle say that the collection is not a
valid snapshot; a cycle is found only when an order is asked for.
-/

namespace Lineage

/-- For every operation that a cycle holds back and that others consume, the names of these. -/
abbrev Residual := SortedMap String (SortedSet String)

/-- What is wrong with a collection of operations. -/
inductive Fault where
  /-- Two different operations share a name. -/
  | duplicateName (name : String)
  /-- A read has no source. -/
  | missingSource (operation : String)
  /-- A write has no destination. -/
  | missingDestination (operation : String)
  | noReads
  | noWrites
  /-- Inputs name origins that are no operations of the collection, here in ascending order. -/
  | unknownOrigins (origins : List String)
  /-- The checksum stored with operations is not theirs. -/
  | checksumMismatch (stored computed : Int)
  /-- The operations cannot be ordered. -/
  | cycle (residual : Residual)
  /-- A fault known by its text only. -/
  | unspecified (ofSnapshot : Bool) (text : String)
deriving DecidableEq

namespace Fault

/-- The fault of origins that name no operation, in any order. -/
def unknownOriginsOf (origins : List String) : Fault :=
  unknownOrigins (origins.mergeSort fun a b => (compare a b).isLE)

/-- Whether the fault says that a collection of operations is no valid snapshot. -/
def ofSnapshot : Fault → Bool
  | cycle _ => false
  | unspecified ofSnapshot _ => ofSnapshot
  | _ => true

/-- The word that a fault is reported under. -/
def label : Fault → String
  | duplicateName _ => "DuplicateOperationNameError"
  | missingSource _ => "MissingSourceEndpointError"
  | missingDestination _ => "MissingDestinationEndpointError"
  | noReads => "EmptyReadSetError"
  | noWrites => "EmptyWriteSetError"
  | unknownOrigins _ => "UnknownOriginError"
  | checksumMismatch .. => "ChecksumMismatchError"
  | cycle _ => "CycleDetectedError"
  | unspecified ofSnapshot _ => if ofSnapshot then "LineageValidationError" else "LineageError"

/-- One entry of a residual: a name and the names that wait for it. -/
def residualEntry (entry : String × SortedSet String) : String :=
  entry.1 ++ " -> " ++ Text.quotedList entry.2.toList

/-- The sentence that a fault is reported by. -/
def message : Fault → String
  | duplicateName name =>
    "All operations provided for creating field level lineage info must have unique names. " ++
      "Operation name '" ++ name ++ "' is repeated."
  | missingSource operation =>
    "Source endpoint cannot be null for the read operation '" ++ operation ++ "'."
  | missingDestination operation =>
    "Destination endpoint cannot be null for the write operation '" ++ operation ++ "'."
  | noReads => "Field level lineage requires at least one operation of type 'READ'."
  | noWrites => "Field level lineage requires at least one operation of type 'WRITE'."
  | unknownOrigins origins =>
    "No operation is associated with the origins " ++ Text.quotedList origins ++ "."
  | checksumMismatch stored computed =>
    "Stored checksum " ++ toString stored ++ " does not match computed checksum " ++
      toString computed ++ "."
  | cycle residual =>
    "Cycle detected in graph for operations \x7b" ++
      ", ".intercalate (residual.toList.map residualEntry) ++ "\x7d"
  | unspecified _ text => text

end Fault

end Lineage
