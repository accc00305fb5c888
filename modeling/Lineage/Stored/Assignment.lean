import Lineage.Stored.Document

/-!
# Setting fields

Endpoints, fields and operations cannot be changed once they are there.  A
document can: each of its fields takes any data, which is not checked again.  A
name that begins with an underscore is the name of no field.  Whatever is set
under it is kept beside the data and never shown, so that nothing changes.
-/

namespace Lineage

/-- What comes of setting a field to some data. -/
inductive Assignment where
  /-- The data is there from now on, and this is the record that is shown. -/
  | done (shown : Value)
  | frozen
  | noField
  /-- The name stands for something that is worked out from the data. -/
  | derived
deriving Repr

namespace Assignment

/-- Whether nothing that is shown goes by a name. -/
def isHidden (name : String) : Bool := name.startsWith "_"

/-- The names of what is worked out for a document. -/
def derivedNames : List String := ["model_extra", "model_fields_set"]

/-- Setting a field of data that cannot be changed and is shown by the given record. -/
def ofFrozen (shown : Value) (name : String) : Assignment :=
  if isHidden name then .done shown else .frozen

/-- Setting a field of a document. -/
def ofDocument (document : Document) (name : String) (value : Value) : Assignment :=
  if isHidden name then .done document.toValue
  else if derivedNames.contains name then .derived
  else if Document.fieldNames.contains name then
    .done (.ofFields (document.toFields.map fun entry =>
      if entry.1 = name then (name, value) else entry))
  else .noField

/-- The sentence for a field that cannot be set, if there is one. -/
def message? (model name : String) : Assignment → Option String
  | done _ | frozen => none
  | noField => some ("\"" ++ model ++ "\" object has no field \"" ++ name ++ "\"")
  | derived => some ("property '" ++ name ++ "' of '" ++ model ++ "' object has no setter")

end Assignment

end Lineage
