import Lineage.Value
import Lineage.Operation

/-!
# Issues

Data read into the model may have many faults at once, and all are reported.
An issue is a trouble and the path to where it is.  The medium is whether the
data was at hand as a tree or came as JSON text; some troubles are worded
differently for the two.
-/

namespace Lineage

/-- How data reached the reader. -/
inductive Medium where
  | tree
  | jsonText
deriving DecidableEq, Repr

/-- One step of the path to a part of a data tree. -/
inductive PathStep where
  | key (name : String)
  | index (n : Int)
deriving DecidableEq, Repr

/-- What can be wrong with one part of a data tree. -/
inductive Trouble where
  | missing
  | unknownField
  | fieldNotNamed
  | notText
  | emptyText
  | notSet
  | notList
  | notRecord (model : String)
  | notOperation
  | noTag
  | wrongTag (shown : String)
  | notOneOf (choices : List String)
  | notKind
  | notInteger
  | integerWithFraction
  | integerNotFinite
  | notIntegerText
  | integerTooLarge
  | notBool
  | unclearBool
  | frozen
  | notJson
deriving DecidableEq, Repr

/-- A trouble and where it is. -/
structure Issue where
  path : List PathStep
  trouble : Trouble
deriving DecidableEq, Repr

namespace Trouble

/-- Choices between single quotes, the last two joined by a word. -/
def choiceText : List String → String
  | [] => ""
  | [only] => "'" ++ only ++ "'"
  | [first, last] => "'" ++ first ++ "' or '" ++ last ++ "'"
  | first :: rest => "'" ++ first ++ "', " ++ choiceText rest

/-- The word for a trouble. -/
def label (medium : Medium) : Trouble → String
  | missing => "missing"
  | unknownField => "extra_forbidden"
  | fieldNotNamed => "invalid_key"
  | notText => "string_type"
  | emptyText => "string_too_short"
  | notSet => "frozen_set_type"
  | notList => "list_type"
  | notRecord _ => "model_type"
  | notOperation =>
    match medium with
    | .tree => "model_attributes_type"
    | .jsonText => "dict_type"
  | noTag => "union_tag_not_found"
  | wrongTag _ => "union_tag_invalid"
  | notOneOf _ => "literal_error"
  | notKind => "enum"
  | notInteger => "int_type"
  | integerWithFraction => "int_from_float"
  | integerNotFinite => "finite_number"
  | notIntegerText => "int_parsing"
  | integerTooLarge => "int_parsing_size"
  | notBool => "bool_type"
  | unclearBool => "bool_parsing"
  | frozen => "frozen_instance"
  | notJson => "json_invalid"

/-- The sentence for a trouble. -/
def message (medium : Medium) : Trouble → String
  | missing => "Field required"
  | unknownField => "Extra inputs are not permitted"
  | fieldNotNamed => "Keys should be strings"
  | notText => "Input should be a valid string"
  | emptyText => "String should have at least 1 character"
  | notSet =>
    match medium with
    | .tree => "Input should be a valid frozenset"
    | .jsonText => "Input should be a valid array"
  | notList =>
    match medium with
    | .tree => "Input should be a valid list"
    | .jsonText => "Input should be a valid array"
  | notRecord model =>
    match medium with
    | .tree => "Input should be a valid dictionary or instance of " ++ model
    | .jsonText => "Input should be an object"
  | notOperation =>
    match medium with
    | .tree => "Input should be a valid dictionary or object to extract fields from"
    | .jsonText => "Input should be an object"
  | noTag => "Unable to extract tag using discriminator 'type'"
  | wrongTag shown =>
    "Input tag '" ++ shown ++ "' found using 'type' does not match any of the expected tags: " ++
      "'read', 'transform', 'write'"
  | notOneOf choices => "Input should be " ++ choiceText choices
  | notKind => "Input should be " ++ choiceText ["read", "transform", "write"]
  | notInteger => "Input should be a valid integer"
  | integerWithFraction =>
    "Input should be a valid integer, got a number with a fractional part"
  | integerNotFinite => "Input should be a finite number"
  | notIntegerText =>
    "Input should be a valid integer, unable to parse string as an integer"
  | integerTooLarge => "Unable to parse input string as an integer, exceeded maximum size"
  | notBool => "Input should be a valid boolean"
  | unclearBool => "Input should be a valid boolean, unable to interpret input"
  | frozen => "Instance is frozen"
  | notJson => "Invalid JSON"

end Trouble

end Lineage
