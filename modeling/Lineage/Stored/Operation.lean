import Lineage.Stored.Check

/-!
# Operations as data

How endpoints, inputs and operations are written as records and read back.
Fields are written in the order in which they are declared, sets as ascending
lists and a missing endpoint as null.  Reading accepts fields in any order,
refuses unknown ones and reports every issue; the field `type` says which kind
of operation a record holds.
-/

namespace Lineage

/-- A record whose fields are named by texts. -/
def Value.ofFields (fields : List (String × Value)) : Value :=
  .record (fields.map fun (name, value) => (.text name, value))

/-! ## Endpoints and fields -/

namespace Endpoint

def toValue (endpoint : Endpoint) : Value :=
  .ofFields [("namespace", .text endpoint.namespaceName.text), ("name", .text endpoint.name.text)]

def ofValue (value : Value) : Check Endpoint := do
  let fields ← Check.record "EndPoint" value
  let ((namespaceName, name), ()) ←
    ((Check.required fields "namespace" Check.name).zip
      (Check.required fields "name" Check.name)).zip
      (Check.closed fields ["namespace", "name"])
  return ⟨namespaceName, name⟩

/-- The endpoint with the given parts. -/
def ofParts (namespaceName name : Value) : Check Endpoint :=
  ofValue (.ofFields [("namespace", namespaceName), ("name", name)])

/-- An endpoint that may be missing. -/
def optionToValue : Option Endpoint → Value
  | some endpoint => endpoint.toValue
  | none => .null

end Endpoint

namespace EndpointField

def toValue (field : EndpointField) : Value :=
  .ofFields [("endpoint", field.endpoint.toValue), ("field", .text field.field.text)]

def ofValue (value : Value) : Check EndpointField := do
  let fields ← Check.record "EndPointField" value
  let ((endpoint, field), ()) ←
    ((Check.required fields "endpoint" Endpoint.ofValue).zip
      (Check.required fields "field" Check.name)).zip
      (Check.closed fields ["endpoint", "field"])
  return ⟨endpoint, field⟩

/-- The field with the given parts; the parts of the endpoint are looked at first. -/
def ofParts (namespaceName name field : Value) : Check EndpointField := do
  let endpoint ← Endpoint.ofParts namespaceName name
  let field ← Check.required [(.text "field", field)] "field" Check.name
  return ⟨endpoint, field⟩

end EndpointField

namespace FieldRef

def toValue (field : FieldRef) : Value :=
  .ofFields [("origin", .text field.origin.text), ("name", .text field.name.text)]

def ofValue (value : Value) : Check FieldRef := do
  let fields ← Check.record "InputField" value
  let ((origin, name), ()) ←
    ((Check.required fields "origin" Check.name).zip
      (Check.required fields "name" Check.name)).zip
      (Check.closed fields ["origin", "name"])
  return ⟨origin, name⟩

/-- The input with the given parts. -/
def ofParts (origin name : Value) : Check FieldRef :=
  ofValue (.ofFields [("origin", origin), ("name", name)])

end FieldRef

namespace Kind

/-- A kind, given by its word. -/
def ofValue : Value → Check Kind
  | .text label =>
    match ofLabel? label with
    | some kind => .ok kind
    | none => Check.fail .notKind
  | _ => Check.fail .notKind

end Kind

/-! ## Operations -/

namespace Heading

/-- The fields that every operation has. -/
def fieldNames : List String := ["name", "description"]

def toFields (heading : Heading) : List (String × Value) :=
  [("name", .text heading.name.text), ("description", .text heading.description)]

def toValue (heading : Heading) : Value := .ofFields heading.toFields

def ofFields (fields : List (Key × Value)) : Check Heading := do
  let (name, description) ←
    (Check.required fields "name" Check.name).zip (Check.optional fields "description" "" Check.text)
  return ⟨name, description⟩

/-- The heading alone, without any role. -/
def ofValue (value : Value) : Check Heading := do
  let fields ← Check.record "Operation" value
  let (heading, ()) ← (ofFields fields).zip (Check.closed fields fieldNames)
  return heading

end Heading

namespace Role

def textSet (texts : SortedSet String) : Value := .list (texts.toList.map .text)

def fieldSet (fields : SortedSet FieldRef) : Value := .list (fields.toList.map FieldRef.toValue)

def toFields (role : Role) : List (String × Value) :=
  ("type", .text role.kind.label) ::
    match role with
    | read source outputs =>
      [("source", Endpoint.optionToValue source), ("outputs", textSet outputs)]
    | transform inputs outputs => [("inputs", fieldSet inputs), ("outputs", textSet outputs)]
    | write destination inputs =>
      [("destination", Endpoint.optionToValue destination), ("inputs", fieldSet inputs)]

end Role

namespace Kind

/-- The name of the model that an operation of a kind is read as. -/
def modelName : Kind → String
  | read => "ReadOperation"
  | transform => "TransformOperation"
  | write => "WriteOperation"

/-- The fields of the role of a kind. -/
def fieldNames : Kind → List String
  | read => ["type", "source", "outputs"]
  | transform => ["type", "inputs", "outputs"]
  | write => ["type", "destination", "inputs"]

/-- The role of a known kind; the word for the kind may be absent. -/
def roleOfFields (kind : Kind) (fields : List (Key × Value)) : Check Role := do
  let label := Check.optional fields "type" kind.label (Check.oneOf [kind.label])
  let inputs := Check.optional fields "inputs" ∅ (Check.set FieldRef.ofValue)
  let outputs := Check.optional fields "outputs" ∅ (Check.set Check.text)
  match kind with
  | read =>
    let source := Check.optional fields "source" none (Check.nullable Endpoint.ofValue)
    let (_, source, outputs) ← label.zip (source.zip outputs)
    return .read source outputs
  | transform =>
    let (_, inputs, outputs) ← label.zip (inputs.zip outputs)
    return .transform inputs outputs
  | write =>
    let destination := Check.optional fields "destination" none (Check.nullable Endpoint.ofValue)
    let (_, destination, inputs) ← label.zip (destination.zip inputs)
    return .write destination inputs

end Kind

namespace Operation

def toValue (operation : Operation) : Value :=
  .ofFields (operation.toHeading.toFields ++ operation.role.toFields)

/-- An operation of a known kind. -/
def ofKind (kind : Kind) (value : Value) : Check Operation := do
  let fields ← Check.record kind.modelName value
  let ((heading, role), ()) ←
    ((Heading.ofFields fields).zip (kind.roleOfFields fields)).zip
      (Check.closed fields (Heading.fieldNames ++ kind.fieldNames))
  return ⟨heading, role⟩

/-- An operation of the kind that its field `type` says. -/
def ofValue : Value → Check Operation
  | .record fields =>
    match Value.lookup? fields "type" with
    | none => Check.fail .noTag
    | some tag =>
      match tag with
      | .text label =>
        match Kind.ofLabel? label with
        | some kind => (ofKind kind (.record fields)).under (.key kind.label)
        | none => Check.fail (.wrongTag label)
      | tag => Check.fail (.wrongTag tag.display)
  | _ => Check.fail .notOperation

/-- A list of operations. -/
def listOfValue : Value → Check (List Operation) := Check.list ofValue

end Operation

end Lineage
