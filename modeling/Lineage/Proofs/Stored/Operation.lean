import Lineage.Proofs.Json.Trees

/-!
# An operation is read from its record

The record of an operation has exactly the fields that its kind knows, each
under its own name, so that nothing is missing and nothing is refused; the word
for the kind leads back to the kind.

In data the inputs and outputs of an operation are lists.  A `Listing` is an
operation whose fields are still listed, in some order and perhaps more than
once.  Its record is read as the operation that has these fields as sets.  The
record that is written for an operation is that of the listing in which each set
is in its own order, so it is read as this operation.
-/

namespace Lineage

/-! ## Checks of well-formed parts -/

@[simp] theorem Value.lookup?_named (fields : List (String × Value)) (name : String) :
    lookup? (named fields) name = fields.lookup name := by
  induction fields with
  | nil => rfl
  | cons field fields ih =>
      rw [lookup?] at ih
      rw [named_cons, lookup?, List.findSome?_cons, ih, List.lookup_cons]
      by_cases hname : field.1 = name
      · simp [hname]
      · have hother : (name == field.1) = false := by simp [Ne.symm hname]
        simp [hname, hother]

namespace Check

variable {α : Type}

@[simp] theorem record_ofFields (model : String) (fields : List (String × Value)) :
    record model (.ofFields fields) = .ok (Value.named fields) :=
  rfl

theorem closed_named {fields : List (String × Value)} {known : List String}
    (hknown : ∀ name ∈ fields.map Prod.fst, name ∈ known) :
    closed (Value.named fields) known = .ok () := by
  have hnone : (Value.named fields).filter
      (fun entry => !known.any fun name => entry.1 == .text name) = [] := by
    rw [List.filter_eq_nil_iff]
    intro entry hentry
    obtain ⟨field, hfield, rfl⟩ := List.mem_map.1 hentry
    have hmem : field.1 ∈ known := hknown _ (List.mem_map_of_mem hfield)
    simpa using hmem
  rw [closed, hnone]

theorem text_text (s : String) : Check.text (.text s) = .ok s := rfl

theorem ok_bind {β : Type} (a : α) (next : α → Check β) : (.ok a : Check α) >>= next = next a :=
  rfl

theorem required_named {fields : List (String × Value)} {name : String} {value : Value}
    {check : Value → Check α} {a : α} (hlookup : fields.lookup name = some value)
    (hread : check value = .ok a) : required (Value.named fields) name check = .ok a := by
  simp [required, hlookup, hread, under]

theorem optional_named {fields : List (String × Value)} {name : String} {value : Value}
    {default : α} {check : Value → Check α} {a : α} (hlookup : fields.lookup name = some value)
    (hread : check value = .ok a) : optional (Value.named fields) name default check = .ok a := by
  simp [optional, hlookup, hread, under]

theorem each_map {β : Type} {check : Value → Check α} {write : β → Value} {result : β → α}
    {items : List β} (hread : ∀ item ∈ items, check (write item) = .ok (result item))
    (index : Int) : each check index (items.map write) = .ok (items.map result) := by
  induction items generalizing index with
  | nil => rfl
  | cons item items ih =>
      have hitem : check (write item) = .ok (result item) := hread item (by simp)
      have hitems := ih (fun item hmem => hread item (List.mem_cons_of_mem _ hmem)) (index + 1)
      rw [List.map_cons, each, hitem, hitems]
      rfl

theorem set_map [Ord α] [Std.TransOrd α] [Std.LawfulEqOrd α] {check : Value → Check α}
    {write : α → Value} {items : List α} (hread : ∀ item ∈ items, check (write item) = .ok item) :
    set check (.list (items.map write)) = .ok (.ofList items) := by
  have hitems : each check 0 (items.map write) = .ok (items.map id) := each_map hread 0
  rw [set, hitems, List.map_id]
  rfl

@[simp] theorem name_text (name : Name) : Check.name (.text name.text) = .ok name := by
  simp [Check.name]

theorem nullable_map {check : Value → Check α} {write : α → Value} {item : Option α}
    (hread : ∀ a, item = some a → check (write a) = .ok a)
    (hnull : ∀ a, write a ≠ .null) :
    nullable check ((item.map write).getD .null) = .ok item := by
  cases item with
  | none => rfl
  | some a =>
      have hwrite : nullable check (write a) = (check (write a)).map some := by
        rw [nullable]
        exact hnull a
      rw [Option.map_some, Option.getD_some, hwrite, hread a rfl]
      rfl

end Check

/-! ## Endpoints and inputs -/

theorem Endpoint.ofValue_toValue (endpoint : Endpoint) :
    ofValue endpoint.toValue = .ok endpoint := by
  rw [ofValue, toValue, Check.record_ofFields, Check.ok_bind,
    Check.required_named rfl (Check.name_text endpoint.namespaceName),
    Check.required_named rfl (Check.name_text endpoint.name), Check.closed_named (by simp)]
  rfl

theorem FieldRef.ofValue_toValue (field : FieldRef) : ofValue field.toValue = .ok field := by
  rw [ofValue, toValue, Check.record_ofFields, Check.ok_bind,
    Check.required_named rfl (Check.name_text field.origin),
    Check.required_named rfl (Check.name_text field.name), Check.closed_named (by simp)]
  rfl

theorem Endpoint.nullable_optionToValue (endpoint : Option Endpoint) :
    Check.nullable ofValue (optionToValue endpoint) = .ok endpoint := by
  cases endpoint with
  | none => rfl
  | some endpoint =>
      rw [optionToValue, Check.nullable, ofValue_toValue]
      · rfl
      · simp [toValue, Value.ofFields]

/-! ## Listings -/

theorem Kind.ofLabel?_label (kind : Kind) : ofLabel? kind.label = some kind := by
  cases kind <;> decide

theorem Kind.oneOf_label (kind : Kind) :
    Check.oneOf [kind.label] (.text kind.label) = .ok kind.label := by
  simp [Check.oneOf]

/-- What an operation does, and the fields on which it does it as they are listed. -/
inductive ListedRole where
  | read (source : Option Endpoint) (outputs : List String)
  | transform (inputs : List FieldRef) (outputs : List String)
  | write (destination : Option Endpoint) (inputs : List FieldRef)

/-- An operation with its fields as they are listed. -/
structure Listing extends Heading where
  role : ListedRole

namespace ListedRole

/-- The role with the listed fields as sets. -/
def collected : ListedRole → Role
  | read source outputs => .read source (.ofList outputs)
  | transform inputs outputs => .transform (.ofList inputs) (.ofList outputs)
  | write destination inputs => .write destination (.ofList inputs)

def texts (listed : List String) : Value := .list (listed.map .text)

def fields (listed : List FieldRef) : Value := .list (listed.map FieldRef.toValue)

def toFields (role : ListedRole) : List (String × Value) :=
  ("type", .text role.collected.kind.label) ::
    match role with
    | read source outputs =>
      [("source", Endpoint.optionToValue source), ("outputs", texts outputs)]
    | transform inputs outputs => [("inputs", fields inputs), ("outputs", texts outputs)]
    | write destination inputs =>
      [("destination", Endpoint.optionToValue destination), ("inputs", fields inputs)]

theorem set_texts (listed : List String) :
    Check.set Check.text (texts listed) = .ok (.ofList listed) :=
  Check.set_map fun _ _ => rfl

theorem set_fields (listed : List FieldRef) :
    Check.set FieldRef.ofValue (fields listed) = .ok (.ofList listed) :=
  Check.set_map fun field _ => field.ofValue_toValue

end ListedRole

namespace Listing

variable (listing : Listing)

/-- The operation with the listed fields as sets. -/
def collected : Operation := ⟨listing.toHeading, listing.role.collected⟩

/-- The fields of the record of a listing. -/
def allFields : List (String × Value) := listing.toHeading.toFields ++ listing.role.toFields

def toValue : Value := .ofFields listing.allFields

theorem toValue_eq : listing.toValue = .record (Value.named listing.allFields) := rfl

theorem ofFields_allFields :
    Heading.ofFields (Value.named listing.allFields) = .ok listing.toHeading := by
  have hname : listing.allFields.lookup "name" = some (.text listing.name.text) := rfl
  have hdescription : listing.allFields.lookup "description" =
      some (.text listing.description) := rfl
  rw [Heading.ofFields, Check.required_named hname (Check.name_text _),
    Check.optional_named hdescription (Check.text_text _)]
  rfl

theorem roleOfFields_allFields :
    listing.role.collected.kind.roleOfFields (Value.named listing.allFields) =
      .ok listing.role.collected := by
  obtain ⟨heading, role⟩ := listing
  -- by the kind, since each reads fields of its own and in its own order
  cases role with
  | read source outputs =>
      let fields := allFields ⟨heading, .read source outputs⟩
      have hlabel : fields.lookup "type" = some (.text Kind.read.label) := rfl
      have hsource : fields.lookup "source" = some (Endpoint.optionToValue source) := rfl
      have houtputs : fields.lookup "outputs" = some (ListedRole.texts outputs) := rfl
      simp only [Kind.roleOfFields, ListedRole.collected, Role.kind]
      rw [Check.optional_named hlabel (Kind.oneOf_label .read),
        Check.optional_named hsource (Endpoint.nullable_optionToValue source),
        Check.optional_named houtputs (ListedRole.set_texts outputs)]
      rfl
  | transform inputs outputs =>
      let fields := allFields ⟨heading, .transform inputs outputs⟩
      have hlabel : fields.lookup "type" = some (.text Kind.transform.label) := rfl
      have hinputs : fields.lookup "inputs" = some (ListedRole.fields inputs) := rfl
      have houtputs : fields.lookup "outputs" = some (ListedRole.texts outputs) := rfl
      simp only [Kind.roleOfFields, ListedRole.collected, Role.kind]
      rw [Check.optional_named hlabel (Kind.oneOf_label .transform),
        Check.optional_named hinputs (ListedRole.set_fields inputs),
        Check.optional_named houtputs (ListedRole.set_texts outputs)]
      rfl
  | write destination inputs =>
      let fields := allFields ⟨heading, .write destination inputs⟩
      have hlabel : fields.lookup "type" = some (.text Kind.write.label) := rfl
      have hdestination : fields.lookup "destination" = some (Endpoint.optionToValue destination) := rfl
      have hinputs : fields.lookup "inputs" = some (ListedRole.fields inputs) := rfl
      simp only [Kind.roleOfFields, ListedRole.collected, Role.kind]
      rw [Check.optional_named hlabel (Kind.oneOf_label .write),
        Check.optional_named hdestination (Endpoint.nullable_optionToValue destination),
        Check.optional_named hinputs (ListedRole.set_fields inputs)]
      rfl

theorem closed_allFields :
    Check.closed (Value.named listing.allFields)
      (Heading.fieldNames ++ listing.role.collected.kind.fieldNames) = .ok () := by
  apply Check.closed_named
  obtain ⟨heading, role⟩ := listing
  cases role <;>
    simp [allFields, Heading.toFields, ListedRole.toFields, Heading.fieldNames, Kind.fieldNames,
      ListedRole.collected, Role.kind]

theorem ofKind_toValue :
    Operation.ofKind listing.role.collected.kind listing.toValue = .ok listing.collected := by
  rw [toValue_eq, Operation.ofKind, Check.record, Check.ok_bind, ofFields_allFields,
    roleOfFields_allFields, closed_allFields]
  rfl

/-- The record of a listing is read as the operation with the listed fields as sets. -/
theorem ofValue_toValue : Operation.ofValue listing.toValue = .ok listing.collected := by
  have hlabel : listing.allFields.lookup "type" =
      some (.text listing.role.collected.kind.label) := rfl
  have hkind := listing.ofKind_toValue
  rw [toValue_eq] at hkind ⊢
  simp only [Operation.ofValue, Value.lookup?_named, hlabel, Kind.ofLabel?_label, hkind]
  rfl

theorem listOfValue_map (listings : List Listing) :
    Operation.listOfValue (.list (listings.map toValue)) = .ok (listings.map collected) :=
  Check.each_map (fun listing _ => listing.ofValue_toValue) 0

end Listing

/-! ## Operations -/

namespace Role

/-- The listing of a role in which each set is in its own order. -/
def listed : Role → ListedRole
  | read source outputs => .read source outputs.toList
  | transform inputs outputs => .transform inputs.toList outputs.toList
  | write destination inputs => .write destination inputs.toList

theorem collected_listed (role : Role) : role.listed.collected = role := by
  cases role <;> simp only [listed, ListedRole.collected, SortedSet.ofList_toList]

theorem toFields_listed (role : Role) : role.listed.toFields = role.toFields := by
  simp only [ListedRole.toFields, collected_listed]
  cases role <;> rfl

end Role

namespace Operation

/-- The listing of an operation in which each set is in its own order. -/
def listed (operation : Operation) : Listing := ⟨operation.toHeading, operation.role.listed⟩

theorem collected_listed (operation : Operation) : operation.listed.collected = operation := by
  rw [listed, Listing.collected, operation.role.collected_listed]

theorem toValue_listed (operation : Operation) : operation.listed.toValue = operation.toValue := by
  rw [Listing.toValue, Listing.allFields, listed, operation.role.toFields_listed, toValue]

/-- An operation is read from its own record. -/
theorem ofValue_toValue (operation : Operation) : ofValue operation.toValue = .ok operation := by
  rw [← toValue_listed, Listing.ofValue_toValue, collected_listed]

theorem toValue_injective {first second : Operation} (h : first.toValue = second.toValue) :
    first = second := by
  have hread := first.ofValue_toValue
  rw [h, second.ofValue_toValue] at hread
  exact (Except.ok.inj hread).symm

end Operation

/-! ## The depth of operations -/

section

open Json

theorem Endpoint.storable (depth : Nat) (endpoint : Endpoint) :
    Storable (depth + 1) endpoint.toValue := by
  apply Storable.record (by simp)
  simp only [List.forall_mem_cons]
  exact ⟨.text _, .text _, List.forall_mem_nil _⟩

theorem Endpoint.storable_optionToValue (depth : Nat) (endpoint : Option Endpoint) :
    Storable (depth + 1) (optionToValue endpoint) := by
  cases endpoint with
  | none => exact .null
  | some endpoint => exact endpoint.storable depth

theorem FieldRef.storable (depth : Nat) (field : FieldRef) :
    Storable (depth + 1) field.toValue := by
  apply Storable.record (by simp)
  simp only [List.forall_mem_cons]
  exact ⟨.text _, .text _, List.forall_mem_nil _⟩

theorem Role.storable_textSet (depth : Nat) (texts : SortedSet String) :
    Storable (depth + 1) (textSet texts) := by
  apply Storable.list
  intro item hitem
  obtain ⟨text, -, rfl⟩ := List.mem_map.1 hitem
  exact .text text

theorem Role.storable_fieldSet (depth : Nat) (fields : SortedSet FieldRef) :
    Storable (depth + 2) (fieldSet fields) := by
  apply Storable.list
  intro item hitem
  obtain ⟨field, -, rfl⟩ := List.mem_map.1 hitem
  exact field.storable depth

theorem Role.storable_toFields (depth : Nat) (role : Role) :
    ∀ field ∈ role.toFields, Storable (depth + 2) field.2 := by
  cases role with
  | read source outputs =>
      simp only [toFields, List.forall_mem_cons]
      exact ⟨.text _, Endpoint.storable_optionToValue _ source, storable_textSet _ outputs,
        List.forall_mem_nil _⟩
  | transform inputs outputs =>
      simp only [toFields, List.forall_mem_cons]
      exact ⟨.text _, storable_fieldSet _ inputs, storable_textSet _ outputs, List.forall_mem_nil _⟩
  | write destination inputs =>
      simp only [toFields, List.forall_mem_cons]
      exact ⟨.text _, Endpoint.storable_optionToValue _ destination, storable_fieldSet _ inputs,
        List.forall_mem_nil _⟩

theorem Operation.storable (depth : Nat) (operation : Operation) :
    Storable (depth + 3) operation.toValue := by
  apply Storable.record
  · obtain ⟨heading, role⟩ := operation
    cases role <;> simp [Heading.toFields, Role.toFields]
  · intro field hfield
    rcases List.mem_append.1 hfield with hfield | hfield
    · simp only [Heading.toFields, List.mem_cons, List.not_mem_nil, or_false] at hfield
      rcases hfield with rfl | rfl
      · exact .text _
      · exact .text _
    · exact operation.role.storable_toFields depth field hfield

/-! ## Nothing in a record of an operation is an integer -/

theorem Endpoint.integers_optionToValue (endpoint : Option Endpoint) :
    (optionToValue endpoint).integers = [] := by
  cases endpoint with
  | none => rfl
  | some endpoint => simp [optionToValue, toValue, Value.integers_ofFields_eq_nil_iff]

theorem Role.integers_textSet (texts : SortedSet String) : (textSet texts).integers = [] := by
  simp [textSet, Value.integers_list_eq_nil_iff]

theorem Role.integers_fieldSet (fields : SortedSet FieldRef) : (fieldSet fields).integers = [] := by
  simp [fieldSet, FieldRef.toValue, Value.integers_list_eq_nil_iff,
    Value.integers_ofFields_eq_nil_iff]

theorem Operation.integers_toValue (operation : Operation) : operation.toValue.integers = [] := by
  obtain ⟨heading, role⟩ := operation
  rw [toValue, Value.integers_ofFields_eq_nil_iff]
  cases role <;>
    simp [Heading.toFields, Role.toFields, Endpoint.integers_optionToValue, Role.integers_textSet,
      Role.integers_fieldSet]

end

end Lineage
