import Lineage.Endpoint

/-!
# Operations

An operation reads fields from a source endpoint, transforms fields, or writes
fields to a destination endpoint.  Operations refer to one another by name: an
input is a field together with the name of the operation that produced it.
The endpoint of a read or a write may be missing in data that nobody has
checked yet.

Operations are ordered by name, then by kind, then by the rest of their
content, so that a set of operations is a `SortedSet` in name order.
-/

namespace Lineage

/-- A field consumed by an operation, with the name of the operation that produced it. -/
structure FieldRef where
  origin : Name
  name : Name
deriving DecidableEq, Inhabited

namespace FieldRef

instance : Ord FieldRef := ⟨compareLex (compareOn origin) (compareOn name)⟩

instance : Std.TransOrd FieldRef :=
  inferInstanceAs (Std.TransCmp (compareLex (compareOn origin) (compareOn name)))

instance : Std.LawfulEqOrd FieldRef where
  eq_of_compare {a b} h := by
    obtain ⟨h₁, h₂⟩ := compareLex_eq_eq.1 h
    have h₁ := Std.LawfulEqOrd.eq_of_compare (show compare a.origin b.origin = .eq from h₁)
    have h₂ := Std.LawfulEqOrd.eq_of_compare (show compare a.name b.name = .eq from h₂)
    cases a; cases b; simp_all

/-- The input as messages show it. -/
def shown (field : FieldRef) : String := field.origin.text ++ "." ++ field.name.text

end FieldRef

/-- What an operation does. -/
inductive Kind where
  | read
  | transform
  | write
deriving DecidableEq, Repr, Inhabited

namespace Kind

/-- The place of a kind among the kinds, which is also the order of their labels. -/
def rank : Kind → Nat
  | read => 0
  | transform => 1
  | write => 2

instance : Ord Kind := ⟨compareOn rank⟩

instance : Std.TransOrd Kind := inferInstanceAs (Std.TransCmp (compareOn rank))

instance : Std.LawfulEqOrd Kind where
  eq_of_compare {a b} h := by
    have h : a.rank = b.rank := Std.LawfulEqOrd.eq_of_compare (show compare a.rank b.rank = .eq from h)
    cases a <;> cases b <;> simp_all [rank]

/-- The word for a kind in stored data. -/
def label : Kind → String
  | read => "read"
  | transform => "transform"
  | write => "write"

/-- The kind that a word stands for. -/
def ofLabel? (label : String) : Option Kind :=
  [read, transform, write].find? fun kind => kind.label == label

end Kind

/-- What an operation does, and on what. -/
inductive Role where
  | read (source : Option Endpoint) (outputs : SortedSet String)
  | transform (inputs : SortedSet FieldRef) (outputs : SortedSet String)
  | write (destination : Option Endpoint) (inputs : SortedSet FieldRef)
deriving DecidableEq, Inhabited

/-- What every operation has, whatever its role. -/
structure Heading where
  name : Name
  description : String
deriving DecidableEq, Inhabited

/-- One operation of a program run. -/
structure Operation extends Heading where
  role : Role
deriving DecidableEq, Inhabited

namespace Role

def kind : Role → Kind
  | read .. => .read
  | transform .. => .transform
  | write .. => .write

/-- The source of a read, the destination of a write. -/
def endpoint? : Role → Option Endpoint
  | read source _ => source
  | transform .. => none
  | write destination _ => destination

/-- The fields consumed; a read consumes none. -/
def inputs : Role → SortedSet FieldRef
  | read .. => ∅
  | transform inputs _ => inputs
  | write _ inputs => inputs

/-- The names of the fields produced; a write produces none. -/
def outputs : Role → SortedSet String
  | read _ outputs => outputs
  | transform _ outputs => outputs
  | write .. => ∅

end Role

namespace Operation

def kind (operation : Operation) : Kind := operation.role.kind
def endpoint? (operation : Operation) : Option Endpoint := operation.role.endpoint?
def inputs (operation : Operation) : SortedSet FieldRef := operation.role.inputs
def outputs (operation : Operation) : SortedSet String := operation.role.outputs

/-- The names of the operations whose output is consumed. -/
def origins (operation : Operation) : SortedSet Name := operation.inputs.map FieldRef.origin

/-- The names of the fields consumed. -/
def consumed (operation : Operation) : SortedSet Name := operation.inputs.map FieldRef.name

/-! ## The order of operations -/

/-- By name, kind, description, endpoint, inputs and outputs, in this order of weight. -/
def order : Operation → Operation → Ordering :=
  compareLex (compareOn fun operation => operation.name)
    (compareLex (compareOn kind)
      (compareLex (compareOn fun operation => operation.description)
        (compareLex (compareOn endpoint?)
          (compareLex (compareOn inputs) (compareOn outputs)))))

instance : Ord Operation := ⟨order⟩

instance : Std.TransOrd Operation := by
  show Std.TransCmp order
  unfold order
  infer_instance

instance : Std.LawfulEqOrd Operation where
  compare_self {a} := by
    show order a a = .eq
    simp [order, Std.ReflCmp.compare_self]
  eq_of_compare {a b} h := by
    have h : order a b = .eq := h
    simp only [order, compareLex_eq_eq, compareOn, Std.LawfulEqCmp.compare_eq_iff_eq] at h
    obtain ⟨hname, hkind, hdescription, hendpoint, hinputs, houtputs⟩ := h
    rcases a with ⟨⟨aname, adescription⟩, arole⟩
    rcases b with ⟨⟨bname, bdescription⟩, brole⟩
    simp only at hname hdescription
    subst hname hdescription
    cases arole <;> cases brole <;>
      simp_all [kind, Role.kind, endpoint?, Role.endpoint?, inputs, Role.inputs, outputs, Role.outputs]

end Operation

/-- The operations of a program run, in name order. -/
abbrev OperationSet := SortedSet Operation

end Lineage
