import Lineage.Sorted.Set

/-!
# Names and endpoints

A name is a text that is not empty.  An endpoint is a resource outside the
program, a namespace and a name in it; an endpoint field is one field of an
endpoint.  All are ordered by the code points of their parts, part by part.
-/

namespace Lineage

/-- A text that is not empty. -/
structure Name where
  text : String
  nonempty : text ≠ ""
deriving DecidableEq

namespace Name

/-- The name that a text is, unless it is empty. -/
def ofText? (text : String) : Option Name :=
  if h : text = "" then none else some ⟨text, h⟩

instance : Inhabited Name := ⟨⟨"name", by decide⟩⟩
instance : Ord Name := ⟨compareOn text⟩
instance : ToString Name := ⟨text⟩

instance : Std.TransOrd Name := inferInstanceAs (Std.TransCmp (compareOn Name.text))

instance : Std.LawfulEqOrd Name where
  eq_of_compare {a b} h := by
    have : a.text = b.text := Std.LawfulEqOrd.eq_of_compare (show compare a.text b.text = .eq from h)
    cases a; cases b; simp_all

@[simp] theorem ofText?_text (name : Name) : ofText? name.text = some name := by
  simp [ofText?, name.nonempty]

end Name

/-- A data resource at the boundary: a name in a namespace. -/
structure Endpoint where
  namespaceName : Name
  name : Name
deriving DecidableEq, Inhabited

namespace Endpoint

instance : Ord Endpoint := ⟨compareLex (compareOn namespaceName) (compareOn name)⟩

instance : Std.TransOrd Endpoint :=
  inferInstanceAs (Std.TransCmp (compareLex (compareOn namespaceName) (compareOn name)))

instance : Std.LawfulEqOrd Endpoint where
  eq_of_compare {a b} h := by
    obtain ⟨h₁, h₂⟩ := compareLex_eq_eq.1 h
    have h₁ := Std.LawfulEqOrd.eq_of_compare (show compare a.namespaceName b.namespaceName = .eq from h₁)
    have h₂ := Std.LawfulEqOrd.eq_of_compare (show compare a.name b.name = .eq from h₂)
    cases a; cases b; simp_all

/-- The endpoint as messages show it. -/
def shown (endpoint : Endpoint) : String :=
  endpoint.namespaceName.text ++ ":" ++ endpoint.name.text

end Endpoint

/-- One field of an endpoint. -/
structure EndpointField where
  endpoint : Endpoint
  field : Name
deriving DecidableEq, Inhabited

namespace EndpointField

instance : Ord EndpointField := ⟨compareLex (compareOn endpoint) (compareOn field)⟩

instance : Std.TransOrd EndpointField :=
  inferInstanceAs (Std.TransCmp (compareLex (compareOn endpoint) (compareOn field)))

instance : Std.LawfulEqOrd EndpointField where
  eq_of_compare {a b} h := by
    obtain ⟨h₁, h₂⟩ := compareLex_eq_eq.1 h
    have h₁ := Std.LawfulEqOrd.eq_of_compare (show compare a.endpoint b.endpoint = .eq from h₁)
    have h₂ := Std.LawfulEqOrd.eq_of_compare (show compare a.field b.field = .eq from h₂)
    cases a; cases b; simp_all

/-- The field as messages show it. -/
def shown (field : EndpointField) : String :=
  field.endpoint.shown ++ "." ++ field.field.text

end EndpointField

end Lineage
