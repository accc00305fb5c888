import Lineage.Moment
import Lineage.Number.Shortest
import Lineage.Text.Quoted

/-!
# Data trees

What a document, a settings override or a log argument is before it is given a
meaning: a tree of nulls, truth values, numbers, texts, dates, lists and
records.  A record keeps its fields in order of appearance.  Integers are exact
and of any size; a number written with a fraction or an exponent is a `Numeral`.

`Value.display` writes a tree the way messages show it.
-/

namespace Lineage

/-- The name of a field.  Only texts name fields of the data model; a field of another kind is kept
so that it can be reported. -/
inductive Key where
  | text (s : String)
  | null
  | bool (b : Bool)
  | int (n : Int)
  | number (x : Numeral)
  | moment (m : Moment)
deriving DecidableEq, Repr, Inhabited

namespace Key

/-- The name as it stands inside a shown record. -/
def literal : Key → String
  | text s => Text.quoted s
  | null => "None"
  | bool b => if b then "True" else "False"
  | int n => toString n
  | number x => x.text
  | moment m => m.literal

/-- The name as a text. -/
def name : Key → String
  | text s => s
  | key => key.literal

/-- The integer that a name counts as. -/
def count? : Key → Option Int
  | bool b => some (if b then 1 else 0)
  | int n => some n
  | number x => x.toInt?
  | _ => none

/-- Whether two names are of the same field.  Truth values and numbers are compared by what they
count as, moments as moments. -/
def same : Key → Key → Bool
  | text s, text t => s == t
  | moment m, moment n => m.same n
  | a, b =>
    match a.count?, b.count? with
    | some m, some n => m == n
    | none, none => a.literal == b.literal
    | _, _ => false

end Key

/-- A data tree. -/
inductive Value where
  | null
  | bool (b : Bool)
  | int (n : Int)
  | number (x : Numeral)
  | text (s : String)
  | moment (m : Moment)
  | list (items : List Value)
  | record (fields : List (Key × Value))
deriving Repr, Inhabited

namespace Value

/-- The field of a record that a text names. -/
def lookup? (fields : List (Key × Value)) (name : String) : Option Value :=
  fields.findSome? fun (key, value) => if key = .text name then some value else none

/-- The fields with one more.  If there is one of that name, it keeps its place and takes the new
value. -/
def putField (fields : List (Key × Value)) (key : Key) (value : Value) : List (Key × Value) :=
  if fields.any fun entry => entry.1.same key then
    fields.map fun entry => if entry.1.same key then (entry.1, value) else entry
  else fields ++ [(key, value)]

/-- The fields of a record, given in order with names that may come again: the first one gives the
place and the last one the value. -/
def collect (entries : List (Key × Value)) : List (Key × Value) :=
  entries.foldl (fun fields entry => putField fields entry.1 entry.2) []

/-- The name of the kind of a tree, as messages show it. -/
def kindName : Value → String
  | null => "NoneType"
  | bool _ => "bool"
  | int _ => "int"
  | number _ => "float"
  | text _ => "str"
  | moment m => if m.time.isSome then "datetime" else "date"
  | list _ => "list"
  | record _ => "dict"

/-- The integer that a tree counts as. -/
def count? : Value → Option Int
  | bool b => some (if b then 1 else 0)
  | int n => some n
  | number x => x.toInt?
  | _ => none

mutual

/-- A tree inside another one: texts are quoted. -/
def literal : Value → String
  | null => "None"
  | bool b => if b then "True" else "False"
  | int n => toString n
  | number x => x.text
  | text s => Text.quoted s
  | moment m => m.literal
  | list items => "[" ++ ", ".intercalate (literals items) ++ "]"
  | record fields => "\x7b" ++ ", ".intercalate (literalFields fields) ++ "\x7d"

def literals : List Value → List String
  | [] => []
  | item :: items => literal item :: literals items

def literalFields : List (Key × Value) → List String
  | [] => []
  | (key, value) :: fields => (key.literal ++ ": " ++ literal value) :: literalFields fields

end

/-- A tree on its own: a text is shown as it is, and a moment in its usual form. -/
def display : Value → String
  | text s => s
  | moment m => m.text
  | value => literal value

end Value

end Lineage
