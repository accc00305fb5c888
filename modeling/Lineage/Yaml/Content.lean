import Lineage.Yaml.Node
import Lineage.Yaml.Scalar

/-!
# The content of a tree

The content of a tree of nodes is the same tree with its scalars given their
values.  A record may take over the fields of other ones: the key `<<` names a
record or a list of records, whose fields come before its own.  Of records in
one list the last comes first, so that of fields with the same key those of the
first record hold.

Content may have several faults, and the first one in order of filling is
reported.  Collections are filled level by level: first the outermost one with
its keys and scalars, then those that it holds in turn, then those that they
hold.  A key has to be a scalar.
-/

namespace Lineage.Yaml

inductive Content where
  | scalar (value : Except Fault Value)
  | list (items : List Content)
  | record (fields : List (Content × Content))
  /-- A record that should take over the fields of something else than records. -/
  | unmergeable
deriving Inhabited

namespace Content

/-! ## Taking over fields -/

def fields? : Content → Option (List (Content × Content))
  | .record fields => some fields
  | _ => none

/-- The fields that a record takes over from the content at its key `<<`. -/
def taken? : Content → Option (List (Content × Content))
  | .record fields => some fields
  | .list items => (items.mapM fields?).map fun records => records.reverse.flatten
  | _ => none

end Content

namespace Node

/-- The fields that a record takes over and its own ones, with one more field before them.  As a
key, an equals sign is a text. -/
def addField (key : Node) (keyContent value : Content) :
    Option (List (Content × Content) × List (Content × Content)) →
    Option (List (Content × Content) × List (Content × Content))
  | none => none
  | some (taken, own) =>
    match key with
    -- what is taken over here comes before what is taken over further down
    | .plain "<<" => value.taken?.map fun first => (first ++ taken, own)
    | .plain "=" => some (taken, (.scalar (.ok (.text "=")), value) :: own)
    | _ => some (taken, (keyContent, value) :: own)

mutual

def content : Node → Content
  | .plain text => .scalar (Scalar.value text)
  | .quoted text => .scalar (.ok (.text text))
  | .list items => .list (contents items)
  | .record fields =>
    match fieldContents fields with
    | some (taken, own) => .record (taken ++ own)
    | none => .unmergeable

def contents : List Node → List Content
  | [] => []
  | node :: nodes => content node :: contents nodes

/-- The fields that a record takes over and its own ones, unless there is nothing to take over. -/
def fieldContents : List (Node × Node) →
    Option (List (Content × Content) × List (Content × Content))
  | [] => some ([], [])
  | (key, value) :: fields => addField key (content key) (content value) (fieldContents fields)

end

end Node

namespace Content

/-! ## Faults -/

def scalarFault? : Content → Option Fault
  | .scalar (.error fault) => some fault
  | _ => none

def keyFault? : Content → Option Fault
  | .scalar (.error fault) => some fault
  | .scalar (.ok _) => none
  | _ => some .malformed

/-- The first faults of two collections, level by level. -/
def alongside : List (Option Fault) → List (Option Fault) → List (Option Fault)
  | [], more => more
  | levels, [] => levels
  | first :: levels, second :: more => first.or second :: alongside levels more

mutual

/-- The first fault of each level of a collection, if it has one. -/
def faults : Content → List (Option Fault)
  | .scalar _ => []
  | .list items => items.findSome? scalarFault? :: faultsOfAll items
  | .record fields =>
    (fields.findSome? fun field => (keyFault? field.1).or (scalarFault? field.2)) ::
      faultsOfFields fields
  | .unmergeable => [some .malformed]

def faultsOfAll : List Content → List (Option Fault)
  | [] => []
  | item :: items => alongside (faults item) (faultsOfAll items)

def faultsOfFields : List (Content × Content) → List (Option Fault)
  | [] => []
  | (_, value) :: fields => alongside (faults value) (faultsOfFields fields)

end

def fault? (content : Content) : Option Fault :=
  content.scalarFault?.or (content.faults.findSome? id)

/-! ## Values -/

def key? : Content → Option Key
  | .scalar (.ok value) =>
    match value with
    | .null => some .null
    | .bool b => some (.bool b)
    | .int n => some (.int n)
    | .number x => some (.number x)
    | .text s => some (.text s)
    | .moment m => some (.moment m)
    | .list _ | .record _ => none
  | _ => none

mutual

/-- The value of content without faults. -/
def value : Content → Value
  | .scalar (.ok value) => value
  | .scalar (.error _) => .null
  | .list items => .list (values items)
  | .record fields => .record (Value.collect (fieldValues fields))
  | .unmergeable => .null

def values : List Content → List Value
  | [] => []
  | item :: items => value item :: values items

def fieldValues : List (Content × Content) → List (Key × Value)
  | [] => []
  | (key, item) :: fields =>
    match key.key? with
    | some key => (key, value item) :: fieldValues fields
    | none => fieldValues fields

end

end Content

end Lineage.Yaml
