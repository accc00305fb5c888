import Lineage.Yaml.Plain
import Lineage.Yaml.Quoted

/-!
# Nodes, and collections between brackets

A text is a tree of nodes.  Between brackets the tree does not depend on
indentation: entries are set apart by commas, and an entry is a node, or a key
and a value.  A question mark says that a key follows.  Without it the key has to
end on the line it began on, and the colon has to come at most 1024 characters
after its first one.  What is left out is an empty plain scalar.
-/

namespace Lineage.Yaml

inductive Node where
  | plain (text : String)
  | quoted (text : String)
  | list (items : List Node)
  | record (fields : List (Node × Node))
deriving Repr, Inhabited

namespace Node

def absent : Node := .plain ""

end Node

/-- How far behind the start of a key its colon may be. -/
def keyReach : Nat := 1024

/-- Whether a colon at one cursor can make a key of what began at another. -/
def closesKey (start colon : Cursor) : Bool :=
  start.line == colon.line && colon.index ≤ start.index + keyReach

namespace Bracketed

/-- An entry: a node, with a value if it is a key. -/
structure Entry where
  node : Node
  value : Option Node

/-- An entry as an item of a list: a key and its value are a record of their own. -/
def Entry.item (entry : Entry) : Node :=
  match entry.value with
  | none => entry.node
  | some value => .record [(entry.node, value)]

def Entry.field (entry : Entry) : Node × Node := (entry.node, entry.value.getD .absent)

/-- The cursor at the next token; a document mark is none. -/
def toToken (cursor : Cursor) : Except Fault Cursor :=
  let cursor := cursor.toToken
  if cursor.column = 0 ∧ cursor.atMarker then .error .malformed else .ok cursor

def scalar (cursor : Cursor) : Reading Node :=
  match cursor.rest with
  | '"' :: _ => (Quoted.scalar '"' cursor).map fun (text, cursor) => (.quoted text, cursor)
  | '\'' :: _ => (Quoted.scalar '\'' cursor).map fun (text, cursor) => (.quoted text, cursor)
  | text =>
    if Plain.begins true text then
      let (text, cursor, _) := Plain.scalar true 0 cursor
      .ok (.plain text, cursor)
    else .error .malformed

mutual

/-- The node at a cursor; `fuel` bounds the steps. -/
def node : Nat → Cursor → Except Fault (Node × Cursor)
  | 0, _ => .error .malformed
  | fuel + 1, cursor =>
    match cursor.rest with
    | '[' :: _ => do
      let (entries, cursor) ← entries fuel ']' cursor.next
      return (.list (entries.map Entry.item), cursor)
    | '\x7b' :: _ => do
      let (entries, cursor) ← entries fuel '\x7d' cursor.next
      return (.record (entries.map Entry.field), cursor)
    | _ => scalar cursor

/-- The entries up to a closing bracket, and the cursor behind it. -/
def entries : Nat → Char → Cursor → Except Fault (List Entry × Cursor)
  | 0, _, _ => .error .malformed
  | fuel + 1, close, cursor => do
    let cursor ← toToken cursor
    if cursor.rest.head? = some close then return ([], cursor.next)
    let (found, cursor) ← entry fuel close cursor
    let cursor ← toToken cursor
    if cursor.rest.head? = some close then return ([found], cursor.next)
    else if cursor.rest.head? = some ',' then
      let (more, cursor) ← entries fuel close cursor.next
      return (found :: more, cursor)
    else throw .malformed

def entry : Nat → Char → Cursor → Except Fault (Entry × Cursor)
  | 0, _, _ => .error .malformed
  | fuel + 1, close, cursor => do
    if cursor.rest.head? = some '?' then
      let cursor ← toToken cursor.next
      let (key, cursor) ←
        if cursor.rest.head? = some ':' then pure (Node.absent, cursor) else nodeOrAbsent fuel close cursor
      let colon ← toToken cursor
      if colon.rest.head? = some ':' then
        let cursor ← toToken colon.next
        let (value, cursor) ← nodeOrAbsent fuel close cursor
        return (⟨key, some value⟩, cursor)
      else return (⟨key, some .absent⟩, cursor)
    else
      let (key, after) ← node fuel cursor
      let colon ← toToken after
      if colon.rest.head? = some ':' then
        if closesKey cursor colon then
          let cursor ← toToken colon.next
          let (value, cursor) ← nodeOrAbsent fuel close cursor
          return (⟨key, some value⟩, cursor)
        else throw .malformed
      else return (⟨key, none⟩, after)

/-- The node at a cursor, unless the entry ends there. -/
def nodeOrAbsent : Nat → Char → Cursor → Except Fault (Node × Cursor)
  | 0, _, _ => .error .malformed
  | fuel + 1, close, cursor =>
    match cursor.rest.head? with
    | some c => if c = close ∨ c = ',' then .ok (.absent, cursor) else node fuel cursor
    | none => .error .malformed

end

def collection (cursor : Cursor) : Reading Node := node (4 * cursor.rest.length + 4) cursor

end Bracketed

end Lineage.Yaml
