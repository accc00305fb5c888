import Lineage.Yaml.Indented
import Lineage.Yaml.Node

/-!
# Tokens of the indented language

Outside brackets, structure is told by dashes, question marks and colons and by
the columns they stand in.  The text is cut into tokens: these indicators, the
nodes between them (a scalar, or a whole collection between brackets), the marks
of documents, and the starts and ends of indented collections, which have no
text of their own.

A collection starts where an indicator, or a key, stands further right than the
innermost open collection, and ends where a token stands further left.  A node
is a key if a colon follows it on the same line, at most 1024 characters behind
its start.  What stands in the column of the innermost collection and may be a
key has to be one.

The tokens end where the text does, or at the first place that cannot be read;
what is wrong there is the last token.  So a reader of tokens that finds fault
with an earlier one never learns of it.

Anchors, aliases, tags and directives are not part of the language here: what
begins them is the beginning of nothing.
-/

namespace Lineage.Yaml

inductive Token where
  | documentStart
  | documentEnd
  | listStart
  | recordStart
  /-- The end of an indented collection. -/
  | collectionEnd
  /-- A dash. -/
  | item
  | key
  | value
  | node (node : Node)
  /-- The end of what can be read. -/
  | broken (found : Fault)
deriving Repr, Inhabited

namespace Token

/-- How far a text has been cut. -/
structure Progress where
  cursor : Cursor
  /-- The tokens, the latest first. -/
  tokens : List Token
  /-- The columns of the open collections, the innermost first. -/
  margins : List Nat
  /-- Whether a collection or a key may start here. -/
  mayStart : Bool

namespace Progress

def start (text : String) : Progress := ⟨.ofText text, [], [], true⟩

/-- Move to the next token; a new line lets collections and keys start. -/
def toToken (progress : Progress) : Progress :=
  let cursor := progress.cursor.toToken
  { progress with cursor, mayStart := progress.mayStart || progress.cursor.line != cursor.line }

/-- Close the collections that pass a test of their columns, from the innermost on. -/
def close (closes : Nat → Bool) (progress : Progress) : Progress :=
  let closed := progress.margins.takeWhile closes
  { progress with
    tokens := List.replicate closed.length .collectionEnd ++ progress.tokens
    margins := progress.margins.drop closed.length }

/-- Start a collection at a column, unless the innermost one stands there. -/
def startAt (column : Nat) (token : Token) (progress : Progress) : Progress :=
  if progress.margins.head?.all (· < column) then
    { progress with tokens := token :: progress.tokens, margins := column :: progress.margins }
  else progress

def add (tokens : List Token) (cursor : Cursor) (mayStart : Bool) (progress : Progress) : Progress :=
  { progress with cursor, tokens := tokens.reverse ++ progress.tokens, mayStart }

/-- The least column of the lines of a scalar. -/
def margin (progress : Progress) : Nat := (progress.margins.head?.map (· + 1)).getD 0

/-- Add a dash, a question mark or a colon, which may start a collection. -/
def indicator (collection token : Token) (progress : Progress) : Except Fault Progress :=
  if progress.mayStart then
    .ok ((progress.startAt progress.cursor.column collection).add [token] progress.cursor.next true)
  else .error .malformed

/-- Add a node, as a key if a colon follows.  `brokeLine` says that the end of a line was passed
while the end of the node was looked for. -/
def node (found : Node) (after : Cursor) (brokeLine : Bool) (progress : Progress) :
    Except Fault Progress :=
  let cursor := progress.cursor
  let colon := after.toToken
  let isKey : Bool :=
    match colon.rest with
    | ':' :: rest => progress.mayStart && wordEnds rest && closesKey cursor colon
    | _ => false
  -- a key brings three tokens, of which the first stands before the node
  if isKey then
    .ok ((progress.startAt cursor.column .recordStart).add [.key, .node found, .value] colon.next false)
  else if progress.mayStart ∧ progress.margins.head? = some cursor.column then .error .malformed
  else .ok (progress.add [.node found] after brokeLine)

def token (progress : Progress) : Except Fault Progress :=
  let cursor := progress.cursor
  let mark (token : Token) : Except Fault Progress :=
    .ok ((progress.close fun _ => true).add [token] (cursor.skip 3) false)
  match cursor.rest with
  | [] => .error .malformed
  | c :: rest =>
    if cursor.column = 0 ∧ cursor.atMarker then
      -- a mark of documents ends whatever is open
      mark (if c = '-' then .documentStart else .documentEnd)
    else if c = '-' ∧ wordEnds rest then progress.indicator .listStart .item
    else if c = '?' ∧ wordEnds rest then progress.indicator .recordStart .key
    else if c = ':' ∧ wordEnds rest then progress.indicator .recordStart .value
    else if c = '[' ∨ c = '\x7b' then do
      let (found, after) ← Bracketed.collection cursor
      progress.node found after false
    else if c = '"' ∨ c = '\'' then do
      let (text, after) ← Quoted.scalar c cursor
      progress.node (.quoted text) after false
    else if c = '|' ∨ c = '>' then do
      let (text, after) ← Indented.scalar (c = '>') (max 1 progress.margin) cursor
      return progress.add [.node (.quoted text)] after true
    else if Plain.begins false (c :: rest) then
      let (text, after, brokeLine) := Plain.scalar false progress.margin cursor
      progress.node (.plain text) after brokeLine
    else .error .malformed

/-- All tokens of a text in order; `fuel` bounds their number. -/
def finish : Nat → Progress → List Token
  | 0, progress => (.broken .malformed :: progress.tokens).reverse
  | fuel + 1, progress =>
    let progress := progress.toToken
    if progress.cursor.rest.isEmpty then (progress.close fun _ => true).tokens.reverse
    else
      let progress := progress.close fun margin => progress.cursor.column < margin
      match progress.token with
      | .error fault => (.broken fault :: progress.tokens).reverse
      | .ok progress => finish fuel progress

end Progress

def ofText (text : String) : List Token :=
  if text.toList.all isAllowed then (Progress.start text).finish (text.toList.length + 1)
  else [.broken .malformed]

end Token

end Lineage.Yaml
