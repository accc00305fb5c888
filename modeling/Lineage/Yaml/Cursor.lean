import Lineage.Yaml.Fault

/-!
# Places in a text

A cursor is a place in a text: what follows, and how far it is from the start,
counted in characters and in lines and columns.  Indentation is a matter of
columns, so every step of the YAML reader starts from a cursor and ends at one.

Line feed, carriage return, the two together, and U+0085 end a line and count
as a line feed; U+2028 and U+2029 end a line and stay what they are.  A mark of
byte order at the start of the text is skipped, and elsewhere it takes no
column.
-/

namespace Lineage.Yaml

/-! ## Characters -/

def isAllowed (c : Char) : Bool :=
  let n := c.toNat
  n == 9 || n == 10 || n == 13 || (0x20 ≤ n && n ≤ 0x7E) || n == 0x85 ||
    (0xA0 ≤ n && n ≤ 0xD7FF) || (0xE000 ≤ n && n ≤ 0xFFFD) || 0x10000 ≤ n

def isBreak (c : Char) : Bool :=
  c == '\n' || c == '\r' || c == '\x85' || c == '\u2028' || c == '\u2029'

def isBlank (c : Char) : Bool := c == ' ' || c == '\t'

/-- What follows an indicator that stands for itself: a blank, a break, or nothing. -/
def wordEnds : List Char → Bool
  | [] => true
  | c :: _ => isBlank c || isBreak c

/-! ## Moving on -/

structure Cursor where
  rest : List Char
  index : Nat
  line : Nat
  column : Nat
deriving Repr

/-- What reading from a cursor gives, and the cursor behind it. -/
abbrev Reading (α : Type) := Except Fault (α × Cursor)

namespace Cursor

def next (cursor : Cursor) : Cursor :=
  match cursor.rest with
  | [] => cursor
  | c :: rest =>
    if isBreak c ∧ ¬ (c = '\r' ∧ rest.head? = some '\n') then
      ⟨rest, cursor.index + 1, cursor.line + 1, 0⟩
    else
      ⟨rest, cursor.index + 1, cursor.line,
        if c = '\uFEFF' then cursor.column else cursor.column + 1⟩

def skip (cursor : Cursor) : Nat → Cursor
  | 0 => cursor
  | count + 1 => cursor.next.skip count

def skipWhile (cursor : Cursor) (p : Char → Bool) : Cursor :=
  cursor.skip (cursor.rest.takeWhile p).length

def ofText (text : String) : Cursor :=
  let start : Cursor := ⟨text.toList, 0, 0, 0⟩
  if start.rest.head? = some '\uFEFF' then start.next else start

/-- The end of the line at a cursor: what it counts as, and the cursor behind it. -/
def break? (cursor : Cursor) : Option (Char × Cursor) :=
  match cursor.rest with
  | '\r' :: '\n' :: _ => some ('\n', cursor.skip 2)
  | c :: _ =>
    if c = '\u2028' ∨ c = '\u2029' then some (c, cursor.next)
    else if isBreak c then some ('\n', cursor.next)
    else none
  | [] => none

/-- Whether three dashes or three points stand at a cursor as a word of their own.  At the start of
a line they are the mark that a document begins or ends. -/
def atMarker (cursor : Cursor) : Bool :=
  match cursor.rest with
  | '-' :: '-' :: '-' :: rest => wordEnds rest
  | '.' :: '.' :: '.' :: rest => wordEnds rest
  | _ => false

/-- How many characters stand before the next token: spaces, breaks and comments.  The flag says
whether the place is inside a comment. -/
def gapLength : Bool → List Char → Nat
  | _, [] => 0
  | true, c :: rest => gapLength (!isBreak c) rest + 1
  | false, c :: rest =>
    if c = '#' then gapLength true rest + 1
    else if c = ' ' ∨ isBreak c then gapLength false rest + 1
    else 0

def toToken (cursor : Cursor) : Cursor := cursor.skip (gapLength false cursor.rest)

end Cursor

/-- What the break at the end of a line and the breaks of the empty lines below it fold into: a
single break is a space, and of several the first one is dropped. -/
def folded (first : Char) (more : List Char) : List Char :=
  if first ≠ '\n' then first :: more
  else if more.isEmpty then [' ']
  else more

end Lineage.Yaml
