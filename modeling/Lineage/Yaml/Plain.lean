import Lineage.Yaml.Cursor

/-!
# Plain scalars

A plain scalar has no quotes.  It ends before a colon that ends a word, before a
comment and, between brackets, before a bracket, a comma or a question mark.  It
may go on over several lines, which are folded; outside brackets the lines have
to be indented more than the collection around them.
-/

namespace Lineage.Yaml.Plain

def endsInBrackets (c : Char) : Bool :=
  c == ',' || c == '?' || c == '[' || c == ']' || c == '\x7b' || c == '\x7d'

/-- Whether a colon ends a plain scalar, given what follows it. -/
def colonEnds (inBrackets : Bool) (rest : List Char) : Bool :=
  wordEnds rest ||
    (inBrackets && rest.head?.any fun c => c != '?' && endsInBrackets c)

/-- The longest run of a plain scalar without blanks and breaks. -/
def word (inBrackets : Bool) : List Char → List Char
  | [] => []
  | c :: rest =>
    if isBlank c || isBreak c || (c == ':' && colonEnds inBrackets rest) ||
        (inBrackets && endsInBrackets c) then []
    else c :: word inBrackets rest

def isIndicator (c : Char) : Bool := "-?:,[]\x7b\x7d#&*!|>'\"%@\x60".toList.contains c

def begins (inBrackets : Bool) : List Char → Bool
  | [] => false
  | c :: rest =>
    if isBlank c || isBreak c then false
    else if isIndicator c then
      !wordEnds rest && (c == '-' || (!inBrackets && (c == '?' || c == ':')))
    else true

/-- The breaks of empty lines up to the next word, or nothing if a document mark comes first; and
the cursor at which they end.  `fuel` bounds the steps. -/
def breaks : Nat → Cursor → Option (List Char) × Cursor
  | 0, cursor => (none, cursor)
  | fuel + 1, cursor =>
    if cursor.atMarker then (none, cursor)
    else
      let cursor := cursor.skipWhile (· == ' ')
      match cursor.break? with
      | none => (some [], cursor)
      | some (first, cursor) =>
        let (more, cursor) := breaks fuel cursor
        (more.map (first :: ·), cursor)

/-- What stands between two words of a plain scalar, the cursor behind it, and whether it went over
the end of a line.  Nothing means that the scalar ends. -/
def gap (cursor : Cursor) : List Char × Cursor × Bool :=
  let spaces := cursor.rest.takeWhile (· == ' ')
  let cursor := cursor.skip spaces.length
  match cursor.break? with
  | none => (spaces, cursor, false)
  | some (first, cursor) =>
    let (more, cursor) := breaks (cursor.rest.length + 1) cursor
    ((more.map (folded first)).getD [], cursor, true)

/-- The words of a plain scalar from a cursor on, with what stands between them; the cursor behind
it, and whether the scalar went over the end of a line just before that.  `margin` is the least
column of a line outside brackets, and `fuel` bounds the number of words. -/
def words (inBrackets : Bool) (margin : Nat) : Nat → Cursor → List Char × Cursor × Bool
  | 0, cursor => ([], cursor, false)
  | fuel + 1, cursor =>
    let first := word inBrackets cursor.rest
    let (between, after, brokeLine) := gap (cursor.skip first.length)
    -- a comment, a line too far left or an indicator ends the scalar
    if between.isEmpty || after.rest.head? == some '#' ||
        (!inBrackets && after.column < margin) || (word inBrackets after.rest).isEmpty then
      (first, after, brokeLine)
    else
      let (more, cursor, brokeLine) := words inBrackets margin fuel after
      (first ++ between ++ more, cursor, brokeLine)

def scalar (inBrackets : Bool) (margin : Nat) (cursor : Cursor) : String × Cursor × Bool :=
  let (text, cursor, brokeLine) := words inBrackets margin (cursor.rest.length + 1) cursor
  (String.ofList text, cursor, brokeLine)

end Lineage.Yaml.Plain
