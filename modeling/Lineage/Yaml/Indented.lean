import Lineage.Yaml.Cursor

/-!
# Indented scalars

A bar or a greater-than sign is followed by lines that are indented alike.  After
a bar their breaks stay; after a greater-than sign breaks are folded between
lines that do not begin with a blank.  A sign in the header says whether the
breaks at the end are kept (`+`) or dropped (`-`); without a sign one is kept.  A
digit in the header fixes the indentation, which otherwise is that of the first
line that is not empty.
-/

namespace Lineage.Yaml.Indented

inductive Ending where
  | clip
  | keep
  | strip
deriving DecidableEq, Repr

structure Header where
  ending : Ending
  /-- The indentation beyond the collection around the scalar. -/
  depth : Option Nat

/-! ## The header -/

def ending? : Char → Option Ending
  | '+' => some .keep
  | '-' => some .strip
  | _ => none

/-- A depth of zero is no depth. -/
def depth? (c : Char) : Option (Option Nat) :=
  if c.isDigit then some (if c = '0' then none else some (c.toNat - 48)) else none

/-- The header behind the indicator, and how many characters it has. -/
def header? (text : List Char) : Option (Header × Nat) :=
  match text with
  | [] => some (⟨.clip, none⟩, 0)
  | c :: rest =>
    match ending? c, depth? c with
    | some ending, _ =>
      match rest.head?.bind depth? with
      | some none => none
      | some (some depth) => some (⟨ending, some depth⟩, 2)
      | none => some (⟨ending, none⟩, 1)
    | none, some none => none
    | none, some (some depth) =>
      match rest.head?.bind ending? with
      | some ending => some (⟨ending, some depth⟩, 2)
      | none => some (⟨.clip, some depth⟩, 1)
    | none, none => some (⟨.clip, none⟩, 0)

/-- The cursor behind the rest of the header line, which holds at most a comment. -/
def afterHeader (cursor : Cursor) : Except Fault Cursor :=
  if cursor.rest.head? = some '\t' ∨ ¬ wordEnds cursor.rest then .error .malformed
  else
    let cursor := cursor.skipWhile (· == ' ')
    let cursor := if cursor.rest.head? = some '#' then cursor.skipWhile (!isBreak ·) else cursor
    match cursor.rest, cursor.break? with
    | [], _ => .ok cursor
    | _ :: _, some (_, cursor) => .ok cursor
    | _ :: _, none => .error .malformed

/-! ## The lines -/

/-- The breaks of empty lines up to the first line that is not, the greatest column reached, and
the cursor behind them.  `fuel` bounds the steps. -/
def leadingBreaks : Nat → Nat → Cursor → List Char × Nat × Cursor
  | 0, widest, cursor => ([], widest, cursor)
  | fuel + 1, widest, cursor =>
    let cursor := cursor.skipWhile (· == ' ')
    let widest := max widest cursor.column
    match cursor.break? with
    | none => ([], widest, cursor)
    | some (first, cursor) =>
      let (more, widest, cursor) := leadingBreaks fuel widest cursor
      (first :: more, widest, cursor)

/-- The cursor behind the spaces up to a column. -/
def indent (margin : Nat) (cursor : Cursor) : Cursor :=
  cursor.skip (min (margin - cursor.column) (cursor.rest.takeWhile (· == ' ')).length)

/-- The breaks of empty lines, and the cursor behind them and the indentation of the next line. -/
def breaks (margin : Nat) : Nat → Cursor → List Char × Cursor
  | 0, cursor => ([], cursor)
  | fuel + 1, cursor =>
    let cursor := indent margin cursor
    match cursor.break? with
    | none => ([], cursor)
    | some (first, cursor) =>
      let (more, cursor) := breaks margin fuel cursor
      (first :: more, cursor)

/-- Lines of a scalar, the break at the end of the last one, and the breaks after that. -/
structure Lines where
  text : List Char
  last : List Char
  trailing : List Char

def atLine (margin : Nat) (cursor : Cursor) : Bool :=
  cursor.column == margin && !cursor.rest.isEmpty

def beginsBlank (cursor : Cursor) : Bool := cursor.rest.head?.any isBlank

/-- The lines from the one at a cursor on; `fuel` bounds their number. -/
def lines (folds : Bool) (margin : Nat) : Nat → Cursor → Lines × Cursor
  | 0, cursor => (⟨[], [], []⟩, cursor)
  | fuel + 1, cursor =>
    let line := cursor.rest.takeWhile (!isBreak ·)
    let behind := cursor.skip line.length
    let (last, after) : List Char × Cursor :=
      match behind.break? with
      | some (first, after) => ([first], after)
      | none => ([], behind)
    let (empty, after) := breaks margin (after.rest.length + 1) after
    if atLine margin after then
      let joint :=
        if folds ∧ last = ['\n'] ∧ ¬ beginsBlank cursor ∧ ¬ beginsBlank after then
          if empty.isEmpty then [' '] else []
        else last
      let (more, cursor) := lines folds margin fuel after
      ({ more with text := line ++ joint ++ empty ++ more.text }, cursor)
    else (⟨line, last, empty⟩, after)

def Lines.ended (ending : Ending) (lines : Lines) : List Char :=
  match ending with
  | .clip => lines.text ++ lines.last
  | .keep => lines.text ++ lines.last ++ lines.trailing
  | .strip => lines.text

/-- The scalar whose indicator is at a cursor.  `margin` is the least column of its lines. -/
def scalar (folds : Bool) (margin : Nat) (cursor : Cursor) : Reading String :=
  match header? cursor.next.rest with
  | none => .error .malformed
  | some (header, width) =>
    match afterHeader (cursor.next.skip width) with
    | .error fault => .error fault
    | .ok cursor =>
      let fuel := cursor.rest.length + 1
      let (leading, margin, cursor) : List Char × Nat × Cursor :=
        match header.depth with
        | some depth =>
          let (leading, after) := breaks (margin + depth - 1) fuel cursor
          (leading, margin + depth - 1, after)
        | none =>
          let (leading, widest, after) := leadingBreaks fuel 0 cursor
          (leading, max margin widest, after)
      let (found, cursor) : Lines × Cursor :=
        if atLine margin cursor then lines folds margin fuel cursor
        else (⟨[], [], leading⟩, cursor)
      -- breaks before the first line are text only if there is a line
      let found :=
        if found.text.isEmpty then found else { found with text := leading ++ found.text }
      .ok (String.ofList (found.ended header.ending), cursor)

end Lineage.Yaml.Indented
