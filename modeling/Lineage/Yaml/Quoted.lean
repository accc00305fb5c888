import Lineage.Text.Hex
import Lineage.Yaml.Cursor

/-!
# Quoted scalars

Between single quotes a quote is written twice and nothing else is special.
Between double quotes a backslash begins an escape.  In both, blanks around the
end of a line are dropped and the breaks are folded; a backslash at the end of a
line joins it to the next one.  A document mark at the start of a line is not
allowed inside quotes.
-/

namespace Lineage.Yaml.Quoted

/-! ## Breaks -/

/-- The breaks of empty lines, up to the next character that is no blank; `fuel` bounds their
number. -/
def breaks : Nat → Cursor → Reading (List Char)
  | 0, _ => .error .malformed
  | fuel + 1, cursor =>
    if cursor.atMarker then .error .malformed
    else
      let cursor := cursor.skipWhile isBlank
      match cursor.break? with
      | none => .ok ([], cursor)
      | some (first, cursor) => (breaks fuel cursor).map fun (more, cursor) => (first :: more, cursor)

/-- What blanks and breaks inside quotes stand for. -/
def gap (cursor : Cursor) : Reading (List Char) :=
  let blanks := cursor.rest.takeWhile isBlank
  let cursor := cursor.skip blanks.length
  match cursor.break? with
  | none => .ok (blanks, cursor)
  | some (first, cursor) =>
    (breaks (cursor.rest.length + 1) cursor).map fun (more, cursor) => (folded first more, cursor)

/-! ## Escapes -/

def escaped? : Char → Option Char
  | '0' => some '\x00'
  | 'a' => some '\x07'
  | 'b' => some '\x08'
  | 't' => some '\t'
  | '\t' => some '\t'
  | 'n' => some '\n'
  | 'v' => some '\x0b'
  | 'f' => some '\x0c'
  | 'r' => some '\r'
  | 'e' => some '\x1b'
  | ' ' => some ' '
  | '"' => some '"'
  | '\\' => some '\\'
  | '/' => some '/'
  | 'N' => some '\x85'
  | '_' => some '\xa0'
  | 'L' => some '\u2028'
  | 'P' => some '\u2029'
  | _ => none

/-- How many digits of a code point follow a letter after a backslash. -/
def codeWidth? : Char → Option Nat
  | 'x' => some 2
  | 'u' => some 4
  | 'U' => some 8
  | _ => none

/-- What an escape stands for, from the character behind the backslash on. -/
def escape (cursor : Cursor) : Reading (List Char) :=
  match cursor.rest with
  | [] => .error .malformed
  | letter :: rest =>
    match escaped? letter, codeWidth? letter with
    | some c, _ => .ok ([c], cursor.next)
    | none, some width =>
      match Hex.read? width rest 0 with
      | none => .error .malformed
      | some (code, _) =>
        if 0x7FFFFFFF < code then .error .noWord
        else if 0x10FFFF < code then .error .noCharacter
        else if code.isValidChar then .ok ([Char.ofNat code], cursor.skip (width + 1))
        else .error .malformed
    | none, none =>
      match cursor.break? with
      | none => .error .malformed
      | some (_, cursor) => breaks (cursor.rest.length + 1) cursor

/-! ## The whole scalar -/

/-- The text from a cursor to the closing quote; `fuel` bounds the steps. -/
def body (quote : Char) : Nat → Cursor → Reading (List Char)
  | 0, _ => .error .malformed
  | fuel + 1, cursor =>
    match cursor.rest with
    | [] => .error .malformed
    | c :: rest =>
      let after (piece : List Char) (cursor : Cursor) : Reading (List Char) :=
        (body quote fuel cursor).map fun (text, cursor) => (piece ++ text, cursor)
      if c = quote then
        if c = '\'' ∧ rest.head? = some '\'' then after ['\''] (cursor.skip 2)
        else .ok ([], cursor.next)
      else if c = '\\' ∧ quote = '"' then
        match escape cursor.next with
        | .error fault => .error fault
        | .ok (piece, cursor) => after piece cursor
      else if isBlank c || isBreak c then
        match gap cursor with
        | .error fault => .error fault
        | .ok (piece, cursor) => after piece cursor
      else after [c] cursor.next

def scalar (quote : Char) (cursor : Cursor) : Reading String :=
  (body quote (cursor.rest.length + 1) cursor.next).map fun (text, cursor) =>
    (String.ofList text, cursor)

end Lineage.Yaml.Quoted
