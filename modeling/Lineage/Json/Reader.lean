import Lineage.Value

/-!
# JSON text: reading

Reading is strict: one value with blanks around it, no comments, no trailing
commas, no raw control characters in strings, no surrogate that stands alone.
Only `NaN` and `Infinity`, which are no numbers of the format, are let pass.  Of
fields of one name the first gives the place and the last the value.  How many
digits the integer part of a number may have is limited, and how deep lists and
records that hold something may be nested; the depth is also what the recursion
of `tree` descends on.

A reader takes the characters that are left and gives what it read together
with the rest.
-/

namespace Lineage.Json

/-- How much a text may hold. -/
structure Limits where
  /-- How deep lists and records may be nested. -/
  depth : Nat
  /-- How many digits the integer part of a number may have; a sign is none. -/
  width : Nat

/-- What is read at the head of a text, and the rest of the text. -/
abbrev Reader (α : Type) := List Char → Option (α × List Char)

def isBlank (c : Char) : Bool := c == ' ' || c == '\n' || c == '\r' || c == '\t'

def skipBlanks (text : List Char) : List Char := text.dropWhile isBlank

/-! ## Strings -/

/-- The code unit that four hexadecimal digits stand for. -/
def unit? (a b c d : Char) : Option Nat :=
  (Hex.read? 4 [a, b, c, d] 0).map Prod.fst

/-- The character that a letter after a backslash stands for. -/
def escaped? : Char → Option Char
  | '"' => some '"'
  | '\\' => some '\\'
  | '/' => some '/'
  | 'b' => some '\x08'
  | 'f' => some '\x0c'
  | 'n' => some '\n'
  | 'r' => some '\r'
  | 't' => some '\t'
  | _ => none

/-- The characters up to the closing quote. -/
def stringBody : Reader (List Char)
  | [] => none
  | '"' :: rest => some ([], rest)
  | '\\' :: 'u' :: a :: b :: c :: d :: rest =>
    match unit? a b c d with
    | none => none
    | some unit =>
      if 0xDC00 ≤ unit ∧ unit < 0xE000 then none
      else if 0xD800 ≤ unit ∧ unit < 0xDC00 then
        match rest with
        | '\\' :: 'u' :: e :: f :: g :: h :: rest =>
          match unit? e f g h with
          | none => none
          | some low =>
            if 0xDC00 ≤ low ∧ low < 0xE000 then
              (stringBody rest).map fun (body, rest) =>
                (Char.ofNat (0x10000 + (unit - 0xD800) * 0x400 + (low - 0xDC00)) :: body, rest)
            else none
        | _ => none
      else (stringBody rest).map fun (body, rest) => (Char.ofNat unit :: body, rest)
  | '\\' :: letter :: rest =>
    match escaped? letter with
    | none => none
    | some c => (stringBody rest).map fun (body, rest) => (c :: body, rest)
  | c :: rest =>
    if c = '\\' ∨ c.toNat < 0x20 then none
    else (stringBody rest).map fun (body, rest) => (c :: body, rest)

/-! ## Numbers -/

/-- A run of at least one digit. -/
def digits : Reader (List Char) := fun text =>
  match text.takeWhile Char.isDigit with
  | [] => none
  | run => some (run, text.dropWhile Char.isDigit)

/-- Zero, or a run of digits that does not begin with zero. -/
def wholePart : Reader (List Char)
  | '0' :: rest => some (['0'], rest)
  | text => digits text

/-- The digits after a point, if there is a point. -/
def fractionPart : Reader (List Char)
  | '.' :: rest => digits rest
  | text => some ([], text)

/-- The exponent, if there is one. -/
def exponentPart : Reader (Option Int) := fun text =>
  match text with
  | e :: rest =>
    if e = 'e' ∨ e = 'E' then
      let (negative, rest) : Bool × List Char :=
        match rest with
        | '-' :: rest => (true, rest)
        | '+' :: rest => (false, rest)
        | rest => (false, rest)
      (digits rest).map fun (run, rest) =>
        let magnitude : Int := Nat.ofDigitChars 10 run 0
        (some (if negative then -magnitude else magnitude), rest)
    else some (none, text)
  | [] => some (none, text)

/-- The sign at the head of a number. -/
def minusSign : List Char → Bool × List Char
  | '-' :: rest => (true, rest)
  | text => (false, text)

/-- A number is an integer unless it has a fraction or an exponent. -/
def number (width : Nat) : Reader Value := fun text =>
  let (negative, text) := minusSign text
  match wholePart text with
  | none => none
  | some (whole, text) =>
    if width < whole.length then none
    else
      match fractionPart text with
      | none => none
      | some (fraction, text) =>
        match exponentPart text with
        | none => none
        | some (exponent, text) =>
          let mantissa := Nat.ofDigitChars 10 (whole ++ fraction) 0
          if fraction = [] ∧ exponent = none then
            some (.int (if negative then -mantissa else mantissa), text)
          else
            some (.number (.finite ⟨negative, mantissa, exponent.getD 0 - fraction.length⟩), text)

/-- A number without end, perhaps with a minus sign. -/
def endless : Reader Value := fun text =>
  match minusSign text with
  | (negative, 'I' :: 'n' :: 'f' :: 'i' :: 'n' :: 'i' :: 't' :: 'y' :: text) =>
    some (.number (.infinite negative), text)
  | _ => none

/-! ## Lists and records -/

/-- The items of a list up to the closing bracket; `fuel` bounds their number. -/
def items (item : Reader Value) : Nat → Reader (List Value)
  | 0, _ => none
  | fuel + 1, text =>
    match item (skipBlanks text) with
    | none => none
    | some (value, text) =>
      match skipBlanks text with
      | ',' :: text => (items item fuel text).map fun (values, text) => (value :: values, text)
      | ']' :: text => some ([value], text)
      | _ => none

/-- One field: its name, a colon and its value. -/
def field (item : Reader Value) : Reader (Key × Value) := fun text =>
  match skipBlanks text with
  | '"' :: text =>
    match stringBody text with
    | none => none
    | some (name, text) =>
      match skipBlanks text with
      | ':' :: text =>
        (item (skipBlanks text)).map fun (value, text) =>
          ((.text (String.ofList name), value), text)
      | _ => none
  | _ => none

/-- The fields of a record up to the closing brace; `fuel` bounds their number. -/
def fields (item : Reader Value) : Nat → Reader (List (Key × Value))
  | 0, _ => none
  | fuel + 1, text =>
    match field item text with
    | none => none
    | some (entry, text) =>
      match skipBlanks text with
      | ',' :: text => (fields item fuel text).map fun (entries, text) => (entry :: entries, text)
      | '\x7d' :: text => some ([entry], text)
      | _ => none

/-- A value at the head of a text; what lists and records hold is nested at most `depth` deep. -/
def tree (width : Nat) : Nat → Reader Value
  | depth, '[' :: text =>
    match skipBlanks text with
    | ']' :: text => some (.list [], text)
    | text =>
      match depth with
      | 0 => none
      | depth + 1 =>
        (items (tree width depth) text.length text).map fun (values, text) => (.list values, text)
  | depth, '\x7b' :: text =>
    match skipBlanks text with
    | '\x7d' :: text => some (.record [], text)
    | text =>
      match depth with
      | 0 => none
      | depth + 1 =>
        (fields (tree width depth) text.length text).map fun (entries, text) =>
          (.record (Value.collect entries), text)
  | _, '"' :: text => (stringBody text).map fun (body, text) => (.text (String.ofList body), text)
  | _, 'n' :: 'u' :: 'l' :: 'l' :: text => some (.null, text)
  | _, 't' :: 'r' :: 'u' :: 'e' :: text => some (.bool true, text)
  | _, 'f' :: 'a' :: 'l' :: 's' :: 'e' :: text => some (.bool false, text)
  | _, 'N' :: 'a' :: 'N' :: text => some (.number .undefined, text)
  | _, text => (endless text).or (number width text)

/-- What a document may hold. -/
def documentLimits : Limits := ⟨200, 4300⟩

/-- The one value that a text holds. -/
def read? (limits : Limits) (text : String) : Option Value :=
  match tree limits.width limits.depth (skipBlanks text.toList) with
  | some (value, rest) => if skipBlanks rest = [] then some value else none
  | none => none

end Lineage.Json
