import Lineage.Value

/-!
# JSON text: writing

A data tree is written on one line.  Two layouts are in use: `compact`, without
blanks and with every character above U+001F written as itself, names the
content of documents; `ascii`, with a blank after each comma and colon and only
printable ASCII characters, is the layout of log lines.  They also differ in
where they begin to write a number with an exponent.  A character above U+FFFF
is escaped as a pair of surrogates.
-/

namespace Lineage.Json

/-- How a tree is laid out on its line. -/
structure Layout where
  comma : List Char
  colon : List Char
  /-- Whether characters outside printable ASCII are escaped. -/
  asciiOnly : Bool
  numbers : Shortest.Layout

def Layout.compact : Layout := ⟨[','], [':'], false, Numeral.compactLayout⟩

def Layout.ascii : Layout := ⟨[',', ' '], [':', ' '], true, Numeral.layout⟩

/-! ## Strings -/

/-- The escape of a code unit of sixteen bits. -/
def unitEscape (unit : Nat) : List Char := '\\' :: 'u' :: Hex.digits 4 unit

/-- The escape of a code point by one or two code units. -/
def pointEscape (point : Nat) : List Char :=
  if point < 0x10000 then unitEscape point
  else
    let offset := point - 0x10000
    unitEscape (0xD800 + offset / 0x400) ++ unitEscape (0xDC00 + offset % 0x400)

/-- How a character stands in a string. -/
def Layout.escape (layout : Layout) (c : Char) : List Char :=
  if c = '"' then ['\\', '"']
  else if c = '\\' then ['\\', '\\']
  else if c = '\n' then ['\\', 'n']
  else if c = '\r' then ['\\', 'r']
  else if c = '\t' then ['\\', 't']
  else if c = '\x08' then ['\\', 'b']
  else if c = '\x0c' then ['\\', 'f']
  else if c.toNat < 0x20 ∨ (layout.asciiOnly ∧ 0x7E < c.toNat) then pointEscape c.toNat
  else [c]

/-- A string between double quotes. -/
def Layout.string (layout : Layout) (text : String) : List Char :=
  '"' :: (text.toList.flatMap layout.escape ++ ['"'])

/-! ## Trees -/

/-- The decimal digits of an integer, after a minus sign if it is negative. -/
def integer (n : Int) : List Char :=
  if n < 0 then '-' :: Nat.toDigits 10 n.natAbs else Nat.toDigits 10 n.natAbs

mutual

/-- The characters of a tree. -/
def Layout.tree (layout : Layout) : Value → List Char
  | .null => ['n', 'u', 'l', 'l']
  | .bool true => ['t', 'r', 'u', 'e']
  | .bool false => ['f', 'a', 'l', 's', 'e']
  | .int n => integer n
  | .number x => (x.write layout.numbers).toList
  | .text s => layout.string s
  | .moment m => layout.string m.text
  | .list [] => ['[', ']']
  | .list (item :: items) => '[' :: (layout.tree item ++ layout.restOfList items)
  | .record [] => ['\x7b', '\x7d']
  | .record ((key, value) :: fields) =>
    '\x7b' :: (layout.string (key.name) ++ layout.colon ++ layout.tree value ++
      layout.restOfRecord fields)

/-- The items after the first one, and the closing bracket. -/
def Layout.restOfList (layout : Layout) : List Value → List Char
  | [] => [']']
  | item :: items => layout.comma ++ layout.tree item ++ layout.restOfList items

/-- The fields after the first one, and the closing brace. -/
def Layout.restOfRecord (layout : Layout) : List (Key × Value) → List Char
  | [] => ['\x7d']
  | (key, value) :: fields =>
    layout.comma ++ layout.string key.name ++ layout.colon ++ layout.tree value ++
      layout.restOfRecord fields

end

/-- The text of a tree in a layout. -/
def Layout.write (layout : Layout) (value : Value) : String :=
  String.ofList (layout.tree value)

/-- The compact text of a tree. -/
def compact (value : Value) : String := Layout.compact.write value

end Lineage.Json
