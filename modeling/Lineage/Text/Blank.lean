/-!
# Blank characters

Two sets of blank characters are in use.  `isSpace` is the Unicode property
White_Space.  `isBlank` has the four information separators U+001C to U+001F
besides; the zero-width characters U+200B and U+FEFF belong to neither.
-/

namespace Lineage.Text

/-- The Unicode property White_Space. -/
def isSpace (c : Char) : Bool :=
  let n := c.toNat
  (9 ≤ n && n ≤ 13) || n == 0x20 || n == 0x85 || n == 0xA0 || n == 0x1680 ||
    (0x2000 ≤ n && n ≤ 0x200A) || n == 0x2028 || n == 0x2029 || n == 0x202F ||
    n == 0x205F || n == 0x3000

/-- White space, or one of the information separators. -/
def isBlank (c : Char) : Bool :=
  isSpace c || (0x1C ≤ c.toNat && c.toNat ≤ 0x1F)

/-- A list without the elements at its end that pass a test. -/
def dropEndWhile {α : Type} (p : α → Bool) (xs : List α) : List α :=
  (xs.reverse.dropWhile p).reverse

/-- A list without the elements at either end that pass a test. -/
def trimWhile {α : Type} (p : α → Bool) (xs : List α) : List α :=
  dropEndWhile p (xs.dropWhile p)

/-- ASCII capitals become small letters and all else stays. -/
def lower (text : String) : String :=
  String.ofList (text.toList.map Char.toLower)

end Lineage.Text
