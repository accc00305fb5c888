/-!
# Hexadecimal text

Code points are written in escapes by a fixed number of lower-case hexadecimal
digits, and read from digits of either case.
-/

namespace Lineage.Hex

/-- The lower-case digit of a number below sixteen. -/
def digit (n : Nat) : Char :=
  if n < 10 then Char.ofNat (48 + n) else Char.ofNat (87 + n)

/-- The last `width` hexadecimal digits of a number, the most significant first. -/
def digits : Nat → Nat → List Char
  | 0, _ => []
  | width + 1, n => digits width (n / 16) ++ [digit (n % 16)]

/-- The number that a digit of either case stands for. -/
def value? (c : Char) : Option Nat :=
  if '0' ≤ c ∧ c ≤ '9' then some (c.toNat - 48)
  else if 'a' ≤ c ∧ c ≤ 'f' then some (c.toNat - 87)
  else if 'A' ≤ c ∧ c ≤ 'F' then some (c.toNat - 55)
  else none

/-- The number written by exactly `width` digits at the head of a text, and what follows them. -/
def read? : Nat → List Char → Nat → Option (Nat × List Char)
  | 0, text, total => some (total, text)
  | width + 1, c :: text, total =>
    match value? c with
    | some d => read? width text (total * 16 + d)
    | none => none
  | _ + 1, [], _ => none

end Lineage.Hex
