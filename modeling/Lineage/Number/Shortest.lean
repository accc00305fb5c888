import Lineage.Number.Decimal

/-!
# The shortest text of a double

A double is written with the fewest significant digits that read back as the
same double; of two such texts the nearer one is taken.  The doubles that a
decimal reads back to form an interval around it.  Grids of decimals are tried
from the coarsest on, and on each grid only the two neighbours of the value can
lie in the interval, so the first hit has the fewest digits.

All comparisons are made between integers: `a * 10 ^ p` and `b * 2 ^ q` are
compared after both are multiplied by the powers that clear the denominators.
-/

namespace Lineage.Shortest

/-- The interval of numbers that round to a double, in units of `2 ^ exponent`. -/
structure Interval where
  low : Nat
  value : Nat
  high : Nat
  exponent : Int
  closed : Bool

/-- The numbers that round to a positive double: up to half a unit away on either side, and only
a quarter below a power of two, where the next smaller double is half as far. -/
def interval (significand : Nat) (exponent : Int) : Interval where
  low := if significand = twoTo 52 ∧ -1074 < exponent then 4 * significand - 1 else 4 * significand - 2
  value := 4 * significand
  high := 4 * significand + 2
  exponent := exponent - 2
  closed := significand % 2 = 0

/-- The multiple of `10 ^ power` in the interval that is nearest to its value. -/
def onGrid? (i : Interval) (power : Int) : Option Nat :=
  let gridFactor := tenTo power.toNat * twoTo (-i.exponent).toNat
  let binaryFactor := twoTo i.exponent.toNat * tenTo (-power).toNat
  let target := i.value * binaryFactor
  let inside (multiple : Nat) : Bool :=
    let point := multiple * gridFactor
    if i.closed then i.low * binaryFactor ≤ point && point ≤ i.high * binaryFactor
    else i.low * binaryFactor < point && point < i.high * binaryFactor
  let below := target / gridFactor
  let above := below + 1
  match inside below, inside above with
  | true, true =>
    let down := target - below * gridFactor
    let up := above * gridFactor - target
    some (if down < up || (down == up && below % 2 == 0) then below else above)
  | true, false => some below
  | false, true => some above
  | false, false => none

/-- The first hit on the grids `10 ^ power`, `10 ^ (power - 1)`, and so on. -/
def search (i : Interval) : Nat → Int → Nat × Int
  | 0, power => (0, power)
  | fuel + 1, power =>
    match onGrid? i power with
    | some multiple => (multiple, power)
    | none => search i fuel (power - 1)

/-- The shortest decimal that reads back as a positive double. -/
def decimal (significand : Nat) (exponent : Int) : Nat × Int :=
  search (interval significand exponent) 700 310

/-- Where positional writing ends and how an exponent is written. -/
structure Layout where
  /-- Below ten to this power a number is written without exponent. -/
  positionalBelow : Int
  /-- Down to ten to this power a number is written without exponent. -/
  positionalFrom : Int
  /-- The least number of digits of an exponent. -/
  exponentWidth : Nat

private def zeros (n : Nat) : String := String.ofList (List.replicate n '0')

/-- The text of `multiple * 10 ^ power`. -/
def Layout.write (layout : Layout) (multiple : Nat) (power : Int) : String :=
  let digits := toString multiple
  let point : Int := digits.length + power
  if layout.positionalFrom ≤ point - 1 ∧ point - 1 < layout.positionalBelow then
    if point ≤ 0 then "0." ++ zeros (-point).toNat ++ digits
    else if digits.length ≤ point.toNat then digits ++ zeros (point.toNat - digits.length) ++ ".0"
    else (digits.take point.toNat).toString ++ "." ++ (digits.drop point.toNat).toString
  else
    let exponent := toString (point - 1).natAbs
    let padded := zeros (layout.exponentWidth - exponent.length) ++ exponent
    let fraction := (digits.drop 1).toString
    (digits.take 1).toString ++ (if fraction.isEmpty then "" else "." ++ fraction) ++ "e" ++
      (if point - 1 < 0 then "-" else "+") ++ padded

end Lineage.Shortest

namespace Lineage

/-- Numbers from `10 ^ -4` up to below `10 ^ 16` are written without exponent, and an exponent has
two digits at least. -/
def Numeral.layout : Shortest.Layout := ⟨16, -4, 2⟩

/-- Numbers from `10 ^ -5` up to below `10 ^ 16` are written without exponent, and an exponent has
as many digits as it needs. -/
def Numeral.compactLayout : Shortest.Layout := ⟨16, -5, 1⟩

/-- The text, in a layout, of the double that a numeral names. -/
def Numeral.write (layout : Shortest.Layout) (x : Numeral) : String :=
  let sign := if Numeral.isNegative x.toFloat then "-" else ""
  match x.dyadic? with
  | none =>
    match x with
    | .undefined => "nan"
    | _ => sign ++ "inf"
  | some value =>
    if value.significand = 0 then sign ++ "0.0"
    else
      let (multiple, power) := Shortest.decimal value.significand.natAbs value.exponent
      sign ++ layout.write multiple power

/-- The text of the double that a numeral names. -/
def Numeral.text (x : Numeral) : String := x.write Numeral.layout

end Lineage
