/-!
# Decimal numerals and the doubles they name

A number written with a fraction or an exponent is kept as it was written, as a
decimal.  Where a double is meant, `Decimal.toFloat` is the nearest one and
`Dyadic.ofFloat?` is its exact value, a whole multiple of a power of two, so
that "has no fraction" is decided in integer arithmetic.  Every double has a
finite decimal too, since a half is five tenths; `Numeral.ofFloat` takes it.
-/

namespace Lineage

/-- The powers of two. -/
def twoTo (n : Nat) : Nat := Nat.pow 2 n

/-- The powers of ten. -/
def tenTo (n : Nat) : Nat := Nat.pow 10 n

/-- Whether an integer fits a signed word of 64 bits. -/
def fitsWord (n : Int) : Bool := -(twoTo 63 : Int) ≤ n && n < twoTo 63

/-- The number `mantissa * 10 ^ exponent`, or its negative; zero too may be negative. -/
structure Decimal where
  negative : Bool
  mantissa : Nat
  exponent : Int
deriving DecidableEq, Repr, Inhabited

/-- The number `significand * 2 ^ exponent`. -/
structure Dyadic where
  significand : Int
  exponent : Int
deriving DecidableEq, Repr, Inhabited

namespace Decimal

/-- How many decimal digits the mantissa has. -/
def width (d : Decimal) : Nat := (Nat.toDigits 10 d.mantissa).length

/-- The nearest double.  A magnitude beyond every double is infinite, one below every double is
zero; those two cases are decided from the digits, before any power is computed. -/
def toFloat (d : Decimal) : Float :=
  let leading : Int := d.exponent + d.width
  let magnitude : Float :=
    if d.mantissa = 0 ∨ leading < -400 then 0
    else if 400 < leading then 1 / 0
    else Float.ofScientific d.mantissa (decide (d.exponent < 0)) d.exponent.natAbs
  if d.negative then -magnitude else magnitude

end Decimal

namespace Dyadic

/-- The exact value of a finite double. -/
def ofFloat? (x : Float) : Option Dyadic :=
  let bits := x.toBits.toNat
  let negative := bits / twoTo 63 = 1
  let biased := bits / twoTo 52 % twoTo 11
  let fraction := bits % twoTo 52
  if biased = 2047 then none
  else
    let magnitude : Nat := if biased = 0 then fraction else twoTo 52 + fraction
    let exponent : Int := (if biased = 0 then 1 else biased : Nat) - 1075
    some ⟨if negative then -magnitude else magnitude, exponent⟩

/-- The integer that the number is, if it has no fraction. -/
def toInt? (x : Dyadic) : Option Int :=
  if 0 ≤ x.exponent then some (x.significand * twoTo x.exponent.toNat)
  else
    let unit : Int := twoTo (-x.exponent).toNat
    if x.significand % unit = 0 then some (x.significand / unit) else none

/-- The number without its fraction. -/
def truncate (x : Dyadic) : Int :=
  if 0 ≤ x.exponent then x.significand * twoTo x.exponent.toNat
  else Int.tdiv x.significand (twoTo (-x.exponent).toNat)

/-- The same number as a decimal: a half to some power is five tenths to that power. -/
def toDecimal (x : Dyadic) (negative : Bool) : Decimal :=
  if 0 ≤ x.exponent then ⟨negative, x.significand.natAbs * twoTo x.exponent.toNat, 0⟩
  else ⟨negative, x.significand.natAbs * Nat.pow 5 (-x.exponent).toNat, x.exponent⟩

end Dyadic

/-- A number that was not written as an integer. -/
inductive Numeral where
  | finite (value : Decimal)
  | infinite (negative : Bool)
  | undefined
deriving DecidableEq, Repr, Inhabited

namespace Numeral

/-- The double that the numeral names. -/
def toFloat : Numeral → Float
  | finite value => value.toFloat
  | infinite negative => if negative then -1 / 0 else 1 / 0
  | undefined => 0 / 0

/-- The exact value of the double that the numeral names, if it is finite. -/
def dyadic? (x : Numeral) : Option Dyadic := Dyadic.ofFloat? x.toFloat

/-- The integer that the double is, if it is finite and has no fraction. -/
def toInt? (x : Numeral) : Option Int := x.dyadic?.bind Dyadic.toInt?

/-- Whether the sign of a double is that of the negative numbers. -/
def isNegative (x : Float) : Bool := x.toBits.toNat / twoTo 63 = 1

/-- The numeral that writes a double out in full. -/
def ofFloat (x : Float) : Numeral :=
  match Dyadic.ofFloat? x with
  | some value => .finite (value.toDecimal (isNegative x))
  | none => if x.isNaN then .undefined else .infinite (isNegative x)

end Numeral

end Lineage
