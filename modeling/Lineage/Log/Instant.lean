import Lineage.Calendar
import Lineage.Number.Decimal
import Lineage.Text.Padded

/-!
# Instants and their text

An instant is a whole number of seconds since the start of 1970 and a part of a
second in microseconds.  A number of seconds with a fraction is rounded to the
nearest microsecond, and a half goes to the even neighbour.

The text is that of ISO 8601 in universal time; a part of a second is written
only if there is one.  Only the years 1 to 9999 have a text.  Beyond them there
are two further bounds: seconds are counted in words of 64 bits, and years since
1900 in words of 32 bits.
-/

namespace Lineage

/-- A point in time, `seconds + micros / 10 ^ 6` seconds after the start of 1970. -/
structure Instant where
  seconds : Int
  micros : Nat
deriving DecidableEq, Repr

namespace Dyadic

/-- The nearest integer; a half goes to the even neighbour. -/
def round (x : Dyadic) : Int :=
  if 0 ≤ x.exponent then x.significand * twoTo x.exponent.toNat
  else
    let unit : Int := twoTo (-x.exponent).toNat
    let below := x.significand / unit
    let rest := x.significand % unit
    if 2 * rest < unit ∨ (2 * rest = unit ∧ below % 2 = 0) then below else below + 1

end Dyadic

namespace Instant

/-- The instant that lies a whole number of seconds after the start of 1970. -/
def ofSeconds (seconds : Int) : Instant := ⟨seconds, 0⟩

/-- The instant nearest to a number of seconds, if it is finite. -/
def ofFloat? (seconds : Float) : Option Instant :=
  let whole := if seconds < 0 then seconds.ceil else seconds.floor
  let fraction := (seconds - whole) * 1000000
  match Dyadic.ofFloat? whole, Dyadic.ofFloat? fraction with
  | some whole, some fraction =>
    let micros := fraction.round
    if 1000000 ≤ micros then some ⟨whole.round + 1, (micros - 1000000).toNat⟩
    else if micros < 0 then some ⟨whole.round - 1, (micros + 1000000).toNat⟩
    else some ⟨whole.round, micros.toNat⟩
  | _, _ => none

/-- Why an instant has no text. -/
inductive Beyond where
  | seconds
  | years
  /-- A year that has no four digits, counted in a word of 32 bits. -/
  | calendar (year : Int)
deriving DecidableEq, Repr

/-- The text of an instant, or why it has none. -/
def text (instant : Instant) : Except Beyond String :=
  let date := Date.ofDays (instant.seconds / 86400)
  let second := (instant.seconds % 86400).toNat
  if ¬ fitsWord instant.seconds then .error .seconds
  else if Int.bmod (date.year - 1900) (twoTo 32) ≠ date.year - 1900 then .error .years
  else if date.year < 1 ∨ 9999 < date.year then .error (.calendar (Int.bmod date.year (twoTo 32)))
  else
    .ok (Text.padded 4 date.year.toNat ++ "-" ++ Text.padded 2 date.month ++ "-" ++
      Text.padded 2 date.day ++ "T" ++ Text.padded 2 (second / 3600) ++ ":" ++
      Text.padded 2 (second / 60 % 60) ++ ":" ++ Text.padded 2 (second % 60) ++
      (if instant.micros = 0 then "" else "." ++ Text.padded 6 instant.micros) ++ "+00:00")

end Instant

end Lineage
