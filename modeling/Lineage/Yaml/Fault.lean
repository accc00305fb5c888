import Lineage.Moment

/-!
# What can be wrong with a text

Most faults are breaches of the rules of the language, and are not told apart.
The others are scalars of a known form that stand for nothing.
-/

namespace Lineage.Yaml

inductive Fault where
  /-- The text breaks the rules of the language. -/
  | malformed
  /-- An escape names no character. -/
  | noCharacter
  /-- An escape names no character, and its code does not fit a word of 32 bits. -/
  | noWord
  /-- An integer in a base other than ten has no digits. -/
  | noDigits (base : Nat)
  /-- An integer in base ten has more digits than are read. -/
  | tooManyDigits (count : Nat)
  /-- A time is a day or more away from universal time. -/
  | offsetOutOfRange (minutes : Int)
  | yearOutOfRange (year : Nat)
  | monthOutOfRange
  | dayOutOfRange
  | hourOutOfRange
  | minuteOutOfRange
  | secondOutOfRange
deriving DecidableEq, Repr

/-- The sentence for a fault of a scalar; a breach of the language has none. -/
def Fault.message? : Fault → Option String
  | malformed => none
  | noCharacter => some "chr() arg not in range(0x110000)"
  | noWord => some "Python int too large to convert to C int"
  | noDigits base =>
    some ("invalid literal for int() with base " ++ toString base ++ ": ''")
  | tooManyDigits count =>
    some ("Exceeds the limit (4300 digits) for integer string conversion: value has " ++
      toString count ++ " digits; use sys.set_int_max_str_digits() to increase the limit")
  | offsetOutOfRange minutes =>
    some ("offset must be a timedelta strictly between -timedelta(hours=24) and " ++
      "timedelta(hours=24), not " ++ Moment.spanLiteral minutes ++ ".")
  | yearOutOfRange year => some ("year " ++ toString year ++ " is out of range")
  | monthOutOfRange => some "month must be in 1..12"
  | dayOutOfRange => some "day is out of range for month"
  | hourOutOfRange => some "hour must be in 0..23"
  | minuteOutOfRange => some "minute must be in 0..59"
  | secondOutOfRange => some "second must be in 0..59"

end Lineage.Yaml
