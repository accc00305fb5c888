import Lineage.Number.Decimal
import Lineage.Yaml.Cursor

/-!
# Reading dates and times of day

A date is a year of four digits, a month and a day of two.  With a time of day
behind it, month, day and hour may have a single digit; the time may have a
fraction of a second and the distance from universal time.  A scalar of this
form that names no day of the calendar or no time of the day has no value.
-/

namespace Lineage.Moment

/-! ## The parts of a scalar -/

/-- A number of at least and at most so many digits, and what follows. -/
def digits? (least most : Nat) (text : List Char) : Option (Nat × List Char) :=
  let run := (text.take most).takeWhile Char.isDigit
  if least ≤ run.length then some (Nat.ofDigitChars 10 run 0, text.drop run.length) else none

def behind? (c : Char) : List Char → Option (List Char)
  | first :: rest => if first = c then some rest else none
  | [] => none

def day? (least : Nat) (text : List Char) : Option ((Nat × Nat × Nat) × List Char) := do
  let (year, text) ← digits? 4 4 text
  let text ← behind? '-' text
  let (month, text) ← digits? least 2 text
  let text ← behind? '-' text
  let (day, text) ← digits? least 2 text
  return ((year, month, day), text)

/-- What follows the letter or the blanks between the day and the time. -/
def behindGap? : List Char → Option (List Char)
  | 'T' :: rest | 't' :: rest => some rest
  | c :: rest => if Yaml.isBlank c then some (rest.dropWhile Yaml.isBlank) else none
  | [] => none

/-- The microseconds that the digits of a fraction write. -/
def micros (digits : List Char) : Nat :=
  let kept := digits.take 6
  Nat.ofDigitChars 10 kept 0 * tenTo (6 - kept.length)

/-- The distance from universal time at the end of a scalar, if there is one. -/
def offset? (text : List Char) : Option (Option Int) :=
  match text.dropWhile Yaml.isBlank with
  | [] => if text.isEmpty then some none else none
  | ['Z'] => some (some 0)
  | sign :: rest =>
    if sign = '+' ∨ sign = '-' then do
      let (hours, rest) ← digits? 1 2 rest
      let minutes ←
        if rest.isEmpty then pure 0
        else do
          let rest ← behind? ':' rest
          let (minutes, rest) ← digits? 2 2 rest
          if rest.isEmpty then pure minutes else none
      let ahead : Int := hours * 60 + minutes
      return some (if sign = '-' then -ahead else ahead)
    else none

def ofText? (text : List Char) : Option Moment :=
  match day? 2 text with
  | some ((year, month, day), []) => some ⟨year, month, day, none, none⟩
  | _ => do
    let ((year, month, day), text) ← day? 1 text
    let text ← behindGap? text
    let (hour, text) ← digits? 1 2 text
    let text ← behind? ':' text
    let (minute, text) ← digits? 2 2 text
    let text ← behind? ':' text
    let (second, text) ← digits? 2 2 text
    let (fraction, text) : List Char × List Char :=
      match text with
      | '.' :: rest => (rest.takeWhile Char.isDigit, rest.dropWhile Char.isDigit)
      | text => ([], text)
    let offset ← offset? text
    return ⟨year, month, day, some (hour, minute, second, micros fraction), offset⟩

/-! ## The calendar -/

/-- The first thing that is wrong with a moment; its distance from universal time is looked at
first. -/
def fault? (moment : Moment) : Option Yaml.Fault :=
  let (hour, minute, second, _) := moment.time.getD (0, 0, 0, 0)
  let distance := moment.offset.getD 0
  if 24 * 60 ≤ distance.natAbs then some (.offsetOutOfRange distance)
  else if moment.year = 0 then some (.yearOutOfRange 0)
  else if moment.month = 0 ∨ 12 < moment.month then some .monthOutOfRange
  else if moment.day = 0 ∨ Date.daysIn moment.year moment.month < moment.day then some .dayOutOfRange
  else if 23 < hour then some .hourOutOfRange
  else if 59 < minute then some .minuteOutOfRange
  else if 59 < second then some .secondOutOfRange
  else none

end Lineage.Moment
