import Lineage.Calendar
import Lineage.Text.Padded

/-!
# Dates and times of day

A moment is a day of the years 1 to 9999, and perhaps a time of that day and its
distance from universal time.  It has two texts: on its own it is shown in the
form of ISO 8601, and inside other data by how it is put together.

Two moments at known distances from universal time are the same if they are the
same instant, whatever the distances are.
-/

namespace Lineage

/-- A day, and perhaps a time of day. -/
structure Moment where
  year : Nat
  month : Nat
  day : Nat
  /-- Hour, minute, second and microseconds. -/
  time : Option (Nat × Nat × Nat × Nat)
  /-- How many minutes the time is ahead of universal time. -/
  offset : Option Int
deriving DecidableEq, Repr

namespace Moment

/-! ## Comparing -/

/-- The minutes since the start of 1970 in universal time, and what is left of the last one. -/
def universal? (moment : Moment) : Option (Int × Nat × Nat) :=
  match moment.time, moment.offset with
  | some (hour, minute, second, micros), some offset =>
    let days := Date.toDays ⟨moment.year, moment.month, moment.day⟩
    some (days * 1440 + (hour * 60 + minute : Nat) - offset, second, micros)
  | _, _ => none

/-- Whether two moments are the same. -/
def same (a b : Moment) : Bool :=
  match a.universal?, b.universal? with
  | some x, some y => x = y
  | none, none => a = b
  | _, _ => false

/-! ## Writing -/

def offsetText (offset : Int) : String :=
  (if offset < 0 then "-" else "+") ++ Text.padded 2 (offset.natAbs / 60) ++ ":" ++
    Text.padded 2 (offset.natAbs % 60)

/-- The moment on its own. -/
def text (moment : Moment) : String :=
  let day := Text.padded 4 moment.year ++ "-" ++ Text.padded 2 moment.month ++ "-" ++
    Text.padded 2 moment.day
  match moment.time with
  | none => day
  | some (hour, minute, second, micros) =>
    day ++ " " ++ Text.padded 2 hour ++ ":" ++ Text.padded 2 minute ++ ":" ++
      Text.padded 2 second ++ (if micros = 0 then "" else "." ++ Text.padded 6 micros) ++
      (moment.offset.map offsetText).getD ""

/-- A span of minutes, as whole days, which may be negative, and seconds of one more day. -/
def spanLiteral (minutes : Int) : String :=
  let days := minutes / 1440
  let seconds := minutes % 1440 * 60
  let parts := (if days = 0 then [] else ["days=" ++ toString days]) ++
    (if seconds = 0 then [] else ["seconds=" ++ toString seconds])
  "datetime.timedelta(" ++ (if parts.isEmpty then "0" else ", ".intercalate parts) ++ ")"

def zoneLiteral (offset : Int) : String :=
  if offset = 0 then "datetime.timezone.utc"
  else "datetime.timezone(" ++ spanLiteral offset ++ ")"

/-- The moment inside other data.  Seconds are left out if they and the microseconds are zero, and
microseconds if they are. -/
def literal (moment : Moment) : String :=
  let day := [moment.year, moment.month, moment.day]
  match moment.time with
  | none => "datetime.date(" ++ ", ".intercalate (day.map toString) ++ ")"
  | some (hour, minute, second, micros) =>
    let part := if micros = 0 then if second = 0 then [] else [second] else [second, micros]
    let zone := (moment.offset.map fun offset => "tzinfo=" ++ zoneLiteral offset).toList
    "datetime.datetime(" ++
      ", ".intercalate ((day ++ [hour, minute] ++ part).map toString ++ zone) ++ ")"

end Moment

end Lineage
