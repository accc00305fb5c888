import Lineage.Fault
import Lineage.Json.Printer
import Lineage.Log.Instant
import Lineage.Log.Template
import Lineage.Stored.Operation
import Lineage.Text.Lowercase

/-!
# Log records

A record has a level, the name of the logger it went through and a message.  It
is written as one line, either as a JSON object in printable ASCII or, for a
console, as plain text.  The time is passed as the text that stands for it.
-/

namespace Lineage

namespace Level

def debug : Int := 10
def info : Int := 20
def warning : Int := 30
def error : Int := 40
def critical : Int := 50

/-- The name of a level. -/
def name (level : Int) : String :=
  if level = 0 then "NOTSET"
  else if level = debug then "DEBUG"
  else if level = info then "INFO"
  else if level = warning then "WARNING"
  else if level = error then "ERROR"
  else if level = critical then "CRITICAL"
  else "Level " ++ toString level

/-- The name of a level that may be any number.  One that counts as an integer with a name of its
own has that name. -/
def title : Value → String
  | .int level => name level
  | value =>
    match value.count?.filter (· ∈ [0, debug, info, warning, error, critical]) with
    | some level => name level
    | none => "Level " ++ value.display

end Level

/-- What made an action fail, as a log line reports it. -/
inductive Cause where
  | fault (found : Fault)
  /-- Any other cause: a word for it and what was said about it. -/
  | other (label : String) (arguments : List Value)

namespace Cause

/-- What is said about a cause other than a fault.  One argument is shown as it is, save that a
missing key is quoted; several are shown in parentheses. -/
def detail (label : String) : List Value → String
  | [] => ""
  | [argument] => if label = "KeyError" then argument.literal else argument.display
  | arguments => "(" ++ ", ".intercalate (Value.literals arguments) ++ ")"

/-- A word and what is said about it, if anything is. -/
def titled (label detail : String) : String :=
  if detail = "" then label else label ++ ": " ++ detail

/-- The text of a cause.  Faults are marked as belonging to this library. -/
def text : Cause → String
  | fault found => titled ("fieldlineage.errors." ++ found.label) found.message
  | other label arguments => titled label (detail label arguments)

end Cause

/-- One record of the log.  Its level is kept by name. -/
structure LogRecord where
  level : String
  logger : String
  message : String
  cause : Option Cause

namespace LogRecord

/-- The fields of a record's JSON line. -/
def fields (record : LogRecord) (service time : String) : List (String × Value) :=
  [("timestamp", .text time), ("level", .text (Text.lowercase record.level)),
    ("service", .text service), ("logger", .text record.logger), ("message", .text record.message)] ++
    (record.cause.map fun cause => ("exception", Value.text cause.text)).toList

/-- The record as a JSON line. -/
def jsonLine (record : LogRecord) (service time : String) : String :=
  Json.Layout.ascii.write (.ofFields (record.fields service time))

/-- The record as a line of plain text. -/
def textLine (record : LogRecord) (time : String) : String :=
  time ++ " " ++ record.level ++ " " ++ record.logger ++ ": " ++ record.message

end LogRecord

/-! ## Records as they are raised -/

/-- A record before its message is put together and its time is written. -/
structure RawRecord where
  level : String
  logger : String
  template : String
  arguments : List Value
  created : Instant
  cause : Option Cause

/-- Why a record has no line. -/
inductive Unwritable where
  | time (found : Instant.Beyond)
  | message (found : Template.Mismatch)
deriving DecidableEq, Repr

/-- The sentence for a record that has no line; years beyond their word have none. -/
def Unwritable.message? : Unwritable → Option String
  | time .seconds => some "timestamp out of range for platform time_t"
  | time .years => none
  | time (.calendar year) => some ("year " ++ toString year ++ " is out of range")
  | message found => some found.message

/-- The JSON line of a record; its time is looked at first. -/
def RawRecord.jsonLine (raw : RawRecord) (service : String) : Except Unwritable String :=
  match raw.created.text with
  | .error found => .error (.time found)
  | .ok time =>
    match Template.apply raw.template raw.arguments with
    | .error found => .error (.message found)
    | .ok message =>
      .ok (LogRecord.jsonLine ⟨raw.level, raw.logger, message, raw.cause⟩ service time)

end Lineage
