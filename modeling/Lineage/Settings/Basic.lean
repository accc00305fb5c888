import Lineage.Stored.Operation

/-!
# Settings

Each setting is taken from the first place that has it: values given
explicitly, the environment, the settings file, the default.  Variables of the
environment and of the file carry the name of the setting after a fixed word.
Names are written in letters of either case, also those of explicit values; of
several that agree up to case the last counts.  Values from outside are checked
like stored data, and what is left over is ignored.

Left out are the explicit names with an underscore in front, such as `_env_file`
and `_env_prefix`, which say where to look for the file and for variables.  Here
they are left over like any other name that is not one of a setting.
-/

namespace Lineage

/-- The least level that is logged. -/
inductive Severity where
  | debug
  | info
  | warning
  | error
deriving DecidableEq, Repr

inductive LogStyle where
  | json
  | text
deriving DecidableEq, Repr

structure Settings where
  serviceName : String
  computeSummaries : Bool
  logLevel : Severity
  logStyle : LogStyle
  emitSpanEvents : Bool
deriving DecidableEq, Repr

namespace Severity

def label : Severity → String
  | debug => "debug"
  | info => "info"
  | warning => "warning"
  | error => "error"

/-- The level of log records that a severity stands for. -/
def level : Severity → Int
  | debug => 10
  | info => 20
  | warning => 30
  | error => 40

def all : List Severity := [debug, info, warning, error]

end Severity

namespace LogStyle

def label : LogStyle → String
  | json => "json"
  | text => "text"

def all : List LogStyle := [json, text]

end LogStyle

/-- Variables in order of appearance.  One that is only named has no value. -/
abbrev Variables := List (String × Option String)

namespace Variables

/-- The variables with one set, in its place if it was there before. -/
def set (known : Variables) (name : String) (value : Option String) : Variables :=
  if known.any fun entry => entry.1 == name then
    known.map fun entry => if entry.1 = name then (name, value) else entry
  else known ++ [(name, value)]

def unset (known : Variables) (name : String) : Variables :=
  known.filter fun entry => entry.1 ≠ name

/-- The value of the last variable of a name, up to case. -/
def find? (known : Variables) (name : String) : Option String :=
  (known.reverse.find? fun entry => Text.lower entry.1 = Text.lower name).bind Prod.snd

end Variables

namespace Settings

def default : Settings := ⟨"fieldlineage", true, .info, .json, true⟩

/-- What precedes the name of a setting in the name of a variable. -/
def variableStem : String := "fieldlineage_"

structure Sources where
  explicit : List (Key × Value)
  environment : Variables
  file : Variables

/-- The value given explicitly for a setting. -/
def Sources.explicit? (sources : Sources) (name : String) : Option Value :=
  (sources.explicit.reverse.find? fun entry => Text.lower entry.1.name = name).map Prod.snd

/-- The value given for a setting by the first place that has it. -/
def Sources.find? (sources : Sources) (name : String) : Option Value :=
  (sources.explicit? name).or
    (((sources.environment.find? (variableStem ++ name)).or
      (sources.file.find? (variableStem ++ name))).map Value.text)

def Sources.setting {α : Type} (sources : Sources) (name : String) (default : α)
    (check : Value → Check α) : Check α :=
  match sources.find? name with
  | some value => (check value).under (.key name)
  | none => .ok default

/-- One of several choices, given by its label in letters of either case and with blanks around. -/
def choice {α : Type} (label : α → String) (choices : List α) : Value → Check α
  | .text s =>
    let word := Text.lower (String.ofList (Text.trimWhile Text.isBlank s.toList))
    match choices.find? fun choice => label choice == word with
    | some choice => .ok choice
    | none => Check.fail (.notOneOf (choices.map label))
  | _ => Check.fail (.notOneOf (choices.map label))

def ofSources (sources : Sources) : Check Settings := do
  let (serviceName, computeSummaries, logLevel, logStyle, emitSpanEvents) ←
    (sources.setting "service_name" default.serviceName Check.text).zip
      ((sources.setting "compute_summaries" default.computeSummaries Check.bool).zip
        ((sources.setting "log_level" default.logLevel (choice Severity.label Severity.all)).zip
          ((sources.setting "log_format" default.logStyle (choice LogStyle.label LogStyle.all)).zip
            (sources.setting "emit_span_events" default.emitSpanEvents Check.bool))))
  return ⟨serviceName, computeSummaries, logLevel, logStyle, emitSpanEvents⟩

end Settings

end Lineage
