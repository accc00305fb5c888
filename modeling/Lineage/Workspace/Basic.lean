import Lineage.Log.Record
import Lineage.Settings.File
import Lineage.Stored.Document
import Lineage.Flow.Summary
import Lineage.Workspace.Files
import Lineage.Yaml.Fault

/-!
# The workspace

Snapshots are built, stored and queried in a workspace: a directory with files,
the environment, the settings once they are made, the documents loaded so far,
and where log records and span events go.  What an action reports besides its
result is written to the journal, in full: a span is taken to keep every event
that it is given, without a limit on how many there are or how long their texts
may be.

Settings and loaded documents carry a stamp, the number of the making that they
come from; two of them are the same thing if their stamps are equal.
-/

namespace Lineage

/-- A value with the number of the making that it comes from. -/
structure Stamped (α : Type) where
  value : α
  stamp : Nat

/-- What an action reports besides its result. -/
inductive Report where
  /-- A log record that passed the level of its logger. -/
  | record (record : LogRecord)
  /-- A line that the log handler printed. -/
  | line (text : String)
  /-- An event on the current span. -/
  | event (name : String) (attributes : List (String × Value))

/-- Where log records are printed: how, and under which name of a service. -/
structure LogHandler where
  style : LogStyle
  serviceName : String

structure Workspace where
  /-- The absolute path of the directory. -/
  directory : Path
  files : Files
  environment : Variables
  settings : Option (Stamped Settings)
  /-- The loaded documents by resolved path. -/
  documents : List (Path × Stamped Document)
  /-- How many settings and documents have been made. -/
  made : Nat
  /-- The level of the loggers of this library, if one is set; the level zero sets none. -/
  logLevel : Option Int
  /-- Whether every record that is raised is looked at, so that its message has to be put
  together. -/
  watched : Bool
  logHandler : Option LogHandler
  /-- The text that stands for the time in printed lines. -/
  time : String
  /-- Whether the current span records events. -/
  recording : Bool
  /-- The reports, the latest first. -/
  journal : List Report

/-- Why an action has no result. -/
inductive Failure where
  | fault (found : Fault)
  | issues (medium : Medium) (found : List Issue)
  | tracing (found : TracingFault)
  /-- A text that should be YAML has no value. -/
  | unreadable (found : Yaml.Fault)
  /-- The message of a log record that is looked at cannot be put together. -/
  | mismatch (found : Template.Mismatch)
  | noSuchFile (path : Path)
  | isDirectory
  | pathTooLong
  /-- A path or a variable holds a null character. -/
  | holdsNull
  /-- A file cannot be written, since its path leads through a file. -/
  | fileInTheWay (further : Bool)
  /-- A variable of the environment cannot have such a name. -/
  | badName (isEmpty : Bool)
  /-- The root of a document is not a record; the path is there if the document is a file. -/
  | rootNotRecord (path : Option Path) (kind : String)

/-- The sentence for a failure that has one of its own. -/
def Failure.message? : Failure → Option String
  | fault found => some found.message
  | unreadable found => found.message?
  | mismatch found => some found.message
  | noSuchFile path => some ("Lineage document not found: " ++ path.shown)
  | holdsNull => some "embedded null byte"
  | badName false => some "illegal environment variable name"
  | rootNotRecord path kind =>
    some ("Expected YAML mapping" ++
      ((path.map fun path => " at root of " ++ path.shown).getD "") ++ ", got " ++ kind)
  | issues .. | tracing _ | isDirectory | pathTooLong | fileInTheWay _ | badName true => none

/-- An action in a workspace. -/
abbrev Action (α : Type) := ExceptT Failure (StateM Workspace) α

namespace Workspace

/-- A workspace in which nothing has happened. -/
def fresh (directory time : String) : Workspace where
  directory := .ofText directory
  files := .onlyDirectory (.ofText directory)
  environment := []
  settings := none
  documents := []
  made := 0
  logLevel := none
  watched := false
  logHandler := none
  time
  recording := true
  journal := []

/-! ## Surroundings -/

/-- Write a file, and the directories that lead to it. -/
def writeFile (path : Path) (text : String) : Action Unit := do
  if path.holdsNull then throw .holdsNull
  let workspace ← get
  match workspace.files.write workspace.directory path text with
  | .ok files => set { workspace with files }
  | .error .directory => throw .isDirectory
  | .error (.file further) => throw (.fileInTheWay further)
  | .error .tooLong => throw .pathTooLong

def deleteFile (path : Path) : Action Unit :=
  modify fun workspace =>
    { workspace with files := workspace.files.delete workspace.directory path }

def setVariable (name value : String) : Action Unit := do
  if name.contains '\x00' || value.contains '\x00' then throw .holdsNull
  if name.contains '=' then throw (.badName false)
  if name.isEmpty then throw (.badName true)
  modify fun workspace => { workspace with environment := workspace.environment.set name (some value) }

def unsetVariable (name : String) : Action Unit :=
  modify fun workspace => { workspace with environment := workspace.environment.unset name }

/-! ## Settings -/

def settingsFile (workspace : Workspace) : Variables :=
  match workspace.files.find workspace.directory (.ofText ".env") with
  | .file text => SettingsFile.read workspace.environment text
  | _ => []

/-- The settings that a workspace gives, with some values given explicitly. -/
def makeSettings (workspace : Workspace) (explicit : List (Key × Value)) : Check Settings :=
  Settings.ofSources ⟨explicit, workspace.environment, workspace.settingsFile⟩

/-- The settings in force.  They are made when they are first asked for, and made anew whenever
values are given explicitly; settings that cannot be made leave the old ones in force. -/
def getSettings (explicit : List (Key × Value)) : Action (Stamped Settings) := do
  let workspace ← get
  let make : Action (Stamped Settings) :=
    match workspace.makeSettings explicit with
    | .ok settings => do
      let stamped := ⟨settings, workspace.made⟩
      set { workspace with settings := some stamped, made := workspace.made + 1 }
      return stamped
    | .error found => throw (.issues .tree found)
  match workspace.settings with
  | some settings => if explicit.isEmpty then return settings else make
  | none => make

def resetSettings : Action Unit := modify fun workspace => { workspace with settings := none }

/-! ## Log and events -/

/-- The name that the loggers of this library begin with. -/
def loggerRoot : String := "fieldlineage"

def ownsLogger (logger : String) : Bool :=
  logger == loggerRoot || logger.startsWith (loggerRoot ++ ".")

/-- Whether a level is logged by the loggers of this library. -/
def logs (workspace : Workspace) (level : Int) : Bool :=
  (workspace.logLevel.filter (· ≠ 0)).getD Level.warning ≤ level

def LogHandler.line (handler : LogHandler) (time : String) (record : LogRecord) : String :=
  match handler.style with
  | .json => record.jsonLine handler.serviceName time
  | .text => record.textLine time

def report (what : Report) : StateM Workspace Unit :=
  modify fun workspace => { workspace with journal := what :: workspace.journal }

def log (level : Int) (logger message : String) : StateM Workspace Unit := do
  let workspace ← get
  if ownsLogger logger && workspace.logs level then
    let record : LogRecord := ⟨Level.name level, logger, message, none⟩
    report (.record record)
    match workspace.logHandler with
    | some handler => report (.line (LogHandler.line handler workspace.time record))
    | none => return ()

/-- Log a template with arguments.  One that cannot be filled in is not logged, and that is a
failure if somebody looks at the record. -/
def logTemplate (level : Int) (logger template : String) (arguments : List Value) :
    Action Unit := do
  match Template.apply template arguments with
  | .ok message => log level logger message
  | .error found =>
    let workspace ← get
    if ownsLogger logger && workspace.logs level && workspace.watched then throw (.mismatch found)

/-- Print log records from now on, from the level and in the style that settings say. -/
def configureLog (settings : Settings) : StateM Workspace Unit :=
  modify fun workspace =>
    { workspace with
      logHandler := some ⟨settings.logStyle, settings.serviceName⟩
      logLevel := some settings.logLevel.level }

/-- Put an event on the current span, if it records and events are wanted. -/
def spanEvent (name : String) (attributes : List (String × Value)) : Action Unit := do
  let settings ← getSettings []
  if settings.value.emitSpanEvents && (← get).recording then report (.event name attributes)

/-- Report that a collection of operations was refused. -/
def reportFault (fault : Fault) : Action Unit := do
  log Level.warning "fieldlineage.otel" ("Field lineage validation failed: " ++ fault.message)
  spanEvent "lineage.validation.failed"
    [("lineage.error", .text fault.label), ("lineage.message", .text fault.message)]

end Workspace

end Lineage
