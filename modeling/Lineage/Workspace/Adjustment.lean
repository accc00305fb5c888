import Lineage.Workspace.Basic

/-!
# Adjustments

What is done about the settings of a workspace, one step after another: the
surroundings they are made from are changed, variables of the environment and
files, among them the settings file; settings are asked for, with or without
explicit values; and they are reset.  Whoever reports an event asks for settings as
well, to know whether events are wanted.  A step may fail; the next one starts from
the workspace that it leaves.
-/

namespace Lineage

inductive Adjustment where
  | setVariable (name value : String)
  | unsetVariable (name : String)
  | writeFile (path : Path) (text : String)
  | deleteFile (path : Path)
  | ask (explicit : List (Key × Value))
  | event (name : String) (attributes : List (String × Value))
  | reset

namespace Adjustment

/-- The explicit values that a step asks for settings with. -/
def asked? : Adjustment → Option (List (Key × Value))
  | ask explicit => some explicit
  | event .. => some []
  | setVariable .. | unsetVariable _ | writeFile .. | deleteFile _ | reset => none

/-- Whether a step is about what settings are made from. -/
def ofSurroundings : Adjustment → Bool
  | setVariable .. | unsetVariable _ | writeFile .. | deleteFile _ => true
  | ask _ | event .. | reset => false

/-- The workspace after a step. -/
def run (step : Adjustment) (workspace : Workspace) : Workspace :=
  match step with
  | setVariable name value => ((Workspace.setVariable name value).run.run workspace).2
  | unsetVariable name => ((Workspace.unsetVariable name).run.run workspace).2
  | writeFile path text => ((Workspace.writeFile path text).run.run workspace).2
  | deleteFile path => ((Workspace.deleteFile path).run.run workspace).2
  | ask explicit => ((Workspace.getSettings explicit).run.run workspace).2
  | event name attributes => ((Workspace.spanEvent name attributes).run.run workspace).2
  | reset => (Workspace.resetSettings.run.run workspace).2

end Adjustment

/-- The workspace after some steps. -/
def Workspace.adjusted (workspace : Workspace) (steps : List Adjustment) : Workspace :=
  steps.foldl (fun workspace step => step.run workspace) workspace

end Lineage
