import Lineage.Workspace.Documents

/-!
# Calls

What is done with files and documents in a workspace, one call after another:
files are written and deleted, documents are loaded by path, with or without
their snapshot, or from a text, and kept documents are forgotten.  A call may
fail; the next one starts from the workspace that it leaves.  All calls read texts
with the same decoder.
-/

namespace Lineage

inductive Call where
  | write (path : Path) (text : String)
  | delete (path : Path)
  | load (path : Path)
  | loadSnapshot (path : Path) (eager : Option Bool)
  | loadText (text : String)
  | forget

namespace Call

/-- The path of the document that a call loads. -/
def loaded? : Call → Option Path
  | load path | loadSnapshot path _ => some path
  | write .. | delete _ | loadText _ | forget => none

/-- The workspace after a call. -/
def run (decode : Decoder) (call : Call) (workspace : Workspace) : Workspace :=
  match call with
  | write path text => ((Workspace.writeFile path text).run.run workspace).2
  | delete path => ((Workspace.deleteFile path).run.run workspace).2
  | load path => ((Workspace.load path decode).run.run workspace).2
  | loadSnapshot path eager => ((Workspace.loadSnapshot path eager decode).run.run workspace).2
  | loadText text => ((Workspace.loadText text decode).run.run workspace).2
  | forget => (Workspace.forgetDocuments.run.run workspace).2

end Call

/-- The workspace after some calls. -/
def Workspace.after (decode : Decoder) (workspace : Workspace) (calls : List Call) : Workspace :=
  calls.foldl (fun workspace call => call.run decode workspace) workspace

end Lineage
