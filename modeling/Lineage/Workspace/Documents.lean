import Lineage.Snapshot.Views
import Lineage.Yaml.Reader

/-!
# Documents in a workspace

A snapshot goes into a document with its operations in name order and its
checksum.  A document gives its snapshot back; if it has a checksum, that has
to be the one of its operations.

Documents are read from files of YAML, of which JSON is a part.  What a text says
is for a decoder to tell; unless another one is given it is the reader of this
library, which knows no anchors, aliases, tags and directives.  A document that
was read is kept under the resolved path of its file and answers every later
request for that path, whatever becomes of the file, until all kept documents
are forgotten.
-/

namespace Lineage

/-- What tells the value of a YAML text. -/
abbrev Decoder := String → Except Yaml.Fault Value

namespace Document

def ofSnapshot (snapshot : Snapshot) (programRun : Option String) : Document where
  schemaVersion := currentVersion
  programRun
  operations := Canonical.inNameOrder snapshot.operations.toList
  checksum := some snapshot.checksum

/-- The document of a snapshot, for a program run that is given as data. -/
def ofSnapshotData (snapshot : Snapshot) (programRun : Value) : Check Document := do
  let run ← ((Check.nullable Check.text) programRun).under (.key "program_run")
  return ofSnapshot snapshot run

/-- The document that a YAML text holds; the path is that of its file. -/
def ofYaml (path : Option Path) (text : String) (decode : Decoder := Yaml.read) :
    Except Failure Document :=
  match decode text with
  | .error fault => .error (.unreadable fault)
  | .ok (.record fields) => (ofValue (.record fields)).mapError (.issues .tree)
  | .ok value => .error (.rootNotRecord path value.kindName)

end Document

namespace Workspace

/-! ## Snapshots of documents -/

def snapshotOf (document : Document) (eager : Option Bool) : Action Snapshot := do
  let snapshot ← build document.operations eager
  match document.checksum with
  | none => return snapshot
  | some stored =>
    if stored = snapshot.checksum then return snapshot
    else
      let fault : Fault := .checksumMismatch stored snapshot.checksum
      reportFault fault
      throw (.fault fault)

/-! ## Loading -/

/-- The absolute path that a path resolves to. -/
def placeOf (workspace : Workspace) (path : Path) : Path := (workspace.directory.join path).resolve

def readDocument (workspace : Workspace) (path : Path) (decode : Decoder := Yaml.read) :
    Except Failure Document :=
  match workspace.files.find workspace.directory path with
  | .nothing => .error (.noSuchFile path)
  | .tooLong => .error .pathTooLong
  | .directory => .error .isDirectory
  | .file text => Document.ofYaml (some path) text decode

/-- The document of a path, kept from before or read from its file and kept from now on. -/
def load (path : Path) (decode : Decoder := Yaml.read) : Action (Stamped Document) := do
  if path.holdsNull then throw .holdsNull
  let workspace ← get
  let place := workspace.placeOf path
  match workspace.documents.lookup place with
  | some kept =>
    log Level.debug "fieldlineage.loader" ("Lineage document cache hit: " ++ place.shown)
    return kept
  | none =>
    match workspace.readDocument path decode with
    | .error failure => throw failure
    | .ok document =>
      let loaded : Stamped Document := ⟨document, workspace.made⟩
      set { workspace with
        documents := (place, loaded) :: workspace.documents
        made := workspace.made + 1 }
      log Level.debug "fieldlineage.loader"
        ("Loaded lineage document: run=" ++ document.programRun.getD "None" ++ ", operations=" ++
          toString document.operations.length)
      return loaded

/-- The document that a YAML text holds; it is not kept. -/
def loadText (text : String) (decode : Decoder := Yaml.read) : Action Document :=
  match Document.ofYaml none text decode with
  | .ok document => return document
  | .error failure => throw failure

def loadSnapshot (path : Path) (eager : Option Bool) (decode : Decoder := Yaml.read) :
    Action Snapshot := do
  let loaded ← load path decode
  snapshotOf loaded.value eager

def forgetDocuments : Action Unit := modify fun workspace => { workspace with documents := [] }

end Workspace

end Lineage
