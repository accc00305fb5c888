/-!
# Files by path

A path leads from the directory of the workspace or, if a slash is at its head,
from the root.  It is shown without empty steps and steps that stay in place.
Finding a file follows the path step by step, so a step back out of a directory
works only if the directory is there, and a step whose name is too long is
noticed only in a directory.  Resolving a path works on its steps alone.  Either
way a step back at the root stays there.

Files are written and deleted, and directories are made on the way.  None of this
makes a symbolic link, so that a file is found where the steps lead.
-/

namespace Lineage

/-- Where a path leads from. -/
inductive Root where
  | here
  | slash
  /-- Two slashes at the head of a path stay two, but three or more are one. -/
  | slashes
deriving DecidableEq, Repr

namespace Root

def ofText : List Char → Root
  | '/' :: '/' :: '/' :: _ => slash
  | '/' :: '/' :: _ => slashes
  | '/' :: _ => slash
  | _ => here

def shown : Root → String
  | here => ""
  | slash => "/"
  | slashes => "//"

def resolve : Root → Root
  | here => here
  | slash | slashes => slash

end Root

/-- Whether a text is a step of a path: it is not empty, does not stay in place and is one step. -/
def isStep (text : String) : Bool := text != "" && text != "." && !text.toList.contains '/'

structure Path where
  root : Root
  steps : List String
  proper : ∀ step ∈ steps, isStep step = true
deriving DecidableEq, Repr

namespace Path

/-- What stands between the slashes of a text. -/
def pieces : List Char → List (List Char)
  | [] => [[]]
  | c :: text =>
    if c = '/' then [] :: pieces text
    else
      match pieces text with
      | [] => [[c]]
      | piece :: more => (c :: piece) :: more

def ofText (text : String) : Path where
  root := Root.ofText text.toList
  steps := ((pieces text.toList).map String.ofList).filter isStep
  proper _ hstep := (List.mem_filter.1 hstep).2

def shown (path : Path) : String :=
  if path.root = .here ∧ path.steps = [] then "."
  else path.root.shown ++ "/".intercalate path.steps

/-- Whether some step holds a null character, which no name does. -/
def holdsNull (path : Path) : Bool := path.steps.any fun step => step.toList.contains '\x00'

/-- A path as it leads from another one. -/
def join (directory path : Path) : Path :=
  match path.root with
  | .here =>
    { root := directory.root
      steps := directory.steps ++ path.steps
      proper := List.forall_mem_append.2 ⟨directory.proper, path.proper⟩ }
  | .slash | .slashes => path

/-- The place that a step leads to from a place below the root. -/
def placeAfter (place : List String) (step : String) : List String :=
  if step = ".." then place.dropLast else place ++ [step]

theorem proper_placeAfter {place : List String} {step : String}
    (hplace : ∀ other ∈ place, isStep other = true) (hstep : isStep step = true) :
    ∀ other ∈ placeAfter place step, isStep other = true := by
  unfold placeAfter
  split
  · exact fun other hother => hplace other (List.dropLast_subset _ hother)
  · exact List.forall_mem_append.2 ⟨hplace, List.forall_mem_singleton.2 hstep⟩

theorem proper_foldl_placeAfter {place steps : List String}
    (hplace : ∀ other ∈ place, isStep other = true) (hsteps : ∀ step ∈ steps, isStep step = true) :
    ∀ other ∈ steps.foldl placeAfter place, isStep other = true := by
  induction steps generalizing place with
  | nil => exact hplace
  | cons step steps ih =>
      obtain ⟨hstep, hsteps⟩ := List.forall_mem_cons.1 hsteps
      exact ih (proper_placeAfter hplace hstep) hsteps

def resolve (path : Path) : Path where
  root := path.root.resolve
  steps := path.steps.foldl placeAfter []
  proper := proper_foldl_placeAfter (List.forall_mem_nil _) path.proper

end Path

/-- Files and directories, each with the steps that lead to it from the root. -/
structure Files where
  files : List (List String × String)
  directories : List (List String)
deriving Repr

namespace Files

/-- No files, and no directories but one and those that lead to it. -/
def onlyDirectory (directory : Path) : Files where
  files := []
  directories := (List.range directory.steps.length).map fun n => directory.steps.take (n + 1)

inductive Found where
  | nothing
  | file (text : String)
  | directory
  /-- A name that no file can have, or a path that is too long as a whole. -/
  | tooLong

def nameLimit : Nat := 255

def pathLimit : Nat := 4095

/-! ## Finding -/

/-- What the steps lead to that go straight ahead. -/
def at? (files : Files) (steps : List String) : Found :=
  if steps = [] ∨ steps ∈ files.directories then .directory
  else
    match files.files.find? fun entry => entry.1 = steps with
    | some entry => .file entry.2
    | none => .nothing

/-- What more steps lead to from a place. -/
def walk (files : Files) : List String → List String → Found
  | place, [] => files.at? place
  | place, step :: steps =>
    match files.at? place with
    | .directory =>
      if nameLimit < step.utf8ByteSize then .tooLong
      else files.walk (Path.placeAfter place step) steps
    | _ => .nothing

/-- What a path leads to from a directory. -/
def find (files : Files) (directory path : Path) : Found :=
  if pathLimit < path.shown.utf8ByteSize then .tooLong
  else files.walk [] (directory.join path).steps

/-! ## Changing -/

def without (files : Files) (place : List String) : Files :=
  { files with files := files.files.filter fun entry => entry.1 ≠ place }

/-- The files without the one that a path leads to, if there is one. -/
def delete (files : Files) (directory path : Path) : Files :=
  match files.find directory path with
  | .file _ => files.without (directory.join path).resolve.steps
  | _ => files

/-- Why a file cannot be written. -/
inductive Obstacle where
  /-- The path is that of a directory. -/
  | directory
  /-- The path leads through a file, and perhaps further than to its name. -/
  | file (further : Bool)
  | tooLong
deriving DecidableEq, Repr

/-- The files with all directories on the way to a place, from a place on. -/
def withDirectories (files : Files) : List String → List String → Except Obstacle Files
  | _, [] => .ok files
  | place, step :: steps =>
    if step = ".." then files.withDirectories place.dropLast steps
    else if nameLimit < step.utf8ByteSize then .error .tooLong
    else
      let next := place ++ [step]
      match files.at? next with
      | .file _ => .error (.file (!steps.isEmpty))
      | .directory | .tooLong => files.withDirectories next steps
      | .nothing =>
        ({ files with directories := files.directories ++ [next] }).withDirectories next steps

/-- The files with one written, and the directories that lead to it. -/
def write (files : Files) (directory path : Path) (text : String) : Except Obstacle Files := do
  if pathLimit < path.shown.utf8ByteSize then throw .tooLong
  let steps := (directory.join path).steps
  let files ← files.withDirectories [] steps.dropLast
  if steps.getLast?.any (nameLimit < ·.utf8ByteSize) then throw .tooLong
  let place := (directory.join path).resolve.steps
  match files.at? place with
  | .directory => throw .directory
  | _ => return { files with files := (place, text) :: (files.without place).files }

end Files

end Lineage
