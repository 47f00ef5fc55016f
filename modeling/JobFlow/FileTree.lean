import JobFlow.RunnerPath.Basic
import JobFlow.WorkflowFile.Basic

/-!
The files of a system and the directory that a run works in. Files are plain: there are no links and no
permissions.

A path that a user gives is walked segment by segment, so `sub/..` needs a directory `sub`; a path
is resolved by its text alone only when a workflow is loaded from it.
-/

set_option autoImplicit false

namespace JobFlow

inductive FileNode
  | directory
  /-- A file that is no workflow. Where one is loaded all the same, it is taken to have no statements,
  whatever its content says. -/
  | text (content : String)
  | workflow (statements : List WorkflowFile.Statement)
  /-- Reads as an empty file, and drops what is written to it. -/
  | nullDevice

/-- Files and directories with their segments below the root. Directories above an entry, and above the
working directory, need no entry of their own. -/
structure FileTree where
  entries : List (List String × FileNode)
  workingDirectory : List String

namespace FileTree

/-- A place that a walk can reach: its segments below the root. -/
abbrev Location :=
  List String

/-- What stands at a place. The working directory is a directory whatever the entries say, and of
several entries the last counts. -/
def node? (t : FileTree) (here : Location) : Option FileNode :=
  if here.isPrefixOf t.workingDirectory then some .directory
  else
    match t.entries.reverse.find? (·.1 == here) with
    | some entry => some entry.2
    | none =>
      if t.entries.any (fun entry => here.isPrefixOf entry.1) then some .directory else none

def isDirectory (t : FileTree) (here : Location) : Bool :=
  match t.node? here with
  | some .directory => true
  | _ => false

/-- One step of a walk, which only a directory allows. The root is its own parent. -/
def step (t : FileTree) (here : Location) (segment : String) : Except PathFault Location :=
  if !t.isDirectory here then .error .notADirectory
  else if segment = "" ∨ segment = "." then .ok here
  else if segment = ".." then .ok here.dropLast
  else if FilePath.segmentLimit < segment.utf8ByteSize then .error .nameTooLong
  else if (t.node? (here ++ [segment])).isSome then .ok (here ++ [segment])
  else .error .notFound

/-- Where a path starts: at the root, or in the working directory. -/
def start (t : FileTree) (absolute : Bool) : Location :=
  if absolute then [] else t.workingDirectory

def walk (t : FileTree) (absolute : Bool) (segments : List String) : Except PathFault Location :=
  segments.foldlM t.step (t.start absolute)

def locate (t : FileTree) (p : FilePath) : Except PathFault Location :=
  if FilePath.isTooLong p.text then .error .nameTooLong
  else t.walk p.isAbsolute p.segments

/-- Whether something stands at a path. Only a path that is too long has no answer. -/
def contains (t : FileTree) (p : FilePath) : Except FileError Bool :=
  if FilePath.isCutShort p.text then .ok false
  else
    match t.locate p with
    | .ok _ => .ok true
    | .error .nameTooLong => .error ⟨.nameTooLong, p.text⟩
    | .error _ => .ok false

/-- Whether a text, taken literally, is the path of a directory. -/
def isDirectoryPath (t : FileTree) (s : String) : Bool :=
  if s = "" || FilePath.isTooLong s then false
  else
    match t.walk (Text.startsWith s "/") (Text.pieces '/' s) with
    | .ok here => t.isDirectory here
    | .error _ => false

/-- The place of a new or existing file, when its directory is there. -/
def target? (t : FileTree) (p : FilePath) : Except FileError Location :=
  let refuse (fault : PathFault) : Except FileError Location := .error ⟨fault, p.text⟩
  if FilePath.isTooLong p.text then refuse .nameTooLong
  else
    match t.walk p.isAbsolute p.segments.dropLast with
    | .error fault => refuse fault
    | .ok directory =>
      if !t.isDirectory directory then refuse .notADirectory
      else if FilePath.segmentLimit < p.name.utf8ByteSize then refuse .nameTooLong
      else
        match t.walk p.isAbsolute p.segments with
        | .ok here => if t.isDirectory here then refuse .isADirectory else .ok here
        | .error _ => .ok (directory ++ [p.name])

/-- The files after a text was written at a place. Of all entries there it is the last, but the null
device keeps nothing. -/
def write (t : FileTree) (here : Location) (text : String) : FileTree :=
  match t.node? here with
  | some .nullDevice => t
  | _ => { t with entries := t.entries ++ [(here, .text text)] }

def topNames (t : FileTree) : List String :=
  let below := t.entries.filter fun entry => t.workingDirectory.isPrefixOf entry.1
  Sorted.distinct (below.filterMap (·.1[t.workingDirectory.length]?))

def fileStatements? (t : FileTree) (here : Location) : Option (List WorkflowFile.Statement) :=
  match t.node? here with
  | some (.workflow statements) => some statements
  | some (.text _) => some []
  | some .nullDevice => some []
  | _ => none

/-- The statements at a place. Those of a directory stand in its file `__main__.py`, unless a package
with that name stands in front of it. -/
def statementsAt? (t : FileTree) (here : Location) : Option (List WorkflowFile.Statement) :=
  match t.fileStatements? here with
  | some statements => some statements
  | none =>
    if (t.fileStatements? (here ++ ["__main__", "__init__.py"])).isSome then none
    else t.fileStatements? (here ++ ["__main__.py"])

/-- Loads what stands at a path. The path is resolved by its text from the root on; home directories
are not known. -/
def load (t : FileTree) (p : FilePath) : Except LoadError Definition :=
  let resolved := RunnerPath.simplify true (t.start p.isAbsolute ++ p.segments)
  let shown := "/" ++ "/".intercalate resolved
  let name := resolved.getLastD ""
  if p.startsAtHome then .error .homeUnknown
  else if FilePath.isCutShort p.text then .error .cutShort
  else
    match t.locate ⟨"/", resolved⟩ with
    | .error .nameTooLong => .error (.unreachable ⟨.nameTooLong, shown⟩)
    | .error _ => .error (.fileNotFound shown)
    | .ok here =>
      if FilePath.suffixOf name ≠ ".py" then .error (.otherSuffix name)
      else
        match t.statementsAt? here with
        | some statements => WorkflowFile.load statements
        | none => .error (.directory shown)

end FileTree

end JobFlow
