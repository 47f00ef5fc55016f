import JobFlow.Console
import JobFlow.FileTree
import JobFlow.Settings

/-!
Finding the workflow file of a run. A file that is asked for may be named without its suffix.
Otherwise the working directory must hold exactly one candidate: the default workflow, or a file
whose name ends in `_workflow.py`.
-/

set_option autoImplicit false

namespace JobFlow.CommandLine

def workflowEnding : String :=
  "_workflow.py"

inductive DiscoveryError
  | notFound (workflow : String)
  | noCandidate (defaultWorkflow : String)
  | severalCandidates (defaultWorkflow : String) (paths : List FilePath)
  /-- The system does not even tell whether there is a file. -/
  | unreachable (error : FileError)
  deriving DecidableEq, Repr

/-- The notice about a missing workflow file. An unreachable path has none. -/
def DiscoveryError.notice : DiscoveryError → Except FileError Notice
  | notFound workflow =>
    .ok (.error "Workflow file not found" ("Could not find workflow file: " ++ workflow) []
      ("Create a workflow file or specify a different path:\n" ++
        "  lockgraph compile --workflow my_workflow.py"))
  | noCandidate defaultWorkflow =>
    .ok (.error "No workflow file found" "Could not find any workflow files."
      ["Looked for:", "  " ++ defaultWorkflow, "  *" ++ workflowEnding]
      (explicit "my_workflow.py"))
  | severalCandidates defaultWorkflow paths =>
    .ok (.error "Multiple workflow files found"
      "Found multiple workflow files. Please specify which one to use:"
      ["\n".intercalate (paths.map fun path => "  " ++ path.text)]
      (explicit defaultWorkflow))
  | unreachable error => .error error
where
  explicit (name : String) : String :=
    "Specify a workflow explicitly:\n  lockgraph compile --workflow " ++ name

/-- The workflow files of the working directory, in the order of their parts. -/
def candidates (settings : Settings) (tree : FileTree) : Except FileError (List FilePath) := do
  let preferred := FilePath.ofString settings.defaultWorkflow
  let named := (tree.topNames.filter (Text.endsWith · workflowEnding)).map fun name =>
    FilePath.mk "" [name]
  let present ← tree.contains preferred
  return Sorted.sort (fun a b => FilePath.partsLe a.parts b.parts)
    ((if present then [preferred] else []) ++ named.filter (· ≠ preferred))

/-- The file asked for, or the same with the suffix added. -/
def requested? (tree : FileTree) (workflow : String) : Except FileError (Option FilePath) := do
  let given := FilePath.ofString workflow
  if ← tree.contains given then return some given
  else if FilePath.suffixOf given.name = ".py" then return none
  else
    let completed := given.extend ".py"
    return if ← tree.contains completed then some completed else none

/-- The workflow file of a run. An empty request is none. -/
def discover (settings : Settings) (tree : FileTree) (workflow : String) :
    Except DiscoveryError FilePath :=
  if workflow ≠ "" then
    match requested? tree workflow with
    | .ok (some path) => .ok path
    | .ok none => .error (.notFound workflow)
    | .error e => .error (.unreachable e)
  else
    match candidates settings tree with
    | .ok [path] => .ok path
    | .ok [] => .error (.noCandidate settings.defaultWorkflow)
    | .ok paths => .error (.severalCandidates settings.defaultWorkflow paths)
    | .error e => .error (.unreachable e)

end JobFlow.CommandLine
