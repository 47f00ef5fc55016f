import JobFlow.CommandLine.Run

/-!
The program. It compiles workflows that are part of it, as a directory of workflow files would be;
settings come from the environment, and an output file goes where its path leads.
-/

set_option autoImplicit false

namespace JobFlow.Main

open WorkflowFile

def commandStep (name command : String) : String :=
  (Step.command { name, command }).text

/-- A cheap job that decides whether anything else runs. -/
def activation : Except JobError Job :=
  Job.ofSteps {
    name := "activation"
    runsOn := Job.defaultRunner
    permissions := "contents: read"
    timeoutMinutes := 5
    steps := [commandStep "Check workflow file timestamps"
      "node check_workflow_timestamp_api.cjs"]
    outputs := .ofList
      [("activated", .text "$\x7b\x7b steps.check.outputs.activated \x7d\x7d")] }

/-- Runs the agent, and uploads its prompt and its patch. -/
def agent : Except JobError JobDraft := do
  let draft ← ({ name := "agent" } : JobDraft)
    |>.dependOn ["activation"]
    |>.onlyIf "needs.activation.outputs.activated == 'true'"
    |>.grant (.ofList [("contents", .text "read"), ("issues", .text "read")])
  return draft.limitMinutes 20
    |>.runStep "Run agent" "gh aw run --prompt /tmp/gh-aw/aw-prompts/prompt.txt"
    |>.upload {
      name := "agent-artifacts"
      paths := ["/tmp/gh-aw/aw-prompts/prompt.txt", "/tmp/gh-aw/aw.patch"] }

/-- Scans the patch before anything is written back. -/
def detection : JobDraft :=
  ({ name := "detection" } : JobDraft)
    |>.dependOn ["agent"]
    |>.download { path := "/tmp/gh-aw/threat-detection/", name := "agent-artifacts" }
    |>.runStep "Scan patch"
      "node setup_threat_detection.cjs /tmp/gh-aw/threat-detection/aw.patch"

/-- Applies the patch once it has been scanned. -/
def safeOutputs : Except JobError JobDraft := do
  let draft ← ({ name := "safe_outputs" } : JobDraft)
    |>.dependOn ["agent", "detection"]
    |>.grant (.ofList [("contents", .text "write"), ("pull_requests", .text "write")])
  return draft.download { path := "/tmp/gh-aw/", pattern := "agent-*" }
    |>.runStep "Apply patch" "git am /tmp/gh-aw/agent-artifacts/aw.patch"

/-- Checks the style with one version of the runtime, beside the agent. -/
def lint (version : String) : Except JobError Entry := do
  return .job (← Job.ofSteps {
    name := "lint-node" ++ version
    runsOn := Job.defaultRunner
    needs := ["activation"]
    steps := [(Step.command {
      name := "Lint"
      command := "npm ci && npm run lint"
      environment := .ofList [("NODE_VERSION", .text version)] }).text] })

/-- A workflow of an agent, the scan of its patch, and the job that applies it. -/
def sample : List Statement :=
  [.defineWorkflow {} (.collect do
    let first ← activation
    return [.entry (.job first), .entry (.draft (← agent)), .entry (.draft detection),
      .entry (.draft (← safeOutputs)), ← Item.overValues ["20", "22"] lint])]

/-- The workflow files of the program, in the directory that it works in. -/
def files (workingDirectory : String) : FileTree :=
  let here := (FilePath.ofString workingDirectory).segments
  ⟨[(here ++ ["lockgraph_workflow.py"], .workflow sample), (["dev", "null"], .nullDevice)], here⟩

def variableNames : List String :=
  ["LOCKGRAPH_MAX_EXPRESSION_LINE_LENGTH", "LOCKGRAPH_EXPRESSION_BREAK_THRESHOLD",
    "LOCKGRAPH_STRICT_ARTIFACTS", "LOCKGRAPH_DEFAULT_WORKFLOW"]

def environment : IO (Mapping String) := do
  let values ← variableNames.filterMapM fun name => do
    return (← IO.getEnv name).map fun value => (name, value)
  return .ofList values

def present (run : CommandLine.Run) : IO UInt32 := do
  IO.print run.output.stdout
  IO.eprint run.output.stderr
  if let some file := run.file then
    IO.FS.writeFile file.path.text file.text
  match run.ending with
  | .exit _ => pure ()
  | .usageError => IO.eprintln "usage: [--debug] compile|validate|plan|artifacts [options]"
  | .quit _ message =>
    if let some told := message then
      IO.eprintln told
  | .uncaught error => IO.eprintln error.message
  return run.ending.code.toUInt32

end JobFlow.Main

def main (arguments : List String) : IO UInt32 := do
  match JobFlow.Settings.ofEnvironment (← JobFlow.Main.environment) with
  | .error e =>
    IO.eprintln e.message
    return 1
  | .ok settings =>
    let files := JobFlow.Main.files ((← IO.getEnv "PWD").getD "/")
    JobFlow.Main.present (JobFlow.CommandLine.run settings .conventional files arguments)
