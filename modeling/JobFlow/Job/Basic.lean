import JobFlow.Scalar
import JobFlow.Step
import JobFlow.Text.Quoted

/-!
Jobs. A job either has steps of its own or calls a reusable workflow, never both.

The fields `runsOn`, `environment`, `container`, `services`, `permissions` and `concurrency` hold a
plain value, or a text that is structured already.
-/

set_option autoImplicit false

namespace JobFlow

structure Job where
  name : String
  displayName : String := ""
  runsOn : String := ""
  condition : String := ""
  /-- The jobs that must be done before this one, as they were listed. -/
  needs : List String := []
  permissions : String := ""
  timeoutMinutes : Int := 0
  concurrency : String := ""
  environment : String := ""
  container : String := ""
  services : String := ""
  env : Mapping Scalar := .empty
  /-- The blocks of the steps. -/
  steps : List String := []
  outputs : Mapping Scalar := .empty
  /-- The reusable workflow that the job calls, empty when it has steps. -/
  uses : String := ""
  inputs : Mapping Scalar := .empty
  secrets : Mapping Scalar := .empty
  /-- Whether the condition guards a run that another workflow triggered. -/
  guardsTriggeredRun : Bool := false
  deriving Inhabited

inductive JobError
  | stepsAndCall (job : String)
  | withoutSteps (job : String)
  | draftWithoutSteps (job : String)
  /-- A key that stands for an argument of the operation itself. -/
  | reservedKey (operation key : String)
  /-- A value that holds an integer with too many digits to be written. -/
  | unwritable
  deriving DecidableEq, Repr, Inhabited

def JobError.message : JobError → String
  | stepsAndCall job => "Job '" ++ job ++ "' cannot have both steps and uses"
  | withoutSteps job => "job(" ++ Text.quoted job ++ ") must have at least one step"
  | draftWithoutSteps job => "Job '" ++ job ++ "' has no steps"
  | reservedKey operation key =>
    "JobBuilder." ++ operation ++ "() got multiple values for argument '" ++ key ++ "'"
  | unwritable => Text.unwritableMessage

namespace Job

def isCall (job : Job) : Bool :=
  job.uses ≠ ""

/-- A record of a job, refused when it has both steps and a call. -/
def ofRecord (job : Job) : Except JobError Job :=
  if job.uses ≠ "" ∧ job.steps ≠ [] then .error (.stepsAndCall job.name) else .ok job

def defaultRunner : String :=
  "ubuntu-latest"

/-- A job with steps of its own; without any it is refused. -/
def ofSteps (job : Job) : Except JobError Job :=
  if job.steps.isEmpty then .error (.withoutSteps job.name) else ofRecord job

end Job

end JobFlow
