import JobFlow.Definition
import JobFlow.FilePath
import JobFlow.WorkflowFile.Signature

/-!
Workflow files. A file is a sequence of statements that bind names: a workflow function, or the
constants `JOBS`, `UPLOADS` and `DOWNLOADS`. Loading runs the statements and then asks the workflow
function, or else the constants, for the definition.
-/

set_option autoImplicit false

namespace JobFlow

/-- What a workflow file raises itself. Only an exception is a fault of the file; the other two ask for
the end of the program, and nothing that loads the file stops them. -/
inductive Raised
  | exception (kind message : String)
  /-- The code is what the system keeps of it, and the message is told at the end. -/
  | exit (code : UInt8) (message : Option String)
  | interruption (kind message : String)
  deriving DecidableEq, Repr

/-- A missing key is shown in quotes; every other message stands as it is. -/
def Raised.text : Raised → String
  | exception kind message => if kind = "KeyError" then Text.quoted message else message
  | exit _ message => message.getD ""
  | interruption _ message => message

inductive LoadError
  | homeUnknown
  /-- The path holds the character that ends paths. -/
  | cutShort
  | unreachable (error : FileError)
  | fileNotFound (path : String)
  | otherSuffix (name : String)
  | directory (path : String)
  | raised (cause : Raised)
  | job (error : JobError)
  | collect (error : CollectError)
  | missingArguments (complaint : String)
  | nameCollision
  | notADefinition
  deriving DecidableEq, Repr

def LoadError.message : LoadError → String
  | homeUnknown => "Could not determine home directory."
  | cutShort => "embedded null byte"
  | unreachable error => error.message
  | fileNotFound path => "Workflow file not found: " ++ path
  | otherSuffix name => "Workflow must be a .py file, got: " ++ name
  | directory path => "can't find '__main__' module in " ++ Text.quoted path
  | raised cause => cause.text
  | job error => error.message
  | collect error => error.message
  | missingArguments complaint => complaint
  | nameCollision =>
    "Your workflow() is being called with arguments (name collision with the helper). " ++
      "Use the 'wf' helper instead: `from lockgraph import wf, job, sh` then " ++
      "`def workflow(): return wf(job(...), job(...))`"
  | notADefinition =>
    "Workflow must return/define a WorkflowDefinition or List[Job]. " ++
      "Define workflow() -> wf(...) or JOBS = [Job, ...]."

namespace WorkflowFile

/-- A list of jobs as it is evaluated: it may fail, and `none` is a member that is no job. -/
abbrev JobList :=
  Except JobError (List (Option Job))

inductive Body
  | raise (cause : Raised)
  | collect (items : Except JobError (List Item))
  | returnJobs (jobs : JobList)
  | returnValue (value : Scalar)

inductive Statement
  /-- Imports all names of the library, among them one called `workflow` that is no function. -/
  | importAll
  | raise (cause : Raised)
  | defineWorkflow (signature : Signature) (body : Body)
  /-- Binds the name `workflow` to something that is no function. -/
  | bindWorkflow
  | bindJobs (jobs : JobList)
  | bindUploads (uploads : List Upload)
  | bindDownloads (downloads : List Download)

structure Bindings where
  workflow : Option (Signature × Body) := none
  jobs : Option (List (Option Job)) := none
  uploads : List Upload := []
  downloads : List Download := []

/-- Runs one statement. A later binding of a name replaces an earlier one. -/
def Bindings.run (b : Bindings) : Statement → Except LoadError Bindings
  | .importAll => .ok { b with workflow := none }
  | .raise cause => .error (.raised cause)
  | .defineWorkflow signature body => .ok { b with workflow := some (signature, body) }
  | .bindWorkflow => .ok { b with workflow := none }
  | .bindJobs (.ok jobs) => .ok { b with jobs := some jobs }
  | .bindJobs (.error e) => .error (.job e)
  | .bindUploads uploads => .ok { b with uploads }
  | .bindDownloads downloads => .ok { b with downloads }

/-- What a call of the workflow function, or the constants, come to. -/
inductive Result
  | definition (d : Definition)
  | jobs (members : List (Option Job))
  | nothing

/-- A value as a result: a list is a list of things that are no jobs. -/
def Result.ofValue : Scalar → Result
  | .list values => jobs (values.map fun _ => none)
  | _ => nothing

def Body.run : Body → Except LoadError Result
  | raise cause => .error (.raised cause)
  | collect (.error e) => .error (.job e)
  | collect (.ok items) =>
    match Definition.collect items with
    | .ok d => .ok (.definition d)
    | .error e => .error (.collect e)
  | returnJobs (.error e) => .error (.job e)
  | returnJobs (.ok members) => .ok (.jobs members)
  | returnValue value => .ok (.ofValue value)

def call (signature : Signature) (body : Body) : Except LoadError Result :=
  match signature.complaint? with
  | some complaint => .error (.missingArguments complaint)
  | none => body.run

/-- Whether a failed call looks as if the function had been given arguments. -/
def blamesArguments : LoadError → Bool
  | .raised (.exception kind message) =>
    kind == "TypeError" && Text.contains message "positional argument"
  | .missingArguments complaint => Text.contains complaint "positional argument"
  | _ => false

/-- Calls a workflow function; a complaint about arguments is explained. -/
def callExplained (signature : Signature) (body : Body) : Except LoadError Result :=
  match call signature body with
  | .error e => .error (if blamesArguments e then .nameCollision else e)
  | .ok result => .ok result

def definitionOf (members : List (Option Job)) (uploads : List Upload)
    (downloads : List Download) : Except LoadError Definition :=
  match members.mapM id with
  | some jobs => .ok { jobs, uploads, downloads }
  | none => .error .notADefinition

/-- The definition that the bindings give. The workflow function comes before the constants, and
transfers count only together with `JOBS`. -/
def Bindings.definition (b : Bindings) : Except LoadError Definition :=
  match b.workflow with
  | some (signature, body) =>
    match callExplained signature body with
    | .error e => .error e
    | .ok (.definition d) => .ok d
    | .ok (.jobs members) => definitionOf members [] []
    | .ok .nothing => .error .notADefinition
  | none =>
    match b.jobs with
    | some members => definitionOf members b.uploads b.downloads
    | none => .error .notADefinition

/-- Loads a file: runs its statements, and takes the definition that they give. -/
def load (statements : List Statement) : Except LoadError Definition :=
  match statements.foldlM Bindings.run {} with
  | .ok b => b.definition
  | .error e => .error e

end WorkflowFile

end JobFlow
