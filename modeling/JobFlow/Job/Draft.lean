import JobFlow.Job.Basic

/-!
Drafts: jobs that are put together piece by piece. A draft keeps the records of the transfers that
its steps make, so that steps and records cannot drift apart. All records are the job's own.

Some operations take values under keys of any name. Their own arguments have names too, and a key of
such a name is refused; and so is a value that cannot be written.
-/

set_option autoImplicit false

namespace JobFlow

structure JobDraft where
  name : String
  displayName : String := ""
  runsOn : String := Job.defaultRunner
  condition : String := ""
  needs : List String := []
  permissions : String := ""
  timeoutMinutes : Int := 0
  env : Mapping String := .empty
  outputs : Mapping String := .empty
  steps : List String := []
  recordedUploads : List Upload := []
  recordedDownloads : List Download := []
  uploadsOwned : ∀ upload ∈ recordedUploads, upload.job = name := by simp
  downloadsOwned : ∀ download ∈ recordedDownloads, download.job = name := by simp

namespace JobDraft

def dependOn (draft : JobDraft) (jobs : List String) : JobDraft :=
  { draft with needs := draft.needs ++ jobs }

def runOn (draft : JobDraft) (runner : String) : JobDraft :=
  { draft with runsOn := runner }

def onlyIf (draft : JobDraft) (condition : String) : JobDraft :=
  { draft with condition := condition }

def showAs (draft : JobDraft) (displayName : String) : JobDraft :=
  { draft with displayName := displayName }

/-- A scope as permissions spell it, with dashes. -/
def scopeName (key : String) : String :=
  String.ofList (key.toList.map fun c => if c = '_' then '-' else c)

/-- Refuses the first key that is reserved in an operation. -/
def checkKeys (operation : String) (reserved : List String) (values : Mapping Scalar) :
    Except JobError Unit :=
  match values.keys.find? reserved.contains with
  | some key => .error (.reservedKey operation key)
  | none => .ok ()

/-- Checks what an operation is given: first the keys, then whether all values have texts. -/
def checkArguments (operation : String) (reserved : List String) (values : Mapping Scalar) :
    Except JobError Unit := do
  checkKeys operation reserved values
  if values.entries.all (·.2.isWritable) then return () else throw .unwritable

/-- Grants exactly the given permissions, in their order. -/
def grant (draft : JobDraft) (scopes : Mapping Scalar) : Except JobError JobDraft := do
  checkArguments "with_permissions" ["self"] scopes
  return { draft with
    permissions := "\n".intercalate
      (scopes.entries.map fun (key, value) => scopeName key ++ ": " ++ value.bare) }

def limitMinutes (draft : JobDraft) (minutes : Int) : JobDraft :=
  { draft with timeoutMinutes := minutes }

/-- Sets environment variables; their values become texts. -/
def setEnv (draft : JobDraft) (values : Mapping Scalar) : Except JobError JobDraft := do
  checkArguments "with_env" ["self"] values
  return { draft with env := draft.env.insertAll (values.map Scalar.bare).entries }

def setOutput (draft : JobDraft) (name value : String) : JobDraft :=
  { draft with outputs := draft.outputs.insert name value }

def addStep (draft : JobDraft) (step : Step) : JobDraft :=
  { draft with steps := draft.steps ++ [step.text] }

def runStep (draft : JobDraft) (name command : String) (workingDirectory : String := "") :
    JobDraft :=
  draft.addStep (.command { name, command, workingDirectory })

def actionStep (draft : JobDraft) (name action : String) (inputs : Mapping Scalar := .empty) :
    Except JobError JobDraft := do
  checkArguments "use_action" ["self", "name", "action"] inputs
  return draft.addStep (.action { name, action, inputs })

/-- Adds an upload, its record and its step. The record belongs to this job. -/
def upload (draft : JobDraft) (transfer : Upload) : JobDraft :=
  let owned := { transfer with job := draft.name }
  { draft.addStep (.upload owned) with
    recordedUploads := draft.recordedUploads ++ [owned]
    uploadsOwned := List.forall_mem_append.2 ⟨draft.uploadsOwned, by simp [owned, addStep]⟩ }

def download (draft : JobDraft) (transfer : Download) : JobDraft :=
  let owned := { transfer with job := draft.name }
  { draft.addStep (.download owned) with
    recordedDownloads := draft.recordedDownloads ++ [owned]
    downloadsOwned := List.forall_mem_append.2 ⟨draft.downloadsOwned, by simp [owned, addStep]⟩ }

def uploads (draft : JobDraft) : List Upload :=
  draft.recordedUploads

/-- The downloads, each depending on all that the draft needs by now. -/
def downloads (draft : JobDraft) : List Download :=
  draft.recordedDownloads.map fun transfer => { transfer with dependsOn := draft.needs }

theorem job_of_mem_downloads {draft : JobDraft} {transfer : Download}
    (h : transfer ∈ draft.downloads) :
    transfer.job = draft.name ∧ transfer.dependsOn = draft.needs := by
  obtain ⟨recorded, isRecorded, rfl⟩ := List.mem_map.1 h
  exact ⟨draft.downloadsOwned recorded isRecorded, rfl⟩

/-- Finishes the job; without steps it is refused. -/
def build (draft : JobDraft) : Except JobError Job :=
  if draft.steps.isEmpty then .error (.draftWithoutSteps draft.name)
  else Job.ofRecord {
    name := draft.name
    displayName := draft.displayName
    runsOn := draft.runsOn
    condition := draft.condition
    needs := draft.needs
    permissions := draft.permissions
    timeoutMinutes := draft.timeoutMinutes
    env := draft.env.map Scalar.text
    steps := draft.steps
    outputs := draft.outputs.map Scalar.text }

/-- A finished job keeps the name and the needs of its draft. -/
theorem needs_of_build {draft : JobDraft} {job : Job} (h : draft.build = .ok job) :
    job.name = draft.name ∧ job.needs = draft.needs := by
  unfold build Job.ofRecord at h
  split at h
  · cases h
  · split at h
    · cases h
    · cases h
      exact ⟨rfl, rfl⟩

end JobDraft

end JobFlow
