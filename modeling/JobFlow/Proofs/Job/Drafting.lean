import Mathlib.Data.List.Basic
import Mathlib.Data.List.Induction
import JobFlow.Job.Draft

/-!
Runs of calls on a draft. Each call works on one part of the draft and looks at no other, so calls on
different parts may change places. The steps of transfers and the records of transfers come from the same
calls, so they agree after every run; and what a download depends on is read from the needs when it is
asked for, so it does not matter when they were given.
-/

set_option autoImplicit false

namespace JobFlow.JobDraft

variable {draft : JobDraft}

inductive Call
  | dependOn (jobs : List String)
  | runOn (runner : String)
  | onlyIf (condition : String)
  | showAs (displayName : String)
  | grant (scopes : Mapping Scalar)
  | limitMinutes (minutes : Int)
  | setEnv (values : Mapping Scalar)
  | setOutput (name value : String)
  | runStep (name command workingDirectory : String)
  | actionStep (name action : String) (inputs : Mapping Scalar)
  | upload (transfer : Upload)
  | download (transfer : Download)

/-- The parts of a draft that calls work on. -/
inductive Part
  | needs
  | runner
  | condition
  | displayName
  | permissions
  | minutes
  | env
  | outputs
  | steps
  deriving DecidableEq

namespace Call

def part : Call → Part
  | dependOn _ => .needs
  | runOn _ => .runner
  | onlyIf _ => .condition
  | showAs _ => .displayName
  | grant _ => .permissions
  | limitMinutes _ => .minutes
  | setEnv _ => .env
  | setOutput _ _ => .outputs
  | runStep .. | actionStep .. | upload _ | download _ => .steps

def isUpload : Call → Bool
  | upload _ => true
  | _ => false

def isDownload : Call → Bool
  | download _ => true
  | _ => false

def needs : Call → List String
  | dependOn jobs => jobs
  | _ => []

/-- The steps that a call adds to the draft of a job. -/
def added (owner : String) : Call → List Step
  | runStep name command workingDirectory => [.command { name, command, workingDirectory }]
  | actionStep name action inputs =>
    match checkArguments "use_action" ["self", "name", "action"] inputs with
    | .ok () => [.action { name, action, inputs }]
    | .error _ => []
  | upload transfer => [.upload { transfer with job := owner }]
  | download transfer => [.download { transfer with job := owner }]
  | _ => []

def upload? (owner : String) : Call → Option Upload
  | upload transfer => some { transfer with job := owner }
  | _ => none

def download? (owner : String) : Call → Option Download
  | download transfer => some { transfer with job := owner }
  | _ => none

end Call

def outcome (draft : JobDraft) : Call → Except JobError JobDraft
  | .dependOn jobs => .ok (draft.dependOn jobs)
  | .runOn runner => .ok (draft.runOn runner)
  | .onlyIf condition => .ok (draft.onlyIf condition)
  | .showAs displayName => .ok (draft.showAs displayName)
  | .grant scopes => draft.grant scopes
  | .limitMinutes minutes => .ok (draft.limitMinutes minutes)
  | .setEnv values => draft.setEnv values
  | .setOutput name value => .ok (draft.setOutput name value)
  | .runStep name command workingDirectory => .ok (draft.runStep name command workingDirectory)
  | .actionStep name action inputs => draft.actionStep name action inputs
  | .upload transfer => .ok (draft.upload transfer)
  | .download transfer => .ok (draft.download transfer)

/-- The draft after a call. A call that is refused changes nothing. -/
def apply (draft : JobDraft) (call : Call) : JobDraft :=
  match draft.outcome call with
  | .ok changed => changed
  | .error _ => draft

def ofCalls (name : String) (calls : List Call) : JobDraft :=
  calls.foldl apply { name }

theorem ofCalls_concat (name : String) (calls : List Call) (call : Call) :
    ofCalls name (calls ++ [call]) = (ofCalls name calls).apply call := by
  rw [ofCalls, List.foldl_append]
  rfl

/-- One part of a draft, with all others as they are in a new draft. -/
def only (part : Part) (draft : JobDraft) : JobDraft :=
  match part with
  | .needs => { name := draft.name, needs := draft.needs }
  | .runner => { name := draft.name, runsOn := draft.runsOn }
  | .condition => { name := draft.name, condition := draft.condition }
  | .displayName => { name := draft.name, displayName := draft.displayName }
  | .permissions => { name := draft.name, permissions := draft.permissions }
  | .minutes => { name := draft.name, timeoutMinutes := draft.timeoutMinutes }
  | .env => { name := draft.name, env := draft.env }
  | .outputs => { name := draft.name, outputs := draft.outputs }
  | .steps => {
      name := draft.name
      steps := draft.steps
      recordedUploads := draft.recordedUploads
      recordedDownloads := draft.recordedDownloads
      uploadsOwned := draft.uploadsOwned
      downloadsOwned := draft.downloadsOwned }

/-- A draft is known by its parts. -/
theorem eq_of_only {other : JobDraft} (same : ∀ part, draft.only part = other.only part) :
    draft = other := by
  have name := congrArg JobDraft.name (same .needs)
  have needs := congrArg JobDraft.needs (same .needs)
  have runner := congrArg JobDraft.runsOn (same .runner)
  have condition := congrArg JobDraft.condition (same .condition)
  have displayName := congrArg JobDraft.displayName (same .displayName)
  have permissions := congrArg JobDraft.permissions (same .permissions)
  have minutes := congrArg JobDraft.timeoutMinutes (same .minutes)
  have env := congrArg JobDraft.env (same .env)
  have outputs := congrArg JobDraft.outputs (same .outputs)
  have steps := congrArg JobDraft.steps (same .steps)
  have uploads := congrArg JobDraft.recordedUploads (same .steps)
  have downloads := congrArg JobDraft.recordedDownloads (same .steps)
  cases draft
  cases other
  simp only [JobDraft.mk.injEq]
  exact ⟨name, displayName, runner, condition, needs, permissions, minutes, env, outputs, steps,
    uploads, downloads⟩

/-- A call changes its own part as it would without the others, and leaves those as they are. -/
theorem only_apply (part : Part) (draft : JobDraft) (call : Call) :
    (draft.apply call).only part =
      if call.part = part then (draft.only part).apply call else draft.only part := by
  cases call with
  | grant scopes =>
    simp only [apply, outcome, JobDraft.grant]
    cases checkArguments "with_permissions" ["self"] scopes <;> cases part <;> rfl
  | setEnv values =>
    simp only [apply, outcome, JobDraft.setEnv]
    cases checkArguments "with_env" ["self"] values <;> cases part <;> rfl
  | actionStep name action inputs =>
    simp only [apply, outcome, JobDraft.actionStep]
    cases checkArguments "use_action" ["self", "name", "action"] inputs <;> cases part <;> rfl
  | _ => cases part <;> rfl

/-- A part of a draft depends only on the calls that work on it. -/
theorem only_ofCalls (part : Part) (name : String) (calls : List Call) :
    (ofCalls name calls).only part = ofCalls name (calls.filter (·.part = part)) := by
  induction calls using List.reverseRecOn with
  | nil => cases part <;> rfl
  | append_singleton calls call ih =>
    rw [ofCalls_concat, only_apply, List.filter_append, ih]
    split
    · next own =>
      rw [List.filter_cons_of_pos (by simpa using own), List.filter_nil, ofCalls_concat]
    · next other =>
      rw [List.filter_cons_of_neg (by simpa using other), List.filter_nil, List.append_nil]

/-- Two runs with the same calls on each part, in the same order. -/
def SameByPart (calls others : List Call) : Prop :=
  ∀ part, calls.filter (·.part = part) = others.filter (·.part = part)

theorem ofCalls_congr (name : String) {calls others : List Call} (same : SameByPart calls others) :
    ofCalls name calls = ofCalls name others := by
  apply eq_of_only
  intro part
  rw [only_ofCalls, same, only_ofCalls]

theorem sameByPart_swap {a b : Call} (different : a.part ≠ b.part) (before after : List Call) :
    SameByPart (before ++ a :: b :: after) (before ++ b :: a :: after) := by
  intro part
  have pair : [a, b].filter (·.part = part) = [b, a].filter (·.part = part) := by
    by_cases first : a.part = part
    · have second : ¬ b.part = part := fun same => different (first.trans same.symm)
      simp [first, second]
    · by_cases second : b.part = part <;> simp [first, second]
  have split : ∀ c d : Call, before ++ c :: d :: after = before ++ ([c, d] ++ after) := fun _ _ => rfl
  rw [split, split, List.filter_append, List.filter_append, pair, List.filter_append,
    List.filter_append]

structure Extends (draft : JobDraft) (call : Call) (after : JobDraft) : Prop where
  name : after.name = draft.name
  needs : after.needs = draft.needs ++ call.needs
  steps : after.steps = draft.steps ++ (call.added draft.name).map Step.text
  uploads : after.recordedUploads = draft.recordedUploads ++ (call.upload? draft.name).toList
  downloads : after.recordedDownloads = draft.recordedDownloads ++ (call.download? draft.name).toList

theorem extends_apply (draft : JobDraft) (call : Call) : draft.Extends call (draft.apply call) := by
  have keep : ∀ {α : Type} (xs : List α), xs = xs ++ [] := fun xs => (List.append_nil xs).symm
  cases call with
  | dependOn jobs => exact ⟨rfl, rfl, keep _, keep _, keep _⟩
  | runStep name command directory => exact ⟨rfl, keep _, rfl, keep _, keep _⟩
  | upload transfer => exact ⟨rfl, keep _, rfl, rfl, keep _⟩
  | download transfer => exact ⟨rfl, keep _, rfl, keep _, rfl⟩
  | actionStep name action inputs =>
    simp only [apply, outcome, JobDraft.actionStep]
    cases checked : checkArguments "use_action" ["self", "name", "action"] inputs with
    | error e =>
      refine ⟨rfl, keep _, ?_, keep _, keep _⟩
      rw [Call.added, checked]
      exact keep _
    | ok allowed =>
      refine ⟨rfl, keep _, ?_, keep _, keep _⟩
      rw [Call.added, checked]
      rfl
  | grant scopes =>
    simp only [apply, outcome, JobDraft.grant]
    cases checkArguments "with_permissions" ["self"] scopes <;>
      exact ⟨rfl, keep _, keep _, keep _, keep _⟩
  | setEnv values =>
    simp only [apply, outcome, JobDraft.setEnv]
    cases checkArguments "with_env" ["self"] values <;>
      exact ⟨rfl, keep _, keep _, keep _, keep _⟩
  | runOn _ | onlyIf _ | showAs _ | limitMinutes _ | setOutput _ _ =>
    exact ⟨rfl, keep _, keep _, keep _, keep _⟩

/-- The steps that the calls of a run append to a draft, each with its call. -/
def appended (draft : JobDraft) : List Call → List (Call × String)
  | [] => []
  | call :: rest =>
    ((draft.apply call).steps.drop draft.steps.length).map (call, ·) ++
      (draft.apply call).appended rest

/-- The steps of a call are its own, whatever the draft holds. -/
theorem appended_eq (draft : JobDraft) (calls : List Call) :
    draft.appended calls =
      calls.flatMap fun call => (call.added draft.name).map fun step => (call, step.text) := by
  induction calls generalizing draft with
  | nil => rfl
  | cons call rest ih =>
    have after := draft.extends_apply call
    rw [appended, ih, after.name, after.steps, List.drop_left, List.map_map, List.flatMap_cons]
    rfl

structure Gathers (draft : JobDraft) (calls : List Call) (after : JobDraft) : Prop where
  name : after.name = draft.name
  needs : after.needs = draft.needs ++ calls.flatMap Call.needs
  steps : after.steps = draft.steps ++ (draft.appended calls).map Prod.snd
  uploads : after.recordedUploads = draft.recordedUploads ++ calls.filterMap (Call.upload? draft.name)
  downloads : after.recordedDownloads =
    draft.recordedDownloads ++ calls.filterMap (Call.download? draft.name)

theorem gathers_foldl_apply (draft : JobDraft) (calls : List Call) :
    draft.Gathers calls (calls.foldl apply draft) := by
  induction calls generalizing draft with
  | nil =>
    have keep : ∀ {α : Type} (xs : List α), xs = xs ++ [] := fun xs => (List.append_nil xs).symm
    exact ⟨rfl, keep _, keep _, keep _, keep _⟩
  | cons call rest ih =>
    have step := draft.extends_apply call
    have run := ih (draft.apply call)
    constructor
    · exact run.name.trans step.name
    · rw [List.foldl_cons, run.needs, step.needs, List.append_assoc, List.flatMap_cons]
    · rw [List.foldl_cons, run.steps, appended, List.map_append, List.map_map, step.steps,
        List.drop_left, List.append_assoc]
      congr 2
      exact (List.map_id _).symm
    · rw [List.foldl_cons, run.uploads, step.uploads, step.name, List.append_assoc,
        List.filterMap_eq_flatMap_toList, List.filterMap_eq_flatMap_toList, List.flatMap_cons]
    · rw [List.foldl_cons, run.downloads, step.downloads, step.name, List.append_assoc,
        List.filterMap_eq_flatMap_toList, List.filterMap_eq_flatMap_toList, List.flatMap_cons]

/-- When the calls of one kind add exactly the steps of their records, and no others have records, the
steps that this kind appends in a run are those of its records, in their order. -/
theorem recordedSteps_appended {α : Type} {isKind : Call → Bool} {record? : Call → Option α}
    {stepOf : α → Step} (own : ∀ call,
      (if isKind call then call.added draft.name else []) = (record? call).toList.map stepOf)
    (calls : List Call) :
    ((draft.appended calls).filter (isKind ·.1)).map Prod.snd =
      (calls.filterMap record?).map fun record => (stepOf record).text := by
  rw [appended_eq, List.filter_flatMap, List.map_flatMap, List.filterMap_eq_flatMap_toList,
    List.map_flatMap]
  apply List.flatMap_congr
  intro call _
  have texts := congrArg (List.map Step.text) (own call)
  rw [List.map_map] at texts
  refine Eq.trans ?_ texts
  cases kind : isKind call <;> simp [List.filter_map, Function.comp_def, kind]

/-- A draft with steps can be finished. -/
theorem exists_build (some : draft.steps ≠ []) :
    ∃ job, draft.build = .ok job ∧ job.name = draft.name ∧ job.needs = draft.needs ∧
      job.steps = draft.steps := by
  have steps : ¬ draft.steps.isEmpty = true := by simpa using some
  exact ⟨_, (if_neg steps).trans (if_neg fun both => both.1 rfl), rfl, rfl, rfl⟩

/-- The steps that a run of calls appends to a new draft, each with its call. -/
def stepsOfCalls (name : String) (calls : List Call) : List (Call × String) :=
  appended { name } calls

/-- A finished job with the records of its draft, as a run of calls made them: each upload and each
download has its step, in the same order, and its record; and all downloads depend on all that the job
needs. -/
structure Coherent (owner : String) (calls : List Call) (job : Job) : Prop where
  name : job.name = owner
  needs : job.needs = calls.flatMap Call.needs
  steps : job.steps = (stepsOfCalls owner calls).map Prod.snd
  uploads : (ofCalls owner calls).uploads = calls.filterMap (Call.upload? owner)
  uploadSteps : ((stepsOfCalls owner calls).filter (·.1.isUpload)).map Prod.snd =
    (ofCalls owner calls).uploads.map fun upload => (Step.upload upload).text
  ownUploads : ∀ upload ∈ (ofCalls owner calls).uploads, upload.job = owner
  downloads : (ofCalls owner calls).downloads =
    (calls.filterMap (Call.download? owner)).map fun download => { download with dependsOn := job.needs }
  downloadSteps : ((stepsOfCalls owner calls).filter (·.1.isDownload)).map Prod.snd =
    (ofCalls owner calls).downloads.map fun download => (Step.download download).text
  ownDownloads : ∀ download ∈ (ofCalls owner calls).downloads,
    download.job = owner ∧ download.dependsOn = job.needs

/-- The step of a download does not show what the download depends on. -/
theorem text_withDependsOn (download : Download) (jobs : List String) :
    (Step.download { download with dependsOn := jobs }).text = (Step.download download).text := by
  have sameStep : { download with dependsOn := jobs : Download }.step = download.step := rfl
  rw [Step.text, sameStep, Step.text]

theorem exists_coherent {owner : String} {calls : List Call} (adds : stepsOfCalls owner calls ≠ []) :
    ∃ job, (ofCalls owner calls).build = .ok job ∧ Coherent owner calls job := by
  have run : Gathers { name := owner } calls (ofCalls owner calls) := gathers_foldl_apply _ calls
  have steps : (ofCalls owner calls).steps = (stepsOfCalls owner calls).map Prod.snd := run.steps
  have needs : (ofCalls owner calls).needs = calls.flatMap Call.needs := run.needs
  have uploads : (ofCalls owner calls).uploads = calls.filterMap (Call.upload? owner) := run.uploads
  have recorded : (ofCalls owner calls).recordedDownloads = calls.filterMap (Call.download? owner) :=
    run.downloads
  have some : (ofCalls owner calls).steps ≠ [] := by simpa [steps] using adds
  obtain ⟨job, built, sameName, sameNeeds, sameSteps⟩ := exists_build some
  have downloads : (ofCalls owner calls).downloads =
      (calls.filterMap (Call.download? owner)).map
        fun download => { download with dependsOn := job.needs } := by
    rw [JobDraft.downloads, recorded, sameNeeds]
  refine ⟨job, built, ?_⟩
  constructor
  · exact sameName.trans run.name
  · exact sameNeeds.trans needs
  · exact sameSteps.trans steps
  · exact uploads
  · rw [uploads]
    exact recordedSteps_appended (by intro call; cases call <;> rfl) calls
  · intro upload isUpload
    exact ((ofCalls owner calls).uploadsOwned upload isUpload).trans run.name
  · exact downloads
  · rw [downloads, List.map_map]
    simp only [Function.comp_def, text_withDependsOn]
    exact recordedSteps_appended (by intro call; cases call <;> rfl) calls
  · intro download isDownload
    obtain ⟨owned, depends⟩ := job_of_mem_downloads isDownload
    exact ⟨owned.trans run.name, depends.trans sameNeeds.symm⟩

/-- A run of calls that adds a step makes a job, and its steps and its records agree. The order of calls
matters only among those on one part of the draft: a run with the same calls on each part makes the same
draft, and so does one in which two neighbouring calls on different parts change places. -/
theorem coherent_ofCalls (owner : String) (calls : List Call) (adds : stepsOfCalls owner calls ≠ []) :
    (∃ job, (ofCalls owner calls).build = .ok job ∧ Coherent owner calls job) ∧
    (∀ others, SameByPart calls others → ofCalls owner others = ofCalls owner calls) ∧
    (∀ before a b after, calls = before ++ a :: b :: after → a.part ≠ b.part →
      ofCalls owner (before ++ b :: a :: after) = ofCalls owner calls) := by
  refine ⟨exists_coherent adds, fun others same => (ofCalls_congr owner same).symm, ?_⟩
  rintro before a b after rfl different
  exact (ofCalls_congr owner (sameByPart_swap different before after)).symm

/-- A download before the needs are known, an upload, and a call with a reserved key, which is refused. -/
def scattered : List Call :=
  [.download { path := "in", name := "dist" }, .dependOn ["build"],
    .actionStep "Check" "actions/check" (.ofList [("self", .null)]),
    .upload { name := "log", paths := ["out/log"] }, .dependOn ["lint", "build"]]

/-- The same calls, part by part. -/
def gathered : List Call :=
  [.dependOn ["build"], .dependOn ["lint", "build"],
    .download { path := "in", name := "dist" },
    .actionStep "Check" "actions/check" (.ofList [("self", .null)]),
    .upload { name := "log", paths := ["out/log"] }]

theorem sameByPart_gathered : SameByPart scattered gathered := by
  intro part
  cases part <;> rfl

theorem coherent_scattered :
    stepsOfCalls "test" scattered ≠ [] ∧
    (∃ job, (ofCalls "test" scattered).build = .ok job ∧ Coherent "test" scattered job ∧
      job.needs = ["build", "lint", "build"]) ∧
    SameByPart scattered gathered ∧ ofCalls "test" gathered = ofCalls "test" scattered := by
  have adds : stepsOfCalls "test" scattered ≠ [] := by
    rw [stepsOfCalls, appended_eq]
    exact List.cons_ne_nil _ _
  obtain ⟨⟨job, built, coherent⟩, sameDraft, _⟩ := coherent_ofCalls "test" scattered adds
  exact ⟨adds, ⟨job, built, coherent, coherent.needs⟩, sameByPart_gathered,
    sameDraft gathered sameByPart_gathered⟩

end JobFlow.JobDraft
