import JobFlow.Artifact.Report
import JobFlow.Definition
import JobFlow.JobGraph.Report

/-!
Compilation of a definition: the job graph is built and validated, the transfers are recorded and
checked, and the jobs are ordered and rendered. The first fault ends it; only unresolved downloads
may be let pass, and then the result lists them.
-/

set_option autoImplicit false

namespace JobFlow

inductive CompileError
  | graph (error : GraphError)
  | duplicateStep (error : DuplicateStep)
  | upload (error : InvalidUpload)
  | download (error : InvalidDownload)
  | unresolved (errors : List Unresolved)
  | render (error : RenderError)
  deriving DecidableEq, Repr

def CompileError.message : CompileError → String
  | graph error => error.message
  | duplicateStep error => error.message
  | upload error => error.message
  | download error => error.message
  | unresolved errors => Unresolved.summary errors
  | render error => error.message

structure Compilation where
  graph : JobGraph
  ledger : Ledger
  order : List String
  stages : List (List String)
  /-- The `jobs` block of the workflow file. -/
  text : String
  unresolved : List Unresolved

namespace Compilation

/-- The downloads of each job that has any, by name, with the files that they bring. -/
def files (c : Compilation) : List (String × List ArtifactFile) :=
  (c.graph.names.filter fun job => !(c.ledger.downloadsOf job).isEmpty).map fun job =>
    (job, (c.ledger.downloadsOf job).flatMap c.ledger.resolve)

/-- The files, with the messages of the lookups. -/
def tracedFiles {ε : Type} (c : Compilation) : Traced ε (List (String × List ArtifactFile)) :=
  let downloads := c.graph.names.flatMap c.ledger.downloadsOf
  ⟨.ok c.files, downloads.flatMap fun d => (c.ledger.tracedResolve (ε := ε) d).trace⟩

end Compilation

namespace Definition

def needsOf (d : Definition) (job : String) : List String :=
  ((d.jobs.reverse.find? (·.name == job)).map (·.needs)).getD []

/-- A download that names no jobs depends on the needs of its own job. -/
def inheritNeeds (d : Definition) (download : Download) : Download :=
  if download.dependsOn.isEmpty then { download with dependsOn := d.needsOf download.job }
  else download

/-- Records one upload, its job being the current one. -/
def recordUpload (l : Ledger) (upload : Upload) : Traced CompileError Ledger := do
  let l ← l.tracedSetCurrentJob upload.job
  let (_, l) ← (l.tracedRecordUpload upload).mapError .upload
  return l

def recordDownload (d : Definition) (l : Ledger) (download : Download) :
    Traced CompileError Ledger := do
  let l ← l.tracedSetCurrentJob download.job
  let (_, l) ← (l.tracedRecordDownload (d.inheritNeeds download)).mapError .download
  return l

/-- Records all transfers, uploads first. -/
def ledger (d : Definition) (strict : Bool) : Traced CompileError Ledger := do
  let l ← d.uploads.foldlM recordUpload { strict }
  d.downloads.foldlM d.recordDownload l

/-- Compiles a definition. `strict` overrides the setting, and `failOnUnresolved` makes unresolved
downloads an error. The stages are found along `walk`. -/
def compile (settings : Settings) (d : Definition) (strict : Option Bool := none)
    (failOnUnresolved : Bool := false) (walk : NeedsWalk := .byName) :
    Traced CompileError Compilation := do
  let graph ← (JobGraph.empty.tracedAddAll d.jobs).mapError .graph
  graph.tracedValidate.mapError .graph
  graph.tracedCheckSteps.mapError .duplicateStep
  let ledger ← d.ledger (strict.getD settings.strictArtifacts)
  let unresolved ← ledger.tracedUnresolved
  if failOnUnresolved && !unresolved.isEmpty then
    Traced.quiet (.error (.unresolved unresolved))
  else
    let order ← graph.tracedOrder.mapError .graph
    let stages ← (graph.tracedStages walk).mapError .graph
    Traced.say ["Execution order: " ++ Text.quotedList order]
    let text ← (graph.tracedRender settings).mapError .render
    return { graph, ledger, order, stages, text, unresolved }

end Definition

end JobFlow
