import JobFlow.JobGraph.Order
import JobFlow.JobGraph.StepNames
import JobFlow.Traced

/-!
The messages of the job graph. Orders and stages validate the graph first, and say so each time.
-/

set_option autoImplicit false

namespace JobFlow.JobGraph

def faultReport : GraphError → String
  | .unknownDependency job need =>
    "Validation failed: job " ++ job ++ " depends on non-existent job " ++ need
  | .cycle job need =>
    "Cycle detected: job " ++ job ++ " has circular dependency through " ++ need
  | other => other.message

/-- Adds a job. A refused one gives no message. -/
def tracedAdd (g : JobGraph) (job : Job) : Traced GraphError JobGraph :=
  let outcome := g.add job
  ⟨outcome, match outcome with
    | .ok _ => ["Adding job: " ++ job.name]
    | .error _ => []⟩

/-- Adds jobs one after the other, up to the first that is refused. -/
def tracedAddAll (g : JobGraph) (jobs : List Job) : Traced GraphError JobGraph :=
  jobs.foldlM tracedAdd g

def tracedValidate (g : JobGraph) : Traced GraphError Unit :=
  let outcome := g.validate
  ⟨outcome, ["Validating dependencies for " ++ Text.ofNat g.size ++ " jobs",
    match outcome with
    | .ok () => "No cycles detected in job dependencies"
    | .error fault => faultReport fault]⟩

def tracedCheckSteps (g : JobGraph) : Traced DuplicateStep Unit :=
  let outcome := g.checkSteps
  ⟨outcome, match outcome with
    | .ok () => ["No duplicate steps detected in any job"]
    | .error _ => []⟩

def tracedOrder (g : JobGraph) : Traced GraphError (List String) :=
  ⟨g.order?, g.tracedValidate.trace⟩

def tracedStages (g : JobGraph) (walk : NeedsWalk := .byName) :
    Traced GraphError (List (List String)) :=
  ⟨g.stages? walk, g.tracedValidate.trace⟩

def tracedRender (settings : Settings) (g : JobGraph) : Traced RenderError String :=
  ⟨g.render? settings, ["Rendering " ++ Text.ofNat g.size ++ " jobs to YAML"]⟩

end JobFlow.JobGraph
