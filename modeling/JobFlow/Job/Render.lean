import JobFlow.Expression
import JobFlow.Job.Basic
import JobFlow.Settings

/-!
The text of a job in a workflow file. Fields have a fixed order, and those without content are left
out. A blank line ends the job. A job that shows a value without text cannot be rendered.
-/

set_option autoImplicit false

namespace JobFlow

namespace Job

def indent : String :=
  "    "

/-- The remark above a condition that guards a triggered run. -/
def triggerRemark : String :=
  "# zizmor: ignore[dangerous-triggers] - workflow_run trigger is secured with role and fork" ++
    " validation"

/-- The fields that hold plain or structured text, in their order. -/
def fragments (job : Job) : List (String × String) :=
  [("runs-on", job.runsOn), ("environment", job.environment), ("container", job.container),
    ("services", job.services), ("permissions", job.permissions),
    ("concurrency", job.concurrency)]

/-- The list of needs. A single one stands behind the key; several are listed by name. -/
def needsLines (job : Job) : List String :=
  match job.needs with
  | [] => []
  | [need] => [Yaml.entry indent "needs" need]
  | needs =>
    Yaml.header indent "needs" ::
      (Sorted.names needs).map fun need => indent ++ "  - " ++ need

/-- The lines of a folded condition. Written lines are kept, without blank ones; a single long
line is broken at operators. -/
def foldedCondition (settings : Settings) (condition : String) : List String :=
  if Text.isMultiline condition then
    ((Text.lines condition).filter (!Text.isBlankText ·)).map Text.strip
  else Expression.breakLines settings.expressionBreakThreshold condition

/-- The condition: one line when it fits, else a folded block. -/
def conditionLines (settings : Settings) (job : Job) : List String :=
  let remark := if job.guardsTriggeredRun then [indent ++ triggerRemark] else []
  let fits := !Text.isMultiline job.condition &&
    (job.condition.length : Int) ≤ settings.maxExpressionLength
  if job.condition = "" then []
  else if fits then remark ++ [Yaml.entry indent "if" (Yaml.scalar job.condition)]
  else
    remark ++ Yaml.entry indent "if" ">" ::
      Text.indentBy (indent ++ "  ") (foldedCondition settings job.condition)

/-- A mapping field, left out when it has no entries. -/
def mappingLines (key : String) (values : Mapping Scalar) : List String :=
  if values.isEmpty then [] else Yaml.lineMapping indent key values

/-- The call of a reusable workflow, with what it is given. -/
def callLines (job : Job) : List String :=
  Yaml.entry indent "uses" job.uses ::
    (mappingLines "with" job.inputs ++ mappingLines "secrets" job.secrets)

/-- Everything that stands before the blocks of the steps. -/
def headLines (settings : Settings) (job : Job) : List String :=
  [Yaml.header "  " job.name] ++
    (if job.displayName = "" then [] else [Yaml.entry indent "name" job.displayName]) ++
    job.needsLines ++
    job.conditionLines settings ++
    job.fragments.flatMap (fun (key, value) =>
      if value = "" then [] else Yaml.fragment indent key value) ++
    (if 0 < job.timeoutMinutes then
      [Yaml.entry indent "timeout-minutes" (Text.ofInt job.timeoutMinutes)] else []) ++
    mappingLines "env" job.env ++
    mappingLines "outputs" job.outputs ++
    (if job.isCall then job.callLines
     else if job.steps.isEmpty then [] else [Yaml.header indent "steps"])

/-- The blocks of the steps, as they stand. A job that makes a call shows none. -/
def stepsText (job : Job) : String :=
  if job.isCall then "" else String.join job.steps

/-- The text of a job whose values all have texts. -/
def render (settings : Settings) (job : Job) : String :=
  Text.unlines (job.headLines settings) ++ job.stepsText ++ "\n"

/-- The values that the text of a job shows, field by field. -/
def shownValues (job : Job) : List Scalar :=
  let valuesOf (values : Mapping Scalar) : List Scalar := values.entries.map Prod.snd
  (if 0 < job.timeoutMinutes then [.int job.timeoutMinutes] else []) ++
    valuesOf job.env ++ valuesOf job.outputs ++
    if job.isCall then valuesOf job.inputs ++ valuesOf job.secrets else []

def isWritable (job : Job) : Bool :=
  job.shownValues.all Scalar.isWritable

end Job

inductive RenderError
  | tooManyDigits
  deriving DecidableEq, Repr

def RenderError.message : RenderError → String
  | tooManyDigits => Text.unwritableMessage

/-- Renders a job, unless it shows a value without text. -/
def Job.render? (settings : Settings) (job : Job) : Except RenderError String :=
  if job.isWritable then .ok (job.render settings)
  else .error .tooManyDigits

end JobFlow
