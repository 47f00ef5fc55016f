import JobFlow.Job.Draft

/-!
Workflow definitions: jobs together with the transfers of their artifacts, collected from finished
jobs, drafts, and lists of both.
-/

set_option autoImplicit false

namespace JobFlow

/-- Everything that one compilation starts from. -/
structure Definition where
  jobs : List Job := []
  uploads : List Upload := []
  downloads : List Download := []
  deriving Inhabited

/-- One thing that stands for a job; other values are refused. -/
inductive Entry
  | job (job : Job)
  | draft (draft : JobDraft)
  | other (value : Scalar)

/-- What a workflow is collected from: an entry, or a list of entries. -/
inductive Item
  | entry (entry : Entry)
  | group (entries : List Entry)

inductive CollectError
  | job (error : JobError)
  | notAJob (kind : String)
  deriving DecidableEq, Repr

def CollectError.message : CollectError → String
  | job error => error.message
  | notAJob kind => "wf() expects Job or JobBuilder, got " ++ kind

/-- A value as an item. A list is taken apart once. -/
def Item.ofValue : Scalar → Item
  | .list values => group (values.map .other)
  | value => entry (.other value)

def Item.entries : Item → List Entry
  | entry e => [e]
  | group es => es

/-- A list with one entry for each value of a dimension, made in the order of the values. -/
def Item.overValues {ε α : Type} (values : List α) (entryFor : α → Except ε Entry) :
    Except ε Item := do
  return group (← values.mapM entryFor)

/-- The part of a definition that an entry gives. A draft brings its transfers along. -/
def Entry.definition : Entry → Except CollectError Definition
  | .job finished => .ok { jobs := [finished] }
  | .draft sketch =>
    match sketch.build with
    | .ok built => .ok { jobs := [built], uploads := sketch.uploads, downloads := sketch.downloads }
    | .error e => .error (.job e)
  | .other value => .error (.notAJob value.kindName)

namespace Definition

def append (a b : Definition) : Definition :=
  ⟨a.jobs ++ b.jobs, a.uploads ++ b.uploads, a.downloads ++ b.downloads⟩

instance : Append Definition :=
  ⟨append⟩

/-- Collects items in their order, up to the first that is refused. -/
def collect (items : List Item) : Except CollectError Definition := do
  let parts ← (items.flatMap Item.entries).mapM Entry.definition
  return parts.foldl append {}

end Definition

end JobFlow
