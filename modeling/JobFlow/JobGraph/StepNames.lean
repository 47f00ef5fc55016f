import JobFlow.JobGraph.Basic

/-!
Steps with the same name. Steps are generated, so a name that comes twice in one job means that a
step was generated twice. Steps without a name are left aside.
-/

set_option autoImplicit false

namespace JobFlow

/-- A step name that comes twice in a job, with the positions of the two steps. -/
structure DuplicateStep where
  job : String
  step : String
  firstIndex : Nat
  index : Nat
  deriving DecidableEq, Repr

def DuplicateStep.message (e : DuplicateStep) : String :=
  "compiler bug: duplicate step '" ++ e.step ++ "' found in job '" ++ e.job ++ "' (positions " ++
    Text.ofNat e.firstIndex ++ " and " ++ Text.ofNat e.index ++ ")"

/-- The first name that repeats one of `seen` or one before it, with both positions. `index` is the
position of the first name in the list. -/
def repeatedName? (seen : List (String × Nat)) (index : Nat) :
    List String → Option (String × Nat × Nat)
  | [] => none
  | name :: rest =>
    if name = "" then repeatedName? seen (index + 1) rest
    else
      match seen.lookup name with
      | some first => some (name, first, index)
      | none => repeatedName? (seen ++ [(name, index)]) (index + 1) rest

def Job.duplicateStep? (job : Job) : Option DuplicateStep :=
  (repeatedName? [] 0 (job.steps.map Step.nameOf)).map fun (step, first, index) =>
    ⟨job.name, step, first, index⟩

namespace JobGraph

/-- The first repeated step name of the first job, by name, that has one. -/
def duplicateStep? (g : JobGraph) : Option DuplicateStep :=
  g.jobs.findSome? Job.duplicateStep?

def checkSteps (g : JobGraph) : Except DuplicateStep Unit :=
  match g.duplicateStep? with
  | some duplicate => .error duplicate
  | none => .ok ()

end JobGraph

end JobFlow
