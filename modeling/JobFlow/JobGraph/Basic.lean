import JobFlow.Job.Render

/-!
The job graph: all jobs of one compilation, in the order of their names. Names of other jobs in the
needs of a job are the edges; they need not be known when the job is added.
-/

set_option autoImplicit false

namespace JobFlow

inductive GraphError
  | emptyName
  | duplicateJob (job : String)
  | unknownDependency (job dependency : String)
  /-- The needs of `job` lead back to `job` through `dependency`. -/
  | cycle (job dependency : String)
  deriving DecidableEq, Repr

def GraphError.message : GraphError → String
  | emptyName => "job name cannot be empty"
  | duplicateJob job => "job '" ++ job ++ "' already exists"
  | unknownDependency job dependency =>
    "job '" ++ job ++ "' depends on non-existent job '" ++ dependency ++ "'"
  | cycle job dependency =>
    "cycle detected in job dependencies: job '" ++ job ++
      "' has circular dependency through '" ++ dependency ++ "'"

/-- Jobs in strictly increasing order of their names. -/
structure JobGraph where
  jobs : List Job
  increasing : jobs.Pairwise fun a b => a.name < b.name

namespace JobGraph

def empty : JobGraph :=
  ⟨[], List.Pairwise.nil⟩

instance : Inhabited JobGraph :=
  ⟨empty⟩

def names (g : JobGraph) : List String :=
  g.jobs.map (·.name)

theorem nodup_names (g : JobGraph) : g.names.Nodup :=
  List.pairwise_map.2 (g.increasing.imp String.ne_of_lt)

def size (g : JobGraph) : Nat :=
  g.jobs.length

def contains (g : JobGraph) (name : String) : Bool :=
  g.names.contains name

def find? (g : JobGraph) (name : String) : Option Job :=
  g.jobs.find? (·.name == name)

/-- Puts a job before the first one with a greater name. -/
def place (job : Job) (jobs : List Job) : List Job :=
  Sorted.insert (fun a b => decide (a.name < b.name)) job jobs

theorem mem_place {job j : Job} {jobs : List Job} : j ∈ place job jobs ↔ j = job ∨ j ∈ jobs :=
  Sorted.mem_insert

/-- Placing a job with a new name keeps the order. -/
theorem pairwise_place {job : Job} {jobs : List Job}
    (increasing : jobs.Pairwise fun a b => a.name < b.name)
    (fresh : ∀ j ∈ jobs, j.name ≠ job.name) :
    (place job jobs).Pairwise fun a b => a.name < b.name := by
  induction jobs with
  | nil => simp [place, Sorted.insert]
  | cons other rest ih =>
    have before := (List.pairwise_cons.1 increasing).1
    have later := (List.pairwise_cons.1 increasing).2
    unfold place Sorted.insert
    split
    · next first =>
      simp only [decide_eq_true_eq] at first
      refine List.pairwise_cons.2 ⟨?_, increasing⟩
      intro j inJobs
      rcases List.mem_cons.1 inJobs with rfl | inRest
      · exact first
      · exact String.lt_trans first (before j inRest)
    · next notFirst =>
      simp only [decide_eq_true_eq] at notFirst
      refine List.pairwise_cons.2
        ⟨?_, ih later fun j inRest => fresh j (List.mem_cons_of_mem other inRest)⟩
      intro j placed
      rcases mem_place.1 placed with rfl | inRest
      · have distinct := fresh other List.mem_cons_self
        exact Sorted.lt_of_not_lt_of_ne notFirst fun same => distinct same.symm
      · exact before j inRest

theorem name_ne_of_not_contains {g : JobGraph} {name : String} (h : ¬ g.contains name) :
    ∀ j ∈ g.jobs, j.name ≠ name := by
  intro j inGraph same
  exact h (by simpa [contains, names] using ⟨j, inGraph, same⟩)

/-- Adds a job under its own name, which must be new and not empty. -/
def add (g : JobGraph) (job : Job) : Except GraphError JobGraph :=
  if job.name = "" then .error .emptyName
  else if known : g.contains job.name then .error (.duplicateJob job.name)
  else .ok ⟨place job g.jobs, pairwise_place g.increasing (name_ne_of_not_contains known)⟩

/-- A job that was added stands among the jobs before. -/
theorem jobs_of_add {g added : JobGraph} {job : Job} (h : g.add job = .ok added) :
    added.jobs = place job g.jobs := by
  unfold add at h
  split at h
  · cases h
  · split at h
    · cases h
    · cases h
      rfl

/-- A job is refused exactly when its name is empty or taken. -/
theorem add_eq_error_iff {g : JobGraph} {job : Job} {e : GraphError} :
    g.add job = .error e ↔
      (job.name = "" ∧ e = .emptyName) ∨
        (job.name ≠ "" ∧ g.contains job.name = true ∧ e = .duplicateJob job.name) := by
  by_cases unnamed : job.name = ""
  · have refused : g.add job = .error .emptyName := by simp [add, unnamed]
    rw [refused]
    constructor
    · intro h
      cases h
      exact Or.inl ⟨unnamed, rfl⟩
    · rintro (⟨_, rfl⟩ | ⟨named, _⟩)
      · rfl
      · exact absurd unnamed named
  · by_cases known : g.contains job.name
    · have refused : g.add job = .error (.duplicateJob job.name) := by
        simp [add, unnamed, known]
      rw [refused]
      constructor
      · intro h
        cases h
        exact Or.inr ⟨unnamed, known, rfl⟩
      · rintro (⟨empty, _⟩ | ⟨_, _, rfl⟩)
        · exact absurd empty unnamed
        · rfl
    · simp [add, unnamed, known]

/-- The `jobs` block of a workflow file. Jobs stand in the order of their names. -/
def render (settings : Settings) (g : JobGraph) : String :=
  "jobs:\n" ++ String.join (g.jobs.map (Job.render settings))

def render? (settings : Settings) (g : JobGraph) : Except RenderError String := do
  let texts ← g.jobs.mapM (Job.render? settings)
  return "jobs:\n" ++ String.join texts

end JobGraph

end JobFlow
