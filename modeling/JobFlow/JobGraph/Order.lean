import JobFlow.JobGraph.Dependents

/-!
Orders of execution. For every job the needs that are still open are counted down, and a job whose
count comes to zero is free to run. The sequential order takes the first free job by name, again and
again. The stages take all free jobs at once.
-/

set_option autoImplicit false

namespace JobFlow

/-- For each job the number of its open needs, and the jobs that became free and were not taken. -/
structure Countdown where
  counts : Mapping Int
  free : List String

namespace Countdown

def count (s : Countdown) (job : String) : Int :=
  (s.counts.find? job).getD 0

/-- Takes one off the count of a job, and frees the job when that leaves none. -/
def release (s : Countdown) (job : String) : Countdown :=
  let left := s.count job - 1
  { counts := s.counts.insert job left
    free := if left = 0 then s.free ++ [job] else s.free }

def releaseAll (s : Countdown) (jobs : List String) : Countdown :=
  jobs.foldl release s

/-- The open needs of the given jobs together. -/
def openNeeds (s : Countdown) (jobs : List String) : Nat :=
  jobs.foldr (fun job others => (s.count job).toNat + others) 0

/-- What is left to do: needs to meet and free jobs to take. -/
def work (s : Countdown) (jobs : List String) : Nat :=
  s.openNeeds jobs + s.free.length

@[simp] theorem count_release (s : Countdown) (job other : String) :
    (s.release job).count other = if other = job then s.count job - 1 else s.count other := by
  unfold release count
  rw [Mapping.find?_insert]
  split <;> rfl

theorem free_release (s : Countdown) (job : String) :
    (s.release job).free = if s.count job = 1 then s.free ++ [job] else s.free := by
  have last : s.count job - 1 = 0 ↔ s.count job = 1 := by omega
  simp only [release, last]

theorem openNeeds_release_le (s : Countdown) (job : String) (jobs : List String) :
    (s.release job).openNeeds jobs ≤ s.openNeeds jobs := by
  induction jobs with
  | nil => exact Nat.le_refl 0
  | cons other rest ih =>
    simp only [openNeeds, count_release, List.foldr_cons] at ih ⊢
    split
    · next same =>
      subst same
      omega
    · omega

/-- When the last need of a job is met, fewer are open. -/
theorem openNeeds_release_lt {s : Countdown} {job : String} {jobs : List String}
    (known : job ∈ jobs) (last : s.count job = 1) :
    (s.release job).openNeeds jobs < s.openNeeds jobs := by
  induction jobs with
  | nil => cases known
  | cons other rest ih =>
    have less := s.openNeeds_release_le job rest
    simp only [openNeeds, count_release, List.foldr_cons] at ih less ⊢
    split
    · next same =>
      subst same
      omega
    · next distinct =>
      have inRest := (List.mem_cons.1 known).resolve_left fun same => distinct same.symm
      have := ih inRest
      omega

/-- A job is freed at the cost of its last open need. -/
theorem work_release_le {s : Countdown} {job : String} {jobs : List String}
    (known : job ∈ jobs) : (s.release job).work jobs ≤ s.work jobs := by
  unfold work
  rw [free_release]
  split
  · next last =>
    have less := openNeeds_release_lt known last
    simp only [List.length_append, List.length_singleton]
    omega
  · have less := s.openNeeds_release_le job jobs
    omega

theorem work_releaseAll_le {s : Countdown} {released jobs : List String}
    (known : ∀ job ∈ released, job ∈ jobs) : (s.releaseAll released).work jobs ≤ s.work jobs := by
  induction released generalizing s with
  | nil => exact Nat.le_refl _
  | cons job rest ih =>
    have first : (s.release job).work jobs ≤ s.work jobs :=
      work_release_le (known job List.mem_cons_self)
    exact Nat.le_trans (ih fun other inRest => known other (List.mem_cons_of_mem job inRest)) first

end Countdown

namespace JobGraph

/-- A countdown in which nothing is met. `listed` gives the needs of a job as they are counted. -/
def countdown (g : JobGraph) (listed : Job → List String) : Countdown where
  counts := ⟨g.jobs.map fun job => (job.name, ((listed job).length : Int)), by
    rw [List.map_map]
    exact g.nodup_names⟩
  free := (g.jobs.filter fun job => (listed job).isEmpty).map (·.name)

/-- The jobs that need a job, each as often as it lists that need. -/
def requests (g : JobGraph) (need : String) : List String :=
  g.jobs.flatMap fun job => (job.needs.filter (· == need)).map fun _ => job.name

theorem mem_names_of_mem_requests {g : JobGraph} {need name : String}
    (h : name ∈ g.requests need) : name ∈ g.names := by
  obtain ⟨job, inGraph, asked⟩ := List.mem_flatMap.1 h
  obtain ⟨_, _, rfl⟩ := List.mem_map.1 asked
  exact List.mem_map_of_mem inGraph

/-- Takes a job that became free, and counts the needs that it meets. -/
def takeFirst (g : JobGraph) (s : Countdown) (job : String) (rest : List String) : Countdown :=
  { s with free := rest }.releaseAll (g.requests job)

/-- Takes all free jobs, and counts the needs that they meet. -/
def takeAll (g : JobGraph) (index : DependentIndex g) (s : Countdown) : Countdown :=
  let next := { s with free := [] }.releaseAll (s.free.flatMap (entered index.lists))
  { next with free := Sorted.names next.free }

/-- Taking one of the free jobs leaves less to do. -/
theorem work_takeFirst_lt {g : JobGraph} {s : Countdown} {job : String} {rest : List String}
    (sorted : Sorted.names s.free = job :: rest) :
    (g.takeFirst s job rest).work g.names < s.work g.names := by
  have shorter := (Sorted.names_perm s.free).length_eq
  rw [sorted, List.length_cons] at shorter
  have less : (g.takeFirst s job rest).work g.names ≤ { s with free := rest }.work g.names :=
    Countdown.work_releaseAll_le fun _ => mem_names_of_mem_requests
  have taken : { s with free := rest }.work g.names + 1 = s.work g.names := by
    show s.openNeeds g.names + rest.length + 1 = s.openNeeds g.names + s.free.length
    omega
  omega

theorem takeAll_eq (g : JobGraph) (index : DependentIndex g) (s : Countdown) :
    g.takeAll index s =
      let next := { s with free := [] }.releaseAll (s.free.flatMap g.dependents)
      { next with free := Sorted.names next.free } := by
  rw [takeAll, show entered index.lists = g.dependents from funext index.entered_eq]

/-- Taking all free jobs leaves less to do, when there are any. -/
theorem work_takeAll_lt {g : JobGraph} {index : DependentIndex g} {s : Countdown}
    (busy : s.free ≠ []) : (g.takeAll index s).work g.names < s.work g.names := by
  have known : ∀ name ∈ s.free.flatMap g.dependents, name ∈ g.names := by
    intro name asked
    obtain ⟨_, _, asked⟩ := List.mem_flatMap.1 asked
    exact mem_names_of_mem_dependents asked
  have less := Countdown.work_releaseAll_le (s := { s with free := [] }) known
  have sorted : (g.takeAll index s).work g.names =
      ({ s with free := [] }.releaseAll (s.free.flatMap g.dependents)).work g.names := by
    rw [takeAll_eq]
    exact congrArg (Countdown.openNeeds _ g.names + ·) (Sorted.names_perm _).length_eq
  have taken : { s with free := [] }.work g.names < s.work g.names :=
    Nat.add_lt_add_left (List.length_pos_iff.2 busy) _
  omega

def orderFrom (g : JobGraph) (s : Countdown) : List String :=
  match sorted : Sorted.names s.free with
  | [] => []
  | job :: rest =>
    have := work_takeFirst_lt (g := g) sorted
    job :: g.orderFrom (g.takeFirst s job rest)
termination_by s.work g.names

def stagesFrom (g : JobGraph) (index : DependentIndex g) (s : Countdown) : List (List String) :=
  if idle : s.free = [] then []
  else
    have : (g.takeAll index s).work g.names < s.work g.names := work_takeAll_lt idle
    s.free :: g.stagesFrom index (g.takeAll index s)
termination_by s.work g.names

section equations

variable {g : JobGraph} {index : DependentIndex g} {s : Countdown}

theorem orderFrom_of_nil (idle : Sorted.names s.free = []) : g.orderFrom s = [] := by
  rw [orderFrom]
  split
  · rfl
  · next sorted => cases idle.symm.trans sorted

theorem orderFrom_of_cons {job : String} {rest : List String}
    (sorted : Sorted.names s.free = job :: rest) :
    g.orderFrom s = job :: g.orderFrom (g.takeFirst s job rest) := by
  rw [orderFrom]
  split
  · next idle => cases idle.symm.trans sorted
  · next same =>
    cases same.symm.trans sorted
    rfl

theorem stagesFrom_of_idle (idle : s.free = []) : g.stagesFrom index s = [] := by
  rw [stagesFrom, dif_pos idle]

theorem stagesFrom_of_busy (busy : s.free ≠ []) :
    g.stagesFrom index s = s.free :: g.stagesFrom index (g.takeAll index s) := by
  rw [stagesFrom, dif_neg busy]

end equations

/-- The sequential order of a valid graph. A need that is listed twice counts twice, and is met
twice. -/
def order (g : JobGraph) : List String :=
  g.orderFrom (g.countdown (·.needs))

/-- The stages of a valid graph. A need that is listed twice counts once. -/
def stages (g : JobGraph) (walk : NeedsWalk := .byName) : List (List String) :=
  g.stagesFrom (g.dependentIndex walk) (g.countdown walk.list)

def order? (g : JobGraph) : Except GraphError (List String) :=
  g.validate.map fun _ => g.order

def stages? (g : JobGraph) (walk : NeedsWalk := .byName) : Except GraphError (List (List String)) :=
  g.validate.map fun _ => g.stages walk

theorem order?_of_valid {g : JobGraph} (valid : g.validate = .ok ()) : g.order? = .ok g.order := by
  rw [order?, valid]
  rfl

theorem stages?_of_valid {g : JobGraph} {walk : NeedsWalk} (valid : g.validate = .ok ()) :
    g.stages? walk = .ok (g.stages walk) := by
  rw [stages?, valid]
  rfl

end JobGraph

end JobFlow
