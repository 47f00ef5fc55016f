import JobFlow.JobGraph.Basic

/-!
Validation of the needs of a graph: every need is the name of a job, and no job leads back to
itself along the needs. The search for a cycle goes as deep as the needs do, without a limit.
-/

set_option autoImplicit false

namespace JobFlow.JobGraph

/-- The first job, by name, with a need that is no job, and the first such need. -/
def unknownNeed? (g : JobGraph) : Option (String × String) :=
  g.jobs.findSome? fun job =>
    (job.needs.find? fun need => !g.contains need).map fun need => (job.name, need)

def outside (g : JobGraph) (names : List String) : List String :=
  g.names.filter fun name => !names.contains name

theorem outside_cons (g : JobGraph) (names : List String) (name : String) :
    g.outside (name :: names) = (g.outside names).filter fun other => !decide (other = name) := by
  simp [outside, List.filter_filter]

theorem mem_outside {g : JobGraph} {names : List String} {name : String} :
    name ∈ g.outside names ↔ name ∈ g.names ∧ name ∉ names := by
  simp [outside]

theorem length_outside_cons_lt {g : JobGraph} {names : List String} {name : String}
    (inGraph : name ∈ g.names) (off : name ∉ names) :
    (g.outside (name :: names)).length < (g.outside names).length := by
  rw [outside_cons]
  exact List.length_filter_lt_length_iff_exists.2
    ⟨name, mem_outside.2 ⟨inGraph, off⟩, by simp⟩

theorem mem_names_of_find? {g : JobGraph} {name : String} {job : Job}
    (h : g.find? name = some job) : name ∈ g.names := by
  have found := List.find?_some h
  simp only [beq_iff_eq] at found
  exact List.mem_map.2 ⟨job, List.mem_of_find?_eq_some h, found⟩

/-- A bound that the number of needs of no job reaches. -/
def width : List Job → Nat
  | [] => 1
  | job :: rest => job.needs.length + width rest

theorem width_pos (jobs : List Job) : 0 < width jobs := by
  induction jobs with
  | nil => exact Nat.one_pos
  | cons job rest ih => exact Nat.lt_of_lt_of_le ih (Nat.le_add_left _ _)

theorem length_needs_lt_width {job : Job} {jobs : List Job} (h : job ∈ jobs) :
    job.needs.length < width jobs := by
  induction jobs with
  | nil => cases h
  | cons other rest ih =>
    unfold width
    rcases List.mem_cons.1 h with rfl | inRest
    · have := width_pos rest
      omega
    · have := ih inRest
      omega

/-- What is left to explore: for each name off the path its needs at most, and those pending. -/
def unexplored (g : JobGraph) (path pending : List String) : Nat :=
  (g.outside path).length * width g.jobs + pending.length

/-- Going down to a need that is not on the path leaves less to explore. -/
theorem unexplored_lt {g : JobGraph} {path : List String} (pending : List String)
    {need : String} {next : Job} (found : g.find? need = some next) (off : need ∉ path) :
    g.unexplored (need :: path) next.needs < g.unexplored path (need :: pending) := by
  have fewer := length_outside_cons_lt (mem_names_of_find? found) off
  have narrow := length_needs_lt_width (List.mem_of_find?_eq_some found)
  have rows := Nat.mul_le_mul_right (width g.jobs) (Nat.succ_le_of_lt fewer)
  rw [Nat.succ_mul] at rows
  unfold unexplored
  omega

theorem unexplored_tail_lt (g : JobGraph) (path pending : List String) (need : String) :
    g.unexplored path pending < g.unexplored path (need :: pending) := by
  simp [unexplored]

/-- Explores the needs still `pending` of a job. `path` holds the job and the jobs that led to it,
innermost first, and `done` the jobs whose needs are explored already. A need that stands on the
path closes a cycle, and the exploration ends with the job and that need. Needs that are no jobs
are passed over. -/
def explore (g : JobGraph) (path : List String) (job : String) :
    (pending done : List String) → Except (String × String) (List String)
  | [], done => .ok done
  | need :: pending, done =>
    have := g.unexplored_tail_lt path pending need
    if onPath : need ∈ path then .error (job, need)
    else if need ∈ done then explore g path job pending done
    else
      match found : g.find? need with
      | none => explore g path job pending done
      | some next =>
        have := unexplored_lt pending found onPath
        match explore g (need :: path) need next.needs done with
        | .error cycle => .error cycle
        | .ok done => explore g path job pending (need :: done)
termination_by pending => g.unexplored path pending

section explore

variable {g : JobGraph} {path pending done : List String} {job need : String}

@[simp] theorem explore_nil : g.explore path job [] done = .ok done := by
  rw [explore]

theorem explore_of_mem_path (onPath : need ∈ path) :
    g.explore path job (need :: pending) done = .error (job, need) := by
  rw [explore, dif_pos onPath]

theorem explore_of_mem_done (offPath : need ∉ path) (isDone : need ∈ done) :
    g.explore path job (need :: pending) done = g.explore path job pending done := by
  rw [explore, dif_neg offPath, if_pos isDone]

theorem explore_of_missing (offPath : need ∉ path) (notDone : need ∉ done)
    (missing : g.find? need = none) :
    g.explore path job (need :: pending) done = g.explore path job pending done := by
  rw [explore, dif_neg offPath, if_neg notDone]
  split
  · rfl
  · next found => cases missing.symm.trans found

/-- A need that is met for the first time is expanded before the other needs of its job. -/
theorem explore_of_found {next : Job} (offPath : need ∉ path) (notDone : need ∉ done)
    (found : g.find? need = some next) :
    g.explore path job (need :: pending) done =
      (g.explore (need :: path) need next.needs done).bind fun done =>
        g.explore path job pending (need :: done) := by
  rw [explore, dif_neg offPath, if_neg notDone]
  split
  · next missing => cases missing.symm.trans found
  · next other same =>
    cases same.symm.trans found
    split
    · next inner =>
      rw [inner]
      rfl
    · next inner =>
      rw [inner]
      rfl

end explore

/-- The first cycle met when the jobs are explored by name: a job and the need that closes it. -/
def cycle? (g : JobGraph) : Option (String × String) :=
  match g.explore [] "" g.names [] with
  | .error edge => some edge
  | .ok _ => none

def validate (g : JobGraph) : Except GraphError Unit :=
  match g.unknownNeed? with
  | some (job, need) => .error (.unknownDependency job need)
  | none =>
    match g.cycle? with
    | some (job, need) => .error (.cycle job need)
    | none => .ok ()

end JobFlow.JobGraph
