import JobFlow.Proofs.JobGraph.Validation

/-!
Orders of execution without counters: which jobs are ready is read off the list of done names. The
first ready job by name gives the least order, and all ready jobs together give the earliest stages.
In a ranked graph some job is ready as long as any is left.
-/

set_option autoImplicit false

namespace JobFlow.JobGraph

variable {g : JobGraph} {done : List String}

/-- The jobs that are not done although all they need is, by name. -/
def ready (g : JobGraph) (done : List String) : List Job :=
  g.jobs.filter fun job => !done.contains job.name && job.needs.all done.contains

theorem mem_ready {job : Job} :
    job ∈ g.ready done ↔ job ∈ g.jobs ∧ job.name ∉ done ∧ ∀ need ∈ job.needs, need ∈ done := by
  simp [ready]

theorem pairwise_ready : (g.ready done).Pairwise fun a b => a.name < b.name :=
  g.increasing.filter _

def readyNames (g : JobGraph) (done : List String) : List String :=
  (g.ready done).map (·.name)

theorem ready_ne_nil {name : String} (isReady : name ∈ g.readyNames done) : g.ready done ≠ [] := by
  intro idle
  rw [readyNames, idle] at isReady
  cases isReady

theorem pairwise_readyNames : (g.readyNames done).Pairwise (· < ·) :=
  List.pairwise_map.2 pairwise_ready

theorem nodup_readyNames : (g.readyNames done).Nodup :=
  nodup_filter_names _

theorem mem_readyNames {job : Job} (inGraph : job ∈ g.jobs) :
    job.name ∈ g.readyNames done ↔ job.name ∉ done ∧ ∀ need ∈ job.needs, need ∈ done := by
  constructor
  · intro isName
    obtain ⟨other, isReady, same⟩ := List.mem_map.1 isName
    obtain ⟨otherIn, notDone, needsDone⟩ := mem_ready.1 isReady
    have here := eq_of_name_eq otherIn inGraph same
    exact here ▸ ⟨notDone, needsDone⟩
  · rintro ⟨notDone, needsDone⟩
    exact List.mem_map_of_mem (mem_ready.2 ⟨inGraph, notDone, needsDone⟩)

theorem mem_outside_of_ready {job : Job} (isReady : job ∈ g.ready done) :
    job.name ∈ g.outside done := by
  obtain ⟨inGraph, notDone, _⟩ := mem_ready.1 isReady
  exact mem_outside.2 ⟨name_mem_names inGraph, notDone⟩

theorem outside_append (g : JobGraph) (names done : List String) :
    g.outside (names ++ done) = (g.outside done).filter fun name => !names.contains name := by
  simp [outside, List.filter_filter]

/-- The ready jobs are among those that are left. -/
theorem readyNames_perm :
    (g.readyNames done).Perm ((g.outside done).filter (g.readyNames done).contains) := by
  apply (List.perm_ext_iff_of_nodup nodup_readyNames (nodup_outside.filter _)).2
  intro name
  rw [List.mem_filter, List.contains_iff_mem]
  constructor
  · intro isName
    obtain ⟨job, isReady, rfl⟩ := List.mem_map.1 isName
    exact ⟨mem_outside_of_ready isReady, isName⟩
  · exact And.right

/-- When the ready jobs are done, fewer jobs are left. -/
theorem length_outside_ready_lt (busy : g.ready done ≠ []) :
    (g.outside (g.readyNames done ++ done)).length < (g.outside done).length := by
  obtain ⟨job, isReady⟩ := List.exists_mem_of_ne_nil _ busy
  have isName : job.name ∈ g.readyNames done := List.mem_map_of_mem isReady
  rw [outside_append]
  refine List.length_filter_lt_length_iff_exists.2 ⟨job.name, mem_outside_of_ready isReady, ?_⟩
  simpa using isName

/-- A job whose needs are lowest among the jobs that are left is ready. -/
theorem exists_ready (known : g.Known) (ranked : g.Ranked) {name : String}
    (left : name ∈ g.outside done) : ∃ job, job ∈ g.ready done := by
  obtain ⟨rank, falls⟩ := ranked
  induction height : rank name using Nat.strongRecOn generalizing name with
  | _ height ih =>
    obtain ⟨inGraph, notDone⟩ := mem_outside.1 left
    obtain ⟨job, isJob, rfl⟩ := mem_names.1 inGraph
    by_cases allDone : ∀ need ∈ job.needs, need ∈ done
    · exact ⟨job, mem_ready.2 ⟨isJob, notDone, allDone⟩⟩
    · obtain ⟨need, listed, needLeft⟩ : ∃ need ∈ job.needs, need ∉ done := by
        simpa using allDone
      have lower := falls job.name need ((needs_iff isJob).2 listed)
      exact ih (rank need) (by omega) (mem_outside.2 ⟨known job isJob need listed, needLeft⟩) rfl

theorem outside_eq_nil_of_ready (known : g.Known) (ranked : g.Ranked) (idle : g.ready done = []) :
    g.outside done = [] := by
  apply List.eq_nil_iff_forall_not_mem.2
  intro name left
  obtain ⟨job, isReady⟩ := exists_ready known ranked left
  simp [idle] at isReady

theorem mem_of_idle (known : g.Known) (ranked : g.Ranked) (idle : g.ready done = []) {job : Job}
    (isJob : job ∈ g.jobs) : job.name ∈ done := by
  by_contra notDone
  have left : job.name ∈ g.outside done := mem_outside.2 ⟨name_mem_names isJob, notDone⟩
  rw [outside_eq_nil_of_ready known ranked idle] at left
  cases left

/-- Takes the first ready job, again and again. -/
def firstReady (g : JobGraph) (done : List String) : List String :=
  match first : g.ready done with
  | [] => []
  | job :: _ =>
    have := mem_outside.1 (mem_outside_of_ready (first ▸ List.mem_cons_self : job ∈ g.ready done))
    have := length_outside_cons_lt this.1 this.2
    job.name :: g.firstReady (job.name :: done)
termination_by (g.outside done).length

/-- Takes all ready jobs, again and again. -/
def allReady (g : JobGraph) (done : List String) : List (List String) :=
  if idle : g.ready done = [] then []
  else
    have := length_outside_ready_lt idle
    g.readyNames done :: g.allReady (g.readyNames done ++ done)
termination_by (g.outside done).length

theorem firstReady_of_nil (idle : g.ready done = []) : g.firstReady done = [] := by
  rw [firstReady]
  split
  · rfl
  · next first => cases idle.symm.trans first

theorem firstReady_of_cons {job : Job} {rest : List Job} (first : g.ready done = job :: rest) :
    g.firstReady done = job.name :: g.firstReady (job.name :: done) := by
  rw [firstReady]
  split
  · next idle => cases idle.symm.trans first
  · next same =>
    cases same.symm.trans first
    rfl

theorem allReady_of_nil (idle : g.ready done = []) : g.allReady done = [] := by
  rw [allReady, dif_pos idle]

theorem allReady_of_ne_nil (busy : g.ready done ≠ []) :
    g.allReady done = g.readyNames done :: g.allReady (g.readyNames done ++ done) := by
  rw [allReady, dif_neg busy]

end JobFlow.JobGraph
