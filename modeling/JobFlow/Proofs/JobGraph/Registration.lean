import JobFlow.JobGraph.Report
import JobFlow.Proofs.JobGraph.Needs

/-!
Registration of jobs. Jobs with proper names are all added, and the graph is the same for every order
in which they come. Otherwise the first job with an improper name decides the error.
-/

set_option autoImplicit false

namespace JobFlow

/-- Names under which jobs can be registered together. -/
structure ProperNames (jobs : List Job) : Prop where
  named : ∀ job ∈ jobs, job.name ≠ ""
  distinct : (jobs.map (·.name)).Nodup

/-- The first job that cannot be registered after those before it has this name. -/
def FirstRefused (jobs : List Job) (name : String) : Prop :=
  ∃ before job after, jobs = before ++ job :: after ∧ job.name = name ∧ ProperNames before ∧
    (name = "" ∨ name ∈ before.map (·.name))

theorem ProperNames.concat {jobs : List Job} (proper : ProperNames jobs) {job : Job}
    (named : job.name ≠ "") (fresh : job.name ∉ jobs.map (·.name)) :
    ProperNames (jobs ++ [job]) where
  named := List.forall_mem_append.2 ⟨proper.named, List.forall_mem_singleton.2 named⟩
  distinct := by
    rw [List.map_append, List.nodup_append]
    refine ⟨proper.distinct, by simp, ?_⟩
    intro known isKnown name isName same
    rw [List.map_singleton, List.mem_singleton] at isName
    exact fresh (isName ▸ same ▸ isKnown)

theorem ProperNames.perm {jobs others : List Job} (proper : ProperNames jobs)
    (perm : jobs.Perm others) : ProperNames others where
  named := fun job isJob => proper.named job (perm.mem_iff.2 isJob)
  distinct := (perm.map (·.name)).nodup_iff.1 proper.distinct

/-- With different names, the first job with a name is the only one. -/
theorem find?_eq_some_of_nodup {jobs : List Job} (distinct : (jobs.map (·.name)).Nodup) {job : Job}
    (isJob : job ∈ jobs) : jobs.find? (·.name == job.name) = some job := by
  cases found : jobs.find? (·.name == job.name) with
  | none =>
    have missing := List.find?_eq_none.1 found job isJob
    simp at missing
  | some other =>
    have named : other.name = job.name := by simpa using List.find?_some found
    have isOther := List.mem_of_find?_eq_some found
    rw [List.inj_on_of_nodup_map distinct isOther isJob named]

/-- Where all names are different, the job of a name does not depend on the order of the jobs. -/
theorem find?_eq_of_perm {jobs others : List Job} (perm : jobs.Perm others)
    (distinct : (jobs.map (·.name)).Nodup) (name : String) :
    jobs.find? (·.name == name) = others.find? (·.name == name) := by
  by_cases known : ∃ job ∈ jobs, job.name = name
  · obtain ⟨job, isJob, rfl⟩ := known
    rw [find?_eq_some_of_nodup distinct isJob,
      find?_eq_some_of_nodup ((perm.map _).nodup_iff.1 distinct) (perm.mem_iff.1 isJob)]
  · have missing : ∀ list : List Job, list.Perm jobs → list.find? (·.name == name) = none := by
      intro list same
      refine List.find?_eq_none.2 fun job isJob named => known ⟨job, same.mem_iff.1 isJob, ?_⟩
      simpa using named
    rw [missing _ (List.Perm.refl _), missing _ perm.symm]

/-- Jobs of which one is refused do not have proper names. -/
theorem FirstRefused.not_properNames {jobs : List Job} {name : String}
    (refused : FirstRefused jobs name) : ¬ ProperNames jobs := by
  obtain ⟨before, job, after, rfl, rfl, _, improper⟩ := refused
  intro proper
  rcases improper with unnamed | known
  · exact proper.named job (by simp) unnamed
  · have distinct := proper.distinct
    rw [List.map_append, List.nodup_append] at distinct
    exact distinct.2.2 job.name known job.name (by simp) rfl

namespace JobGraph

variable {g : JobGraph}

def refusal (name : String) : GraphError :=
  if name = "" then .emptyName else .duplicateJob name

/-- A job is added when its name is new and not empty. -/
theorem add_cases (g : JobGraph) (job : Job) :
    (job.name ≠ "" ∧ job.name ∉ g.names ∧ ∃ added, g.add job = .ok added) ∨
      ((job.name = "" ∨ job.name ∈ g.names) ∧ g.add job = .error (refusal job.name)) := by
  unfold add refusal
  by_cases unnamed : job.name = ""
  · exact Or.inr ⟨Or.inl unnamed, by rw [if_pos unnamed, if_pos unnamed]⟩
  · rw [if_neg unnamed, if_neg unnamed]
    by_cases known : g.contains job.name
    · exact Or.inr ⟨Or.inr (contains_eq_true.1 known), dif_pos known⟩
    · exact Or.inl ⟨unnamed, fun inGraph => known (contains_eq_true.2 inGraph), _, dif_neg known⟩

/-- A job that was added stands among those before it. -/
theorem jobs_perm_of_add {added : JobGraph} {job : Job} (h : g.add job = .ok added) :
    added.jobs.Perm (job :: g.jobs) := by
  rw [jobs_of_add h]
  exact Sorted.insert_perm _ job g.jobs

/-- Jobs that are added join the graph, none twice. -/
theorem jobs_perm_of_tracedAddAll {added : JobGraph} {jobs : List Job}
    (h : (g.tracedAddAll jobs).outcome = .ok added) : added.jobs.Perm (jobs ++ g.jobs) := by
  induction jobs generalizing g with
  | nil =>
    cases h
    exact List.Perm.refl _
  | cons job rest ih =>
    rw [tracedAddAll, List.foldlM_cons] at h
    obtain ⟨next, isNext, more⟩ := Traced.outcome_bind_eq_ok.1 h
    have placed : next.jobs.Perm (job :: g.jobs) := jobs_perm_of_add isNext
    exact (ih more).trans ((placed.append_left rest).trans List.perm_middle)

/-- Jobs are added up to the first that is refused. `done` are the jobs of the graph in the order in
which they came. -/
theorem tracedAddAll_cases {done : List Job} (holds : g.jobs.Perm done) (proper : ProperNames done)
    (jobs : List Job) :
    (ProperNames (done ++ jobs) ∧ ∃ added, (g.tracedAddAll jobs).outcome = .ok added) ∨
      ∃ name, FirstRefused (done ++ jobs) name ∧
        (g.tracedAddAll jobs).outcome = .error (refusal name) := by
  induction jobs generalizing g done with
  | nil => exact Or.inl ⟨by simpa using proper, g, rfl⟩
  | cons job rest ih =>
    have known : job.name ∈ g.names ↔ job.name ∈ done.map (·.name) := (holds.map _).mem_iff
    have split : (g.tracedAddAll (job :: rest)).outcome =
        g.add job >>= fun next => (next.tracedAddAll rest).outcome := by
      rw [tracedAddAll, List.foldlM_cons, Traced.outcome_bind]
      rfl
    rw [split]
    rcases g.add_cases job with ⟨named, fresh, next, isNext⟩ | ⟨improper, refused⟩
    · rw [isNext]
      have holdsNext : next.jobs.Perm (done ++ [job]) :=
        (jobs_perm_of_add isNext).trans ((holds.cons job).trans (List.perm_append_singleton job done).symm)
      have more := ih holdsNext (proper.concat named fun isDone => fresh (known.2 isDone))
      rw [List.append_assoc, List.singleton_append] at more
      exact more
    · rw [refused]
      rw [known] at improper
      exact Or.inr ⟨job.name, ⟨done, job, rest, rfl, rfl, proper, improper⟩, rfl⟩

/-- Registration succeeds exactly with proper names, and otherwise names the first job refused. -/
theorem registration_cases (jobs : List Job) :
    (ProperNames jobs ∧
      ∃ added, (empty.tracedAddAll jobs).outcome = .ok added ∧ added.jobs.Perm jobs) ∨
      ∃ name, FirstRefused jobs name ∧
        (empty.tracedAddAll jobs).outcome = .error (refusal name) := by
  have none : ProperNames [] := ⟨fun _ isJob => absurd isJob List.not_mem_nil, List.nodup_nil⟩
  rcases tracedAddAll_cases (List.Perm.refl empty.jobs) none jobs with
    ⟨proper, added, isAdded⟩ | refused
  · have perm := jobs_perm_of_tracedAddAll isAdded
    rw [empty, List.append_nil] at perm
    exact Or.inl ⟨proper, added, isAdded, perm⟩
  · exact Or.inr refused

/-- Jobs with proper names make a graph. -/
theorem exists_graph {jobs : List Job} (proper : ProperNames jobs) :
    ∃ added, (empty.tracedAddAll jobs).outcome = .ok added ∧ added.jobs.Perm jobs := by
  rcases registration_cases jobs with ⟨_, graph⟩ | ⟨_, refused, _⟩
  · exact graph
  · exact absurd proper refused.not_properNames

/-- A graph is known by its jobs, whatever their order. -/
theorem eq_of_jobs_perm {h : JobGraph} (perm : g.jobs.Perm h.jobs) : g = h := by
  have same : g.jobs = h.jobs := by
    apply perm.eq_of_pairwise ?_ g.increasing h.increasing
    intro a b _ _ less greater
    exact absurd (String.lt_trans less greater) (String.lt_irrefl _)
  cases g
  cases h
  cases same
  rfl

end JobGraph

end JobFlow
