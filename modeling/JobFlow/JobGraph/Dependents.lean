import JobFlow.JobGraph.Cycle

/-!
The jobs that need a job. They are entered in an index, job by job, each under all its different needs.
These may be gone through in any order: the lists of the index are the same for all of them.
-/

set_option autoImplicit false

namespace JobFlow

/-- An order in which the different needs of each job are gone through. -/
structure NeedsWalk where
  list : Job → List String
  nodup : ∀ job, (list job).Nodup
  mem_list : ∀ job need, need ∈ list job ↔ need ∈ job.needs

def NeedsWalk.byName : NeedsWalk where
  list job := Sorted.distinct job.needs
  nodup job := (Sorted.pairwise_distinct job.needs).imp String.ne_of_lt
  mem_list _ _ := Sorted.mem_distinct

namespace JobGraph

def dependents (g : JobGraph) (need : String) : List String :=
  (g.jobs.filter fun job => job.needs.contains need).map (·.name)

theorem mem_names_of_mem_dependents {g : JobGraph} {need name : String}
    (h : name ∈ g.dependents need) : name ∈ g.names := by
  obtain ⟨job, asked, rfl⟩ := List.mem_map.1 h
  exact List.mem_map_of_mem (List.mem_filter.1 asked).1

/-- The names that an index holds for a key. -/
def entered (lists : Mapping (List String)) (key : String) : List String :=
  (lists.find? key).getD []

/-- Enters a job under a need, behind those that are there. -/
def enter (job : String) (lists : Mapping (List String)) (need : String) : Mapping (List String) :=
  lists.insert need (entered lists need ++ [job])

/-- Enters jobs one after the other, each under all its different needs. -/
def enterAll (walk : NeedsWalk) (lists : Mapping (List String)) (jobs : List Job) :
    Mapping (List String) :=
  jobs.foldl (fun lists job => (walk.list job).foldl (enter job.name) lists) lists

theorem entered_enter (job : String) (lists : Mapping (List String)) (need key : String) :
    entered (enter job lists need) key =
      if key = need then entered lists need ++ [job] else entered lists key := by
  unfold enter
  rw [entered, Mapping.find?_insert]
  split <;> rfl

/-- A job stands once under each of its needs. -/
theorem entered_foldl_enter (job : String) {needs : List String} (distinct : needs.Nodup)
    (lists : Mapping (List String)) (key : String) :
    entered (needs.foldl (enter job) lists) key =
      entered lists key ++ if key ∈ needs then [job] else [] := by
  induction needs generalizing lists with
  | nil => simp
  | cons need rest ih =>
    rw [List.nodup_cons] at distinct
    rw [List.foldl_cons, ih distinct.2, entered_enter]
    by_cases here : key = need
    · subst here
      simp [distinct.1]
    · simp [here]

/-- Under a need stand the jobs that have it, in the order in which they were entered. -/
theorem entered_enterAll (walk : NeedsWalk) (lists : Mapping (List String)) (jobs : List Job)
    (key : String) :
    entered (enterAll walk lists jobs) key =
      entered lists key ++ (jobs.filter fun job => job.needs.contains key).map (·.name) := by
  induction jobs generalizing lists with
  | nil => simp [enterAll]
  | cons job rest ih =>
    have first := entered_foldl_enter job.name (walk.nodup job) lists key
    simp only [walk.mem_list] at first
    show entered (enterAll walk ((walk.list job).foldl (enter job.name) lists) rest) key = _
    rw [ih, first, List.filter_cons]
    by_cases isNeed : key ∈ job.needs
    · simp [isNeed]
    · simp [isNeed]

structure DependentIndex (g : JobGraph) where
  lists : Mapping (List String)
  entered_eq : ∀ need, entered lists need = g.dependents need

/-- The index at the start: a list for each job, and nothing in it. -/
def noDependents (g : JobGraph) : Mapping (List String) :=
  ⟨g.jobs.map fun job => (job.name, []), by
    rw [List.map_map]
    exact g.nodup_names⟩

theorem entered_noDependents (g : JobGraph) (key : String) : entered g.noDependents key = [] := by
  unfold entered
  cases found : g.noDependents.find? key with
  | none => rfl
  | some names =>
    obtain ⟨_, _, split, _⟩ := List.lookup_eq_some_iff.1 found
    have entry : (key, names) ∈ g.noDependents.entries := by simp [split]
    obtain ⟨_, _, same⟩ := List.mem_map.1 entry
    cases same
    rfl

def dependentIndex (g : JobGraph) (walk : NeedsWalk) : DependentIndex g where
  lists := enterAll walk g.noDependents g.jobs
  entered_eq need := by rw [entered_enterAll, entered_noDependents, List.nil_append, dependents]

end JobGraph

end JobFlow
