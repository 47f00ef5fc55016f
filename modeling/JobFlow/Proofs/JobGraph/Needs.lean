import Mathlib.Data.List.Nodup
import Mathlib.Logic.Relation
import JobFlow.JobGraph.Cycle

/-!
The needs of a graph as a relation between names. The names of a graph increase strictly, so a name
stands for one job at most, and what holds of the needs of a job holds of its name.
-/

set_option autoImplicit false

namespace JobFlow.JobGraph

variable {g : JobGraph}

def Needs (g : JobGraph) (name need : String) : Prop :=
  ∃ job ∈ g.jobs, job.name = name ∧ need ∈ job.needs

def Known (g : JobGraph) : Prop :=
  ∀ job ∈ g.jobs, ∀ need ∈ job.needs, need ∈ g.names

/-- Some job needs itself, at once or through others. -/
def Cyclic (g : JobGraph) : Prop :=
  ∃ name, Relation.TransGen g.Needs name name

theorem mem_names {name : String} : name ∈ g.names ↔ ∃ job ∈ g.jobs, job.name = name :=
  List.mem_map

theorem name_mem_names {job : Job} (inGraph : job ∈ g.jobs) : job.name ∈ g.names :=
  List.mem_map_of_mem inGraph

@[simp] theorem contains_eq_true {name : String} : g.contains name = true ↔ name ∈ g.names := by
  simp [contains]

@[simp] theorem contains_eq_false {name : String} : g.contains name = false ↔ name ∉ g.names := by
  simp [contains]

theorem nodup_outside {names : List String} : (g.outside names).Nodup :=
  List.filter_sublist.nodup g.nodup_names

theorem nodup_filter_names (p : Job → Bool) : ((g.jobs.filter p).map (·.name)).Nodup :=
  (List.filter_sublist.map _).nodup g.nodup_names

/-- Two jobs with one name are the same job. -/
theorem eq_of_name_eq {a b : Job} (inGraph : a ∈ g.jobs) (other : b ∈ g.jobs)
    (same : a.name = b.name) : a = b :=
  List.inj_on_of_nodup_map g.nodup_names inGraph other same

theorem needs_iff {job : Job} {need : String} (inGraph : job ∈ g.jobs) :
    g.Needs job.name need ↔ need ∈ job.needs := by
  constructor
  · rintro ⟨other, otherIn, same, listed⟩
    exact eq_of_name_eq otherIn inGraph same ▸ listed
  · intro listed
    exact ⟨job, inGraph, rfl, listed⟩

theorem mem_names_of_needs {name need : String} (h : g.Needs name need) : name ∈ g.names := by
  obtain ⟨job, inGraph, rfl, _⟩ := h
  exact name_mem_names inGraph

theorem Known.mem_names {name need : String} (known : g.Known) (h : g.Needs name need) :
    need ∈ g.names := by
  obtain ⟨job, inGraph, _, listed⟩ := h
  exact known job inGraph need listed

/-- A job that is found is the job with that name. -/
theorem mem_of_find? {name : String} {job : Job} (found : g.find? name = some job) :
    job ∈ g.jobs ∧ job.name = name := by
  have named := List.find?_some found
  exact ⟨List.mem_of_find?_eq_some found, by simpa using named⟩

theorem not_mem_names_of_find? {name : String} (missing : g.find? name = none) :
    name ∉ g.names := by
  rw [mem_names]
  rintro ⟨job, inGraph, rfl⟩
  simpa using List.find?_eq_none.1 missing job inGraph

theorem needs_iff_of_find? {name need : String} {job : Job} (found : g.find? name = some job) :
    g.Needs name need ↔ need ∈ job.needs := by
  obtain ⟨inGraph, rfl⟩ := mem_of_find? found
  exact needs_iff inGraph

end JobFlow.JobGraph
