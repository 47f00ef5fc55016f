import Mathlib.Data.List.Induction
import JobFlow.Proofs.JobGraph.Registration

/-!
The registry after any run of offers. A job is offered under its name; an offer with an empty or a known
name is refused, and the run goes on without it. So the first job that was offered under a name is the one
that stays, and the graph has its names in order, whatever came in between.
-/

set_option autoImplicit false

namespace JobFlow.JobGraph

variable {g : JobGraph}

/-- The graph after an offer. A job that is refused changes nothing. -/
def offer (g : JobGraph) (job : Job) : JobGraph :=
  match g.add job with
  | .ok added => added
  | .error _ => g

def ofOffers (jobs : List Job) : JobGraph :=
  jobs.foldl offer empty

def outcomes (g : JobGraph) : List Job → List (Except GraphError Unit)
  | [] => []
  | job :: rest => (g.add job).map (fun _ => ()) :: (g.offer job).outcomes rest

theorem offer_of_ok {added : JobGraph} {job : Job} (isAdded : g.add job = .ok added) :
    g.offer job = added := by
  rw [offer, isAdded]

theorem offer_of_error {e : GraphError} {job : Job} (refused : g.add job = .error e) :
    g.offer job = g := by
  rw [offer, refused]

theorem ofOffers_concat (offered : List Job) (job : Job) :
    ofOffers (offered ++ [job]) = (ofOffers offered).offer job := by
  rw [ofOffers, List.foldl_append]
  rfl

/-- A graph finds a job exactly when it holds it under that name. -/
theorem find?_eq_some_iff {name : String} {job : Job} :
    g.find? name = some job ↔ job ∈ g.jobs ∧ job.name = name := by
  constructor
  · exact mem_of_find?
  · rintro ⟨inGraph, rfl⟩
    exact find?_eq_some_of_nodup g.nodup_names inGraph

theorem find?_eq_none_iff {name : String} : g.find? name = none ↔ name ∉ g.names := by
  constructor
  · exact not_mem_names_of_find?
  · intro missing
    rw [Option.eq_none_iff_forall_ne_some]
    intro job found
    obtain ⟨inGraph, rfl⟩ := find?_eq_some_iff.1 found
    exact missing (name_mem_names inGraph)

theorem mem_names_iff_find? {name : String} :
    name ∈ g.names ↔ ∃ job, g.find? name = some job := by
  rw [← Option.ne_none_iff_exists', Ne, find?_eq_none_iff, not_not]

/-- After an addition the new name stands for the new job, and all other names for what they did. -/
theorem find?_of_add {added : JobGraph} {job : Job} (fresh : job.name ∉ g.names)
    (isAdded : g.add job = .ok added) (name : String) :
    added.find? name = if job.name = name then some job else g.find? name := by
  apply Option.ext
  intro found
  rw [find?_eq_some_iff, (jobs_perm_of_add isAdded).mem_iff, List.mem_cons]
  split
  · next same =>
    subst same
    rw [Option.some_inj]
    constructor
    · rintro ⟨rfl | inGraph, named⟩
      · rfl
      · exact absurd (named ▸ name_mem_names inGraph) fresh
    · rintro rfl
      exact ⟨Or.inl rfl, rfl⟩
  · next other =>
    rw [find?_eq_some_iff]
    constructor
    · rintro ⟨rfl | inGraph, named⟩
      · exact absurd named other
      · exact ⟨inGraph, named⟩
    · rintro ⟨inGraph, named⟩
      exact ⟨Or.inr inGraph, named⟩

/-- An offer is taken under a proper name that stands for no job yet. -/
theorem find?_offer (g : JobGraph) (job : Job) {name : String} (named : name ≠ "") :
    (g.offer job).find? name = (g.find? name).or (if job.name = name then some job else none) := by
  rcases g.add_cases job with ⟨_, fresh, added, isAdded⟩ | ⟨improper, refused⟩
  · rw [offer_of_ok isAdded, find?_of_add fresh isAdded]
    split
    · next same =>
      rw [find?_eq_none_iff.2 (same ▸ fresh)]
      rfl
    · rw [Option.or_none]
  · rw [offer_of_error refused]
    split
    · next same =>
      subst same
      obtain ⟨known, isKnown⟩ := mem_names_iff_find?.1 (improper.resolve_left named)
      rw [isKnown]
      rfl
    · rw [Option.or_none]

/-- The first job that was offered under a name is the one that is found. -/
theorem find?_ofOffers (offered : List Job) {name : String} (named : name ≠ "") :
    (ofOffers offered).find? name = offered.find? (·.name == name) := by
  induction offered using List.reverseRecOn with
  | nil => rfl
  | append_singleton offered job ih =>
    rw [ofOffers_concat, find?_offer _ job named, ih, List.find?_append, List.find?_singleton]
    simp only [beq_iff_eq]

/-- No job stands under the empty name. -/
theorem empty_notMem_names (offered : List Job) : "" ∉ (ofOffers offered).names := by
  induction offered using List.reverseRecOn with
  | nil => exact List.not_mem_nil
  | append_singleton offered job ih =>
    rw [ofOffers_concat]
    rcases (ofOffers offered).add_cases job with ⟨named, fresh, added, isAdded⟩ | ⟨_, refused⟩
    · rw [offer_of_ok isAdded, ← find?_eq_none_iff, find?_of_add fresh isAdded, if_neg named]
      exact find?_eq_none_iff.2 ih
    · rw [offer_of_error refused]
      exact ih

/-- An offer that succeeds makes the graph larger by one job. -/
theorem size_offer (g : JobGraph) (job : Job) :
    (g.offer job).size = g.size + if ((g.add job).map fun _ => ()).isOk then 1 else 0 := by
  cases outcome : g.add job with
  | ok added =>
    rw [offer_of_ok outcome]
    exact (jobs_perm_of_add outcome).length_eq
  | error e =>
    rw [offer_of_error outcome]
    rfl

theorem size_foldl_offer (g : JobGraph) (offered : List Job) :
    (offered.foldl offer g).size = g.size + (g.outcomes offered).countP (·.isOk) := by
  induction offered generalizing g with
  | nil => rfl
  | cons job rest ih =>
    rw [List.foldl_cons, ih, outcomes, List.countP_cons, size_offer]
    omega

/-- After any run of offers, the refused ones included: the names increase, and are the proper names that
were offered; every name that stands for a job is that job's own and not empty; under a proper name stands
the first job that was offered under it; there are as many jobs as offers that succeeded. And the next
offer is refused for an empty name, or for a known one, and for nothing else; refused, it changes nothing. -/
theorem registry_ofOffers (offered : List Job) :
    (ofOffers offered).names.Pairwise (· < ·) ∧
    (∀ name, name ∈ (ofOffers offered).names ↔ ∃ job, (ofOffers offered).find? name = some job) ∧
    (∀ name, name ∈ (ofOffers offered).names ↔ name ≠ "" ∧ name ∈ offered.map (·.name)) ∧
    (∀ name job, (ofOffers offered).find? name = some job → job.name = name ∧ name ≠ "") ∧
    (∀ name, name ≠ "" → (ofOffers offered).find? name = offered.find? (·.name == name)) ∧
    (ofOffers offered).size = (outcomes empty offered).countP (·.isOk) ∧
    (∀ job, ((ofOffers offered).add job = .error .emptyName ↔ job.name = "") ∧
      ((ofOffers offered).add job = .error (.duplicateJob job.name) ↔
        job.name ∈ (ofOffers offered).names) ∧
      ∀ e, (ofOffers offered).add job = .error e →
        (e = .emptyName ∨ e = .duplicateJob job.name) ∧
          (ofOffers offered).offer job = ofOffers offered) := by
  have unnamed := empty_notMem_names offered
  refine ⟨List.pairwise_map.2 (ofOffers offered).increasing, fun _ => mem_names_iff_find?, ?_, ?_,
    fun _ named => find?_ofOffers offered named, ?_, ?_⟩
  · intro name
    by_cases named : name = ""
    · simp [named, unnamed]
    · rw [mem_names_iff_find?, find?_ofOffers offered named, ← Option.isSome_iff_exists,
        List.find?_isSome]
      simp [named]
  · intro name job found
    obtain ⟨inGraph, rfl⟩ := find?_eq_some_iff.1 found
    exact ⟨rfl, fun empty => unnamed (empty ▸ name_mem_names inGraph)⟩
  · rw [ofOffers, size_foldl_offer]
    exact Nat.zero_add _
  · intro job
    refine ⟨?_, ?_, fun e refused => ⟨?_, offer_of_error refused⟩⟩
    · simp [add_eq_error_iff]
    · rw [add_eq_error_iff]
      constructor
      · rintro (⟨_, impossible⟩ | ⟨_, known, _⟩)
        · cases impossible
        · exact contains_eq_true.1 known
      · intro known
        exact Or.inr ⟨fun empty => unnamed (empty ▸ known), contains_eq_true.2 known, rfl⟩
    · rcases add_eq_error_iff.1 refused with ⟨_, isEmpty⟩ | ⟨_, _, isKnown⟩
      · exact Or.inl isEmpty
      · exact Or.inr isKnown

end JobFlow.JobGraph
