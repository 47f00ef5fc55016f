import JobFlow.Proofs.JobGraph.Exploration

/-!
What validation says of a graph. It refuses exactly the graphs with a need that is no job, naming the
first one, and the graphs whose needs have a cycle, naming an edge of it; every other graph is valid.
A valid graph has a rank that falls along its needs.
-/

set_option autoImplicit false

namespace JobFlow.JobGraph

variable {g : JobGraph}

/-- The first job, by name, with a need that is no job, and the first such need. -/
def FirstUnknown (g : JobGraph) (name need : String) : Prop :=
  ∃ before job after, g.jobs = before ++ job :: after ∧ job.name = name ∧
    (∀ prior ∈ before, ∀ other ∈ prior.needs, other ∈ g.names) ∧
    ∃ earlier later, job.needs = earlier ++ need :: later ∧
      (∀ other ∈ earlier, other ∈ g.names) ∧ need ∉ g.names

/-- A rank that falls from every job to its needs. -/
def Ranked (g : JobGraph) : Prop :=
  ∃ rank : String → Nat, ∀ name need, g.Needs name need → rank need < rank name

theorem Ranked.not_cyclic (ranked : g.Ranked) : ¬ g.Cyclic := by
  obtain ⟨rank, falls⟩ := ranked
  have along : ∀ a b, Relation.TransGen g.Needs a b → rank b < rank a := by
    intro a b path
    induction path with
    | single step => exact falls a _ step
    | tail _ step ih => exact Nat.lt_trans (falls _ _ step) ih
  rintro ⟨name, path⟩
  exact Nat.lt_irrefl _ (along name name path)

private theorem unknownNeeds_eq_none {job : Job} {name : String} :
    ((job.needs.find? fun need => !g.contains need).map fun need => (name, need)) = none ↔
      ∀ need ∈ job.needs, need ∈ g.names := by
  simp

theorem unknownNeed?_eq_some {name need : String} :
    g.unknownNeed? = some (name, need) ↔ g.FirstUnknown name need := by
  unfold unknownNeed? FirstUnknown
  rw [List.findSome?_eq_some_iff]
  simp only [unknownNeeds_eq_none]
  constructor
  · rintro ⟨before, job, after, split, found, prior⟩
    obtain ⟨first, isFirst, same⟩ := Option.map_eq_some_iff.1 found
    obtain ⟨rfl, rfl⟩ := Prod.mk.inj same
    obtain ⟨unknown, earlier, later, needs, listed⟩ := List.find?_eq_some_iff_append.1 isFirst
    refine ⟨before, job, after, split, rfl, prior, earlier, later, needs, ?_, ?_⟩
    · intro other isEarlier
      simpa using listed other isEarlier
    · simpa using unknown
  · rintro ⟨before, job, after, split, rfl, prior, earlier, later, needs, listed, unknown⟩
    refine ⟨before, job, after, split, ?_, prior⟩
    have found : (job.needs.find? fun need => !g.contains need) = some need := by
      refine List.find?_eq_some_iff_append.2 ⟨by simpa using unknown, earlier, later, needs, ?_⟩
      intro other isEarlier
      simpa using listed other isEarlier
    rw [found]
    rfl

theorem unknownNeed?_eq_none : g.unknownNeed? = none ↔ g.Known := by
  unfold unknownNeed? Known
  rw [List.findSome?_eq_none_iff]
  simp only [unknownNeeds_eq_none]

/-- The edge that ends the search for a cycle lies on one. -/
theorem onCycle_of_cycle? {edge : String × String} (found : g.cycle? = some edge) :
    g.Needs edge.1 edge.2 ∧ Relation.ReflTransGen g.Needs edge.2 edge.1 := by
  unfold cycle? at found
  split at found
  · next failed =>
    cases found
    have trail : g.OnTrail [] "" g.names := ⟨by simp, fun nonempty => absurd rfl nonempty⟩
    exact explore_error trail failed
  · cases found

theorem cyclic_of_onCycle {name need : String} (needed : g.Needs name need)
    (back : Relation.ReflTransGen g.Needs need name) : g.Cyclic :=
  ⟨name, Relation.TransGen.head' needed back⟩

/-- When no cycle is found, every job stands in front of its needs in the list of done names. -/
theorem ranked_of_cycle? (known : g.Known) (none : g.cycle? = none) : g.Ranked := by
  unfold cycle? at none
  split at none
  · cases none
  · next done ended =>
    have explored : g.Explored [] g.names [] done :=
      explored_of_ok trivial (fun _ onPath => by cases onPath) ended
    refine ⟨fun name => done.length - done.idxOf name, ?_⟩
    intro name need needed
    have needKnown := known.mem_names needed
    have nameKnown := mem_names_of_needs needed
    have inDone := explored.covered name nameKnown nameKnown
    obtain ⟨needIn, before⟩ := explored.closed.idxOf_lt inDone needed needKnown
    have bound := List.idxOf_lt_length_of_mem needIn
    show done.length - done.idxOf need < done.length - done.idxOf name
    omega

/-- A valid graph, an unknown need or a cycle: validation ends in one of these. -/
theorem validate_cases (g : JobGraph) :
    (∃ name need, g.FirstUnknown name need ∧
      g.validate = .error (.unknownDependency name need)) ∨
    (∃ name need, g.Known ∧ g.Needs name need ∧ Relation.ReflTransGen g.Needs need name ∧
      g.validate = .error (.cycle name need)) ∨
    (g.Known ∧ g.Ranked ∧ g.validate = .ok ()) := by
  unfold validate
  cases unknown : g.unknownNeed? with
  | some edge => exact Or.inl ⟨edge.1, edge.2, unknownNeed?_eq_some.1 unknown, rfl⟩
  | none =>
    have known := unknownNeed?_eq_none.1 unknown
    cases cycle : g.cycle? with
    | some edge =>
      obtain ⟨needed, back⟩ := onCycle_of_cycle? cycle
      exact Or.inr (Or.inl ⟨edge.1, edge.2, known, needed, back, rfl⟩)
    | none => exact Or.inr (Or.inr ⟨known, ranked_of_cycle? known cycle, rfl⟩)

theorem FirstUnknown.not_known {name need : String} (first : g.FirstUnknown name need) :
    ¬ g.Known := by
  obtain ⟨before, job, after, split, _, _, earlier, later, needs, _, unknown⟩ := first
  intro known
  exact unknown (known job (by simp [split]) need (by simp [needs]))

/-- The needs of a valid graph are known and have a rank. -/
theorem ranked_of_validate (valid : g.validate = .ok ()) : g.Known ∧ g.Ranked := by
  rcases g.validate_cases with ⟨_, _, _, refused⟩ | ⟨_, _, _, _, _, refused⟩ | ⟨known, ranked, _⟩
  · cases refused.symm.trans valid
  · cases refused.symm.trans valid
  · exact ⟨known, ranked⟩

/-- Validation refuses a graph with an unknown need, whatever its cycles are, and names the first
one. Otherwise it refuses a graph with a cycle and names an edge that lies on it. It accepts all
other graphs. -/
theorem validate_outcome (g : JobGraph) :
    ((∃ job need, g.validate = .error (.unknownDependency job need)) ↔
      ∃ job ∈ g.jobs, ∃ need ∈ job.needs, need ∉ g.names) ∧
    (∀ job need, g.validate = .error (.unknownDependency job need) → g.FirstUnknown job need) ∧
    ((∃ job need, g.validate = .error (.cycle job need)) ↔ g.Known ∧ g.Cyclic) ∧
    (∀ job need, g.validate = .error (.cycle job need) →
      g.Needs job need ∧ Relation.ReflTransGen g.Needs need job) ∧
    (g.validate = .ok () ↔ g.Known ∧ ¬ g.Cyclic) := by
  have unknown_iff : (∃ job ∈ g.jobs, ∃ need ∈ job.needs, need ∉ g.names) ↔ ¬ g.Known := by
    simp [Known]
  rw [unknown_iff]
  rcases g.validate_cases with
    ⟨name, need, first, refused⟩ | ⟨name, need, known, needed, back, refused⟩ |
      ⟨known, ranked, valid⟩
  · have unknown := first.not_known
    rw [refused]
    refine ⟨by simp [unknown], ?_, by simp [unknown], by simp, by simp [unknown]⟩
    intro job other same
    cases same
    exact first
  · have cyclic := cyclic_of_onCycle needed back
    rw [refused]
    refine ⟨by simp [known], by simp, by simp [known, cyclic], ?_, by simp [known, cyclic]⟩
    intro job other same
    cases same
    exact ⟨needed, back⟩
  · have acyclic := ranked.not_cyclic
    rw [valid]
    exact ⟨by simp [known], by simp, by simp [known, acyclic], by simp, by simp [known, acyclic]⟩

end JobFlow.JobGraph
