import JobFlow.Proofs.JobGraph.Needs

/-!
The depth-first exploration of the needs. The path holds the jobs that are being expanded, and the
done names are closed: each one was added after all its needs. So a need that stands on the path lies
on a cycle, and an exploration that comes to its end has put the jobs into an order in which no
need leads back.
-/

set_option autoImplicit false

namespace JobFlow.JobGraph

variable {g : JobGraph}

/-- Names of which each was added after all its needs that are jobs. The last one added stands
first. -/
def Closed (g : JobGraph) : List String → Prop
  | [] => True
  | name :: rest =>
    name ∉ rest ∧ (∀ need, g.Needs name need → need ∈ g.names → need ∈ rest) ∧ g.Closed rest

/-- A closed list puts the needs of a name behind it. -/
theorem Closed.idxOf_lt {done : List String} (closed : g.Closed done) {name need : String}
    (inDone : name ∈ done) (needed : g.Needs name need) (known : need ∈ g.names) :
    need ∈ done ∧ done.idxOf name < done.idxOf need := by
  induction done with
  | nil => cases inDone
  | cons first rest ih =>
    obtain ⟨fresh, needsDone, closedRest⟩ := closed
    by_cases same : name = first
    · subst same
      have inRest := needsDone need needed known
      have distinct : name ≠ need := fun h => fresh (h ▸ inRest)
      refine ⟨List.mem_cons_of_mem name inRest, ?_⟩
      rw [List.idxOf_cons_self, List.idxOf_cons_ne rest distinct]
      exact Nat.succ_pos _
    · have inRest := (List.mem_cons.1 inDone).resolve_left same
      obtain ⟨needIn, before⟩ := ih closedRest inRest
      have distinct : first ≠ need := fun h => fresh (h ▸ needIn)
      refine ⟨List.mem_cons_of_mem first needIn, ?_⟩
      rw [List.idxOf_cons_ne rest (Ne.symm same), List.idxOf_cons_ne rest distinct]
      exact Nat.succ_lt_succ before

/-- What holds of the arguments of an exploration when it ends in a cycle: the path leads to the
job, and the job has the pending needs. At the start no job is expanded. -/
structure OnTrail (g : JobGraph) (path : List String) (job : String) (pending : List String) :
    Prop where
  leads : ∀ name ∈ path, Relation.ReflTransGen g.Needs name job
  listed : path ≠ [] → ∀ need ∈ pending, g.Needs job need

theorem OnTrail.tail {path pending : List String} {job need : String}
    (trail : g.OnTrail path job (need :: pending)) : g.OnTrail path job pending :=
  ⟨trail.leads, fun onPath other pends => trail.listed onPath other (List.mem_cons_of_mem need pends)⟩

/-- Expanding a pending need puts it at the end of the trail. -/
theorem OnTrail.expand {path pending : List String} {job need : String} {next : Job}
    (trail : g.OnTrail path job (need :: pending)) (found : g.find? need = some next) :
    g.OnTrail (need :: path) need next.needs where
  leads := by
    intro name inPath
    rcases List.mem_cons.1 inPath with rfl | inPath
    · exact Relation.ReflTransGen.refl
    · have step := trail.listed (List.ne_nil_of_mem inPath) need List.mem_cons_self
      exact (trail.leads name inPath).tail step
  listed := fun _ _ => (needs_iff_of_find? found).2

/-- An exploration that fails has found a need that leads back to its job. -/
theorem explore_error {path pending done : List String} {job : String} {edge : String × String}
    (trail : g.OnTrail path job pending) (failed : g.explore path job pending done = .error edge) :
    g.Needs edge.1 edge.2 ∧ Relation.ReflTransGen g.Needs edge.2 edge.1 := by
  induction path, job, pending, done using explore.induct (g := g) with
  | case1 path job done => simp at failed
  | case2 path job need pending done _ onPath =>
    rw [explore_of_mem_path onPath] at failed
    cases failed
    exact ⟨trail.listed (List.ne_nil_of_mem onPath) need List.mem_cons_self, trail.leads need onPath⟩
  | case3 path job need pending done _ offPath isDone ih =>
    rw [explore_of_mem_done offPath isDone] at failed
    exact ih trail.tail failed
  | case4 path job need pending done _ offPath notDone missing ih =>
    rw [explore_of_missing offPath notDone missing] at failed
    exact ih trail.tail failed
  | case5 path job need pending done _ offPath notDone next found _ cycle inner ih =>
    rw [explore_of_found offPath notDone found, inner] at failed
    cases failed
    exact ih (trail.expand found) inner
  | case6 path job need pending done _ offPath notDone next found _ more inner _ ih =>
    rw [explore_of_found offPath notDone found, inner] at failed
    exact ih trail.tail failed

/-- What an exploration that comes to its end has done: `more` are the names done in the end. -/
structure Explored (g : JobGraph) (path pending done more : List String) : Prop where
  closed : g.Closed more
  apart : ∀ name ∈ path, name ∉ more
  kept : ∀ name ∈ done, name ∈ more
  covered : ∀ need ∈ pending, need ∈ g.names → need ∈ more

/-- A need without an expansion is covered when it is done, or when it is no job. -/
theorem Explored.cons {path pending done more : List String} {need : String}
    (explored : g.Explored path pending done more) (settled : need ∈ g.names → need ∈ done) :
    g.Explored path (need :: pending) done more :=
  { explored with
    covered := by
      intro other pends known
      rcases List.mem_cons.1 pends with rfl | pends
      · exact explored.kept other (settled known)
      · exact explored.covered other pends known }

/-- When the needs of a job are explored, the job may be added to the done names. -/
theorem Explored.closed_cons {path done more : List String} {need : String} {next : Job}
    (found : g.find? need = some next)
    (explored : g.Explored (need :: path) next.needs done more) : g.Closed (need :: more) := by
  refine ⟨explored.apart need List.mem_cons_self, ?_, explored.closed⟩
  intro other needed known
  exact explored.covered other ((needs_iff_of_find? found).1 needed) known

/-- An exploration that comes to its end has closed the pending needs. -/
theorem explored_of_ok {path pending done more : List String} {job : String}
    (closed : g.Closed done) (apart : ∀ name ∈ path, name ∉ done)
    (ended : g.explore path job pending done = .ok more) : g.Explored path pending done more := by
  induction path, job, pending, done using explore.induct (g := g) generalizing more with
  | case1 path job done =>
    simp only [explore_nil, Except.ok.injEq] at ended
    subst ended
    exact ⟨closed, apart, fun _ => id, fun _ pends => by cases pends⟩
  | case2 path job need pending done _ onPath =>
    rw [explore_of_mem_path onPath] at ended
    cases ended
  | case3 path job need pending done _ offPath isDone ih =>
    rw [explore_of_mem_done offPath isDone] at ended
    exact (ih closed apart ended).cons fun _ => isDone
  | case4 path job need pending done _ offPath notDone missing ih =>
    rw [explore_of_missing offPath notDone missing] at ended
    exact (ih closed apart ended).cons fun known => absurd known (not_mem_names_of_find? missing)
  | case5 path job need pending done _ offPath notDone next found _ cycle inner _ =>
    rw [explore_of_found offPath notDone found, inner] at ended
    cases ended
  | case6 path job need pending done _ offPath notDone next found _ between inner ihInner ih =>
    rw [explore_of_found offPath notDone found, inner] at ended
    have innerApart : ∀ name ∈ need :: path, name ∉ done := by
      intro name onPath
      rcases List.mem_cons.1 onPath with rfl | onPath
      · exact notDone
      · exact apart name onPath
    have expanded := ihInner closed innerApart inner
    have outerApart : ∀ name ∈ path, name ∉ need :: between := by
      intro name onPath inDone
      rcases List.mem_cons.1 inDone with rfl | inDone
      · exact offPath onPath
      · exact expanded.apart name (List.mem_cons_of_mem need onPath) inDone
    have explored := ih (expanded.closed_cons found) outerApart ended
    have kept : ∀ name ∈ done, name ∈ more := fun name isDone =>
      explored.kept name (List.mem_cons_of_mem need (expanded.kept name isDone))
    refine ⟨explored.closed, explored.apart, kept, ?_⟩
    intro other pends known
    rcases List.mem_cons.1 pends with rfl | pends
    · exact explored.kept other List.mem_cons_self
    · exact explored.covered other pends known

end JobFlow.JobGraph
