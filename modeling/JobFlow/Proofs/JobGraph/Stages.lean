import JobFlow.Proofs.JobGraph.Order

/-!
The stages. Counting every need once, the free jobs of a round are the ready ones, so each stage
holds all jobs that are ready after the stages before. Every job stands in the earliest stage that
its needs allow.
-/

set_option autoImplicit false

namespace JobFlow.JobGraph

variable {g : JobGraph} {walk : NeedsWalk} {index : DependentIndex g} {done : List String}

theorem lists_walk : g.Lists walk.list :=
  fun job _ need => walk.mem_list job need

/-- Meeting one need after the other keeps the countdown in step. -/
theorem Tracks.meetAll {taken met others nodes : List String} {s : Countdown}
    (tracks : g.Tracks walk.list taken met s) (distinct : nodes.Nodup)
    (unmet : ∀ node ∈ nodes, node ∉ met) (same : ∀ need, need ∈ others ↔ need ∈ nodes ∨ need ∈ met) :
    g.Tracks walk.list taken others (s.releaseAll (nodes.flatMap g.dependents)) := by
  induction nodes generalizing s met with
  | nil => exact tracks.congr_met (by simpa using same)
  | cons node rest ih =>
    rw [List.nodup_cons] at distinct
    rw [List.flatMap_cons, Countdown.releaseAll_append]
    have next := tracks.meet lists_walk (unmet node List.mem_cons_self)
      (askedBy_dependents walk node)
    refine ih next distinct.2 ?_ ?_
    · intro other isRest wasMet
      rcases List.mem_cons.1 wasMet with rfl | wasMet
      · exact distinct.1 isRest
      · exact unmet other (List.mem_cons_of_mem node isRest) wasMet
    · intro need
      rw [same, List.mem_cons, List.mem_cons]
      constructor
      · rintro ((h | h) | h) <;> simp [h]
      · rintro (h | h | h) <;> simp [h]

/-- Taking all free jobs keeps the countdown in step. -/
theorem Tracks.takeAll {s : Countdown} (tracks : g.Tracks walk.list done done s) :
    g.Tracks walk.list (s.free ++ done) (s.free ++ done) (g.takeAll index s) := by
  have split : (s.free ++ []).Perm s.free := by rw [List.append_nil]
  have taken : g.Tracks walk.list (s.free ++ done) done { s with free := [] } := tracks.take split
  have unmet : ∀ name ∈ s.free, name ∉ done := by
    intro name isFree
    obtain ⟨_, _, _, notDone, _⟩ := (tracks.mem_free name).1 isFree
    exact notDone
  have met := taken.meetAll tracks.nodup unmet fun _ => List.mem_append
  rw [takeAll_eq]
  exact met.reorder (Sorted.names_perm _)

/-- The loop over the counters takes all ready jobs in every round. -/
theorem stagesFrom_eq_allReady {s : Countdown} (tracks : g.Tracks walk.list done done s)
    (sorted : s.free.Pairwise fun a b => a ≤ b) : g.stagesFrom index s = g.allReady done := by
  have free := tracks.free_eq sorted
  induction done using allReady.induct (g := g) generalizing s with
  | case1 done idle =>
    rw [stagesFrom_of_idle (by simp [free, readyNames, idle]), allReady_of_nil idle]
  | case2 done busy _ ih =>
    have next : g.Tracks walk.list (s.free ++ done) (s.free ++ done) (g.takeAll index s) :=
      tracks.takeAll
    have nextSorted : (g.takeAll index s).free.Pairwise fun a b => a ≤ b := Sorted.pairwise_names _
    rw [free] at next
    rw [stagesFrom_of_busy (by simp [free, readyNames, busy]), allReady_of_ne_nil busy, free,
      ih next nextSorted (next.free_eq nextSorted)]

/-- The stages are the same along every walk. -/
theorem stages_eq_allReady (g : JobGraph) (walk : NeedsWalk) : g.stages walk = g.allReady [] := by
  have increasing : (g.jobs.filter fun job => (walk.list job).isEmpty).Pairwise
      fun a b => a.name < b.name := g.increasing.filter _
  apply stagesFrom_eq_allReady (tracks_countdown lists_walk)
  exact List.pairwise_map.2 (increasing.imp String.lt_asymm)

/-- The position of the first stage that holds a name. -/
def stageOf (stages : List (List String)) (name : String) : Nat :=
  stages.findIdx (·.contains name)

theorem stageOf_cons_of_mem {stage : List String} {rest : List (List String)} {name : String}
    (here : name ∈ stage) : stageOf (stage :: rest) name = 0 := by
  simp [stageOf, List.findIdx_cons, here]

theorem stageOf_cons_of_not_mem {stage : List String} {rest : List (List String)} {name : String}
    (notHere : name ∉ stage) : stageOf (stage :: rest) name = stageOf rest name + 1 := by
  simp [stageOf, List.findIdx_cons, notHere]

/-- Every stage holds some jobs, by name. -/
theorem ordered_of_mem_allReady {stage : List String} (isStage : stage ∈ g.allReady done) :
    stage ≠ [] ∧ stage.Pairwise (· < ·) := by
  induction done using allReady.induct (g := g) with
  | case1 done idle =>
    rw [allReady_of_nil idle] at isStage
    cases isStage
  | case2 done busy _ ih =>
    rw [allReady_of_ne_nil busy] at isStage
    rcases List.mem_cons.1 isStage with rfl | isLater
    · exact ⟨by simpa [readyNames] using busy, pairwise_readyNames⟩
    · exact ih isLater

/-- The stages hold exactly the jobs that are left. -/
theorem flatten_allReady_perm (known : g.Known) (ranked : g.Ranked) :
    (g.allReady done).flatten.Perm (g.outside done) := by
  induction done using allReady.induct (g := g) with
  | case1 done idle =>
    rw [allReady_of_nil idle, outside_eq_nil_of_ready known ranked idle]
    exact List.Perm.refl _
  | case2 done busy _ ih =>
    rw [outside_append] at ih
    rw [allReady_of_ne_nil busy, List.flatten_cons]
    exact (readyNames_perm.append ih).trans (List.filter_append_perm _ _)

theorem stageOf_of_ready {name : String} (isReady : name ∈ g.readyNames done) :
    stageOf (g.allReady done) name = 0 := by
  rw [allReady_of_ne_nil (ready_ne_nil isReady), stageOf_cons_of_mem isReady]

theorem stageOf_of_not_ready {name : String} (notReady : name ∉ g.readyNames done)
    (busy : g.ready done ≠ []) :
    stageOf (g.allReady done) name = stageOf (g.allReady (g.readyNames done ++ done)) name + 1 := by
  rw [allReady_of_ne_nil busy, stageOf_cons_of_not_mem notReady]

/-- A job that is left waits for the stages of all that it needs. -/
theorem stageOf_need_lt (known : g.Known) (ranked : g.Ranked) {job : Job} (isJob : job ∈ g.jobs)
    (left : job.name ∉ done) {need : String} (isNeed : need ∈ job.needs) (needLeft : need ∉ done) :
    stageOf (g.allReady done) need < stageOf (g.allReady done) job.name := by
  induction done using allReady.induct (g := g) with
  | case1 done idle => exact absurd (mem_of_idle known ranked idle isJob) left
  | case2 done busy _ ih =>
    have notReady : job.name ∉ g.readyNames done := fun isReady =>
      needLeft (((mem_readyNames isJob).1 isReady).2 need isNeed)
    rw [stageOf_of_not_ready notReady busy]
    by_cases now : need ∈ g.readyNames done
    · rw [stageOf_of_ready now]
      exact Nat.succ_pos _
    · rw [stageOf_of_not_ready now busy]
      have later := ih (by simp [notReady, left]) (by simp [now, needLeft])
      omega

/-- A job that is left and not ready stands in the stage right after one of its needs. -/
theorem exists_need_of_not_ready (known : g.Known) (ranked : g.Ranked) {job : Job}
    (isJob : job ∈ g.jobs) (left : job.name ∉ done) (notReady : job.name ∉ g.readyNames done) :
    ∃ need ∈ job.needs, need ∉ done ∧
      stageOf (g.allReady done) job.name = stageOf (g.allReady done) need + 1 := by
  induction done using allReady.induct (g := g) with
  | case1 done idle => exact absurd (mem_of_idle known ranked idle isJob) left
  | case2 done busy _ ih =>
    rw [stageOf_of_not_ready notReady busy]
    by_cases next : job.name ∈ g.readyNames (g.readyNames done ++ done)
    · -- The next stage holds the job, so this one holds the last of its needs.
      obtain ⟨need, isNeed, needLeft⟩ : ∃ need ∈ job.needs, need ∉ done := by
        by_contra none
        exact notReady ((mem_readyNames isJob).2 ⟨left, by simpa using none⟩)
      have needsMet := ((mem_readyNames isJob).1 next).2 need isNeed
      have now := (List.mem_append.1 needsMet).resolve_right needLeft
      exact ⟨need, isNeed, needLeft, by rw [stageOf_of_ready next, stageOf_of_ready now]⟩
    · obtain ⟨need, isNeed, needLeft, after⟩ := ih (by simp [notReady, left]) next
      rw [List.mem_append, not_or] at needLeft
      exact ⟨need, isNeed, needLeft.2, by rw [after, stageOf_of_not_ready needLeft.1 busy]⟩

/-- Stages by name, without empty ones, and in them every job once. -/
structure IsStaging (g : JobGraph) (stages : List (List String)) : Prop where
  ordered : ∀ stage ∈ stages, stage ≠ [] ∧ stage.Pairwise (· < ·)
  perm : stages.flatten.Perm g.names

/-- A job that needs nothing stands in the first stage, and every other one right after the last
stage of its needs. -/
structure Earliest (g : JobGraph) (stages : List (List String)) : Prop where
  first : ∀ job ∈ g.jobs, job.needs = [] → stageOf stages job.name = 0
  after : ∀ job ∈ g.jobs, ∀ need ∈ job.needs, stageOf stages need < stageOf stages job.name
  tight : ∀ job ∈ g.jobs, job.needs ≠ [] →
    ∃ need ∈ job.needs, stageOf stages job.name = stageOf stages need + 1

/-- No numbers that grow from every need to its job are lower. -/
theorem Earliest.le {stages : List (List String)} (earliest : g.Earliest stages) (known : g.Known)
    {f : String → Nat} (grows : ∀ job ∈ g.jobs, ∀ need ∈ job.needs, f need < f job.name)
    {job : Job} (isJob : job ∈ g.jobs) : stageOf stages job.name ≤ f job.name := by
  induction height : f job.name using Nat.strongRecOn generalizing job with
  | _ height ih =>
    by_cases nothing : job.needs = []
    · rw [earliest.first job isJob nothing]
      exact Nat.zero_le _
    · obtain ⟨need, isNeed, after⟩ := earliest.tight job isJob nothing
      have lower := grows job isJob need isNeed
      obtain ⟨other, isOther, rfl⟩ := mem_names.1 (known job isJob need isNeed)
      have bound := ih (f other.name) (by omega) isOther rfl
      omega

theorem isStaging_stages (known : g.Known) (ranked : g.Ranked) : g.IsStaging g.stages := by
  rw [stages_eq_allReady]
  refine ⟨fun _ => ordered_of_mem_allReady, ?_⟩
  have perm : (g.allReady []).flatten.Perm (g.outside []) := flatten_allReady_perm known ranked
  simpa [outside] using perm

theorem earliest_stages (known : g.Known) (ranked : g.Ranked) : g.Earliest g.stages := by
  rw [stages_eq_allReady]
  constructor
  · intro job isJob nothing
    refine stageOf_of_ready ((mem_readyNames isJob).2 ⟨List.not_mem_nil, ?_⟩)
    simp [nothing]
  · intro job isJob need isNeed
    exact stageOf_need_lt known ranked isJob List.not_mem_nil isNeed List.not_mem_nil
  · intro job isJob some
    have notReady : job.name ∉ g.readyNames [] := by
      intro isReady
      have noNeeds := ((mem_readyNames isJob).1 isReady).2
      exact some (List.eq_nil_iff_forall_not_mem.2 fun need isNeed =>
        List.not_mem_nil (noNeeds need isNeed))
    obtain ⟨need, isNeed, _, after⟩ :=
      exists_need_of_not_ready known ranked isJob List.not_mem_nil notReady
    exact ⟨need, isNeed, after⟩

/-- A valid graph has stages with every job in the earliest one that its needs allow, whatever the order
in which needs are gone through: no numbering that grows from every need to its job puts any job
earlier. -/
theorem stages?_earliest (g : JobGraph) (walk : NeedsWalk) (valid : g.validate = .ok ()) :
    ∃ stages, g.stages? walk = .ok stages ∧ g.IsStaging stages ∧ g.Earliest stages ∧
      ∀ f : String → Nat, (∀ job ∈ g.jobs, ∀ need ∈ job.needs, f need < f job.name) →
        ∀ job ∈ g.jobs, stageOf stages job.name ≤ f job.name := by
  obtain ⟨known, ranked⟩ := ranked_of_validate valid
  have earliest := earliest_stages known ranked
  have anyWalk : g.stages? walk = .ok g.stages := by
    rw [stages?_of_valid valid, g.stages_eq_allReady, g.stages_eq_allReady]
  refine ⟨g.stages, anyWalk, isStaging_stages known ranked, earliest, ?_⟩
  intro f grows job isJob
  exact earliest.le known grows isJob

theorem stages?_releaseGraph :
    releaseGraph.validate = .ok () ∧
      ∃ stages, releaseGraph.stages? = .ok stages ∧ releaseGraph.IsStaging stages ∧
        releaseGraph.Earliest stages ∧
        ∀ f : String → Nat,
          (∀ job ∈ releaseGraph.jobs, ∀ need ∈ job.needs, f need < f job.name) →
            ∀ job ∈ releaseGraph.jobs, stageOf stages job.name ≤ f job.name :=
  ⟨by decide +kernel, stages?_earliest releaseGraph .byName (by decide +kernel)⟩

example : releaseGraph.stages = [["build"], ["lint", "test"], ["release"]] := by decide +kernel

end JobFlow.JobGraph
