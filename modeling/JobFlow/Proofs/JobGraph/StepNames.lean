import JobFlow.JobGraph.StepNames

/-!
What the check of step names accepts: graphs in which no job has two steps with the same name. Steps
without a name may come as often as they like.
-/

set_option autoImplicit false

namespace JobFlow

def NoRepeats (names : List String) : Prop :=
  names.Pairwise fun a b => a = b → a = ""

theorem noRepeats_cons {name : String} {rest : List String} :
    NoRepeats (name :: rest) ↔ (name ≠ "" → name ∉ rest) ∧ NoRepeats rest := by
  unfold NoRepeats
  rw [List.pairwise_cons]
  apply and_congr_left'
  constructor
  · intro apart named isLater
    exact named (apart name isLater rfl)
  · intro fresh other isLater same
    apply Classical.byContradiction
    intro named
    exact fresh named (same ▸ isLater)

/-- The scan finds nothing when no name repeats another or one that was seen before. -/
theorem repeatedName?_eq_none {seen : List (String × Nat)} {index : Nat} {names : List String} :
    repeatedName? seen index names = none ↔
      NoRepeats names ∧ ∀ name ∈ names, name ≠ "" → seen.lookup name = none := by
  induction names generalizing seen index with
  | nil => simp [repeatedName?, NoRepeats]
  | cons name rest ih =>
    rw [repeatedName?, noRepeats_cons, List.forall_mem_cons]
    by_cases unnamed : name = ""
    · rw [if_pos unnamed, ih]
      simp [unnamed]
    · rw [if_neg unnamed]
      cases seenBefore : seen.lookup name with
      | some first => simp [unnamed]
      | none =>
        have lookup : ∀ other, (seen ++ [(name, index)]).lookup other = none ↔
            seen.lookup other = none ∧ other ≠ name := by
          intro other
          rw [List.lookup_append, Option.or_eq_none_iff, List.lookup_cons]
          by_cases same : other = name
          · simp [same]
          · simp [same, beq_eq_false_iff_ne.2 same]
        simp only [ih, lookup]
        constructor
        · rintro ⟨apart, fresh⟩
          refine ⟨⟨fun _ isLater => (fresh name isLater unnamed).2 rfl, apart⟩, fun _ => trivial, ?_⟩
          exact fun other isLater named => (fresh other isLater named).1
        · rintro ⟨⟨once, apart⟩, _, fresh⟩
          refine ⟨apart, fun other isLater named => ⟨fresh other isLater named, ?_⟩⟩
          rintro rfl
          exact once named isLater

def Job.DistinctSteps (job : Job) : Prop :=
  NoRepeats (job.steps.map Step.nameOf)

theorem Job.duplicateStep?_eq_none {job : Job} :
    job.duplicateStep? = none ↔ job.DistinctSteps := by
  rw [duplicateStep?, Option.map_eq_none_iff, repeatedName?_eq_none, DistinctSteps]
  exact and_iff_left fun _ _ _ => rfl

namespace JobGraph

variable {g : JobGraph}

/-- The check of step names passes exactly when no job has two steps with the same name. -/
theorem checkSteps_eq_ok : g.checkSteps = .ok () ↔ ∀ job ∈ g.jobs, job.DistinctSteps := by
  have none_iff : g.duplicateStep? = none ↔ ∀ job ∈ g.jobs, job.DistinctSteps := by
    rw [duplicateStep?, List.findSome?_eq_none_iff]
    simp only [Job.duplicateStep?_eq_none]
  rw [← none_iff, checkSteps]
  cases g.duplicateStep? with
  | none => simp
  | some duplicate => simp

end JobGraph

end JobFlow
