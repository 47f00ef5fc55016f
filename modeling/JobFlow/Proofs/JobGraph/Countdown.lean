import JobFlow.JobGraph.Order
import JobFlow.Proofs.JobGraph.Ready

/-!
The counters of open needs. A countdown tracks the jobs when every count is the number of listed
needs that are not met, and the free jobs are those whose needs are all met. Meeting one more need
keeps that, and so both loops over a countdown take exactly the ready jobs.
-/

set_option autoImplicit false

namespace JobFlow

namespace Countdown

variable {s : Countdown}

theorem releaseAll_cons (job : String) (rest : List String) :
    s.releaseAll (job :: rest) = (s.release job).releaseAll rest :=
  rfl

theorem releaseAll_append (first second : List String) :
    s.releaseAll (first ++ second) = (s.releaseAll first).releaseAll second :=
  List.foldl_append

theorem count_releaseAll (jobs : List String) (name : String) :
    (s.releaseAll jobs).count name = s.count name - jobs.count name := by
  induction jobs generalizing s with
  | nil => simp [releaseAll]
  | cons job rest ih =>
    rw [releaseAll_cons, ih, count_release]
    by_cases same : name = job
    · subst same
      rw [if_pos rfl, List.count_cons_self]
      omega
    · rw [if_neg same, List.count_cons_of_ne (Ne.symm same)]

/-- A release frees the jobs whose counts it brings to zero. -/
theorem mem_free_releaseAll (jobs : List String) (name : String) :
    name ∈ (s.releaseAll jobs).free ↔
      name ∈ s.free ∨ (1 ≤ s.count name ∧ s.count name ≤ jobs.count name) := by
  induction jobs generalizing s with
  | nil =>
    have never : ¬ (1 ≤ s.count name ∧ s.count name ≤ ((([] : List String).count name : Nat) : Int)) := by
      rw [List.count_nil]
      omega
    exact (or_iff_left never).symm
  | cons job rest ih =>
    rw [releaseAll_cons, ih, free_release, count_release]
    by_cases same : name = job
    · subst same
      rw [if_pos rfl, List.count_cons_self]
      by_cases last : s.count name = 1
      · have now : 1 ≤ s.count name ∧ s.count name ≤ ((rest.count name + 1 : Nat) : Int) := by omega
        rw [if_pos last]
        exact iff_of_true (Or.inl (by simp)) (Or.inr now)
      · have later : (1 ≤ s.count name - 1 ∧ s.count name - 1 ≤ (rest.count name : Int)) ↔
            1 ≤ s.count name ∧ s.count name ≤ ((rest.count name + 1 : Nat) : Int) := by omega
        rw [if_neg last, later]
    · rw [if_neg same, List.count_cons_of_ne (Ne.symm same)]
      by_cases last : s.count job = 1
      · simp [last, same]
      · rw [if_neg last]

/-- No job is freed twice, as the counts of free jobs are used up. -/
theorem nodup_free_releaseAll {jobs : List String} (distinct : s.free.Nodup)
    (usedUp : ∀ name ∈ s.free, s.count name ≤ 0) : (s.releaseAll jobs).free.Nodup := by
  induction jobs generalizing s with
  | nil => exact distinct
  | cons job rest ih =>
    rw [releaseAll_cons]
    by_cases last : s.count job = 1
    · have fresh : job ∉ s.free := by
        intro isFree
        have := usedUp job isFree
        omega
      have freed : (s.release job).free = s.free ++ [job] := by rw [free_release, if_pos last]
      refine ih ?_ ?_
      · rw [freed, List.nodup_append]
        refine ⟨distinct, by simp, ?_⟩
        intro a isFree b isLast same
        rw [List.mem_singleton.1 isLast] at same
        exact fresh (same ▸ isFree)
      · intro name isFree
        rw [freed, List.mem_append, List.mem_singleton] at isFree
        rw [count_release]
        rcases isFree with isFree | rfl
        · have := usedUp name isFree
          split <;> omega
        · rw [if_pos rfl]
          omega
    · have same : (s.release job).free = s.free := by rw [free_release, if_neg last]
      apply ih (same ▸ distinct)
      intro name isFree
      rw [same] at isFree
      have := usedUp name isFree
      rw [count_release]
      split
      · next here =>
        subst here
        omega
      · exact this

end Countdown

namespace JobGraph

variable {g : JobGraph} {listed : Job → List String}

/-- The counted needs of a job are its needs, but may be listed more or less often. -/
def Lists (g : JobGraph) (listed : Job → List String) : Prop :=
  ∀ job ∈ g.jobs, ∀ need, need ∈ listed job ↔ need ∈ job.needs

/-- What a countdown knows after the jobs in `taken` were taken and those in `met` were counted as
met. The needs of taken jobs are met already. -/
structure Tracks (g : JobGraph) (listed : Job → List String) (taken met : List String)
    (s : Countdown) : Prop where
  count : ∀ job ∈ g.jobs, s.count job.name = ((listed job).countP fun need => need ∉ met : Nat)
  nodup : s.free.Nodup
  mem_free : ∀ name, name ∈ s.free ↔
    ∃ job ∈ g.jobs, job.name = name ∧ name ∉ taken ∧ ∀ need ∈ job.needs, need ∈ met
  settled : ∀ job ∈ g.jobs, job.name ∈ taken → ∀ need ∈ job.needs, need ∈ met

/-- Only the members of the list of met needs matter. -/
theorem Tracks.congr_met {taken met others : List String} {s : Countdown}
    (tracks : g.Tracks listed taken met s) (same : ∀ need, need ∈ others ↔ need ∈ met) :
    g.Tracks listed taken others s := by
  obtain ⟨count, nodup, mem_free, settled⟩ := tracks
  refine ⟨?_, nodup, ?_, ?_⟩ <;> simpa only [same]

/-- The free jobs may be put into another order. -/
theorem Tracks.reorder {taken met free : List String} {s : Countdown}
    (tracks : g.Tracks listed taken met s) (perm : free.Perm s.free) :
    g.Tracks listed taken met { s with free := free } where
  count := tracks.count
  nodup := perm.nodup_iff.2 tracks.nodup
  mem_free := fun name => perm.mem_iff.trans (tracks.mem_free name)
  settled := tracks.settled

theorem countP_not_mem_cons (needs met : List String) {need : String} (unmet : need ∉ met) :
    (needs.countP fun other => other ∉ need :: met) + needs.count need =
      needs.countP fun other => other ∉ met := by
  induction needs with
  | nil => rfl
  | cons other rest ih =>
    rw [List.countP_cons, List.countP_cons, List.count_cons]
    simp only [List.mem_cons] at ih
    by_cases same : other = need
    · subst same
      simp only [List.mem_cons, true_or, not_true_eq_false, decide_false, Bool.false_eq_true, if_false,
        beq_self_eq_true, if_true, unmet, not_false_eq_true, decide_true]
      omega
    · simp only [List.mem_cons, same, false_or, beq_iff_eq, if_false]
      omega

/-- A need is asked for by the jobs that list it, each as often as it lists it. -/
def AskedBy (g : JobGraph) (listed : Job → List String) (need : String) (asked : List String) :
    Prop :=
  (∀ name ∈ asked, name ∈ g.names) ∧
    ∀ job ∈ g.jobs, asked.count job.name = (listed job).count need

theorem Lists.countP_eq_zero (lists : g.Lists listed) {job : Job} (inGraph : job ∈ g.jobs)
    (met : List String) :
    ((listed job).countP fun need => need ∉ met) = 0 ↔ ∀ need ∈ job.needs, need ∈ met := by
  rw [List.countP_eq_zero]
  constructor
  · intro none need isNeed
    simpa using none need ((lists job inGraph need).2 isNeed)
  · intro all need isListed
    simpa using all need ((lists job inGraph need).1 isListed)

/-- When a need is met, its part is taken off the count of every job. -/
theorem Tracks.count_eq {taken met asked : List String} {s : Countdown} {need : String}
    (tracks : g.Tracks listed taken met s) (unmet : need ∉ met)
    (askedBy : g.AskedBy listed need asked) {job : Job} (inGraph : job ∈ g.jobs) :
    s.count job.name =
      (((listed job).countP fun other => other ∉ need :: met) + asked.count job.name : Nat) := by
  rw [tracks.count job inGraph, askedBy.2 job inGraph, countP_not_mem_cons _ _ unmet]

/-- When a need is met, the jobs that it frees are those that list it as their last open need. -/
theorem Tracks.mem_free_meet {taken met asked : List String} {s : Countdown} {need : String}
    (lists : g.Lists listed) (tracks : g.Tracks listed taken met s) (unmet : need ∉ met)
    (askedBy : g.AskedBy listed need asked) (name : String) :
    name ∈ (s.releaseAll asked).free ↔ ∃ job ∈ g.jobs, job.name = name ∧ name ∉ taken ∧
      ∀ other ∈ job.needs, other ∈ need :: met := by
  rw [Countdown.mem_free_releaseAll, tracks.mem_free]
  constructor
  · rintro (⟨job, inGraph, same, untaken, needsMet⟩ | ⟨isOpen, enough⟩)
    · exact ⟨job, inGraph, same, untaken, fun other isNeed =>
        List.mem_cons_of_mem need (needsMet other isNeed)⟩
    · have isAsked : name ∈ asked := List.count_pos_iff.1 (by omega)
      obtain ⟨job, inGraph, rfl⟩ := mem_names.1 (askedBy.1 name isAsked)
      have counted := tracks.count_eq unmet askedBy inGraph
      refine ⟨job, inGraph, rfl, ?_, (lists.countP_eq_zero inGraph _).1 (by omega)⟩
      -- A job that was taken has met its needs before, and this one was open.
      intro wasTaken
      have asks : 0 < (listed job).count need := by
        rw [← askedBy.2 job inGraph]
        omega
      have isNeed := (lists job inGraph need).1 (List.count_pos_iff.1 asks)
      exact unmet (tracks.settled job inGraph wasTaken need isNeed)
  · rintro ⟨job, inGraph, rfl, untaken, needsMet⟩
    have none := (lists.countP_eq_zero inGraph _).2 needsMet
    have counted := tracks.count_eq unmet askedBy inGraph
    by_cases asks : need ∈ listed job
    · have positive := List.count_pos_iff.2 asks
      have same := askedBy.2 job inGraph
      exact Or.inr ⟨by omega, by omega⟩
    · refine Or.inl ⟨job, inGraph, rfl, untaken, ?_⟩
      intro other isNeed
      apply (List.mem_cons.1 (needsMet other isNeed)).resolve_left
      rintro rfl
      exact asks ((lists job inGraph other).2 isNeed)

/-- Meeting one more need keeps the countdown in step. -/
theorem Tracks.meet {taken met asked : List String} {s : Countdown} {need : String}
    (lists : g.Lists listed) (tracks : g.Tracks listed taken met s) (unmet : need ∉ met)
    (askedBy : g.AskedBy listed need asked) :
    g.Tracks listed taken (need :: met) (s.releaseAll asked) where
  count := by
    intro job inGraph
    have counted := tracks.count_eq unmet askedBy inGraph
    rw [Countdown.count_releaseAll]
    omega
  nodup := by
    apply Countdown.nodup_free_releaseAll tracks.nodup
    intro name isFree
    obtain ⟨job, inGraph, rfl, _, needsMet⟩ := (tracks.mem_free name).1 isFree
    rw [tracks.count job inGraph, (lists.countP_eq_zero inGraph met).2 needsMet]
    exact Int.le_refl 0
  mem_free := tracks.mem_free_meet lists unmet askedBy
  settled := by
    intro job inGraph wasTaken other isNeed
    exact List.mem_cons_of_mem need (tracks.settled job inGraph wasTaken other isNeed)

/-- Free jobs may be taken: their needs are met. -/
theorem Tracks.take {taken met stage rest : List String} {s : Countdown}
    (tracks : g.Tracks listed taken met s) (split : (stage ++ rest).Perm s.free) :
    g.Tracks listed (stage ++ taken) met { s with free := rest } where
  count := tracks.count
  nodup := (List.nodup_append.1 (split.nodup_iff.2 tracks.nodup)).2.1
  mem_free := by
    intro name
    have apart := (List.nodup_append.1 (split.nodup_iff.2 tracks.nodup)).2.2
    have free_iff : name ∈ stage ∨ name ∈ rest ↔ name ∈ s.free := by
      rw [← split.mem_iff, List.mem_append]
    rw [tracks.mem_free] at free_iff
    constructor
    · intro isRest
      obtain ⟨job, inGraph, same, untaken, needsMet⟩ := free_iff.1 (Or.inr isRest)
      refine ⟨job, inGraph, same, ?_, needsMet⟩
      rw [List.mem_append]
      rintro (inStage | wasTaken)
      · exact apart name inStage name isRest rfl
      · exact untaken wasTaken
    · rintro ⟨job, inGraph, same, untaken, needsMet⟩
      rw [List.mem_append, not_or] at untaken
      exact (free_iff.2 ⟨job, inGraph, same, untaken.2, needsMet⟩).resolve_left untaken.1
  settled := by
    intro job inGraph wasTaken
    rcases List.mem_append.1 wasTaken with inStage | wasTaken
    · have isFree := split.mem_iff.1 (List.mem_append_left rest inStage)
      obtain ⟨other, otherIn, same, _, needsMet⟩ := (tracks.mem_free job.name).1 isFree
      exact eq_of_name_eq otherIn inGraph same ▸ needsMet
    · exact tracks.settled job inGraph wasTaken

/-- In step with one list of done names, the free jobs are the ready ones. -/
theorem Tracks.mem_free_iff_ready {done : List String} {s : Countdown}
    (tracks : g.Tracks listed done done s) (name : String) :
    name ∈ s.free ↔ name ∈ g.readyNames done := by
  rw [tracks.mem_free, readyNames, List.mem_map]
  constructor
  · rintro ⟨job, inGraph, rfl, notDone, needsDone⟩
    exact ⟨job, mem_ready.2 ⟨inGraph, notDone, needsDone⟩, rfl⟩
  · rintro ⟨job, isReady, rfl⟩
    obtain ⟨inGraph, notDone, needsDone⟩ := mem_ready.1 isReady
    exact ⟨job, inGraph, rfl, notDone, needsDone⟩

theorem Tracks.free_eq {done : List String} {s : Countdown}
    (tracks : g.Tracks listed done done s) (sorted : s.free.Pairwise fun a b => a ≤ b) :
    s.free = g.readyNames done := by
  have perm : s.free.Perm (g.readyNames done) :=
    (List.perm_ext_iff_of_nodup tracks.nodup nodup_readyNames).2 tracks.mem_free_iff_ready
  apply perm.eq_of_pairwise (fun a b _ _ => String.le_antisymm) sorted
  exact pairwise_readyNames.imp String.lt_asymm

theorem Tracks.names_free {done : List String} {s : Countdown}
    (tracks : g.Tracks listed done done s) :
    Sorted.names s.free = g.readyNames done :=
  (tracks.reorder (Sorted.names_perm s.free)).free_eq (Sorted.pairwise_names s.free)

/-- At the start no need is met, and the jobs without needs are free. -/
theorem tracks_countdown (lists : g.Lists listed) :
    g.Tracks listed [] [] (g.countdown listed) where
  count := by
    intro job inGraph
    have entry : (g.countdown listed).counts.find? job.name = some ((listed job).length : Int) :=
      Mapping.find?_of_mem (List.mem_map_of_mem inGraph)
    unfold Countdown.count
    rw [entry]
    simp
  nodup := nodup_filter_names _
  mem_free := by
    intro name
    have free_iff : name ∈ (g.countdown listed).free ↔
        ∃ job ∈ g.jobs, listed job = [] ∧ job.name = name := by
      simp [countdown, and_assoc]
    rw [free_iff]
    constructor
    · rintro ⟨job, inGraph, nothing, rfl⟩
      refine ⟨job, inGraph, rfl, by simp, ?_⟩
      intro need isNeed
      simpa [nothing] using (lists job inGraph need).2 isNeed
    · rintro ⟨job, inGraph, rfl, _, noNeeds⟩
      refine ⟨job, inGraph, List.eq_nil_iff_forall_not_mem.2 ?_, rfl⟩
      intro need isListed
      simpa using noNeeds need ((lists job inGraph need).1 isListed)
  settled := fun _ _ wasTaken => by cases wasTaken

theorem count_flatMap_name {jobs : List Job} (distinct : (jobs.map (·.name)).Nodup)
    {f : Job → List String} (own : ∀ job, ∀ name ∈ f job, name = job.name) {job : Job}
    (isJob : job ∈ jobs) : (jobs.flatMap f).count job.name = (f job).count job.name := by
  have absent : ∀ other : Job, other.name ≠ job.name → (f other).count job.name = 0 := by
    intro other different
    exact List.count_eq_zero.2 fun h => different (own other _ h).symm
  induction jobs with
  | nil => cases isJob
  | cons first rest ih =>
    rw [List.map_cons, List.nodup_cons] at distinct
    rw [List.flatMap_cons, List.count_append]
    rcases List.mem_cons.1 isJob with rfl | inRest
    · have none : (rest.flatMap f).count job.name = 0 := by
        rw [List.count_eq_zero, List.mem_flatMap]
        rintro ⟨other, otherIn, named⟩
        exact distinct.1 (own other _ named ▸ List.mem_map_of_mem otherIn)
      omega
    · have different : first.name ≠ job.name := fun same =>
        distinct.1 (same ▸ List.mem_map_of_mem inRest)
      rw [absent first different, ih distinct.2 inRest, Nat.zero_add]

theorem askedBy_requests (need : String) : g.AskedBy (·.needs) need (g.requests need) := by
  refine ⟨fun _ => mem_names_of_mem_requests, ?_⟩
  intro job inGraph
  have own : ∀ (job : Job), ∀ name ∈ (job.needs.filter (· == need)).map fun _ => job.name,
      name = job.name := by
    intro job name asked
    obtain ⟨_, _, rfl⟩ := List.mem_map.1 asked
    rfl
  unfold requests
  rw [count_flatMap_name g.nodup_names own inGraph, List.map_const', List.count_replicate_self,
    List.count, List.countP_eq_length_filter]

theorem askedBy_dependents (walk : NeedsWalk) (need : String) :
    g.AskedBy walk.list need (g.dependents need) := by
  refine ⟨fun _ => mem_names_of_mem_dependents, ?_⟩
  intro job inGraph
  have once : (g.dependents need).Nodup := nodup_filter_names _
  have asked : job.name ∈ g.dependents need ↔ need ∈ walk.list job := by
    rw [walk.mem_list, ← needs_iff inGraph]
    simp [dependents, Needs, and_assoc, and_comm]
  rw [once.count, (walk.nodup job).count]
  simp only [asked]

end JobGraph

end JobFlow
