import JobFlow.Proofs.JobGraph.Countdown

/-!
The sequential order. Counting needs with their repetitions, the queue of free jobs always holds the
ready ones, so the order takes the first ready job by name at every step. That makes it the least of
all lists that hold every job once and every need before its job.
-/

set_option autoImplicit false

namespace JobFlow.JobGraph

variable {g : JobGraph} {done : List String}

/-- Taking the first free job keeps the countdown in step. -/
theorem Tracks.takeFirst {s : Countdown} {job : String} {rest : List String}
    (tracks : g.Tracks (·.needs) done done s) (sorted : Sorted.names s.free = job :: rest) :
    g.Tracks (·.needs) (job :: done) (job :: done) (g.takeFirst s job rest) := by
  have split : ([job] ++ rest).Perm s.free := by
    show (job :: rest).Perm s.free
    rw [← sorted]
    exact Sorted.names_perm s.free
  have taken : g.Tracks (·.needs) ([job] ++ done) done { s with free := rest } := tracks.take split
  have isFree : job ∈ s.free := split.mem_iff.1 List.mem_cons_self
  obtain ⟨_, _, _, notDone, _⟩ := (tracks.mem_free job).1 isFree
  exact taken.meet (fun _ _ _ => Iff.rfl) notDone (askedBy_requests job)

/-- The loop over the counters takes the first ready job at every step. -/
theorem orderFrom_eq_firstReady {s : Countdown} (tracks : g.Tracks (·.needs) done done s) :
    g.orderFrom s = g.firstReady done := by
  have sorted := tracks.names_free
  induction done using firstReady.induct (g := g) generalizing s with
  | case1 done idle =>
    rw [readyNames, idle] at sorted
    rw [orderFrom_of_nil sorted, firstReady_of_nil idle]
  | case2 done job rest first _ _ ih =>
    rw [readyNames, first] at sorted
    have next := tracks.takeFirst sorted
    rw [orderFrom_of_cons sorted, firstReady_of_cons first, ih next next.names_free]

/-- All jobs, each once and after everything that it needs. -/
structure IsOrder (g : JobGraph) (names : List String) : Prop where
  perm : names.Perm g.names
  before : ∀ job ∈ g.jobs, ∀ need ∈ job.needs, names.idxOf need < names.idxOf job.name

/-- The names complete an order that has come as far as `done`: each job is ready when its turn
comes, and in the end no job is left. -/
def Completes (g : JobGraph) (done : List String) : List String → Prop
  | [] => g.outside done = []
  | name :: rest => (∃ job ∈ g.ready done, job.name = name) ∧ g.Completes (name :: done) rest

/-- What comes after a part of an order completes that part. -/
theorem IsOrder.completes {earlier later : List String} (order : g.IsOrder (earlier ++ later))
    (same : ∀ name, name ∈ done ↔ name ∈ earlier) : g.Completes done later := by
  induction later generalizing earlier done with
  | nil =>
    apply List.eq_nil_iff_forall_not_mem.2
    intro name left
    obtain ⟨inGraph, notDone⟩ := mem_outside.1 left
    have placed := order.perm.mem_iff.2 inGraph
    rw [List.append_nil, ← same] at placed
    exact notDone placed
  | cons name rest ih =>
    have distinct := order.perm.nodup_iff.2 g.nodup_names
    have fresh : name ∉ earlier := fun placed =>
      (List.nodup_append.1 distinct).2.2 name placed name List.mem_cons_self rfl
    have inGraph : name ∈ g.names := order.perm.mem_iff.1 (by simp)
    obtain ⟨job, isJob, rfl⟩ := mem_names.1 inGraph
    have position : (earlier ++ job.name :: rest).idxOf job.name = earlier.length := by
      rw [List.idxOf_append, if_neg fresh, List.idxOf_cons_self, Nat.zero_add]
    have needsDone : ∀ need ∈ job.needs, need ∈ done := by
      intro need isNeed
      have first := order.before job isJob need isNeed
      rw [position, List.idxOf_append] at first
      split at first
      · next placed => exact (same need).2 placed
      · omega
    refine ⟨⟨job, mem_ready.2 ⟨isJob, fun h => fresh ((same _).1 h), needsDone⟩, rfl⟩, ?_⟩
    have regrouped : g.IsOrder ((earlier ++ [job.name]) ++ rest) := by simpa using order
    apply ih regrouped
    intro other
    simp [same, or_comm]

/-- A completion holds exactly the jobs that are left. -/
theorem Completes.perm {later : List String} (completes : g.Completes done later) :
    later.Perm (g.outside done) := by
  induction later generalizing done with
  | nil => exact completes ▸ List.Perm.refl _
  | cons name rest ih =>
    obtain ⟨⟨job, isReady, rfl⟩, tail⟩ := completes
    have removed : g.outside (job.name :: done) = (g.outside done).erase job.name := by
      rw [outside_cons, nodup_outside.erase_eq_filter]
      rfl
    have perm := ih tail
    rw [removed] at perm
    exact (perm.cons job.name).trans (List.perm_cons_erase (mem_outside_of_ready isReady)).symm

/-- In a completion every need is done already or comes before its job. -/
theorem Completes.before {later : List String} (completes : g.Completes done later) {job : Job}
    (isJob : job ∈ g.jobs) (comes : job.name ∈ later) {need : String} (isNeed : need ∈ job.needs) :
    need ∈ done ∨ later.idxOf need < later.idxOf job.name := by
  induction later generalizing done with
  | nil => cases comes
  | cons name rest ih =>
    obtain ⟨⟨first, isReady, rfl⟩, tail⟩ := completes
    by_cases same : first.name = job.name
    · obtain ⟨isFirst, _, needsDone⟩ := mem_ready.1 isReady
      have here := eq_of_name_eq isFirst isJob same
      subst here
      exact Or.inl (needsDone need isNeed)
    · have inRest := (List.mem_cons.1 comes).resolve_left (Ne.symm same)
      rw [List.idxOf_cons_ne rest same]
      by_cases now : first.name = need
      · apply Or.inr
        rw [← now, List.idxOf_cons_self]
        exact Nat.succ_pos _
      · rw [List.idxOf_cons_ne rest now]
        refine (ih tail inRest).imp ?_ Nat.succ_lt_succ
        intro isDone
        exact (List.mem_cons.1 isDone).resolve_left (Ne.symm now)

theorem Completes.isOrder {names : List String} (completes : g.Completes [] names) :
    g.IsOrder names := by
  have perm : names.Perm g.names := by simpa [outside] using completes.perm
  refine ⟨perm, ?_⟩
  intro job isJob need isNeed
  have comes := perm.mem_iff.2 (name_mem_names isJob)
  exact (completes.before isJob comes isNeed).resolve_left List.not_mem_nil

/-- Taking the first ready job again and again leaves no job out. -/
theorem completes_firstReady (known : g.Known) (ranked : g.Ranked) :
    g.Completes done (g.firstReady done) := by
  induction done using firstReady.induct (g := g) with
  | case1 done idle =>
    rw [firstReady_of_nil idle]
    exact outside_eq_nil_of_ready known ranked idle
  | case2 done job rest first _ _ ih =>
    rw [firstReady_of_cons first]
    exact ⟨⟨job, first ▸ List.mem_cons_self, rfl⟩, ih⟩

/-- No completion is less: at the first place where another one differs it takes a later name. -/
theorem firstReady_le {later : List String} (completes : g.Completes done later) :
    g.firstReady done = later ∨ List.Lex (· < ·) (g.firstReady done) later := by
  induction later generalizing done with
  | nil =>
    refine Or.inl (firstReady_of_nil (List.eq_nil_iff_forall_not_mem.2 ?_))
    intro job isReady
    have left := mem_outside_of_ready isReady
    rw [show g.outside done = [] from completes] at left
    cases left
  | cons name rest ih =>
    obtain ⟨⟨job, isReady, rfl⟩, tail⟩ := completes
    cases all : g.ready done with
    | nil => simp [all] at isReady
    | cons first others =>
      rw [firstReady_of_cons all]
      rw [all] at isReady
      rcases List.mem_cons.1 isReady with rfl | isOther
      · rcases ih tail with same | less
        · exact Or.inl (congrArg _ same)
        · exact Or.inr (.cons less)
      · have increasing : (g.ready done).Pairwise fun a b => a.name < b.name := pairwise_ready
        rw [all] at increasing
        exact Or.inr (.rel ((List.pairwise_cons.1 increasing).1 job isOther))

theorem order_eq_firstReady (g : JobGraph) : g.order = g.firstReady [] :=
  orderFrom_eq_firstReady (tracks_countdown fun _ _ _ => Iff.rfl)

theorem isOrder_order (known : g.Known) (ranked : g.Ranked) : g.IsOrder g.order := by
  rw [order_eq_firstReady]
  exact (completes_firstReady known ranked).isOrder

/-- A valid graph has a sequential order, and it is the least of all lists that hold every job once
and every need before its job. For any other graph there is the fault and no order. -/
theorem order?_least (g : JobGraph) :
    (g.validate = .ok () → ∃ names, g.order? = .ok names ∧ g.IsOrder names ∧
      ∀ other, g.IsOrder other → names = other ∨ List.Lex (· < ·) names other) ∧
    (∀ fault, g.validate = .error fault → g.order? = .error fault) := by
  constructor
  · intro valid
    obtain ⟨known, ranked⟩ := ranked_of_validate valid
    refine ⟨g.order, order?_of_valid valid, isOrder_order known ranked, ?_⟩
    intro other isOrder
    have fromStart : g.IsOrder ([] ++ other) := isOrder
    rw [order_eq_firstReady]
    exact firstReady_le (fromStart.completes fun _ => Iff.rfl)
  · intro fault refused
    simp [order?, refused, Except.map]

/-- Two checks between a build and a release. The release lists one of them twice. -/
def releaseGraph : JobGraph where
  jobs := [{ name := "build" }, { name := "lint", needs := ["build"] },
    { name := "release", needs := ["test", "lint", "test"] }, { name := "test", needs := ["build"] }]
  increasing := by decide +kernel

example : releaseGraph.order = ["build", "lint", "test", "release"] := by decide +kernel

end JobFlow.JobGraph
