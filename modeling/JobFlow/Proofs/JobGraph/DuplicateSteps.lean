import Mathlib.Data.Nat.Find
import Mathlib.Order.Bounds.Basic
import JobFlow.Proofs.JobGraph.StepNames

/-!
The report of a repeated step name. The steps of a job are looked at in their order, together with the first
place of each name so far. So the report is about the first step whose name came before, and about the first
step that has this name; and it is about the first job, by name, in which a name comes twice.
-/

set_option autoImplicit false

namespace JobFlow

def placesOf (names : List String) (name : String) : Set Nat :=
  {i | names[i]? = some name}

/-- The places of names, other than the empty one, that stand at an earlier place, too. -/
def repeats (names : List String) : Set Nat :=
  {k | ∃ name, name ≠ "" ∧ names[k]? = some name ∧ ∃ i < k, names[i]? = some name}

/-- The first place of a name that came before, and the first place of this name. -/
structure FirstRepeat (names : List String) (name : String) (first index : Nat) : Prop where
  least : IsLeast (repeats names) index
  here : names[index]? = some name
  first : IsLeast (placesOf names name) first

/-- Under every name that came so far its first place is seen. -/
def Records (seen : List (String × Nat)) (before : List String) : Prop :=
  ∀ name, name ≠ "" → ∀ i, seen.lookup name = some i ↔ IsLeast (placesOf before name) i

variable {names before rest : List String} {name other : String} {seen : List (String × Nat)}
  {first index : Nat}

theorem noRepeats_iff_notMem : NoRepeats names ↔ ∀ k, k ∉ repeats names := by
  rw [NoRepeats, List.pairwise_iff_getElem]
  constructor
  · rintro apart k ⟨name, named, here, i, earlier, there⟩
    obtain ⟨inHere, rfl⟩ := List.getElem?_eq_some_iff.1 here
    obtain ⟨inThere, same⟩ := List.getElem?_eq_some_iff.1 there
    exact named (same ▸ apart i k inThere inHere earlier same)
  · intro none i k inThere inHere earlier same
    by_contra named
    exact none k ⟨names[i], named, by simp [same], i, earlier, by simp⟩

namespace FirstRepeat

theorem named (report : FirstRepeat names name first index) : name ≠ "" := by
  obtain ⟨repeated, isNamed, here, _⟩ := report.least.1
  rw [report.here] at here
  exact Option.some.inj here ▸ isNamed

/-- The first of the two places is the earlier one. -/
theorem lt (report : FirstRepeat names name first index) : first < index := by
  obtain ⟨repeated, _, here, i, earlier, there⟩ := report.least.1
  rw [report.here] at here
  obtain rfl := Option.some.inj here
  exact Nat.lt_of_le_of_lt (report.first.2 there) earlier

/-- A list of names has at most one first repeat. -/
theorem unique {otherFirst otherIndex : Nat} (report : FirstRepeat names name first index)
    (also : FirstRepeat names other otherFirst otherIndex) :
    (name, first, index) = (other, otherFirst, otherIndex) := by
  obtain rfl := report.least.unique also.least
  obtain rfl := Option.some.inj (report.here.symm.trans also.here)
  rw [report.first.unique also.first]

end FirstRepeat

theorem lt_length_of_mem_placesOf (isPlace : index ∈ placesOf names name) : index < names.length :=
  (List.getElem?_eq_some_iff.1 isPlace).1

theorem mem_placesOf_append (inBefore : index < before.length) :
    index ∈ placesOf (before ++ rest) name ↔ index ∈ placesOf before name := by
  simp only [placesOf, Set.mem_ofPred_eq, List.getElem?_append_left inBefore]

/-- More names at the end do not change the first place of a name. -/
theorem isLeast_placesOf_append (least : IsLeast (placesOf before name) index) :
    IsLeast (placesOf (before ++ rest) name) index := by
  have inBefore := lt_length_of_mem_placesOf least.1
  refine ⟨(mem_placesOf_append inBefore).2 least.1, fun k isPlace => ?_⟩
  rcases Nat.lt_or_ge k before.length with early | late
  · exact least.2 ((mem_placesOf_append early).1 isPlace)
  · exact Nat.le_trans (Nat.le_of_lt inBefore) late

theorem mem_of_mem_placesOf (isPlace : index ∈ placesOf names name) : name ∈ names :=
  List.mem_iff_getElem?.2 ⟨index, isPlace⟩

theorem placesOf_concat_of_ne (different : other ≠ name) :
    placesOf (before ++ [other]) name = placesOf before name := by
  ext i
  simp only [placesOf, Set.mem_ofPred_eq, List.getElem?_append]
  split
  · rfl
  · next late =>
    have none : before[i]? = none := List.getElem?_eq_none (Nat.le_of_not_lt late)
    cases i - before.length <;> simp [none, different]

theorem isLeast_placesOf_concat (fresh : name ∉ before) :
    IsLeast (placesOf (before ++ [name]) name) before.length := by
  refine ⟨by simp [placesOf], fun k isPlace => Nat.le_of_not_lt fun early => fresh ?_⟩
  exact mem_of_mem_placesOf ((mem_placesOf_append early).1 isPlace)

theorem exists_isLeast_placesOf (isName : name ∈ names) : ∃ i, IsLeast (placesOf names name) i := by
  have places : ∃ i, names[i]? = some name := List.mem_iff_getElem?.1 isName
  classical
  exact ⟨Nat.find places, Nat.find_spec places, fun k isPlace => Nat.find_min' places isPlace⟩

namespace Records

/-- Exactly the names that did not come before are not seen. -/
theorem lookup_eq_none (records : Records seen before) (named : name ≠ "") :
    seen.lookup name = none ↔ name ∉ before := by
  constructor
  · intro unseen isName
    obtain ⟨i, least⟩ := exists_isLeast_placesOf isName
    exact absurd ((records name named i).2 least) (by simp [unseen])
  · intro fresh
    by_contra seenBefore
    obtain ⟨i, isSeen⟩ := Option.ne_none_iff_exists'.1 seenBefore
    exact fresh (mem_of_mem_placesOf ((records name named i).1 isSeen).1)

/-- An unnamed step is not remembered. -/
theorem concat_unnamed (records : Records seen before) : Records seen (before ++ [""]) := by
  intro name named i
  rw [placesOf_concat_of_ne named.symm]
  exact records name named i

/-- A new name is remembered with its place. -/
theorem concat_named (records : Records seen before) (named : name ≠ "") (fresh : name ∉ before) :
    Records (seen ++ [(name, before.length)]) (before ++ [name]) := by
  intro other otherNamed i
  rw [List.lookup_append]
  by_cases same : other = name
  · subst same
    have least := isLeast_placesOf_concat fresh
    rw [(records.lookup_eq_none named).2 fresh, Option.none_or, List.lookup_cons_self,
      Option.some.injEq]
    exact ⟨fun isPlace => isPlace ▸ least, least.unique⟩
  · rw [List.lookup_cons, beq_eq_false_iff_ne.2 same, List.lookup_nil, Option.or_none,
      placesOf_concat_of_ne (Ne.symm same)]
    exact records other otherNamed i

end Records

theorem noRepeats_concat (apart : NoRepeats before) (fresh : name ≠ "" → name ∉ before) :
    NoRepeats (before ++ [name]) := by
  refine List.pairwise_append.2 ⟨apart, List.pairwise_singleton .., ?_⟩
  intro earlier isEarlier later isLater same
  obtain rfl := List.mem_singleton.1 isLater
  by_contra named
  exact fresh (same ▸ named) (same ▸ isEarlier)

/-- What the scan finds, behind names without a repeat, is the first repeat of all. -/
theorem firstRepeat_of_repeatedName? (records : Records seen before) (apart : NoRepeats before)
    (found : repeatedName? seen before.length rest = some (name, first, index)) :
    FirstRepeat (before ++ rest) name first index := by
  induction rest generalizing seen before with
  | nil => cases found
  | cons next rest ih =>
    have shift : before ++ next :: rest = before ++ [next] ++ rest := by simp
    have longer : before.length + 1 = (before ++ [next]).length := by simp
    rw [repeatedName?] at found
    by_cases unnamed : next = ""
    · rw [if_pos unnamed, longer] at found
      rw [shift]
      refine ih ?_ (noRepeats_concat apart fun named => absurd unnamed named) found
      exact unnamed ▸ records.concat_unnamed
    · rw [if_neg unnamed] at found
      cases lookup : seen.lookup next with
      | none =>
        have fresh := (records.lookup_eq_none unnamed).1 lookup
        simp only [lookup, longer] at found
        rw [shift]
        exact ih (records.concat_named unnamed fresh) (noRepeats_concat apart fun _ => fresh) found
      | some earlier =>
        rw [lookup] at found
        obtain ⟨rfl, rfl, rfl⟩ : next = name ∧ earlier = first ∧ before.length = index := by
          simpa using found
        have least := (records next unnamed earlier).1 lookup
        have here : (before ++ next :: rest)[before.length]? = some next := by simp
        have there : IsLeast (placesOf (before ++ next :: rest) next) earlier :=
          isLeast_placesOf_append least
        refine ⟨⟨⟨next, unnamed, here, earlier, lt_length_of_mem_placesOf least.1, there.1⟩, ?_⟩,
          here, there⟩
        -- An earlier repeat would be one among the names before.
        rintro k ⟨repeated, named, isHere, i, isEarlier, isThere⟩
        refine Nat.le_of_not_lt fun early => ?_
        have inBefore := (mem_placesOf_append early).1 isHere
        have alsoBefore := (mem_placesOf_append (Nat.lt_trans isEarlier early)).1 isThere
        exact noRepeats_iff_notMem.1 apart k ⟨repeated, named, inBefore, i, isEarlier, alsoBefore⟩

theorem repeatedName?_eq_some_iff :
    repeatedName? [] 0 names = some (name, first, index) ↔ FirstRepeat names name first index := by
  have none : Records [] [] := by
    intro name _ i
    simp [IsLeast, placesOf]
  have sound : ∀ {name first index}, repeatedName? [] 0 names = some (name, first, index) →
      FirstRepeat names name first index :=
    fun found => firstRepeat_of_repeatedName? none List.Pairwise.nil found
  refine ⟨sound, fun report => ?_⟩
  cases found : repeatedName? [] 0 names with
  | none =>
    have apart := (repeatedName?_eq_none.1 found).1
    exact absurd report.least.1 (noRepeats_iff_notMem.1 apart index)
  | some answer =>
    obtain ⟨answered, answeredFirst, answeredIndex⟩ := answer
    rw [(sound found).unique report]

theorem Job.duplicateStep?_eq_some {job : Job} {e : DuplicateStep} :
    job.duplicateStep? = some e ↔
      job.name = e.job ∧ FirstRepeat (job.steps.map Step.nameOf) e.step e.firstIndex e.index := by
  rw [duplicateStep?, Option.map_eq_some_iff]
  constructor
  · rintro ⟨⟨step, first, index⟩, found, rfl⟩
    exact ⟨rfl, repeatedName?_eq_some_iff.1 found⟩
  · rintro ⟨isJob, report⟩
    exact ⟨(e.step, e.firstIndex, e.index), repeatedName?_eq_some_iff.2 report, by simp [isJob]⟩

namespace JobGraph

variable {g : JobGraph} {e : DuplicateStep}

/-- The first job, by name, in which a step name comes twice, and its first repeat. -/
def FirstDuplicate (g : JobGraph) (e : DuplicateStep) : Prop :=
  ∃ job ∈ g.jobs, job.name = e.job ∧
    (∀ other ∈ g.jobs, other.name < e.job → other.DistinctSteps) ∧
    FirstRepeat (job.steps.map Step.nameOf) e.step e.firstIndex e.index

/-- The jobs in front of a job are those with smaller names. -/
theorem mem_front_iff {front back : List Job} {job other : Job} (split : g.jobs = front ++ job :: back) :
    other ∈ front ↔ other ∈ g.jobs ∧ other.name < job.name := by
  have increasing := g.increasing
  rw [split, List.pairwise_append, List.pairwise_cons] at increasing
  obtain ⟨_, ⟨behind, _⟩, inFront⟩ := increasing
  rw [split, List.mem_append, List.mem_cons]
  constructor
  · intro isFront
    exact ⟨Or.inl isFront, inFront other isFront job List.mem_cons_self⟩
  · rintro ⟨isFront | rfl | isBack, smaller⟩
    · exact isFront
    · exact absurd smaller (String.lt_irrefl _)
    · exact absurd (String.lt_trans smaller (behind other isBack)) (String.lt_irrefl _)

theorem duplicateStep?_eq_some : g.duplicateStep? = some e ↔ g.FirstDuplicate e := by
  rw [duplicateStep?, List.findSome?_eq_some_iff]
  simp only [Job.duplicateStep?_eq_some, Job.duplicateStep?_eq_none]
  constructor
  · rintro ⟨front, job, back, split, ⟨isJob, report⟩, clean⟩
    refine ⟨job, split ▸ List.mem_append_right front List.mem_cons_self, isJob, ?_, report⟩
    intro other inGraph smaller
    exact clean other ((mem_front_iff split).2 ⟨inGraph, isJob ▸ smaller⟩)
  · rintro ⟨job, inGraph, isJob, clean, report⟩
    obtain ⟨front, back, split⟩ := List.append_of_mem inGraph
    refine ⟨front, job, back, split, ⟨isJob, report⟩, fun other isFront => ?_⟩
    obtain ⟨otherInGraph, smaller⟩ := (mem_front_iff split).1 isFront
    exact clean other otherInGraph (isJob ▸ smaller)

theorem checkSteps_eq_error : g.checkSteps = .error e ↔ g.FirstDuplicate e := by
  rw [← duplicateStep?_eq_some, checkSteps]
  cases g.duplicateStep? with
  | none => simp
  | some duplicate => simp

/-- The check of step names passes exactly when in each job the names, other than the empty one, are
different. Else it reports the first job, by name, with a repeat, the first step of it whose name came
before, and the first step with this name. -/
theorem checkSteps_reports (g : JobGraph) :
    (g.checkSteps = .ok () ↔ ∀ job ∈ g.jobs, job.DistinctSteps) ∧
    (∀ e, g.checkSteps = .error e ↔ g.FirstDuplicate e) ∧
    ((∃ job ∈ g.jobs, ¬ job.DistinctSteps) →
      ∃ e, g.checkSteps = .error e ∧ e.firstIndex < e.index) := by
  refine ⟨checkSteps_eq_ok, fun e => checkSteps_eq_error, ?_⟩
  rintro ⟨job, inGraph, twice⟩
  cases checked : g.checkSteps with
  | ok passed => exact absurd (checkSteps_eq_ok.1 checked job inGraph) twice
  | error e =>
    obtain ⟨_, _, _, _, report⟩ := checkSteps_eq_error.1 checked
    exact ⟨e, rfl, report.lt⟩

end JobGraph

end JobFlow
