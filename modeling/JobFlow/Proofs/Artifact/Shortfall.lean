import JobFlow.Proofs.Artifact.Retrieval

/-!
What a download lacks when its check fails. A check searches for a first upload, in scope and then
anywhere, but fails exactly when no upload in scope exists; and the job that its error names is the first
by name that has the upload out of scope.
-/

set_option autoImplicit false

namespace JobFlow.Ledger

variable {l : Ledger} {download : Download} {wanted : Wanted}

def Holds (l : Ledger) (job : String) (wanted : Wanted) : Prop :=
  ∃ upload ∈ l.uploadsOf job, wanted.accepts upload = true

/-- The jobs whose uploads a download may use: in a lenient ledger all jobs, in a strict one those that
it depends on. -/
def MayUseJob (l : Ledger) (download : Download) (job : String) : Prop :=
  l.strict = true → job ∈ download.dependsOn

/-- The download has a name that no recorded upload in scope has. -/
def LacksName (l : Ledger) (download : Download) : Prop :=
  download.name ≠ "" ∧
    ¬ ∃ upload ∈ l.uploads, l.MayUseJob download upload.job ∧ upload.name = download.name

/-- The download has a pattern that no recorded upload in scope matches. -/
def LacksMatch (l : Ledger) (download : Download) : Prop :=
  download.pattern ≠ "" ∧
    ¬ ∃ upload ∈ l.uploads, l.MayUseJob download upload.job ∧
      Artifact.matchesPattern download.pattern upload.name = true

/-- The job of the first upload that a search through all jobs by name comes to. -/
def holder? (l : Ledger) (wanted : Wanted) : Option String :=
  (l.search l.uploadJobs wanted).map (·.job)

/-- A search ends at the first of its jobs that holds what is looked for, with the first such upload. -/
theorem search_eq_some_iff {jobs : List String} {upload : Upload} :
    l.search jobs wanted = some upload ↔ ∃ before job after, jobs = before ++ job :: after ∧
      (l.uploadsOf job).find? wanted.accepts = some upload ∧
      ∀ earlier ∈ before, ¬ l.Holds earlier wanted := by
  rw [search, List.find?_flatMap, List.findSome?_eq_some_iff]
  simp only [List.find?_eq_none, Holds, not_exists, not_and]

theorem holds_of_mem {upload : Upload} (isUpload : upload ∈ l.uploads)
    (accepted : wanted.accepts upload = true) : l.Holds upload.job wanted :=
  ⟨upload, mem_uploadsOf.2 ⟨isUpload, rfl⟩, accepted⟩

theorem mem_of_holds {job : String} (holds : l.Holds job wanted) :
    ∃ upload ∈ l.uploads, upload.job = job ∧ wanted.accepts upload = true := by
  obtain ⟨upload, ofJob, accepted⟩ := holds
  obtain ⟨isUpload, sameJob⟩ := mem_uploadsOf.1 ofJob
  exact ⟨upload, isUpload, sameJob, accepted⟩

/-- Of all jobs that hold what is looked for, the first by name is found. -/
theorem holder?_eq_some {job : String} (found : l.holder? wanted = some job) :
    l.Holds job wanted ∧ ∀ other, l.Holds other wanted → job ≤ other := by
  obtain ⟨upload, isFirst, rfl⟩ := Option.map_eq_some_iff.1 found
  obtain ⟨isUpload, _, accepted⟩ := mem_of_search isFirst
  obtain ⟨before, job, after, jobs, ofJob, none⟩ := search_eq_some_iff.1 isFirst
  have sameJob : upload.job = job := (mem_uploadsOf.1 (List.mem_of_find?_eq_some ofJob)).2
  refine ⟨holds_of_mem isUpload accepted, fun other holds => ?_⟩
  obtain ⟨another, isAnother, ofOther, _⟩ := mem_of_holds holds
  have listed : other ∈ before ++ job :: after := jobs ▸ mem_uploadJobs.2 ⟨another, isAnother, ofOther⟩
  have increasing : (before ++ job :: after).Pairwise fun a b => a < b :=
    jobs ▸ Sorted.pairwise_distinct _
  rw [sameJob]
  rcases List.mem_append.1 listed with earlier | later
  · exact absurd holds (none other earlier)
  · rcases List.mem_cons.1 later with rfl | behind
    · exact String.le_refl other
    · have less : job < other :=
        (List.pairwise_cons.1 (List.pairwise_append.1 increasing).2.1).1 other behind
      exact String.lt_asymm less

theorem holder?_eq_none :
    l.holder? wanted = none ↔ ∀ upload ∈ l.uploads, wanted.accepts upload ≠ true := by
  rw [holder?, Option.map_eq_none_iff, search_eq_none]
  constructor
  · intro none upload isUpload
    exact none upload isUpload (mem_uploadJobs.2 ⟨upload, isUpload, rfl⟩)
  · exact fun none upload isUpload _ => none upload isUpload

/-- The error of a download that finds nothing usable. -/
def shortfall (l : Ledger) (download : Download) (wanted : Wanted) : Unresolved :=
  ⟨download.job, wanted, l.holder? wanted⟩

/-- A check that finds nothing usable tells who has the upload out of scope. -/
theorem checkWanted_cases (l : Ledger) (download : Download) (wanted : Wanted) :
    ((∃ upload, l.Usable download wanted upload) ∧ l.checkWanted download wanted = .ok ()) ∨
      ((¬ ∃ upload, l.Usable download wanted upload) ∧
        l.checkWanted download wanted = .error (l.shortfall download wanted)) := by
  by_cases usable : ∃ upload, l.Usable download wanted upload
  · exact Or.inl ⟨usable, checkWanted_iff_usable.2 usable⟩
  · refine Or.inr ⟨usable, ?_⟩
    have outOfScope : l.search download.dependsOn wanted = none :=
      search_eq_none.2 fun upload isUpload ofScope accepted =>
        usable ⟨upload, isUpload, accepted, fun _ => ofScope⟩
    rw [checkWanted, locate_of_search_eq_none outOfScope, shortfall, holder?]
    cases anywhere : l.search l.uploadJobs wanted with
    | none => rfl
    | some upload =>
      obtain ⟨isUpload, _, accepted⟩ := mem_of_search anywhere
      have strict : l.strict = true := Classical.byContradiction fun lenient =>
        usable ⟨upload, isUpload, accepted, fun strict => absurd strict lenient⟩
      have unusable : l.mayUse ⟨upload, false⟩ = false := by simp [mayUse, strict]
      rw [Option.map_some, Option.map_some]
      simp only [unusable, Bool.false_eq_true, if_false]

theorem usable_named_iff (named : download.name ≠ "") {upload : Upload} :
    l.Usable download (.named download.name) upload ↔
      upload ∈ l.uploads ∧ l.MayUseJob download upload.job ∧ upload.name = download.name := by
  simp only [Usable, Wanted.accepts, MayUseJob, named, ne_eq, not_false_eq_true, decide_true,
    Bool.true_and, beq_iff_eq, and_comm]

theorem usable_matching_iff (byPattern : download.pattern ≠ "") {upload : Upload} :
    l.Usable download (.matching download.pattern) upload ↔
      upload ∈ l.uploads ∧ l.MayUseJob download upload.job ∧
        Artifact.matchesPattern download.pattern upload.name = true := by
  rw [Usable, accepts_matching byPattern, MayUseJob, and_comm (a := _ = true)]

theorem lacksName_iff (named : download.name ≠ "") :
    l.LacksName download ↔ ¬ ∃ upload, l.Usable download (.named download.name) upload := by
  simp only [LacksName, named, ne_eq, not_false_eq_true, true_and, usable_named_iff named]

theorem lacksMatch_iff (byPattern : download.pattern ≠ "") :
    l.LacksMatch download ↔ ¬ ∃ upload, l.Usable download (.matching download.pattern) upload := by
  simp only [LacksMatch, byPattern, ne_eq, not_false_eq_true, true_and, usable_matching_iff byPattern]

/-- The two stages of a check: the name, and then the pattern. -/
theorem check_eq_bind (l : Ledger) (download : Download) :
    l.check download =
      (if download.name = "" then .ok () else l.checkWanted download (.named download.name)) >>=
        fun _ => if download.pattern = "" then .ok ()
          else l.checkWanted download (.matching download.pattern) := by
  rw [check, Download.wanted]
  by_cases unnamed : download.name = "" <;> by_cases noPattern : download.pattern = ""
  · simp [unnamed, noPattern]
    rfl
  · simp [unnamed, noPattern]
    rfl
  · simp only [unnamed, noPattern, if_true, if_false, List.append_nil]
    rfl
  · simp [unnamed, noPattern]

/-- A stage of a check fails when the download lacks what the stage looks for. -/
theorem stage_cases {absent lacks : Prop} [Decidable absent] (unlessAbsent : lacks → ¬ absent)
    (lacks_iff : ¬ absent → (lacks ↔ ¬ ∃ upload, l.Usable download wanted upload)) :
    let stage : Except Unresolved Unit := if absent then .ok () else l.checkWanted download wanted
    (lacks ∧ stage = .error (l.shortfall download wanted)) ∨ (¬ lacks ∧ stage = .ok ()) := by
  intro stage
  by_cases none : absent
  · exact Or.inr ⟨fun lacking => unlessAbsent lacking none, if_pos none⟩
  · have isStage : stage = l.checkWanted download wanted := if_neg none
    rw [isStage, lacks_iff none]
    rcases l.checkWanted_cases download wanted with ⟨usable, passed⟩ | ⟨unusable, failed⟩
    · exact Or.inr ⟨not_not_intro usable, passed⟩
    · exact Or.inl ⟨unusable, failed⟩

/-- A check fails for the name first, then for the pattern, and passes when neither lacks an upload. -/
theorem check_cases (l : Ledger) (download : Download) :
    (l.LacksName download ∧
      l.check download = .error (l.shortfall download (.named download.name))) ∨
    (¬ l.LacksName download ∧ l.LacksMatch download ∧
      l.check download = .error (l.shortfall download (.matching download.pattern))) ∨
    (¬ l.LacksName download ∧ ¬ l.LacksMatch download ∧ l.check download = .ok ()) := by
  rw [check_eq_bind]
  rcases stage_cases (fun lacks : l.LacksName download => lacks.1) lacksName_iff with
    ⟨lacksName, failed⟩ | ⟨hasName, passed⟩
  · rw [failed]
    exact Or.inl ⟨lacksName, rfl⟩
  · rw [passed]
    rcases stage_cases (fun lacks : l.LacksMatch download => lacks.1) lacksMatch_iff with
      ⟨lacksMatch, failed⟩ | ⟨hasMatch, alsoPassed⟩
    · exact Or.inr (Or.inl ⟨hasName, lacksMatch, failed⟩)
    · exact Or.inr (Or.inr ⟨hasName, hasMatch, alsoPassed⟩)

/-- When nothing is usable, an upload that fits belongs to a job out of the scope of a strict ledger. -/
theorem holder?_of_unusable (unusable : ¬ ∃ upload, l.Usable download wanted upload) :
    ((∃ job, l.holder? wanted = some job) ↔
      l.strict = true ∧ ∃ upload ∈ l.uploads, wanted.accepts upload = true) ∧
    ∀ job, l.holder? wanted = some job →
      l.Holds job wanted ∧ (∀ other, l.Holds other wanted → job ≤ other) ∧
        job ∉ download.dependsOn := by
  have outOfScope : ∀ upload ∈ l.uploads, wanted.accepts upload = true →
      l.strict = true ∧ upload.job ∉ download.dependsOn := by
    intro upload isUpload accepted
    have noScope : ¬ (l.strict = true → upload.job ∈ download.dependsOn) := fun inScope =>
      unusable ⟨upload, isUpload, accepted, inScope⟩
    exact Classical.not_imp.1 noScope
  constructor
  · rw [← Option.isSome_iff_exists, Option.isSome_iff_ne_none, ne_eq, holder?_eq_none]
    constructor
    · intro some
      obtain ⟨upload, fits⟩ := Classical.not_forall.1 some
      obtain ⟨isUpload, accepted⟩ := Classical.not_imp.1 fits
      have accepted := Classical.not_not.1 accepted
      exact ⟨(outOfScope upload isUpload accepted).1, upload, isUpload, accepted⟩
    · rintro ⟨_, upload, isUpload, accepted⟩ none
      exact none upload isUpload accepted
  · intro job found
    obtain ⟨holds, least⟩ := holder?_eq_some found
    obtain ⟨upload, isUpload, rfl, accepted⟩ := mem_of_holds holds
    exact ⟨holds, least, (outOfScope upload isUpload accepted).2⟩

/-- When a check fails and what its error says. It fails exactly when no upload in scope has the name or
none matches the pattern, and it tells the name before the pattern. The error names another job exactly
when the ledger is strict and some job has a fitting upload at all: the first such job by name, which the
download does not depend on. -/
theorem check_error_iff_lacks (strict : Bool) (calls : List Call) (download : Download) :
    let l := ofHistory strict calls
    ((∃ e, l.check download = .error e) ↔ l.LacksName download ∨ l.LacksMatch download) ∧
    ∀ e, l.check download = .error e →
      e.job = download.job ∧
      (l.LacksName download → e.wanted = .named download.name) ∧
      (¬ l.LacksName download → e.wanted = .matching download.pattern) ∧
      ((∃ job, e.unscopedJob = some job) ↔
        strict = true ∧ ∃ upload ∈ l.uploads, e.wanted.accepts upload = true) ∧
      ∀ job, e.unscopedJob = some job →
        l.Holds job e.wanted ∧ (∀ other, l.Holds other e.wanted → job ≤ other) ∧
          job ∉ download.dependsOn := by
  intro l
  have isStrict : l.strict = strict := strict_ofHistory strict calls
  rw [← isStrict]
  rcases l.check_cases download with
    ⟨lacksName, failed⟩ | ⟨hasName, lacksMatch, failed⟩ | ⟨hasName, hasMatch, passed⟩
  · refine ⟨iff_of_true ⟨_, failed⟩ (Or.inl lacksName), fun e isError => ?_⟩
    cases failed.symm.trans isError
    have unusable := (lacksName_iff lacksName.1).1 lacksName
    exact ⟨rfl, fun _ => rfl, fun hasName => absurd lacksName hasName, holder?_of_unusable unusable⟩
  · refine ⟨iff_of_true ⟨_, failed⟩ (Or.inr lacksMatch), fun e isError => ?_⟩
    cases failed.symm.trans isError
    have unusable := (lacksMatch_iff lacksMatch.1).1 lacksMatch
    exact ⟨rfl, fun lacksName => absurd lacksName hasName, fun _ => rfl, holder?_of_unusable unusable⟩
  · refine ⟨iff_of_false ?_ (not_or.2 ⟨hasName, hasMatch⟩), fun e isError => ?_⟩
    · rintro ⟨e, isError⟩
      cases passed.symm.trans isError
    · cases passed.symm.trans isError

end JobFlow.Ledger
