import JobFlow.Proofs.Artifact.Shortfall

/-!
Which upload a name stands for. A lookup goes through the jobs in scope as they are listed and then
through all jobs by name, and it takes the earliest upload with the name of the first job that has one.
A strict ledger declines an upload that only the second search finds.
-/

set_option autoImplicit false

namespace JobFlow.Ledger

variable {l : Ledger} {name job : String} {jobs : List String} {upload : Upload}

def HasNamed (l : Ledger) (name job : String) : Prop :=
  ∃ upload ∈ l.uploadsOf job, upload.name = name

/-- Of the uploads with the name, this is the one that was recorded first for the job. -/
def EarliestNamed (l : Ledger) (name job : String) (upload : Upload) : Prop :=
  ∃ before after, l.uploadsOf job = before ++ upload :: after ∧ upload.name = name ∧
    ∀ earlier ∈ before, earlier.name ≠ name

def FirstWith (l : Ledger) (name : String) (jobs : List String) (job : String) : Prop :=
  ∃ before after, jobs = before ++ job :: after ∧ l.HasNamed name job ∧
    ∀ earlier ∈ before, ¬ l.HasNamed name earlier

theorem EarliestNamed.hasNamed (earliest : l.EarliestNamed name job upload) : l.HasNamed name job := by
  obtain ⟨before, after, uploads, named, _⟩ := earliest
  exact ⟨upload, uploads ▸ List.mem_append_cons_self, named⟩

theorem EarliestNamed.job_eq (earliest : l.EarliestNamed name job upload) : upload.job = job := by
  obtain ⟨before, after, uploads, _, _⟩ := earliest
  exact (mem_uploadsOf.1 (uploads ▸ List.mem_append_cons_self)).2

theorem FirstWith.mem (first : l.FirstWith name jobs job) : job ∈ jobs := by
  obtain ⟨before, after, rfl, _, _⟩ := first
  exact List.mem_append_cons_self

/-- No upload has the name when none of a job has it. -/
theorem forall_name_ne_iff :
    (∀ upload ∈ l.uploads, upload.name ≠ name) ↔ ∀ job, ¬ l.HasNamed name job := by
  constructor
  · rintro none job ⟨upload, ofJob, named⟩
    exact none upload (mem_uploadsOf.1 ofJob).1 named
  · intro none upload isUpload named
    exact none upload.job ⟨upload, mem_uploadsOf.2 ⟨isUpload, rfl⟩, named⟩

/-- A recorded upload has a name, so the empty name, which looks for nothing, misses none. -/
theorem Sound.accepts_named (sound : l.Sound) (ofJob : upload ∈ l.uploadsOf job) :
    (Wanted.named name).accepts upload = true ↔ upload.name = name := by
  have filled : upload.name ≠ "" := (sound.uploads upload (mem_uploadsOf.1 ofJob).1).1
  simp only [Wanted.accepts, Bool.and_eq_true, decide_eq_true_iff, beq_iff_eq, and_iff_right_iff_imp]
  rintro rfl
  exact filled

theorem Sound.holds_named (sound : l.Sound) : l.Holds job (.named name) ↔ l.HasNamed name job :=
  exists_congr fun _ => and_congr_right fun ofJob => sound.accepts_named ofJob

theorem Sound.earliestNamed (sound : l.Sound)
    (found : (l.uploadsOf job).find? (Wanted.named name).accepts = some upload) :
    l.EarliestNamed name job upload := by
  obtain ⟨accepted, before, after, uploads, others⟩ := List.find?_eq_some_iff_append.1 found
  have ofJob : ∀ other ∈ before ++ upload :: after, other ∈ l.uploadsOf job := fun _ => (uploads ▸ ·)
  refine ⟨before, after, uploads, ?_, fun earlier isEarlier sameName => ?_⟩
  · exact (sound.accepts_named (ofJob upload List.mem_append_cons_self)).1 accepted
  · have alsoAccepted :=
      (sound.accepts_named (ofJob earlier (List.mem_append_left _ isEarlier))).2 sameName
    simpa [alsoAccepted] using others earlier isEarlier

/-- A search by name finds the earliest upload of the first of its jobs that has one. -/
theorem Sound.search_named_cases (sound : l.Sound) (name : String) (jobs : List String) :
    (∃ job upload, l.FirstWith name jobs job ∧ l.EarliestNamed name job upload ∧
      l.search jobs (.named name) = some upload) ∨
    ((∀ job ∈ jobs, ¬ l.HasNamed name job) ∧ l.search jobs (.named name) = none) := by
  cases found : l.search jobs (.named name) with
  | some upload =>
    obtain ⟨before, job, after, rfl, ofJob, none⟩ := search_eq_some_iff.1 found
    have earliest := sound.earliestNamed ofJob
    simp only [sound.holds_named] at none
    exact Or.inl ⟨job, upload, ⟨before, after, rfl, earliest.hasNamed, none⟩, earliest, rfl⟩
  | none =>
    refine Or.inr ⟨fun job isJob hasNamed => ?_, rfl⟩
    obtain ⟨upload, isUpload, rfl, accepted⟩ := mem_of_holds (sound.holds_named.2 hasNamed)
    exact search_eq_none.1 found upload isUpload isJob accepted

/-- A search through all jobs comes to the first by name. -/
theorem Sound.search_uploadJobs_cases (sound : l.Sound) (name : String) :
    (∃ job upload, (∀ other, l.HasNamed name other → job ≤ other) ∧ l.EarliestNamed name job upload ∧
      l.search l.uploadJobs (.named name) = some upload) ∨
    ((∀ job, ¬ l.HasNamed name job) ∧ l.search l.uploadJobs (.named name) = none) := by
  rcases sound.search_named_cases name l.uploadJobs with
    ⟨job, upload, _, earliest, found⟩ | ⟨none, missed⟩
  · have holder : l.holder? (.named name) = some upload.job := by rw [holder?, found, Option.map_some]
    have least := (holder?_eq_some holder).2
    rw [earliest.job_eq] at least
    exact Or.inl ⟨job, upload, fun other => least other ∘ sound.holds_named.2, earliest, found⟩
  · refine Or.inr ⟨fun job hasNamed => ?_, missed⟩
    obtain ⟨upload, isUpload, ofJob, _⟩ := mem_of_holds (sound.holds_named.2 hasNamed)
    exact none job (mem_uploadJobs.2 ⟨upload, isUpload, ofJob⟩) hasNamed

theorem Sound.locate_named_cases (sound : l.Sound) (name : String) (scope : List String) :
    (∃ job upload, l.FirstWith name scope job ∧ l.EarliestNamed name job upload ∧
      l.locate scope (.named name) = some ⟨upload, true⟩) ∨
    ((∀ job ∈ scope, ¬ l.HasNamed name job) ∧
      ∃ job upload, (∀ other, l.HasNamed name other → job ≤ other) ∧
        l.EarliestNamed name job upload ∧ l.locate scope (.named name) = some ⟨upload, false⟩) ∨
    ((∀ job, ¬ l.HasNamed name job) ∧ l.locate scope (.named name) = none) := by
  rcases sound.search_named_cases name scope with
    ⟨job, upload, first, earliest, found⟩ | ⟨outOfScope, missed⟩
  · exact Or.inl ⟨job, upload, first, earliest, locate_of_search found⟩
  · rw [locate_of_search_eq_none missed]
    rcases sound.search_uploadJobs_cases name with
      ⟨job, upload, least, earliest, found⟩ | ⟨none, alsoMissed⟩
    · rw [found]
      exact Or.inr (Or.inl ⟨outOfScope, job, upload, least, earliest, rfl⟩)
    · rw [alsoMissed]
      exact Or.inr (Or.inr ⟨none, rfl⟩)

/-- What is found by name is what was located, unless the ledger is strict and it is out of scope. -/
theorem find?_eq_bind (l : Ledger) (scope : List String) (name : String) :
    l.find? scope name = (l.locate scope (.named name)).bind fun found =>
      if l.strict = true ∧ found.inScope = false then none else some found.upload := by
  rw [find?]
  cases l.locate scope (.named name) with
  | none => rfl
  | some found =>
    cases inScope : found.inScope <;> cases isStrict : l.strict <;> simp [mayUse, inScope, isStrict]

/-- After any history, a lookup by name finds nothing exactly when no recorded upload has the name.
Otherwise what it finds is in scope exactly when a job in scope has such an upload, and it is the
earliest one of the first such job, in the order of the scope or, out of scope, by name. The usable
upload is the same one, and there is none when the ledger is strict and it is out of scope. -/
theorem locate_earliest (strict : Bool) (calls : List Call) (scope : List String) (name : String) :
    let l := ofHistory strict calls
    (l.locate scope (.named name) = none ↔ ∀ upload ∈ l.uploads, upload.name ≠ name) ∧
    (∀ found, l.locate scope (.named name) = some found →
      (found.inScope = true ↔ ∃ job ∈ scope, l.HasNamed name job) ∧
      ∃ job, l.EarliestNamed name job found.upload ∧
        (found.inScope = true → l.FirstWith name scope job) ∧
        (found.inScope = false → ∀ other, l.HasNamed name other → job ≤ other)) ∧
    l.find? scope name = (l.locate scope (.named name)).bind fun found =>
      if strict = true ∧ found.inScope = false then none else some found.upload := by
  intro l
  have sound : l.Sound := sound_ofHistory strict calls
  have isStrict : l.strict = strict := strict_ofHistory strict calls
  rw [forall_name_ne_iff, find?_eq_bind, isStrict, ← and_assoc]
  refine ⟨?_, rfl⟩
  rcases sound.locate_named_cases name scope with
    ⟨job, upload, first, earliest, located⟩ |
      ⟨outOfScope, job, upload, least, earliest, located⟩ | ⟨none, located⟩
  · rw [located]
    refine ⟨iff_of_false nofun fun none => none job earliest.hasNamed, ?_⟩
    rintro _ ⟨⟩
    exact ⟨iff_of_true rfl ⟨job, first.mem, earliest.hasNamed⟩, job, earliest, fun _ => first, nofun⟩
  · rw [located]
    refine ⟨iff_of_false nofun fun none => none job earliest.hasNamed, ?_⟩
    rintro _ ⟨⟩
    refine ⟨iff_of_false nofun ?_, job, earliest, nofun, fun _ => least⟩
    rintro ⟨other, isScope, hasNamed⟩
    exact outOfScope other isScope hasNamed
  · rw [located]
    exact ⟨iff_of_true rfl none, nofun⟩

end JobFlow.Ledger
