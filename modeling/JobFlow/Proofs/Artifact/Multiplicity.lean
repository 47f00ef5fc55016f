import Mathlib.Algebra.Order.BigOperators.Group.List
import Mathlib.Algebra.Order.Ring.Nat
import Mathlib.Data.List.Perm.Basic
import JobFlow.Proofs.Artifact.Retrieval

/-!
How often a download brings a file. A pattern is looked for in the jobs in scope as they are listed, so
the files of a matching upload come as often as its job is listed. The list of all jobs has each job
once; the jobs that a download depends on may be repeated, and then their files are, too.
-/

set_option autoImplicit false

namespace JobFlow.Ledger

variable {l : Ledger} {download : Download}

instance : Decidable (l.InScope download) :=
  inferInstanceAs (Decidable (∃ job ∈ download.dependsOn, ∃ upload ∈ l.uploadsOf job,
    download.sought.accepts upload = true))

/-- The jobs in which a download looks for matches: those that it depends on, or all jobs when the ledger
is lenient and the former have none. -/
def searchedJobs (l : Ledger) (download : Download) : List String :=
  if l.strict = false ∧ ¬ l.InScope download then l.uploadJobs else download.dependsOn

/-- The recorded uploads of these jobs that match, in recording order. -/
def matched (l : Ledger) (download : Download) : List Upload :=
  l.uploads.filter fun upload =>
    upload.job ∈ l.searchedJobs download ∧
      Artifact.matchesPattern download.pattern upload.name = true

theorem mem_matched {upload : Upload} : upload ∈ l.matched download ↔ upload ∈ l.uploads ∧
    upload.job ∈ l.searchedJobs download ∧
      Artifact.matchesPattern download.pattern upload.name = true := by
  rw [matched, List.mem_filter, decide_eq_true_iff]

theorem inScope_iff_matchingUploads (byPattern : download.pattern ≠ "") :
    l.InScope download ↔ l.matchingUploads download.dependsOn download.pattern ≠ [] := by
  rw [inScope_iff, Download.sought_of_pattern byPattern]
  simp only [accepts_matching byPattern, ← mem_matchingUploads]
  exact ⟨fun ⟨_, isMatch⟩ => List.ne_nil_of_mem isMatch, List.exists_mem_of_ne_nil _⟩

theorem retrieved_eq_matchingUploads (byPattern : download.pattern ≠ "") :
    l.retrieved download = l.matchingUploads (l.searchedJobs download) download.pattern := by
  rw [retrieved_of_pattern byPattern, searchedJobs]
  by_cases inScope : l.InScope download
  · have some := (inScope_iff_matchingUploads byPattern).1 inScope
    simp [inScope, some]
  · have none := mt (inScope_iff_matchingUploads byPattern).2 inScope
    cases l.strict <;> simp_all

theorem uploadsOf_eq_flatMap (l : Ledger) (job : String) :
    l.uploadsOf job =
      l.uploads.flatMap fun upload => List.replicate (if job == upload.job then 1 else 0) upload := by
  rw [uploadsOf]
  induction l.uploads with
  | nil => rfl
  | cons upload rest ih =>
    rw [List.filter_cons, List.flatMap_cons, ih, Bool.beq_comm]
    split <;> rfl

/-- A walk through the uploads of some jobs comes to an upload as often as its job is listed. -/
theorem flatMap_uploadsOf_perm (l : Ledger) (jobs : List String) :
    (jobs.flatMap l.uploadsOf).Perm
      (l.uploads.flatMap fun upload => List.replicate (jobs.count upload.job) upload) := by
  induction jobs with
  | nil => simp
  | cons job rest ih =>
    have oneMore : ∀ upload : Upload, List.replicate ((job :: rest).count upload.job) upload =
        List.replicate (if job == upload.job then 1 else 0) upload ++
          List.replicate (rest.count upload.job) upload := by
      intro upload
      rw [List.replicate_append_replicate, List.count_cons, Nat.add_comm]
    simp only [List.flatMap_cons, oneMore]
    rw [uploadsOf_eq_flatMap]
    exact (ih.append_left _).trans (List.flatMap_append_perm l.uploads _ _)

/-- An upload of a job that is not listed does not come at all, so only the others need to be kept. -/
theorem flatMap_filter_count {jobs : List String} (uploads : List Upload) (fits : Upload → Bool) :
    (uploads.flatMap fun upload =>
        if fits upload then List.replicate (jobs.count upload.job) upload else []) =
      (uploads.filter fun upload => upload.job ∈ jobs ∧ fits upload = true).flatMap fun upload =>
        List.replicate (jobs.count upload.job) upload := by
  induction uploads with
  | nil => rfl
  | cons upload rest ih =>
    rw [List.flatMap_cons, ih, List.filter_cons]
    by_cases listed : upload.job ∈ jobs
    · cases fits upload <;> simp [listed]
    · simp [listed, List.count_eq_zero_of_not_mem listed]

/-- A pattern brings each of its matches as often as its job is listed. -/
theorem retrieved_perm (byPattern : download.pattern ≠ "") :
    (l.retrieved download).Perm ((l.matched download).flatMap fun upload =>
      List.replicate ((l.searchedJobs download).count upload.job) upload) := by
  have walk := (l.flatMap_uploadsOf_perm (l.searchedJobs download)).filter
    fun upload => Artifact.matchesPattern download.pattern upload.name
  rw [retrieved_eq_matchingUploads byPattern, matched, ← flatMap_filter_count]
  simpa only [matchingUploads, List.filter_flatMap, List.filter_replicate] using walk

/-- A job with uploads is listed once among all jobs. -/
theorem count_uploadJobs {upload : Upload} (isUpload : upload ∈ l.uploads) :
    l.uploadJobs.count upload.job = 1 := by
  have once : l.uploadJobs.Nodup := Sorted.nodup_distinct _
  rw [once.count, if_pos (mem_uploadJobs.2 ⟨upload, isUpload, rfl⟩)]

/-- A match is listed once unless the download repeats its job. -/
theorem count_searchedJobs (byPattern : download.pattern ≠ "") {upload : Upload}
    (isMatch : upload ∈ l.matched download) :
    (l.searchedJobs download).count upload.job = max 1 (download.dependsOn.count upload.job) := by
  obtain ⟨isUpload, searched, fits⟩ := mem_matched.1 isMatch
  unfold searchedJobs at searched ⊢
  split
  · next lenient =>
    have outOfScope : upload.job ∉ download.dependsOn := by
      intro ofScope
      rw [inScope_iff_matchingUploads byPattern] at lenient
      exact lenient.2 (List.ne_nil_of_mem (mem_matchingUploads.2 ⟨isUpload, ofScope, fits⟩))
    rw [count_uploadJobs isUpload, List.count_eq_zero_of_not_mem outOfScope]
    rfl
  · next only =>
    rw [if_neg only] at searched
    exact (Nat.max_eq_right (List.count_pos_iff.2 searched)).symm

/-- A pattern brings all files of its matches, as often as the job of the match is listed. -/
theorem resolve_perm (byPattern : download.pattern ≠ "") :
    (l.resolve download).Perm ((l.matched download).flatMap fun upload =>
      (List.replicate ((l.searchedJobs download).count upload.job) (download.filesOf upload)).flatten) := by
  have files := (l.retrieved_perm byPattern).flatMap_right download.filesOf
  simpa only [resolve, List.flatMap_assoc, List.flatMap_replicate] using files

/-- The files of all matches come once exactly when no job of a match is listed twice. -/
theorem resolve_perm_once_iff (byPattern : download.pattern ≠ "")
    (paths : ∀ upload ∈ l.uploads, upload.paths ≠ []) :
    (l.resolve download).Perm ((l.matched download).flatMap download.filesOf) ↔
      ∀ upload ∈ l.matched download, download.dependsOn.count upload.job ≤ 1 := by
  constructor
  · intro once upload isMatch
    refine Nat.le_of_not_lt fun repeated => ?_
    -- Every match has its files at least once, so one that is repeated makes the list too long.
    have atLeast : ∀ other ∈ l.matched download, (download.filesOf other).length ≤
        (l.searchedJobs download).count other.job * (download.filesOf other).length := by
      intro other isOther
      rw [count_searchedJobs byPattern isOther]
      exact Nat.le_mul_of_pos_left _ (Nat.le_max_left 1 _)
    have more : (download.filesOf upload).length <
        (l.searchedJobs download).count upload.job * (download.filesOf upload).length := by
      have some : 0 < (download.filesOf upload).length :=
        List.length_pos_of_ne_nil (Download.filesOf_ne_nil (paths upload (mem_matched.1 isMatch).1))
      rw [count_searchedJobs byPattern isMatch]
      exact (Nat.lt_mul_iff_one_lt_left some).2 (Nat.lt_of_lt_of_le repeated (Nat.le_max_right 1 _))
    have longer := List.sum_lt_sum _ _ atLeast ⟨upload, isMatch, more⟩
    have sameLength := ((l.resolve_perm byPattern).symm.trans once).length_eq
    simp only [List.length_flatMap, List.length_flatten, List.map_replicate,
      List.sum_replicate_nat] at sameLength
    exact Nat.ne_of_lt longer sameLength.symm
  · intro single
    refine (l.resolve_perm byPattern).trans (List.Perm.of_eq (List.flatMap_congr ?_))
    intro upload isMatch
    rw [count_searchedJobs byPattern isMatch, Nat.max_eq_left (single upload isMatch)]
    simp

/-- A name brings the files of one upload at most, each once. -/
theorem resolve_of_name (noPattern : download.pattern = "") :
    l.resolve download = [] ∨ ∃ upload ∈ l.uploads, upload.name = download.name ∧
      l.resolve download = download.filesOf upload := by
  rw [resolve, retrieved_of_name noPattern]
  cases isFound : l.find? download.dependsOn download.name with
  | none => exact Or.inl rfl
  | some upload =>
    obtain ⟨found, located, _, rfl⟩ := find?_eq_some.1 isFound
    obtain ⟨isUpload, accepted, _⟩ := mem_of_locate located
    refine Or.inr ⟨found.upload, isUpload, ?_, by simp⟩
    simp only [Wanted.accepts, Bool.and_eq_true, beq_iff_eq] at accepted
    exact accepted.2

/-- After any history, a download by pattern brings every path of every match, as often as the jobs that
it searches list the job of the match. So it brings each of them once exactly when the download does not
depend twice on the job of a match. A download by name brings every path of one upload once, or nothing. -/
theorem resolve_once_iff (strict : Bool) (calls : List Call) (download : Download) :
    (download.pattern ≠ "" →
      ((ofHistory strict calls).resolve download).Perm
        (((ofHistory strict calls).matched download).flatMap fun upload =>
          (List.replicate (((ofHistory strict calls).searchedJobs download).count upload.job)
            (download.filesOf upload)).flatten) ∧
      (((ofHistory strict calls).resolve download).Perm
          (((ofHistory strict calls).matched download).flatMap download.filesOf) ↔
        ∀ upload ∈ (ofHistory strict calls).matched download,
          download.dependsOn.count upload.job ≤ 1)) ∧
    (download.pattern = "" → (ofHistory strict calls).resolve download = [] ∨
      ∃ upload ∈ (ofHistory strict calls).uploads, upload.name = download.name ∧
        (ofHistory strict calls).resolve download = download.filesOf upload) := by
  have sound : (ofHistory strict calls).Sound := sound_ofHistory strict calls
  have paths := fun upload isUpload => (sound.uploads upload isUpload).2
  exact ⟨fun byPattern => ⟨resolve_perm byPattern, resolve_perm_once_iff byPattern paths⟩, resolve_of_name⟩

/-- A download that depends on one job twice. -/
def doubledDownload : Download :=
  { path := "in", pattern := "di*", job := "test", dependsOn := ["build", "build"] }

theorem resolve_not_always_once :
    ¬ ∀ (strict : Bool) (calls : List Call) (download : Download), download.pattern ≠ "" →
      ((ofHistory strict calls).resolve download).Perm
        (((ofHistory strict calls).matched download).flatMap download.filesOf) := by
  intro once
  have samePaths := (once true buildHistory doubledDownload (by decide)).map (·.downloadPath)
  have twice : ((ofHistory true buildHistory).resolve doubledDownload).map (·.downloadPath) =
      ["in/dist/app", "in/dist/lib/a", "in/dist/app", "in/dist/lib/a"] := by decide +kernel
  have single : (((ofHistory true buildHistory).matched doubledDownload).flatMap
      doubledDownload.filesOf).map (·.downloadPath) = ["in/dist/app", "in/dist/lib/a"] := by
    decide +kernel
  rw [twice, single] at samePaths
  cases samePaths.length_eq

end JobFlow.Ledger
