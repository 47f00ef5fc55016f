import JobFlow.Proofs.Artifact.Lookup

/-!
Ledgers that cannot be told apart. The transfers of one job must come in the same order in both; how
those of different jobs are mixed makes no difference to any lookup, check or file.
-/

set_option autoImplicit false

namespace JobFlow

/-- The distinct names of a list depend on its members only. -/
theorem Sorted.distinct_congr {xs ys : List String} (same : ∀ x, x ∈ xs ↔ x ∈ ys) :
    distinct xs = distinct ys := by
  have perm : (distinct xs).Perm (distinct ys) := by
    rw [List.perm_ext_iff_of_nodup (nodup_distinct xs) (nodup_distinct ys)]
    intro x
    rw [mem_distinct, mem_distinct, same]
  apply perm.eq_of_pairwise ?_ (pairwise_distinct xs) (pairwise_distinct ys)
  intro a b _ _ less greater
  exact absurd greater (String.lt_asymm less)

/-- Lists with the same elements of each job have the same members. -/
theorem mem_iff_of_filter_job {α : Type} (jobOf : α → String) {xs ys : List α}
    (same : ∀ job, xs.filter (jobOf · == job) = ys.filter (jobOf · == job)) {x : α} :
    x ∈ xs ↔ x ∈ ys := by
  have own : ∀ zs : List α, x ∈ zs ↔ x ∈ zs.filter (jobOf · == jobOf x) := by simp
  rw [own xs, same, ← own ys]

namespace Ledger

/-- Two ledgers of the same strictness that hold the same transfers of each job, in the same order. -/
structure Similar (k l : Ledger) : Prop where
  strict : k.strict = l.strict
  uploadsOf : ∀ job, k.uploadsOf job = l.uploadsOf job
  downloadsOf : ∀ job, k.downloadsOf job = l.downloadsOf job

namespace Similar

variable {k l : Ledger}

/-- The search through all jobs goes by name, so it is the same search. -/
theorem uploadJobs (similar : k.Similar l) : k.uploadJobs = l.uploadJobs := by
  apply Sorted.distinct_congr
  simp only [List.mem_map, mem_iff_of_filter_job Upload.job similar.uploadsOf, implies_true]

theorem downloadJobs (similar : k.Similar l) : k.downloadJobs = l.downloadJobs := by
  apply Sorted.distinct_congr
  simp only [List.mem_map, mem_iff_of_filter_job Download.job similar.downloadsOf, implies_true]

theorem search (similar : k.Similar l) (jobs : List String) (wanted : Wanted) :
    k.search jobs wanted = l.search jobs wanted := by
  rw [Ledger.search, funext similar.uploadsOf, Ledger.search]

theorem locate (similar : k.Similar l) (scope : List String) (wanted : Wanted) :
    k.locate scope wanted = l.locate scope wanted := by
  rw [Ledger.locate, similar.search, similar.uploadJobs, similar.search, Ledger.locate]

theorem mayUse (similar : k.Similar l) (found : Found) : k.mayUse found = l.mayUse found := by
  rw [Ledger.mayUse, similar.strict, Ledger.mayUse]

theorem find? (similar : k.Similar l) (scope : List String) (name : String) :
    k.find? scope name = l.find? scope name := by
  simp only [Ledger.find?, similar.locate, similar.mayUse]

theorem check (similar : k.Similar l) (download : Download) :
    k.check download = l.check download := by
  have each : k.checkWanted download = l.checkWanted download := by
    funext wanted
    simp only [checkWanted, similar.locate, similar.mayUse]
  rw [Ledger.check, each, Ledger.check]

theorem downloadsByJob (similar : k.Similar l) : k.downloadsByJob = l.downloadsByJob := by
  rw [Ledger.downloadsByJob, similar.downloadJobs, funext similar.downloadsOf, Ledger.downloadsByJob]

theorem unresolved (similar : k.Similar l) : k.unresolved = l.unresolved := by
  simp only [Ledger.unresolved, similar.downloadsByJob, similar.check]

theorem matchingUploads (similar : k.Similar l) (jobs : List String) (pattern : String) :
    k.matchingUploads jobs pattern = l.matchingUploads jobs pattern := by
  rw [Ledger.matchingUploads, funext similar.uploadsOf, Ledger.matchingUploads]

theorem resolve (similar : k.Similar l) (download : Download) :
    k.resolve download = l.resolve download := by
  have brought : k.retrieved download = l.retrieved download := by
    simp only [retrieved, similar.matchingUploads, similar.uploadJobs, similar.strict, similar.find?]
  rw [Ledger.resolve, brought, Ledger.resolve]

end Similar

end Ledger

end JobFlow
