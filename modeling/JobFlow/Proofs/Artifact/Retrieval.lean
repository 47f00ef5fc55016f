import JobFlow.Proofs.Artifact.History
import JobFlow.Proofs.Artifact.Lookup

/-!
Checks against retrieval. A check and a retrieval go through the records on ways of their own, but both
come down to one question: is there an upload that may be used? So a check that passes promises a file,
and strictness can only take files away that come from jobs a download does not depend on.
-/

set_option autoImplicit false

namespace JobFlow

/-- What a download brings is decided by its pattern, and without one by its name. -/
def Download.sought (download : Download) : Wanted :=
  if download.pattern ≠ "" then .matching download.pattern else .named download.name

namespace Download

variable {download : Download}

theorem sought_of_pattern (byPattern : download.pattern ≠ "") :
    download.sought = .matching download.pattern := by
  rw [sought, if_pos byPattern]

theorem sought_of_name (noPattern : download.pattern = "") :
    download.sought = .named download.name := by
  rw [sought, if_neg (by simp [noPattern])]

/-- A check looks at what decides the retrieval. -/
theorem sought_mem_wanted (wants : download.name ≠ "" ∨ download.pattern ≠ "") :
    download.sought ∈ download.wanted := by
  by_cases noPattern : download.pattern = ""
  · have named : download.name ≠ "" := wants.resolve_right fun byPattern => byPattern noPattern
    simp [sought_of_name noPattern, wanted, named]
  · simp [sought_of_pattern noPattern, wanted, noPattern]

/-- It looks at nothing else when only one of name and pattern is given. -/
theorem wanted_eq_sought (wants : download.name ≠ "" ∨ download.pattern ≠ "")
    (one : download.name = "" ∨ download.pattern = "") : download.wanted = [download.sought] := by
  rcases one with unnamed | noPattern
  · have byPattern : download.pattern ≠ "" := wants.resolve_left fun named => named unnamed
    simp [sought_of_pattern byPattern, wanted, unnamed, byPattern]
  · have named : download.name ≠ "" := wants.resolve_right fun byPattern => byPattern noPattern
    simp [sought_of_name noPattern, wanted, named, noPattern]

end Download

namespace Ledger

variable {l : Ledger} {download : Download} {wanted : Wanted}

/-- A recorded upload that a download may use for what it looks for: by a strict ledger only those of
the jobs that the download depends on. -/
def Usable (l : Ledger) (download : Download) (wanted : Wanted) (upload : Upload) : Prop :=
  upload ∈ l.uploads ∧ wanted.accepts upload = true ∧
    (l.strict = true → upload.job ∈ download.dependsOn)

theorem search_eq_none {jobs : List String} :
    l.search jobs wanted = none ↔
      ∀ upload ∈ l.uploads, upload.job ∈ jobs → wanted.accepts upload ≠ true := by
  rw [search, List.find?_eq_none]
  constructor
  · intro none upload isUpload ofJobs
    exact none upload (mem_flatMap_uploadsOf.2 ⟨isUpload, ofJobs⟩)
  · intro none upload isMember
    obtain ⟨isUpload, ofJobs⟩ := mem_flatMap_uploadsOf.1 isMember
    exact none upload isUpload ofJobs

/-- An upload of a job in scope is located in scope. -/
theorem locate_of_search {scope : List String} {upload : Upload}
    (found : l.search scope wanted = some upload) :
    l.locate scope wanted = some ⟨upload, true⟩ := by
  rw [locate, found]

/-- Without an upload in scope, all jobs are searched. -/
theorem locate_of_search_eq_none {scope : List String} (none : l.search scope wanted = none) :
    l.locate scope wanted = (l.search l.uploadJobs wanted).map fun upload => ⟨upload, false⟩ := by
  rw [locate, none]

/-- A check passes exactly when there is a usable upload. -/
theorem checkWanted_iff_usable :
    l.checkWanted download wanted = .ok () ↔ ∃ upload, l.Usable download wanted upload := by
  rw [checkWanted_eq_ok]
  constructor
  · rintro ⟨found, located, mayUse⟩
    obtain ⟨isUpload, accepted, ofScope⟩ := mem_of_locate located
    refine ⟨found.upload, isUpload, accepted, fun strict => ofScope ?_⟩
    simpa [Ledger.mayUse, strict] using mayUse
  · rintro ⟨upload, isUpload, accepted, ofScope⟩
    cases inScope : l.search download.dependsOn wanted with
    | some first => exact ⟨⟨first, true⟩, locate_of_search inScope, rfl⟩
    | none =>
      have outOfScope : upload.job ∉ download.dependsOn := fun isScope =>
        search_eq_none.1 inScope upload isUpload isScope accepted
      have lenient : l.strict = false := by simpa using fun strict => outOfScope (ofScope strict)
      cases anywhere : l.search l.uploadJobs wanted with
      | some first =>
        refine ⟨⟨first, false⟩, ?_, by simp [Ledger.mayUse, lenient]⟩
        rw [locate_of_search_eq_none inScope, anywhere]
        rfl
      | none =>
        have isJob : upload.job ∈ l.uploadJobs := mem_uploadJobs.2 ⟨upload, isUpload, rfl⟩
        exact absurd accepted (search_eq_none.1 anywhere upload isUpload isJob)

theorem accepts_matching (byPattern : download.pattern ≠ "") (upload : Upload) :
    (Wanted.matching download.pattern).accepts upload =
      Artifact.matchesPattern download.pattern upload.name := by
  simp [Wanted.accepts, byPattern]

/-- All that a download brings is usable for what it seeks. -/
theorem usable_of_mem_retrieved {upload : Upload} (brought : upload ∈ l.retrieved download) :
    l.Usable download download.sought upload := by
  obtain ⟨isUpload, ofScope⟩ := mem_of_retrieved brought
  refine ⟨isUpload, ?_, ofScope⟩
  by_cases noPattern : download.pattern = ""
  · rw [retrieved_of_name noPattern, Option.mem_toList] at brought
    obtain ⟨found, located, _, rfl⟩ := find?_eq_some.1 brought
    rw [Download.sought_of_name noPattern]
    exact (mem_of_locate located).2.1
  · rw [retrieved_of_pattern noPattern] at brought
    rw [Download.sought_of_pattern noPattern, accepts_matching noPattern]
    split at brought
    · exact (mem_matchingUploads.1 brought).2.2
    · exact (mem_matchingUploads.1 brought).2.2

/-- A download brings something exactly when the check of what it seeks passes. -/
theorem retrieved_ne_nil_iff :
    l.retrieved download ≠ [] ↔ l.checkWanted download download.sought = .ok () := by
  constructor
  · intro some
    obtain ⟨upload, brought⟩ := List.exists_mem_of_ne_nil _ some
    exact checkWanted_iff_usable.2 ⟨upload, usable_of_mem_retrieved brought⟩
  · intro passed
    by_cases noPattern : download.pattern = ""
    · rw [Download.sought_of_name noPattern] at passed
      exact retrieved_ne_nil_of_name noPattern passed
    · rw [Download.sought_of_pattern noPattern] at passed
      exact retrieved_ne_nil_of_pattern noPattern passed

/-- After any history, a download that passes its check brings a file. When it looks for one thing
only, it passes exactly when it brings a file. -/
theorem check_iff_resolve (strict : Bool) (calls : List Call) {download : Download}
    (wants : download.name ≠ "" ∨ download.pattern ≠ "") :
    ((ofHistory strict calls).check download = .ok () →
      (ofHistory strict calls).resolve download ≠ []) ∧
    (download.name = "" ∨ download.pattern = "" →
      ((ofHistory strict calls).check download = .ok () ↔
        (ofHistory strict calls).resolve download ≠ [])) := by
  have sound : (ofHistory strict calls).Sound := sound_ofHistory strict calls
  have paths := fun upload isUpload => (sound.uploads upload isUpload).2
  rw [resolve_ne_nil_iff paths, retrieved_ne_nil_iff, check_eq_ok]
  constructor
  · intro passed
    exact passed _ (Download.sought_mem_wanted wants)
  · intro one
    rw [Download.wanted_eq_sought wants one, List.forall_mem_singleton]

/-- A job that uploads, and an upload that is refused. -/
def buildHistory : List Call :=
  [.setCurrentJob "build", .recordUpload { name := "dist", paths := ["out/app", "out/lib/a"] },
    .recordUpload { name := "log", paths := [] }]

/-- A download by pattern that depends on a job without uploads. -/
def testDownload : Download :=
  { path := "in", pattern := "di*", job := "test", dependsOn := ["lint"] }

theorem check_iff_resolve_build :
    (testDownload.name ≠ "" ∨ testDownload.pattern ≠ "") ∧
      (testDownload.name = "" ∨ testDownload.pattern = "") ∧
      ((ofHistory true buildHistory).check testDownload = .ok () ↔
        (ofHistory true buildHistory).resolve testDownload ≠ []) ∧
      ((ofHistory false buildHistory).check testDownload = .ok () ↔
        (ofHistory false buildHistory).resolve testDownload ≠ []) ∧
      ((ofHistory false buildHistory).check testDownload = .ok () →
        (ofHistory false buildHistory).resolve testDownload ≠ []) ∧
      (ofHistory true buildHistory).resolve testDownload = [] ∧
      (ofHistory false buildHistory).resolve testDownload =
        [⟨"dist", "out/app", "in/dist/app", "build"⟩, ⟨"dist", "out/lib/a", "in/dist/lib/a", "build"⟩] :=
  ⟨by decide, by decide, (check_iff_resolve true buildHistory (by decide)).2 (by decide),
    (check_iff_resolve false buildHistory (by decide)).2 (by decide),
    (check_iff_resolve false buildHistory (by decide)).1, by decide +kernel, by decide +kernel⟩

/-- A job that the download depends on has an upload that the download seeks. -/
def InScope (l : Ledger) (download : Download) : Prop :=
  ∃ job ∈ download.dependsOn, ∃ upload ∈ l.uploadsOf job, download.sought.accepts upload = true

theorem inScope_iff : l.InScope download ↔ ∃ upload,
    upload ∈ l.uploads ∧ upload.job ∈ download.dependsOn ∧ download.sought.accepts upload = true := by
  constructor
  · rintro ⟨job, isScope, upload, ofJob, accepted⟩
    obtain ⟨isUpload, rfl⟩ := mem_uploadsOf.1 ofJob
    exact ⟨upload, isUpload, isScope, accepted⟩
  · rintro ⟨upload, isUpload, ofScope, accepted⟩
    exact ⟨upload.job, ofScope, upload, mem_uploadsOf.2 ⟨isUpload, rfl⟩, accepted⟩

def offered (l : Ledger) (download : Download) : List Upload :=
  if download.pattern ≠ "" then l.matchingUploads download.dependsOn download.pattern
  else (l.search download.dependsOn (.named download.name)).toList

/-- With an upload in scope, a download brings what the jobs in scope have, whatever else there is. -/
theorem retrieved_of_inScope (inScope : l.InScope download) :
    l.retrieved download = l.offered download := by
  obtain ⟨upload, isUpload, ofScope, accepted⟩ := inScope_iff.1 inScope
  by_cases noPattern : download.pattern = ""
  · rw [Download.sought_of_name noPattern] at accepted
    rw [retrieved_of_name noPattern, offered, if_neg (not_not_intro noPattern)]
    cases found : l.search download.dependsOn (.named download.name) with
    | none => exact absurd accepted (search_eq_none.1 found upload isUpload ofScope)
    | some first => simp [find?, locate_of_search found, mayUse]
  · rw [Download.sought_of_pattern noPattern, accepts_matching noPattern] at accepted
    have some : l.matchingUploads download.dependsOn download.pattern ≠ [] :=
      List.ne_nil_of_mem (mem_matchingUploads.2 ⟨isUpload, ofScope, accepted⟩)
    rw [retrieved_of_pattern noPattern, offered, if_pos noPattern]
    simp [some]

/-- With an upload in scope, strictness has no influence on what a download brings. -/
theorem retrieved_withStrict_of_inScope (inScope : l.InScope download) (strict : Bool) :
    (l.withStrict strict).retrieved download = l.retrieved download := by
  have same : (l.withStrict strict).InScope download := inScope
  rw [retrieved_of_inScope inScope, retrieved_of_inScope same]
  rfl

/-- Without an upload in scope, a strict ledger brings nothing. -/
theorem retrieved_eq_nil_of_strict (strict : l.strict = true) (none : ¬ l.InScope download) :
    l.retrieved download = [] := by
  apply List.eq_nil_iff_forall_not_mem.2
  intro upload brought
  obtain ⟨isUpload, accepted, ofScope⟩ := usable_of_mem_retrieved brought
  exact none (inScope_iff.2 ⟨upload, isUpload, ofScope strict, accepted⟩)

/-- A check that passes does so when strictness is dropped, too. -/
theorem check_withStrict_false (passed : l.check download = .ok ()) :
    (l.withStrict false).check download = .ok () := by
  rw [check_eq_ok] at passed ⊢
  intro wanted isWanted
  obtain ⟨upload, isUpload, accepted, _⟩ := checkWanted_iff_usable.1 (passed wanted isWanted)
  exact checkWanted_iff_usable.2 ⟨upload, isUpload, accepted, fun strict => by cases strict⟩

/-- One history in a strict and in a lenient ledger. The strict one brings nothing or the same files,
and the same files whenever an upload in scope is what the download seeks. All its files are from jobs
that the download depends on, and what passes its check passes the lenient one. -/
theorem strict_resolve_or_nothing (calls : List Call) (download : Download) :
    ((ofHistory true calls).resolve download = [] ∨
      (ofHistory true calls).resolve download = (ofHistory false calls).resolve download) ∧
    ((ofHistory true calls).InScope download →
      (ofHistory true calls).resolve download = (ofHistory false calls).resolve download) ∧
    (∀ file ∈ (ofHistory true calls).resolve download, file.job ∈ download.dependsOn) ∧
    ((ofHistory true calls).check download = .ok () →
      (ofHistory false calls).check download = .ok ()) := by
  have strict : (ofHistory true calls).strict = true := strict_ofHistory true calls
  have same : (ofHistory true calls).InScope download →
      (ofHistory true calls).resolve download = (ofHistory false calls).resolve download := by
    intro inScope
    rw [ofHistory_eq_withStrict false true calls, resolve, resolve,
      retrieved_withStrict_of_inScope inScope false]
  refine ⟨?_, same, ?_, ?_⟩
  · by_cases inScope : (ofHistory true calls).InScope download
    · exact Or.inr (same inScope)
    · exact Or.inl (by rw [resolve, retrieved_eq_nil_of_strict strict inScope, List.flatMap_nil])
  · intro file isFile
    obtain ⟨upload, brought, _, owner, _⟩ := upload_of_mem_resolve isFile
    rw [← owner]
    exact (mem_of_retrieved brought).2 strict
  · rw [ofHistory_eq_withStrict false true calls]
    exact check_withStrict_false

end Ledger

end JobFlow
