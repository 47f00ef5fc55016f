import JobFlow.Artifact.Lookup

/-!
What lookups find. A search gives an upload of the jobs that it goes through. A strict ledger brings
only files of the jobs that a download depends on, and a download that passes its check brings at
least one file.
-/

set_option autoImplicit false

namespace JobFlow

theorem Download.filesOf_ne_nil {download : Download} {upload : Upload} (some : upload.paths ≠ []) :
    download.filesOf upload ≠ [] := by
  simpa [filesOf] using some

namespace Ledger

variable {l : Ledger} {download : Download}

theorem mem_uploadsOf {job : String} {upload : Upload} :
    upload ∈ l.uploadsOf job ↔ upload ∈ l.uploads ∧ upload.job = job := by
  rw [uploadsOf, List.mem_filter, beq_iff_eq]

theorem mem_flatMap_uploadsOf {jobs : List String} {upload : Upload} :
    upload ∈ jobs.flatMap l.uploadsOf ↔ upload ∈ l.uploads ∧ upload.job ∈ jobs := by
  rw [List.mem_flatMap]
  constructor
  · rintro ⟨job, isJob, ofJob⟩
    obtain ⟨isUpload, rfl⟩ := mem_uploadsOf.1 ofJob
    exact ⟨isUpload, isJob⟩
  · rintro ⟨isUpload, isJob⟩
    exact ⟨upload.job, isJob, mem_uploadsOf.2 ⟨isUpload, rfl⟩⟩

theorem mem_uploadJobs {job : String} : job ∈ l.uploadJobs ↔ ∃ upload ∈ l.uploads, upload.job = job := by
  rw [uploadJobs, Sorted.mem_distinct, List.mem_map]

/-- A search finds an upload of one of its jobs that is what is looked for. -/
theorem mem_of_search {jobs : List String} {wanted : Wanted} {upload : Upload}
    (found : l.search jobs wanted = some upload) :
    upload ∈ l.uploads ∧ upload.job ∈ jobs ∧ wanted.accepts upload = true := by
  obtain ⟨isUpload, ofJobs⟩ := mem_flatMap_uploadsOf.1 (List.mem_of_find?_eq_some found)
  exact ⟨isUpload, ofJobs, List.find?_some found⟩

/-- What is located is what is looked for, and made in scope if it is said to be. -/
theorem mem_of_locate {scope : List String} {wanted : Wanted} {found : Found}
    (located : l.locate scope wanted = some found) :
    found.upload ∈ l.uploads ∧ wanted.accepts found.upload = true ∧
      (found.inScope = true → found.upload.job ∈ scope) := by
  unfold locate at located
  split at located
  · next upload inScope =>
    cases located
    obtain ⟨isUpload, ofScope, accepted⟩ := mem_of_search inScope
    exact ⟨isUpload, accepted, fun _ => ofScope⟩
  · obtain ⟨upload, anywhere, rfl⟩ := Option.map_eq_some_iff.1 located
    obtain ⟨isUpload, _, accepted⟩ := mem_of_search anywhere
    exact ⟨isUpload, accepted, fun inScope => by cases inScope⟩

theorem mem_matchingUploads {jobs : List String} {pattern : String} {upload : Upload} :
    upload ∈ l.matchingUploads jobs pattern ↔
      upload ∈ l.uploads ∧ upload.job ∈ jobs ∧ Artifact.matchesPattern pattern upload.name = true := by
  rw [matchingUploads, List.mem_filter, mem_flatMap_uploadsOf, and_assoc]

theorem find?_eq_some {scope : List String} {name : String} {upload : Upload} :
    l.find? scope name = some upload ↔
      ∃ found, l.locate scope (.named name) = some found ∧ l.mayUse found = true ∧
        found.upload = upload := by
  unfold find?
  cases l.locate scope (.named name) with
  | none => simp
  | some found => simp

theorem retrieved_of_pattern (byPattern : download.pattern ≠ "") :
    l.retrieved download =
      if !(l.matchingUploads download.dependsOn download.pattern).isEmpty || l.strict then
        l.matchingUploads download.dependsOn download.pattern
      else l.matchingUploads l.uploadJobs download.pattern := by
  rw [retrieved, if_pos byPattern]

theorem retrieved_of_name (noPattern : download.pattern = "") :
    l.retrieved download = (l.find? download.dependsOn download.name).toList := by
  rw [retrieved, if_neg (by simp [noPattern])]

/-- Only recorded uploads are brought, and by a strict ledger only those of the jobs that the
download depends on. -/
theorem mem_of_retrieved {upload : Upload} (brought : upload ∈ l.retrieved download) :
    upload ∈ l.uploads ∧ (l.strict = true → upload.job ∈ download.dependsOn) := by
  by_cases noPattern : download.pattern = ""
  · rw [retrieved_of_name noPattern, Option.mem_toList] at brought
    obtain ⟨found, located, usable, rfl⟩ := find?_eq_some.1 brought
    obtain ⟨isUpload, _, ofScope⟩ := mem_of_locate located
    refine ⟨isUpload, fun strict => ofScope ?_⟩
    simpa [mayUse, strict] using usable
  · rw [retrieved_of_pattern noPattern] at brought
    split at brought
    · obtain ⟨isUpload, ofScope, _⟩ := mem_matchingUploads.1 brought
      exact ⟨isUpload, fun _ => ofScope⟩
    · next lenient =>
      obtain ⟨isUpload, _, _⟩ := mem_matchingUploads.1 brought
      exact ⟨isUpload, fun strict => absurd (by simp [strict]) lenient⟩

/-- A file comes from an upload of its job. -/
theorem upload_of_mem_resolve {file : ArtifactFile} (brought : file ∈ l.resolve download) :
    ∃ upload ∈ l.retrieved download, upload.name = file.artifact ∧ upload.job = file.job ∧
      file.uploadedPath ∈ upload.paths := by
  obtain ⟨upload, isUpload, ofUpload⟩ := List.mem_flatMap.1 brought
  obtain ⟨path, isPath, rfl⟩ := List.mem_map.1 ofUpload
  exact ⟨upload, isUpload, rfl, rfl, isPath⟩

theorem checkWanted_eq_ok {wanted : Wanted} :
    l.checkWanted download wanted = .ok () ↔
      ∃ found, l.locate download.dependsOn wanted = some found ∧ l.mayUse found = true := by
  unfold checkWanted
  cases l.locate download.dependsOn wanted with
  | none => simp
  | some found => simp

/-- A check passes when everything that the download looks for is found and may be used. -/
theorem check_eq_ok :
    l.check download = .ok () ↔
      ∀ wanted ∈ download.wanted, l.checkWanted download wanted = .ok () := by
  unfold check
  induction download.wanted with
  | nil => exact iff_of_true rfl (fun _ isMember => absurd isMember List.not_mem_nil)
  | cons wanted rest ih =>
    rw [List.forall_mem_cons, ← ih]
    simp only [List.forM_eq_forM, List.forM_cons]
    cases l.checkWanted download wanted <;> simp [bind, Except.bind]

/-- A pattern that passes its check brings an upload. -/
theorem retrieved_ne_nil_of_pattern (byPattern : download.pattern ≠ "")
    (passed : l.checkWanted download (.matching download.pattern) = .ok ()) :
    l.retrieved download ≠ [] := by
  obtain ⟨found, located, usable⟩ := checkWanted_eq_ok.1 passed
  obtain ⟨isUpload, accepted, ofScope⟩ := mem_of_locate located
  have fits : Artifact.matchesPattern download.pattern found.upload.name = true := by
    simpa [Wanted.accepts, byPattern] using accepted
  rw [retrieved_of_pattern byPattern]
  by_cases inScope : found.inScope = true
  · have brought := mem_matchingUploads.2 ⟨isUpload, ofScope inScope, fits⟩
    have some : l.matchingUploads download.dependsOn download.pattern ≠ [] :=
      List.ne_nil_of_mem brought
    simp [some]
  · have lenient : l.strict = false := by simpa [mayUse, inScope] using usable
    have anywhere := mem_matchingUploads.2
      ⟨isUpload, mem_uploadJobs.2 ⟨found.upload, isUpload, rfl⟩, fits⟩
    simp only [lenient, Bool.or_false]
    split
    · next some => simpa using some
    · exact List.ne_nil_of_mem anywhere

theorem retrieved_ne_nil_of_name (noPattern : download.pattern = "")
    (passed : l.checkWanted download (.named download.name) = .ok ()) :
    l.retrieved download ≠ [] := by
  obtain ⟨found, located, usable⟩ := checkWanted_eq_ok.1 passed
  have isFound : l.find? download.dependsOn download.name = some found.upload :=
    find?_eq_some.2 ⟨found, located, usable, rfl⟩
  simp [retrieved_of_name noPattern, isFound]

/-- A download that passes its check brings an upload. -/
theorem retrieved_ne_nil_of_check (valid : download.name ≠ "" ∨ download.pattern ≠ "")
    (passed : l.check download = .ok ()) : l.retrieved download ≠ [] := by
  rw [check_eq_ok] at passed
  by_cases byPattern : download.pattern = ""
  · have named : download.name ≠ "" := valid.resolve_right fun other => other byPattern
    exact retrieved_ne_nil_of_name byPattern (passed _ (by simp [Download.wanted, named]))
  · exact retrieved_ne_nil_of_pattern byPattern (passed _ (by simp [Download.wanted, byPattern]))

/-- When every upload has a path, a download that brings an upload brings a file. -/
theorem resolve_ne_nil_iff (paths : ∀ upload ∈ l.uploads, upload.paths ≠ []) :
    l.resolve download ≠ [] ↔ l.retrieved download ≠ [] := by
  constructor
  · intro some none
    exact some (by rw [resolve, none, List.flatMap_nil])
  · intro some
    obtain ⟨upload, brought⟩ := List.exists_mem_of_ne_nil _ some
    obtain ⟨isUpload, _⟩ := mem_of_retrieved brought
    have files : download.filesOf upload ≠ [] := Download.filesOf_ne_nil (paths upload isUpload)
    obtain ⟨file, isFile⟩ := List.exists_mem_of_ne_nil _ files
    exact List.ne_nil_of_mem (List.mem_flatMap.2 ⟨upload, brought, isFile⟩)

/-- A download that passes its check brings a file. -/
theorem exists_mem_resolve (paths : ∀ upload ∈ l.uploads, upload.paths ≠ [])
    (valid : download.name ≠ "" ∨ download.pattern ≠ "") (passed : l.check download = .ok ()) :
    ∃ file, file ∈ l.resolve download :=
  List.exists_mem_of_ne_nil _ ((resolve_ne_nil_iff paths).2 (retrieved_ne_nil_of_check valid passed))

theorem mem_downloadsOf {job : String} :
    download ∈ l.downloadsOf job ↔ download ∈ l.downloads ∧ download.job = job := by
  rw [downloadsOf, List.mem_filter, beq_iff_eq]

theorem mem_downloadsByJob : download ∈ l.downloadsByJob ↔ download ∈ l.downloads := by
  rw [downloadsByJob, List.mem_flatMap]
  constructor
  · rintro ⟨job, _, ofJob⟩
    exact (mem_downloadsOf.1 ofJob).1
  · intro isDownload
    refine ⟨download.job, ?_, mem_downloadsOf.2 ⟨isDownload, rfl⟩⟩
    rw [downloadJobs, Sorted.mem_distinct]
    exact List.mem_map_of_mem isDownload

/-- When nothing is unresolved, every recorded download passes its check. -/
theorem check_of_unresolved (none : l.unresolved = []) (isDownload : download ∈ l.downloads) :
    l.check download = .ok () := by
  have listed := List.filterMap_eq_nil_iff.1 none download (mem_downloadsByJob.2 isDownload)
  split at listed
  · cases listed
  · assumption

end Ledger

end JobFlow
