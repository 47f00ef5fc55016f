import JobFlow.Proofs.Compilation.StrictArtifacts

/-!
The report of the downloaded files. It goes through the registered jobs, but a download may be recorded
for a job that is not one of them. So a file is reported exactly when the job of its download is
registered. In a definition that is collected from jobs and drafts every download belongs to a job, and
nothing is left out.
-/

set_option autoImplicit false

namespace JobFlow

namespace Compilation

variable {c : Compilation} {job : String} {file : ArtifactFile}

def Reports (c : Compilation) (job : String) (file : ArtifactFile) : Prop :=
  ∃ files, (job, files) ∈ c.files ∧ file ∈ files

/-- The report lists what the downloads of the registered jobs bring. -/
theorem reports_iff : c.Reports job file ↔
    job ∈ c.graph.names ∧ ∃ download ∈ c.ledger.downloadsOf job, file ∈ c.ledger.resolve download := by
  constructor
  · rintro ⟨files, isEntry, isFile⟩
    rw [mem_files isEntry, List.mem_flatMap] at isFile
    obtain ⟨name, isListed, same⟩ := List.mem_map.1 isEntry
    cases same
    exact ⟨(List.mem_filter.1 isListed).1, isFile⟩
  · rintro ⟨registered, download, isDownload, brought⟩
    have some : c.ledger.downloadsOf job ≠ [] := List.ne_nil_of_mem isDownload
    refine ⟨_, List.mem_map.2 ⟨job, List.mem_filter.2 ⟨registered, by simpa using some⟩, rfl⟩, ?_⟩
    exact List.mem_flatMap.2 ⟨download, isDownload, brought⟩

end Compilation

namespace Definition

variable {d : Definition} {c : Compilation} {strict failOnUnresolved : Bool} {download : Download}
  {file : ArtifactFile}

theorem CompilesTo.mem_names_iff (done : d.CompilesTo strict failOnUnresolved c) {name : String} :
    name ∈ c.graph.names ↔ name ∈ d.jobs.map (·.name) :=
  (done.jobs.map _).mem_iff

/-- A downloaded file is reported exactly when its download belongs to a job of the definition. -/
theorem CompilesTo.reports_iff (done : d.CompilesTo strict failOnUnresolved c)
    (isDownload : download ∈ c.ledger.downloads) (brought : file ∈ c.ledger.resolve download) :
    c.Reports download.job file ↔ download.job ∈ d.jobs.map (·.name) := by
  rw [Compilation.reports_iff, done.mem_names_iff]
  exact and_iff_left ⟨download, Ledger.mem_downloadsOf.2 ⟨isDownload, rfl⟩, brought⟩

/-- A download misses nothing in the report when it belongs to a job or brings nothing. -/
theorem CompilesTo.reports_all_iff (done : d.CompilesTo strict failOnUnresolved c)
    (isDownload : download ∈ c.ledger.downloads) :
    (∀ file ∈ c.ledger.resolve download, c.Reports download.job file) ↔
      download.job ∈ d.jobs.map (·.name) ∨ c.ledger.resolve download = [] := by
  constructor
  · intro all
    by_cases none : c.ledger.resolve download = []
    · exact Or.inr none
    · obtain ⟨file, brought⟩ := List.exists_mem_of_ne_nil _ none
      exact Or.inl ((done.reports_iff isDownload brought).1 (all file brought))
  · rintro (ofJob | none) file brought
    · exact (done.reports_iff isDownload brought).2 ofJob
    · exact absurd brought (none ▸ List.not_mem_nil)

/-- The report is complete for a definition that is collected from jobs and drafts. -/
theorem reports_of_collect {items : List Item} {settings : Settings} {strict : Option Bool}
    {walk : NeedsWalk} (collected : collect items = .ok d)
    (compiled : (d.compile settings strict failOnUnresolved walk).outcome = .ok c)
    (isDownload : download ∈ c.ledger.downloads) (brought : file ∈ c.ledger.resolve download) :
    c.Reports download.job file := by
  have done := compilesTo_of_compile compiled
  have recorded := isDownload
  rw [done.recorded.downloads] at recorded
  obtain ⟨source, isSource, rfl⟩ := List.mem_map.1 recorded
  obtain ⟨job, isJob, own, _⟩ := wired_of_collect collected source isSource
  rw [done.reports_iff isDownload brought, job_inheritNeeds, own]
  exact List.mem_map_of_mem isJob

/-- After a compilation, a downloaded file is reported for the job of its download exactly when this is a
job of the definition, and nothing else is reported. So the report is complete exactly when all downloads
of the definition belong to its jobs, but for those that bring nothing. -/
theorem report_complete_iff {settings : Settings} {strict : Option Bool} {walk : NeedsWalk}
    (compiled : (d.compile settings strict failOnUnresolved walk).outcome = .ok c) :
    (∀ download ∈ c.ledger.downloads, ∀ file ∈ c.ledger.resolve download,
      (c.Reports download.job file ↔ download.job ∈ d.jobs.map (·.name))) ∧
    (∀ job file, c.Reports job file →
      ∃ download ∈ c.ledger.downloads, download.job = job ∧ file ∈ c.ledger.resolve download) ∧
    ((∀ download ∈ c.ledger.downloads, ∀ file ∈ c.ledger.resolve download,
        c.Reports download.job file) ↔
      ∀ download ∈ d.downloads, download.job ∈ d.jobs.map (·.name) ∨
        c.ledger.resolve (d.inheritNeeds download) = []) := by
  have done := compilesTo_of_compile compiled
  refine ⟨fun download isDownload file => done.reports_iff isDownload, ?_, ?_⟩
  · intro job file reported
    obtain ⟨_, download, ofJob, brought⟩ := Compilation.reports_iff.1 reported
    obtain ⟨isDownload, own⟩ := Ledger.mem_downloadsOf.1 ofJob
    exact ⟨download, isDownload, own, brought⟩
  · constructor
    · intro all source isSource
      have isDownload : d.inheritNeeds source ∈ c.ledger.downloads :=
        done.recorded.downloads ▸ List.mem_map_of_mem isSource
      rw [← d.job_inheritNeeds source]
      exact (done.reports_all_iff isDownload).1 (all _ isDownload)
    · intro each download isDownload
      obtain ⟨source, isSource, rfl⟩ := List.mem_map.1 (done.recorded.downloads ▸ isDownload)
      refine (done.reports_all_iff isDownload).2 ?_
      rw [job_inheritNeeds]
      exact each source isSource

/-- A definition with two downloads of one artifact, by a job and by something that is none. -/
def strayDefinition : Definition where
  jobs := [{ name := "build" }, { name := "test", needs := ["build"] }]
  uploads := [{ name := "dist", paths := ["out/app"], job := "build" }]
  downloads := [{ path := "in", name := "dist", job := "test" },
    { path := "in", name := "dist", job := "deploy", dependsOn := ["build"] }]

def strayFile : ArtifactFile :=
  ⟨"dist", "out/app", "in/app", "build"⟩

/-- It compiles even in strict mode, as nothing is unresolved, but the report has only one of the
files. -/
theorem compile_stray :
    ∃ c, (strayDefinition.compile {} (some true) true).outcome = .ok c ∧
      c.Reports "test" strayFile ∧ ¬ c.Reports "deploy" strayFile ∧
      ∃ download ∈ c.ledger.downloads,
        download.job = "deploy" ∧ strayFile ∈ c.ledger.resolve download := by
  have seen : (strayDefinition.compile {} (some true) true).outcome.toOption.map (fun c =>
      (c.files, c.ledger.downloads.map fun download => (download.job, c.ledger.resolve download))) =
        some ([("test", [strayFile])], [("test", [strayFile]), ("deploy", [strayFile])]) := by
    decide +kernel
  cases compiled : (strayDefinition.compile {} (some true) true).outcome with
  | error e =>
    rw [compiled] at seen
    cases seen
  | ok c =>
    rw [compiled] at seen
    obtain ⟨files, downloads⟩ := Prod.mk.inj (Option.some.inj seen)
    have listed : ("deploy", [strayFile]) ∈
        c.ledger.downloads.map fun download => (download.job, c.ledger.resolve download) := by
      rw [downloads]
      decide
    obtain ⟨download, isDownload, same⟩ := List.mem_map.1 listed
    obtain ⟨own, brings⟩ := Prod.mk.inj same
    refine ⟨c, rfl, ⟨[strayFile], by simp [files]⟩, ?_, download, isDownload, own, by simp [brings]⟩
    rintro ⟨_, isEntry, _⟩
    simp [files] at isEntry

theorem report_complete_stray :
    ∃ c, (strayDefinition.compile {} (some true) true).outcome = .ok c ∧
      (∀ download ∈ c.ledger.downloads, ∀ file ∈ c.ledger.resolve download,
        (c.Reports download.job file ↔ download.job ∈ strayDefinition.jobs.map (·.name))) ∧
      (∀ job file, c.Reports job file →
        ∃ download ∈ c.ledger.downloads, download.job = job ∧ file ∈ c.ledger.resolve download) ∧
      ((∀ download ∈ c.ledger.downloads, ∀ file ∈ c.ledger.resolve download,
          c.Reports download.job file) ↔
        ∀ download ∈ strayDefinition.downloads,
          download.job ∈ strayDefinition.jobs.map (·.name) ∨
            c.ledger.resolve (strayDefinition.inheritNeeds download) = []) ∧
      c.Reports "test" strayFile ∧ ¬ c.Reports "deploy" strayFile := by
  obtain ⟨c, compiled, ofTest, notOfDeploy, _⟩ := compile_stray
  obtain ⟨each, only, complete⟩ := report_complete_iff compiled
  exact ⟨c, compiled, each, only, complete, ofTest, notOfDeploy⟩

/-- A file of a download that belongs to no job is not reported. -/
theorem report_not_always_complete :
    ¬ ∀ (d : Definition) (settings : Settings) (strict : Option Bool) (failOnUnresolved : Bool)
        (c : Compilation), (d.compile settings strict failOnUnresolved).outcome = .ok c →
      ∀ download ∈ c.ledger.downloads, ∀ file ∈ c.ledger.resolve download,
        c.Reports download.job file := by
  intro complete
  obtain ⟨c, compiled, _, missing, download, isDownload, own, brought⟩ := compile_stray
  have reported := complete strayDefinition {} (some true) true c compiled download isDownload strayFile
    brought
  exact missing (own ▸ reported)

end Definition

end JobFlow
