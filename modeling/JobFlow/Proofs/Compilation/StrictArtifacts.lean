import JobFlow.Proofs.Artifact.Lookup
import JobFlow.Proofs.Compilation.Outcome
import JobFlow.Proofs.JobGraph.Stages

/-!
Strict artifacts. The downloads of a collected definition belong to its jobs and depend on what those
need, and compilation does not change that. So with strict artifacts a job brings only files that the
jobs it needs have uploaded, and those run before it.
-/

set_option autoImplicit false

namespace JobFlow

namespace Definition

variable {d : Definition}

/-- Every download belongs to a job and depends on what that job needs. -/
def Wired (d : Definition) : Prop :=
  ∀ download ∈ d.downloads, ∃ job ∈ d.jobs, download.job = job.name ∧ download.dependsOn = job.needs

theorem wired_of_entry {entry : Entry} (h : entry.definition = .ok d) : d.Wired := by
  cases entry with
  | job finished =>
    cases h
    exact fun _ none => by cases none
  | draft sketch =>
    simp only [Entry.definition] at h
    split at h
    · next built isBuilt =>
      cases h
      obtain ⟨name, needs⟩ := JobDraft.needs_of_build isBuilt
      intro download isDownload
      obtain ⟨own, late⟩ := JobDraft.job_of_mem_downloads isDownload
      exact ⟨built, List.mem_singleton.2 rfl, own.trans name.symm, late.trans needs.symm⟩
    · cases h
  | other value => cases h

theorem Wired.append {a b : Definition} (first : a.Wired) (second : b.Wired) :
    (a.append b).Wired := by
  intro download isDownload
  rcases List.mem_append.1 isDownload with inFirst | inSecond
  · obtain ⟨job, isJob, wired⟩ := first download inFirst
    exact ⟨job, List.mem_append_left _ isJob, wired⟩
  · obtain ⟨job, isJob, wired⟩ := second download inSecond
    exact ⟨job, List.mem_append_right _ isJob, wired⟩

theorem wired_foldl {parts : List Definition} (start : d.Wired) (all : ∀ part ∈ parts, part.Wired) :
    (parts.foldl append d).Wired := by
  induction parts generalizing d with
  | nil => exact start
  | cons part rest ih =>
    obtain ⟨first, others⟩ := List.forall_mem_cons.1 all
    exact ih (start.append first) others

/-- What is collected from finished jobs, drafts and lists of them is wired. -/
theorem wired_of_collect {items : List Item} (h : collect items = .ok d) : d.Wired := by
  obtain ⟨parts, areParts, h⟩ := bind_eq_ok.1 h
  cases h
  apply wired_foldl (fun _ none => absurd none List.not_mem_nil)
  intro part isPart
  obtain ⟨entry, _, isEntry⟩ := exists_of_mapM_eq_ok areParts isPart
  exact wired_of_entry isEntry

end Definition

/-- A file that a job running before uploaded: one of the jobs that `job` needs. -/
structure ArtifactFile.FromNeeds (d : Definition) (c : Compilation) (job : Job)
    (file : ArtifactFile) : Prop where
  needed : file.job ∈ job.needs
  registered : file.job ∈ c.graph.names
  earlier : c.order.idxOf file.job < c.order.idxOf job.name
  stage : JobGraph.stageOf c.stages file.job < JobGraph.stageOf c.stages job.name
  uploaded : ∃ upload ∈ d.uploads,
    upload.job = file.job ∧ upload.name = file.artifact ∧ file.uploadedPath ∈ upload.paths

theorem Compilation.mem_files {c : Compilation} {files : List ArtifactFile} {name : String}
    (h : (name, files) ∈ c.files) :
    files = (c.ledger.downloadsOf name).flatMap c.ledger.resolve := by
  obtain ⟨_, _, same⟩ := List.mem_map.1 h
  cases same
  rfl

namespace Definition.CompilesTo

variable {d : Definition} {c : Compilation} {strict failOnUnresolved : Bool} {job : Job}
  {download : Download} {file : ArtifactFile}

/-- The downloads of a job depend on what the job needs. -/
theorem dependsOn_eq (done : d.CompilesTo strict failOnUnresolved c) (wired : d.Wired)
    (isJob : job ∈ d.jobs) (isDownload : download ∈ c.ledger.downloadsOf job.name) :
    download.dependsOn = job.needs := by
  obtain ⟨recorded, ofJob⟩ := Ledger.mem_downloadsOf.1 isDownload
  rw [done.recorded.downloads] at recorded
  obtain ⟨source, isSource, rfl⟩ := List.mem_map.1 recorded
  obtain ⟨owner, isOwner, own, depends⟩ := wired source isSource
  rw [job_inheritNeeds] at ofJob
  have here := done.eq_of_name_eq isOwner isJob (own.symm.trans ofJob)
  unfold inheritNeeds
  split
  · show d.needsOf source.job = job.needs
    rw [ofJob, done.needsOf_eq isJob]
  · rw [depends, here]

/-- With strict artifacts, a download of a job brings only files from the jobs that it needs. -/
theorem fromNeeds (done : d.CompilesTo true failOnUnresolved c) (wired : d.Wired)
    (isJob : job ∈ d.jobs) (isDownload : download ∈ c.ledger.downloadsOf job.name)
    (brought : file ∈ c.ledger.resolve download) : file.FromNeeds d c job := by
  obtain ⟨known, ranked⟩ := JobGraph.ranked_of_validate done.valid
  have inGraph : job ∈ c.graph.jobs := done.jobs.mem_iff.2 isJob
  obtain ⟨upload, isBrought, name, owner, path⟩ := Ledger.upload_of_mem_resolve brought
  obtain ⟨isUpload, ofScope⟩ := Ledger.mem_of_retrieved isBrought
  rw [done.recorded.uploads] at isUpload
  obtain ⟨source, isSource, rfl⟩ := List.mem_map.1 isUpload
  have needed : file.job ∈ job.needs := by
    rw [← owner, ← done.dependsOn_eq wired isJob isDownload]
    exact ofScope done.recorded.strict
  constructor
  · exact needed
  · exact known job inGraph _ needed
  · rw [done.order]
    exact (JobGraph.isOrder_order known ranked).before job inGraph _ needed
  · rw [done.stages]
    exact (JobGraph.earliest_stages known ranked).after job inGraph _ needed
  · exact ⟨source, isSource, owner, name, path⟩

/-- When unresolved downloads are an error, every recorded download brings a file. -/
theorem exists_file (done : d.CompilesTo strict true c)
    (isDownload : download ∈ c.ledger.downloads) : ∃ file, file ∈ c.ledger.resolve download := by
  have none : c.ledger.unresolved = [] := done.unresolved ▸ done.resolved rfl
  exact Ledger.exists_mem_resolve done.recorded.paths (done.recorded.wanted download isDownload)
    (Ledger.check_of_unresolved none isDownload)

end Definition.CompilesTo

/-- Strict artifacts: all files that a job downloads were uploaded by jobs that it needs, and those
come before it in the order and in the stages. When unresolved downloads are an error, every
download brings such a file. -/
theorem strict_files_fromNeeds {items : List Item} {d : Definition} {settings : Settings}
    {failOnUnresolved : Bool} {walk : NeedsWalk} {c : Compilation}
    (collected : Definition.collect items = .ok d)
    (compiled : (d.compile settings (some true) failOnUnresolved walk).outcome = .ok c) :
    ∀ job ∈ d.jobs,
      (∀ files, (job.name, files) ∈ c.files → ∀ file ∈ files, file.FromNeeds d c job) ∧
      (failOnUnresolved = true → ∀ download ∈ c.ledger.downloadsOf job.name,
        ∃ file ∈ c.ledger.resolve download, file.FromNeeds d c job) := by
  have wired := Definition.wired_of_collect collected
  have done : d.CompilesTo true failOnUnresolved c := Definition.compilesTo_of_compile compiled
  intro job isJob
  constructor
  · intro files isEntry file isFile
    rw [Compilation.mem_files isEntry] at isFile
    obtain ⟨download, isDownload, brought⟩ := List.mem_flatMap.1 isFile
    exact done.fromNeeds wired isJob isDownload brought
  · intro failing download isDownload
    subst failing
    obtain ⟨file, brought⟩ := done.exists_file (Ledger.mem_downloadsOf.1 isDownload).1
    exact ⟨file, brought, done.fromNeeds wired isJob isDownload brought⟩

/-- A job that uploads, and one that downloads before it says what it needs. -/
def relay : List Item :=
  [.entry (.draft (({ name := "build" } : JobDraft).upload
      { name := "dist", paths := ["out/app"] })),
    .entry (.draft ((({ name := "test" } : JobDraft).download
      { path := "in", pattern := "di*" }).dependOn ["build"]))]

def relayDefinition : Definition :=
  (Definition.collect relay).toOption.getD {}

def relayFiles : List (String × List ArtifactFile) :=
  [("test", [⟨"dist", "out/app", "in/dist/app", "build"⟩])]

theorem files_relay :
    (relayDefinition.compile {} (some true) true).outcome.toOption.map (·.files) =
      some relayFiles := by
  decide +kernel

theorem strict_files_relay :
    ∃ d c, Definition.collect relay = .ok d ∧
      (d.compile {} (some true) true).outcome = .ok c ∧ c.files = relayFiles ∧
      ∀ job ∈ d.jobs,
        (∀ files, (job.name, files) ∈ c.files → ∀ file ∈ files, file.FromNeeds d c job) ∧
        (true = true → ∀ download ∈ c.ledger.downloadsOf job.name,
          ∃ file ∈ c.ledger.resolve download, file.FromNeeds d c job) := by
  have collected : Definition.collect relay = .ok relayDefinition := rfl
  have files := files_relay
  cases compiled : (relayDefinition.compile {} (some true) true).outcome with
  | error e =>
    rw [compiled] at files
    cases files
  | ok c =>
    rw [compiled] at files
    exact ⟨relayDefinition, c, collected, compiled, Option.some.inj files,
      strict_files_fromNeeds collected compiled⟩

end JobFlow
