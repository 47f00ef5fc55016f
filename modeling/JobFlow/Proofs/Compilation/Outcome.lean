import JobFlow.Compilation
import JobFlow.Proofs.Artifact.History
import JobFlow.Proofs.JobGraph.Registration
import JobFlow.Proofs.JobGraph.Stages

/-!
What a compilation that succeeds has done. Its graph holds the jobs of the definition, its ledger the
transfers in their order, and its order, stages and unresolved downloads belong to these two.
-/

set_option autoImplicit false

namespace JobFlow

/-- The record of an upload: the paths are placed. -/
def Upload.placed (upload : Upload) : Upload :=
  { upload with places := some (RunnerPath.places upload.paths) }

/-- An upload that is recorded for its own job keeps that job. -/
theorem Ledger.accept?_own {upload : Upload} (wellFormed : upload.WellFormed) :
    accept? upload.job upload = .ok upload.placed :=
  accept?_eq_ok.2 ⟨wellFormed, by rw [ite_self]; rfl⟩

/-- A download that is recorded for its own job stays as it is. -/
theorem Ledger.acceptDownload?_own {download : Download} (wellFormed : download.WellFormed) :
    acceptDownload? download.job download = .ok download :=
  acceptDownload?_eq_ok.2 ⟨wellFormed, by rw [ite_self]⟩

namespace Definition

variable {d : Definition} {l recorded : Ledger}

/-- A well-formed upload is put at the end of the uploads, and any other is refused. -/
theorem recordUpload_cases (l : Ledger) (upload : Upload) :
    (upload.WellFormed ∧ (recordUpload l upload).outcome =
        .ok { l with currentJob := upload.job, uploads := l.uploads ++ [upload.placed] }) ∨
      (¬ upload.WellFormed ∧ ∃ reason, (recordUpload l upload).outcome = .error (.upload reason)) := by
  have split : (recordUpload l upload).outcome =
      ((l.setCurrentJob upload.job).recordUpload upload).mapError .upload >>=
        fun recorded => .ok recorded.2 := by
    rw [recordUpload, Traced.outcome_bind_of_ok rfl, Traced.outcome_bind, Traced.outcome_mapError]
    rfl
  rw [split, Ledger.recordUpload, Ledger.setCurrentJob]
  rcases Ledger.accept?_cases upload.job upload with ⟨wellFormed, _⟩ | ⟨malformed, reason, refused⟩
  · rw [Ledger.accept?_own wellFormed]
    exact Or.inl ⟨wellFormed, rfl⟩
  · rw [refused]
    exact Or.inr ⟨malformed, reason, rfl⟩

/-- A recorded upload has a path and stands at the end of the uploads. -/
theorem recordUpload_eq_ok {upload : Upload}
    (h : (recordUpload l upload).outcome = .ok recorded) :
    upload.paths ≠ [] ∧
      recorded = { l with currentJob := upload.job, uploads := l.uploads ++ [upload.placed] } := by
  rcases recordUpload_cases l upload with ⟨wellFormed, isRecorded⟩ | ⟨_, _, refused⟩
  · cases isRecorded.symm.trans h
    exact ⟨wellFormed.2, rfl⟩
  · cases refused.symm.trans h

theorem job_inheritNeeds (d : Definition) (download : Download) :
    (d.inheritNeeds download).job = download.job := by
  unfold inheritNeeds
  split <;> rfl

theorem wellFormed_inheritNeeds {download : Download} :
    (d.inheritNeeds download).WellFormed ↔ download.WellFormed := by
  unfold inheritNeeds
  split <;> rfl

/-- A well-formed download is put at the end of the downloads with the jobs that it depends on, and any
other is refused. -/
theorem recordDownload_cases (l : Ledger) (download : Download) :
    (download.WellFormed ∧ (d.recordDownload l download).outcome = .ok { l with
        currentJob := download.job, downloads := l.downloads ++ [d.inheritNeeds download] }) ∨
      (¬ download.WellFormed ∧
        ∃ reason, (d.recordDownload l download).outcome = .error (.download reason)) := by
  have split : (d.recordDownload l download).outcome =
      ((l.setCurrentJob download.job).recordDownload (d.inheritNeeds download)).mapError .download >>=
        fun recorded => .ok recorded.2 := by
    rw [recordDownload, Traced.outcome_bind_of_ok rfl, Traced.outcome_bind, Traced.outcome_mapError]
    rfl
  rw [split, Ledger.recordDownload, ← wellFormed_inheritNeeds (d := d),
    ← d.job_inheritNeeds download, Ledger.setCurrentJob]
  rcases Ledger.acceptDownload?_cases (d.inheritNeeds download).job (d.inheritNeeds download) with
    ⟨wellFormed, _⟩ | ⟨malformed, reason, refused⟩
  · rw [Ledger.acceptDownload?_own wellFormed]
    exact Or.inl ⟨wellFormed, rfl⟩
  · rw [refused]
    exact Or.inr ⟨malformed, reason, rfl⟩

/-- A recorded download looks for something and stands at the end of the downloads. -/
theorem recordDownload_eq_ok {download : Download}
    (h : (d.recordDownload l download).outcome = .ok recorded) :
    ((d.inheritNeeds download).name ≠ "" ∨ (d.inheritNeeds download).pattern ≠ "") ∧
      recorded = { l with
        currentJob := download.job, downloads := l.downloads ++ [d.inheritNeeds download] } := by
  rcases d.recordDownload_cases l download with ⟨wellFormed, isRecorded⟩ | ⟨_, _, refused⟩
  · cases isRecorded.symm.trans h
    exact ⟨(wellFormed_inheritNeeds.2 wellFormed).1, rfl⟩
  · cases refused.symm.trans h

/-- Uploads are recorded in their order, and all have paths. -/
theorem recordUploads_eq_ok {uploads : List Upload}
    (h : (uploads.foldlM recordUpload l).outcome = .ok recorded) :
    (∀ upload ∈ uploads, upload.paths ≠ []) ∧
      recorded.uploads = l.uploads ++ uploads.map Upload.placed ∧
      recorded.downloads = l.downloads ∧ recorded.strict = l.strict := by
  induction uploads generalizing l with
  | nil =>
    cases h
    simp
  | cons upload rest ih =>
    rw [List.foldlM_cons] at h
    obtain ⟨next, isNext, more⟩ := Traced.outcome_bind_eq_ok.1 h
    obtain ⟨some, rfl⟩ := recordUpload_eq_ok isNext
    obtain ⟨others, uploads, downloads, strict⟩ := ih more
    refine ⟨List.forall_mem_cons.2 ⟨some, others⟩, ?_, downloads, strict⟩
    simp [uploads]

/-- Downloads are recorded in their order with the jobs that they depend on, and all look for
something. -/
theorem recordDownloads_eq_ok {downloads : List Download}
    (h : (downloads.foldlM d.recordDownload l).outcome = .ok recorded) :
    (∀ download ∈ downloads.map d.inheritNeeds, download.name ≠ "" ∨ download.pattern ≠ "") ∧
      recorded.downloads = l.downloads ++ downloads.map d.inheritNeeds ∧
      recorded.uploads = l.uploads ∧ recorded.strict = l.strict := by
  induction downloads generalizing l with
  | nil =>
    cases h
    simp
  | cons download rest ih =>
    rw [List.foldlM_cons] at h
    obtain ⟨next, isNext, more⟩ := Traced.outcome_bind_eq_ok.1 h
    obtain ⟨some, rfl⟩ := recordDownload_eq_ok isNext
    obtain ⟨others, downloads, uploads, strict⟩ := ih more
    refine ⟨List.forall_mem_cons.2 ⟨some, others⟩, ?_, uploads, strict⟩
    simp [downloads]

structure Recorded (d : Definition) (strict : Bool) (l : Ledger) : Prop where
  strict : l.strict = strict
  uploads : l.uploads = d.uploads.map Upload.placed
  downloads : l.downloads = d.downloads.map d.inheritNeeds
  paths : ∀ upload ∈ l.uploads, upload.paths ≠ []
  wanted : ∀ download ∈ l.downloads, download.name ≠ "" ∨ download.pattern ≠ ""

theorem recorded_of_ledger {strict : Bool} (h : (d.ledger strict).outcome = .ok l) :
    d.Recorded strict l := by
  obtain ⟨first, isFirst, second⟩ := Traced.outcome_bind_eq_ok.1 h
  obtain ⟨paths, uploads, none, isStrict⟩ := recordUploads_eq_ok isFirst
  obtain ⟨wanted, downloads, same, alsoStrict⟩ := recordDownloads_eq_ok second
  rw [none, List.nil_append] at downloads
  rw [uploads, List.nil_append] at same
  refine ⟨alsoStrict.trans isStrict, same, downloads, ?_, downloads ▸ wanted⟩
  rw [same]
  exact List.forall_mem_map.2 paths

/-- What a compilation comes to when its graph is valid and its transfers are recorded: only unresolved
downloads and values that cannot be written can still make it fail. -/
def conclusion (settings : Settings) (failOnUnresolved : Bool) (walk : NeedsWalk) (g : JobGraph)
    (l : Ledger) : Except CompileError Compilation :=
  if failOnUnresolved && !l.unresolved.isEmpty then .error (.unresolved l.unresolved)
  else (g.render? settings).mapError .render >>= fun text =>
    .ok ⟨g, l, g.order, g.stages walk, text, l.unresolved⟩

/-- Once the jobs are registered, a compilation is made of its checks and its conclusion. -/
theorem outcome_compile {settings : Settings} {strict : Option Bool} {failOnUnresolved : Bool}
    {walk : NeedsWalk} {g : JobGraph} (isGraph : (JobGraph.empty.tracedAddAll d.jobs).outcome = .ok g) :
    (d.compile settings strict failOnUnresolved walk).outcome =
      (g.validate.mapError .graph >>= fun _ =>
        g.checkSteps.mapError .duplicateStep >>= fun _ =>
          (d.ledger (strict.getD settings.strictArtifacts)).outcome >>=
            conclusion settings failOnUnresolved walk g) := by
  rw [compile, Traced.outcome_bind_of_ok (Traced.outcome_mapError_of_ok isGraph _)]
  cases valid : g.validate with
  | error fault => exact Traced.outcome_bind_of_error (Traced.outcome_mapError_of_error valid _) _
  | ok done =>
    have order : (g.tracedOrder.mapError CompileError.graph).outcome = .ok g.order :=
      Traced.outcome_mapError_of_ok (JobGraph.order?_of_valid valid) _
    have stages : ((g.tracedStages walk).mapError CompileError.graph).outcome = .ok (g.stages walk) :=
      Traced.outcome_mapError_of_ok (JobGraph.stages?_of_valid valid) _
    rw [Traced.outcome_bind_of_ok (Traced.outcome_mapError_of_ok valid _), Traced.outcome_bind,
      Traced.outcome_mapError]
    refine congrArg (g.checkSteps.mapError CompileError.duplicateStep >>= ·) (funext fun _ => ?_)
    rw [Traced.outcome_bind]
    refine congrArg ((d.ledger (strict.getD settings.strictArtifacts)).outcome >>= ·)
      (funext fun l => ?_)
    rw [Traced.outcome_bind_of_ok (show l.tracedUnresolved.outcome = .ok l.unresolved from rfl),
      conclusion]
    split
    · rfl
    · rw [Traced.outcome_bind_of_ok order, Traced.outcome_bind_of_ok stages,
        Traced.outcome_bind_of_ok rfl, Traced.outcome_bind, Traced.outcome_mapError]
      rfl

structure CompilesTo (d : Definition) (strict failOnUnresolved : Bool) (c : Compilation) : Prop where
  jobs : c.graph.jobs.Perm d.jobs
  valid : c.graph.validate = .ok ()
  recorded : d.Recorded strict c.ledger
  order : c.order = c.graph.order
  stages : c.stages = c.graph.stages
  unresolved : c.unresolved = c.ledger.unresolved
  resolved : failOnUnresolved = true → c.unresolved = []

theorem compilesTo_of_compile {settings : Settings} {strict : Option Bool}
    {failOnUnresolved : Bool} {walk : NeedsWalk} {c : Compilation}
    (h : (d.compile settings strict failOnUnresolved walk).outcome = .ok c) :
    d.CompilesTo (strict.getD settings.strictArtifacts) failOnUnresolved c := by
  obtain ⟨graph, isGraph, h⟩ := Traced.outcome_bind_eq_ok.1 h
  obtain ⟨_, isValid, h⟩ := Traced.outcome_bind_eq_ok.1 h
  obtain ⟨_, _, h⟩ := Traced.outcome_bind_eq_ok.1 h
  obtain ⟨ledger, isLedger, h⟩ := Traced.outcome_bind_eq_ok.1 h
  obtain ⟨unresolved, isUnresolved, h⟩ := Traced.outcome_bind_eq_ok.1 h
  have jobs := JobGraph.jobs_perm_of_tracedAddAll (Traced.outcome_mapError_eq_ok.1 isGraph)
  have valid : graph.validate = .ok () := Traced.outcome_mapError_eq_ok.1 isValid
  split at h
  · cases h
  · next passed =>
    obtain ⟨order, isOrder, h⟩ := Traced.outcome_bind_eq_ok.1 h
    obtain ⟨stages, isStages, h⟩ := Traced.outcome_bind_eq_ok.1 h
    obtain ⟨_, _, h⟩ := Traced.outcome_bind_eq_ok.1 h
    obtain ⟨_, _, h⟩ := Traced.outcome_bind_eq_ok.1 h
    have orderKnown : graph.order? = .ok order := Traced.outcome_mapError_eq_ok.1 isOrder
    have stagesKnown : graph.stages? walk = .ok stages := Traced.outcome_mapError_eq_ok.1 isStages
    rw [JobGraph.order?_of_valid valid] at orderKnown
    rw [JobGraph.stages?_of_valid valid] at stagesKnown
    cases orderKnown
    cases stagesKnown
    cases isUnresolved
    cases h
    refine ⟨by simpa [JobGraph.empty] using jobs, valid, recorded_of_ledger isLedger, rfl, ?_, rfl, ?_⟩
    · rw [JobGraph.stages_eq_allReady, JobGraph.stages_eq_allReady]
    · intro failing
      simpa [failing] using passed

section CompilesTo

variable {strict failOnUnresolved : Bool} {c : Compilation} {job : Job}

/-- In a definition that compiles, two jobs with one name are the same job. -/
theorem CompilesTo.eq_of_name_eq (done : d.CompilesTo strict failOnUnresolved c) {other : Job}
    (isJob : job ∈ d.jobs) (isOther : other ∈ d.jobs) (same : job.name = other.name) :
    job = other :=
  JobGraph.eq_of_name_eq (done.jobs.mem_iff.2 isJob) (done.jobs.mem_iff.2 isOther) same

theorem CompilesTo.needsOf_eq (done : d.CompilesTo strict failOnUnresolved c) (isJob : job ∈ d.jobs) :
    d.needsOf job.name = job.needs := by
  have distinct : (d.jobs.reverse.map (·.name)).Nodup :=
    ((done.jobs.trans d.jobs.reverse_perm.symm).map Job.name).nodup_iff.1 c.graph.nodup_names
  rw [needsOf, find?_eq_some_of_nodup distinct (List.mem_reverse.2 isJob)]
  rfl

end CompilesTo

end Definition

end JobFlow
