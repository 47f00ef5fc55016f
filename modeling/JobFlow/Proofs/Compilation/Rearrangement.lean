import JobFlow.Proofs.Artifact.Similarity
import JobFlow.Proofs.Compilation.Acceptance
import JobFlow.Proofs.JobGraph.Stages

/-!
Definitions in another order. The order in which jobs are listed makes no difference to a compilation,
nor does the way in which the transfers of different jobs are mixed. Only the order of the transfers of
one job counts.
-/

set_option autoImplicit false

namespace JobFlow

/-- Errors with the same contents. Of a transfer that is refused only its kind is known. -/
def CompileError.Alike : CompileError → CompileError → Prop
  | .upload _, .upload _ => True
  | .download _, .download _ => True
  | e, other => e = other

structure Compilation.Alike (c other : Compilation) : Prop where
  text : c.text = other.text
  order : c.order = other.order
  stages : c.stages = other.stages
  unresolved : c.unresolved = other.unresolved
  files : c.files = other.files

/-- Outcomes that cannot be told apart: both are results or both are errors, and these are alike. -/
def OutcomesAlike : Except CompileError Compilation → Except CompileError Compilation → Prop
  | .ok c, .ok other => c.Alike other
  | .error e, .error other => e.Alike other
  | _, _ => False

/-- Compilations that end with the same error. -/
theorem outcomesAlike_error (e : CompileError) : OutcomesAlike (.error e) (.error e) := by
  show e.Alike e
  cases e with
  | upload _ => exact trivial
  | download _ => exact trivial
  | graph _ => exact rfl
  | duplicateStep _ => exact rfl
  | unresolved _ => exact rfl
  | render _ => exact rfl

namespace Definition

/-- Two definitions with the same jobs, and with the same transfers of each job in the same order. -/
structure Rearranges (a b : Definition) : Prop where
  jobs : a.jobs.Perm b.jobs
  uploads : ∀ job, a.uploads.filter (·.job == job) = b.uploads.filter (·.job == job)
  downloads : ∀ job, a.downloads.filter (·.job == job) = b.downloads.filter (·.job == job)

namespace Rearranges

variable {a b : Definition}

theorem needsOf (rearranged : a.Rearranges b) (proper : ProperNames a.jobs) (name : String) :
    a.needsOf name = b.needsOf name := by
  have backwards : a.jobs.reverse.Perm b.jobs.reverse :=
    a.jobs.reverse_perm.trans (rearranged.jobs.trans b.jobs.reverse_perm.symm)
  rw [Definition.needsOf, find?_eq_of_perm backwards (proper.perm a.jobs.reverse_perm.symm).distinct,
    Definition.needsOf]

theorem inheritNeeds (rearranged : a.Rearranges b) (proper : ProperNames a.jobs) :
    a.inheritNeeds = b.inheritNeeds := by
  funext download
  rw [Definition.inheritNeeds, rearranged.needsOf proper, Definition.inheritNeeds]

/-- The ledgers differ only in how the transfers of different jobs are mixed. -/
theorem similar (rearranged : a.Rearranges b) (proper : ProperNames a.jobs) {strict : Bool}
    {k l : Ledger} (first : a.Recorded strict k) (second : b.Recorded strict l) : k.Similar l where
  strict := first.strict.trans second.strict.symm
  uploadsOf job := by
    have placed : (fun upload : Upload => upload.job == job) ∘ Upload.placed = (·.job == job) := rfl
    simp only [Ledger.uploadsOf, first.uploads, second.uploads, List.filter_map, placed,
      rearranged.uploads]
  downloadsOf job := by
    have inherited : (fun download : Download => download.job == job) ∘ b.inheritNeeds =
        (·.job == job) := by
      funext download
      rw [Function.comp, job_inheritNeeds]
    simp only [Ledger.downloadsOf, first.downloads, second.downloads, List.filter_map,
      rearranged.inheritNeeds proper, inherited, rearranged.downloads]

/-- Recording fails in both definitions for the same kind of transfer, or leads to similar ledgers. -/
theorem ledger_cases (rearranged : a.Rearranges b) (proper : ProperNames a.jobs) (strict : Bool) :
    (∃ reason other, (a.ledger strict).outcome = .error (.upload reason) ∧
      (b.ledger strict).outcome = .error (.upload other)) ∨
    (∃ reason other, (a.ledger strict).outcome = .error (.download reason) ∧
      (b.ledger strict).outcome = .error (.download other)) ∨
    ∃ k l, (a.ledger strict).outcome = .ok k ∧ (b.ledger strict).outcome = .ok l ∧ k.Similar l := by
  have uploads : a.Meets strict false .uploads ↔ b.Meets strict false .uploads := by
    simp only [Meets, mem_iff_of_filter_job Upload.job rearranged.uploads]
  have downloads : a.Meets strict false .downloads ↔ b.Meets strict false .downloads := by
    simp only [Meets, mem_iff_of_filter_job Download.job rearranged.downloads]
  have second := Definition.ledger_cases b strict false
  rw [← uploads, ← downloads] at second
  rcases Definition.ledger_cases a strict false with
    ⟨malformed, reason, refused⟩ | ⟨formed, malformed, reason, refused⟩ |
      ⟨formed, alsoFormed, k, isLedger⟩
  · rcases second with ⟨_, other, alsoRefused⟩ | ⟨formed, _⟩ | ⟨formed, _⟩
    · exact Or.inl ⟨reason, other, refused, alsoRefused⟩
    · exact absurd formed malformed
    · exact absurd formed malformed
  · rcases second with ⟨notFormed, _⟩ | ⟨_, _, other, alsoRefused⟩ | ⟨_, alsoFormed, _⟩
    · exact absurd formed notFormed
    · exact Or.inr (Or.inl ⟨reason, other, refused, alsoRefused⟩)
    · exact absurd alsoFormed malformed
  · rcases second with ⟨notFormed, _⟩ | ⟨_, notFormed, _⟩ | ⟨_, _, l, alsoLedger⟩
    · exact absurd formed notFormed
    · exact absurd alsoFormed notFormed
    · have same := rearranged.similar proper (recorded_of_ledger isLedger)
        (recorded_of_ledger alsoLedger)
      exact Or.inr (Or.inr ⟨k, l, isLedger, alsoLedger, same⟩)

end Rearranges

/-- All results are read off the graph and through lookups in the ledger, and the stages are those of
every walk. -/
theorem conclusion_alike {k l : Ledger} (similar : k.Similar l) (settings : Settings)
    (failOnUnresolved : Bool) (walk other : NeedsWalk) (g : JobGraph) :
    OutcomesAlike (conclusion settings failOnUnresolved walk g k)
      (conclusion settings failOnUnresolved other g l) := by
  unfold conclusion
  rw [similar.unresolved]
  split
  · exact outcomesAlike_error (.unresolved l.unresolved)
  · cases g.render? settings with
    | error e => exact outcomesAlike_error (.render e)
    | ok text =>
      exact
        { text := rfl
          order := rfl
          stages := by rw [g.stages_eq_allReady, g.stages_eq_allReady]
          unresolved := rfl
          files := by
            simp only [Compilation.files, similar.downloadsOf, funext similar.resolve] }

/-- A compilation does not depend on the order of the jobs, on how the transfers of different jobs are
mixed, or on the order in which the needs of a job are gone through. -/
theorem compile_rearranged {a b : Definition} (rearranged : a.Rearranges b)
    (proper : ProperNames a.jobs) (settings : Settings) (strict : Option Bool)
    (failOnUnresolved : Bool) (walk other : NeedsWalk) :
    OutcomesAlike (a.compile settings strict failOnUnresolved walk).outcome
      (b.compile settings strict failOnUnresolved other).outcome := by
  -- A graph stands by name, so both definitions have the same one, and only the ledgers can differ.
  obtain ⟨g, isGraph, jobs⟩ := JobGraph.exists_graph proper
  obtain ⟨h, alsoGraph, others⟩ := JobGraph.exists_graph (proper.perm rearranged.jobs)
  have same : g = h := JobGraph.eq_of_jobs_perm (jobs.trans (rearranged.jobs.trans others.symm))
  subst same
  rw [outcome_compile isGraph, outcome_compile alsoGraph]
  cases g.validate with
  | error fault => exact outcomesAlike_error (.graph fault)
  | ok valid =>
    cases g.checkSteps with
    | error duplicate => exact outcomesAlike_error (.duplicateStep duplicate)
    | ok checked =>
      rcases rearranged.ledger_cases proper (strict.getD settings.strictArtifacts) with
        ⟨_, _, first, second⟩ | ⟨_, _, first, second⟩ | ⟨k, l, first, second, similar⟩
      · rw [first, second]
        exact trivial
      · rw [first, second]
        exact trivial
      · rw [first, second]
        exact conclusion_alike similar settings failOnUnresolved walk other g

/-- Three jobs, of which two upload and two download. -/
def shipping : Definition where
  jobs := [{ name := "build" }, { name := "test", needs := ["build"] },
    { name := "ship", needs := ["test", "build"] }]
  uploads := [{ name := "dist", paths := ["out/app"], job := "build" },
    { name := "report", paths := ["out/report"], job := "test" }]
  downloads := [{ path := "in", name := "dist", job := "test" },
    { path := "in", pattern := "*", job := "ship" }]

def shippingReversed : Definition where
  jobs := shipping.jobs.reverse
  uploads := shipping.uploads.reverse
  downloads := shipping.downloads.reverse

def backwards : NeedsWalk where
  list job := (NeedsWalk.byName.list job).reverse
  nodup job := List.nodup_reverse.2 (NeedsWalk.byName.nodup job)
  mem_list job need := List.mem_reverse.trans (NeedsWalk.byName.mem_list job need)

theorem rearranges_shipping : shipping.Rearranges shippingReversed where
  jobs := (List.reverse_perm _).symm
  uploads job := by
    by_cases build : job = "build"
    · subst build
      rfl
    · simp [shipping, shippingReversed, List.filter_cons, Ne.symm build]
  downloads job := by
    by_cases test : job = "test"
    · subst test
      rfl
    · simp [shipping, shippingReversed, List.filter_cons, Ne.symm test]

theorem properNames_shipping : ProperNames shipping.jobs where
  named := by decide
  distinct := by decide

theorem compile_rearranged_shipping :
    shipping.Rearranges shippingReversed ∧ ProperNames shipping.jobs ∧
      OutcomesAlike (shipping.compile {} none true).outcome
        (shippingReversed.compile {} none true backwards).outcome ∧
      (shipping.compile {} none true).outcome.toOption.map (·.stages) =
        some [["build"], ["test"], ["ship"]] :=
  ⟨rearranges_shipping, properNames_shipping,
    compile_rearranged rearranges_shipping properNames_shipping {} none true .byName backwards,
    by decide +kernel⟩

end Definition

end JobFlow
