import JobFlow.Proofs.Artifact.History
import JobFlow.Proofs.Artifact.Unresolved
import JobFlow.Proofs.Compilation.Outcome
import JobFlow.Proofs.JobGraph.StepNames
import JobFlow.Proofs.JobGraph.Validation

/-!
What compiles. A definition has to meet eight requirements, which are checked one after the other. When
all are met it compiles, and otherwise the error belongs to the first that is not. Seven of them are
about jobs and transfers; the last is that rendering can write all integers that the jobs show.
-/

set_option autoImplicit false

namespace JobFlow

/-- What a definition must have to compile. -/
inductive Requirement
  | properNames
  | knownNeeds
  | acyclicNeeds
  | distinctSteps
  | uploads
  | downloads
  | resolvedDownloads
  | writableIntegers
  deriving DecidableEq, Repr

def Requirement.inOrder : List Requirement :=
  [.properNames, .knownNeeds, .acyclicNeeds, .distinctSteps, .uploads, .downloads,
    .resolvedDownloads, .writableIntegers]

def CompileError.requirement : CompileError → Requirement
  | .graph .emptyName => .properNames
  | .graph (.duplicateJob _) => .properNames
  | .graph (.unknownDependency _ _) => .knownNeeds
  | .graph (.cycle _ _) => .acyclicNeeds
  | .duplicateStep _ => .distinctSteps
  | .upload _ => .uploads
  | .download _ => .downloads
  | .unresolved _ => .resolvedDownloads
  | .render _ => .writableIntegers

namespace Definition

variable {d : Definition}

def Needs (d : Definition) (name need : String) : Prop :=
  ∃ job ∈ d.jobs, job.name = name ∧ need ∈ job.needs

def transfers (d : Definition) (strict : Bool) : Ledger where
  strict := strict
  uploads := d.uploads.map Upload.placed
  downloads := d.downloads.map d.inheritNeeds

/-- Whether a definition meets a requirement. Downloads need not be resolved unless that is asked
for. -/
def Meets (d : Definition) (strict failOnUnresolved : Bool) : Requirement → Prop
  | .properNames => ProperNames d.jobs
  | .knownNeeds => ∀ job ∈ d.jobs, ∀ need ∈ job.needs, need ∈ d.jobs.map (·.name)
  | .acyclicNeeds => ¬ ∃ name, Relation.TransGen d.Needs name name
  | .distinctSteps => ∀ job ∈ d.jobs, job.DistinctSteps
  | .uploads => ∀ upload ∈ d.uploads, upload.WellFormed
  | .downloads => ∀ download ∈ d.downloads, download.WellFormed
  | .resolvedDownloads => failOnUnresolved = true →
      ∀ download ∈ (d.transfers strict).downloads, (d.transfers strict).check download = .ok ()
  | .writableIntegers => ∀ job ∈ d.jobs, ∀ value ∈ job.shownValues, ∀ n ∈ value.integers,
      (Nat.toDigits 10 n.natAbs).length ≤ Text.digitLimit

def FirstUnmet (d : Definition) (strict failOnUnresolved : Bool) (r : Requirement) : Prop :=
  ∃ before after, Requirement.inOrder = before ++ r :: after ∧
    (∀ earlier ∈ before, d.Meets strict failOnUnresolved earlier) ∧
    ¬ d.Meets strict failOnUnresolved r

/-- There is at most one first unmet requirement, as those before it are met. -/
theorem FirstUnmet.unique {strict failOnUnresolved : Bool} {r r' : Requirement}
    (first : d.FirstUnmet strict failOnUnresolved r)
    (first' : d.FirstUnmet strict failOnUnresolved r') : r = r' := by
  obtain ⟨before, after, place, met, unmet⟩ := first
  obtain ⟨before', after', place', met', unmet'⟩ := first'
  rcases List.append_eq_append_iff.1 (place.symm.trans place') with
    ⟨between, isBefore', rest⟩ | ⟨between, isBefore, rest⟩
  · rcases List.cons_eq_append_iff.1 rest with ⟨_, same⟩ | ⟨others, isBetween, _⟩
    · exact (List.cons.inj same).1.symm
    · exact absurd (met' r (by simp [isBefore', isBetween])) unmet
  · rcases List.cons_eq_append_iff.1 rest with ⟨_, same⟩ | ⟨others, isBetween, _⟩
    · exact (List.cons.inj same).1
    · exact absurd (met r' (by simp [isBefore, isBetween])) unmet'

/-- What an error tells besides the requirement: an improper name is that of the first job that cannot
be registered, and there is one error for each download that fails. -/
def Explains (d : Definition) (strict : Bool) : CompileError → Prop
  | .graph .emptyName => FirstRefused d.jobs ""
  | .graph (.duplicateJob name) => name ≠ "" ∧ FirstRefused d.jobs name
  | .unresolved errors => (d.transfers strict).ListsFailing errors
  | _ => True

section stages

variable {g : JobGraph} {l : Ledger} {strict failOnUnresolved : Bool}

/-- A pass that records transfers ends at the first that is not well formed. -/
theorem foldlM_cases {α ρ : Type} {record : Ledger → α → Traced CompileError Ledger}
    {wellFormed : α → Prop} {put : Ledger → α → Ledger} {refusal : ρ → CompileError}
    (each : ∀ l item, (wellFormed item ∧ (record l item).outcome = .ok (put l item)) ∨
      (¬ wellFormed item ∧ ∃ reason, (record l item).outcome = .error (refusal reason)))
    (items : List α) (l : Ledger) :
    ((∀ item ∈ items, wellFormed item) ∧
        (items.foldlM record l).outcome = .ok (items.foldl put l)) ∨
      ((¬ ∀ item ∈ items, wellFormed item) ∧
        ∃ reason, (items.foldlM record l).outcome = .error (refusal reason)) := by
  induction items generalizing l with
  | nil => exact Or.inl ⟨fun _ none => absurd none List.not_mem_nil, rfl⟩
  | cons item rest ih =>
    rw [List.foldlM_cons, List.forall_mem_cons]
    rcases each l item with ⟨first, isNext⟩ | ⟨malformed, reason, refused⟩
    · rw [Traced.outcome_bind_of_ok isNext, List.foldl_cons]
      rcases ih (put l item) with ⟨others, recorded⟩ | ⟨malformed, refused⟩
      · exact Or.inl ⟨⟨first, others⟩, recorded⟩
      · exact Or.inr ⟨fun all => malformed all.2, refused⟩
    · rw [Traced.outcome_bind_of_error refused]
      exact Or.inr ⟨fun all => malformed all.1, reason, rfl⟩

/-- Uploads are recorded before downloads. -/
theorem ledger_cases (d : Definition) (strict failOnUnresolved : Bool) :
    (¬ d.Meets strict failOnUnresolved .uploads ∧
      ∃ reason, (d.ledger strict).outcome = .error (.upload reason)) ∨
    (d.Meets strict failOnUnresolved .uploads ∧ ¬ d.Meets strict failOnUnresolved .downloads ∧
      ∃ reason, (d.ledger strict).outcome = .error (.download reason)) ∨
    (d.Meets strict failOnUnresolved .uploads ∧ d.Meets strict failOnUnresolved .downloads ∧
      ∃ l, (d.ledger strict).outcome = .ok l) := by
  unfold ledger
  rcases foldlM_cases recordUpload_cases d.uploads { strict } with
    ⟨uploads, first⟩ | ⟨malformed, reason, refused⟩
  · rw [Traced.outcome_bind_of_ok first]
    rcases foldlM_cases d.recordDownload_cases d.downloads _ with
      ⟨downloads, second⟩ | ⟨malformed, refused⟩
    · exact Or.inr (Or.inr ⟨uploads, downloads, _, second⟩)
    · exact Or.inr (Or.inl ⟨uploads, malformed, refused⟩)
  · rw [Traced.outcome_bind_of_error refused]
    exact Or.inl ⟨malformed, reason, rfl⟩

end stages

/-- A verdict on a definition: success when all requirements are met, and otherwise an error about the
first that is not. -/
def Verdict {α : Type} (d : Definition) (strict failOnUnresolved : Bool)
    (outcome : Except CompileError α) : Prop :=
  ((∀ r, d.Meets strict failOnUnresolved r) ∧ ∃ c, outcome = .ok c) ∨
    ∃ e, outcome = .error e ∧ d.FirstUnmet strict failOnUnresolved e.requirement ∧ d.Explains strict e

section verdict

variable {α : Type} {strict failOnUnresolved : Bool} {outcome : Except CompileError α}

theorem Verdict.error {e : CompileError} (verdict : d.Verdict strict failOnUnresolved outcome)
    (refused : outcome = .error e) :
    d.FirstUnmet strict failOnUnresolved e.requirement ∧ d.Explains strict e := by
  rcases verdict with ⟨_, c, done⟩ | ⟨other, same, first⟩
  · cases done.symm.trans refused
  · cases same.symm.trans refused
    exact first

end verdict

end Definition

end JobFlow
