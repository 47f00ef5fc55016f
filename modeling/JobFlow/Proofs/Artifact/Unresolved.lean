import Mathlib.Data.List.Forall2
import JobFlow.Proofs.Artifact.Lookup

/-!
The list of unresolved downloads. It has one error for each recorded download that fails its check, by
job name and then in recording order; and it is empty exactly when all downloads pass.
-/

set_option autoImplicit false

namespace JobFlow.Ledger

variable {l : Ledger}

/-- The downloads that fail their check, by job name and then in recording order, each with the error
of its check. -/
def ListsFailing (l : Ledger) (errors : List Unresolved) : Prop :=
  ∃ failing : List Download,
    List.Forall₂ (fun download e => l.check download = .error e) failing errors ∧
    (failing.Pairwise fun a b => a.job ≤ b.job) ∧
    ∀ job, failing.filter (·.job == job) =
      (l.downloadsOf job).filter fun download => !(l.check download).isOk

end JobFlow.Ledger
