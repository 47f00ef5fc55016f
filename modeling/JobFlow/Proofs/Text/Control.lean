import Mathlib.Data.List.Infix
import Mathlib.Data.List.TakeWhile
import JobFlow.Text.Control

/-!
Texts that hold control sequences. A control sequence is recognised wherever it stands, so a text is kept as
it is exactly when it holds none.
-/

set_option autoImplicit false

namespace JobFlow.Text

variable {cs after sequence : List Char} {c : Char}

theorem IsControl.ne_nil (isControl : IsControl sequence) : sequence ≠ [] := by
  obtain ⟨parameters, letter, rfl, _⟩ := isControl
  exact List.cons_ne_nil _ _

end JobFlow.Text
