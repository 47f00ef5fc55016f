import JobFlow.Job.Render
import JobFlow.Proofs.Yaml.Scalar

/-!
How the texts of a job and of its steps are written down. The name that a job shows stands in its line as
it is, so it is read back exactly when it is a plain scalar. The other one-line texts become scalars first.
-/

set_option autoImplicit false

namespace JobFlow

open Yaml

variable {indent key k name id condition : String} {value : Scalar} {values : Mapping Scalar}

theorem Mapping.isEmpty_of_mem (isEntry : (k, value) ∈ values.entries) : values.isEmpty = false := by
  simpa [Mapping.isEmpty] using List.ne_nil_of_mem isEntry

namespace Yaml

theorem hasTextField_lineMapping (isEntry : (k, value) ∈ values.entries) :
    HasTextField (lineMapping indent key values) (indent ++ "  ") k value.plain := by
  rw [hasTextField_iff, lineMapping]
  exact List.mem_cons_of_mem _ (List.mem_map.2 ⟨_, (values.sorted_perm.mem_iff).2 isEntry, rfl⟩)

theorem hasTextField_blockMapping (isEntry : (k, value) ∈ values.entries)
    (single : Text.isMultiline value.plain = false) :
    HasTextField (blockMapping indent key values) (indent ++ "  ") k value.plain := by
  rw [hasTextField_iff, blockMapping]
  refine List.mem_cons_of_mem _ (List.mem_flatMap.2 ⟨_, (values.sorted_perm.mem_iff).2 isEntry, ?_⟩)
  simp [valueField, single]

end Yaml

namespace Step

theorem hasTextField_name : HasTextField (opening name id condition) itemIndent "- name" name := by
  simp [hasTextField_iff, opening]

theorem hasTextField_condition (some : condition ≠ "") :
    HasTextField (opening name id condition) fieldIndent "if" condition := by
  simp [hasTextField_iff, opening, some]

end Step

namespace Job

variable {job : Job} {settings : Settings}

theorem hasTextField_condition (some : job.condition ≠ "")
    (single : Text.isMultiline job.condition = false)
    (short : (job.condition.length : Int) ≤ settings.maxExpressionLength) :
    HasTextField (job.headLines settings) Job.indent "if" job.condition := by
  simp [hasTextField_iff, headLines, conditionLines, some, single, short]

theorem mem_mappingLines (isEntry : (k, value) ∈ values.entries) :
    entry (Job.indent ++ "  ") k (scalar value.plain) ∈ mappingLines key values := by
  rw [mappingLines, Mapping.isEmpty_of_mem isEntry]
  exact (hasTextField_lineMapping isEntry).1

theorem hasTextField_env (isEntry : (k, value) ∈ job.env.entries) :
    HasTextField (job.headLines settings) (Job.indent ++ "  ") k value.plain := by
  simp [hasTextField_iff, headLines, mem_mappingLines isEntry]

theorem hasTextField_outputs (isEntry : (k, value) ∈ job.outputs.entries) :
    HasTextField (job.headLines settings) (Job.indent ++ "  ") k value.plain := by
  simp [hasTextField_iff, headLines, mem_mappingLines isEntry]

/-- The name that a job shows has the second line of the job to itself. -/
theorem headLines_of_named (named : job.displayName ≠ "") (settings : Settings) :
    ∃ others, job.headLines settings =
      header "  " job.name :: entry Job.indent "name" job.displayName :: others := by
  simp [headLines, named]

/-- The shown name of a job is read back from its line exactly when it is a plain scalar. The other
one-line texts of jobs and steps are written as scalars: names of steps, conditions, and the values of
environment variables and outputs. -/
theorem name_readBack_iff (named : job.displayName ≠ "") (oneLine : OneLine job.displayName.toList)
    (settings : Settings) :
    (∃ line rest, (job.headLines settings)[1]? = some line ∧
      job.render settings = header "  " job.name ++ "\n" ++ line ++ "\n" ++ rest ∧
      (readField? Job.indent "name" line = some job.displayName ↔ IsPlain job.displayName.toList)) ∧
    (∀ k value, (k, value) ∈ job.env.entries ∨ (k, value) ∈ job.outputs.entries →
      HasTextField (job.headLines settings) (Job.indent ++ "  ") k value.plain) ∧
    (job.condition ≠ "" → Text.isMultiline job.condition = false →
      (job.condition.length : Int) ≤ settings.maxExpressionLength →
      HasTextField (job.headLines settings) Job.indent "if" job.condition) ∧
    (∀ name id condition, HasTextField (Step.opening name id condition) Step.itemIndent "- name" name ∧
      (condition ≠ "" → HasTextField (Step.opening name id condition) Step.fieldIndent "if" condition)) ∧
    (∀ key values k value, (k, value) ∈ values.entries → Text.isMultiline value.plain = false →
      HasTextField (Step.optionalMapping key values) (Step.fieldIndent ++ "  ") k value.plain) := by
  refine ⟨?_, ?_, hasTextField_condition, ?_, ?_⟩
  · obtain ⟨others, split⟩ := headLines_of_named named settings
    refine ⟨_, Text.unlines others ++ job.stepsText ++ "\n", by rw [split]; rfl, ?_, ?_⟩
    · simp [render, split, Text.unlines_cons, String.append_assoc]
    · rw [readField?_entry_eq_some_iff, readScalar?_eq_self_iff]
      exact and_iff_right oneLine
  · rintro k value (isEntry | isEntry)
    · exact hasTextField_env isEntry
    · exact hasTextField_outputs isEntry
  · exact fun name id condition => ⟨Step.hasTextField_name, Step.hasTextField_condition⟩
  · intro key values k value isEntry single
    rw [Step.optionalMapping, Mapping.isEmpty_of_mem isEntry]
    exact hasTextField_blockMapping isEntry single

/-- A job whose shown name holds a colon that is followed by a space. -/
def staged : Job where
  name := "a"
  displayName := "Stage: build"

theorem not_isPlain_staged : ¬ IsPlain staged.displayName.toList := fun plain =>
  plain.noKey ' ' (by simp [whites]) ⟨"Stage".toList, "build".toList, rfl⟩

theorem name_readBack_iff_staged :
    staged.displayName ≠ "" ∧ OneLine staged.displayName.toList ∧ ¬ IsPlain staged.displayName.toList ∧
      ∃ line rest, (staged.headLines {})[1]? = some line ∧
        staged.render {} = header "  " "a" ++ "\n" ++ line ++ "\n" ++ rest ∧
        readField? Job.indent "name" line ≠ some "Stage: build" := by
  have named : staged.displayName ≠ "" := by decide
  have oneLine : OneLine staged.displayName.toList := by decide
  obtain ⟨⟨line, rest, isSecond, written, reads⟩, _⟩ := name_readBack_iff named oneLine {}
  exact ⟨named, oneLine, not_isPlain_staged, line, rest, isSecond, written, mt reads.1 not_isPlain_staged⟩

/-- A shown name is not put in quotes when it needs them. -/
theorem name_not_always_readBack :
    ¬ ∀ (job : Job) (settings : Settings), job.displayName ≠ "" → OneLine job.displayName.toList →
      ∃ line, (job.headLines settings)[1]? = some line ∧
        readField? Job.indent "name" line = some job.displayName := by
  intro always
  obtain ⟨line, isSecond, read⟩ := always staged {} (by decide) (by decide)
  have written : line = entry Job.indent "name" staged.displayName := (Option.some.inj isSecond).symm
  rw [written, readField?_entry_eq_some_iff, readScalar?_eq_self_iff] at read
  exact not_isPlain_staged read.2

end Job

end JobFlow
