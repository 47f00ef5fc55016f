import JobFlow.Job.Render

/-!
The order in which entries were inserted does not show. A mapping is written with its entries by increasing
key, each once, in one place of the text, and several needs are written by name. So jobs and steps that
differ only in the order of their entries have the same text.
-/

set_option autoImplicit false

namespace JobFlow

namespace Mapping

variable {α : Type} {m other : Mapping α} {entries others : List (String × α)}

/-- The same entries, inserted in any order. -/
def SameEntries (m other : Mapping α) : Prop :=
  m.entries.Perm other.entries

/-- All entries of a mapping, each once, by increasing key. -/
structure ByKey (m : Mapping α) (entries : List (String × α)) : Prop where
  perm : entries.Perm m.entries
  increasing : entries.Pairwise fun a b => a.1 < b.1

theorem byKey_sorted (m : Mapping α) : m.ByKey m.sorted where
  perm := m.sorted_perm
  increasing := by
    have distinct : m.sorted.Pairwise fun a b => a.1 ≠ b.1 :=
      List.pairwise_map.1 ((m.sorted_perm.map Prod.fst).nodup_iff.2 m.nodup)
    refine (m.pairwise_sorted.and distinct).imp fun {a b} ordered => ?_
    exact Sorted.lt_of_not_lt_of_ne ordered.1 (Ne.symm ordered.2)

/-- Only one list has all entries by increasing key. -/
theorem ByKey.unique (listed : m.ByKey entries) (alsoListed : m.ByKey others) : entries = others := by
  have perm : entries.Perm others := listed.perm.trans alsoListed.perm.symm
  apply perm.eq_of_pairwise ?_ listed.increasing alsoListed.increasing
  intro a b _ _ less greater
  exact absurd greater (String.lt_asymm less)

theorem sorted_eq_nil_iff : m.sorted = [] ↔ m.isEmpty = true := by
  rw [isEmpty, List.isEmpty_iff]
  exact ⟨fun none => (none ▸ m.sorted_perm).nil_eq.symm, fun none => (none ▸ m.sorted_perm).eq_nil⟩

end Mapping

namespace Yaml

variable {indent key : String} {values others : Mapping Scalar}
  {field : List (String × Scalar) → List String} {text : Mapping Scalar → String}

/-- A mapping field with one line for each of these entries, left out when there are none. -/
def lineField (indent key : String) (entries : List (String × Scalar)) : List String :=
  if entries = [] then []
  else header indent key :: entries.map fun (k, value) =>
    entry (indent ++ "  ") k (scalar value.plain)

def blockField (indent key : String) (entries : List (String × Scalar)) : List String :=
  if entries = [] then []
  else header indent key :: entries.flatMap fun (k, value) =>
    valueField (indent ++ "  ") k value.plain

/-- The text shows the entries of a mapping in one place, as a field with each of them once, by increasing
key; nothing else in it depends on them. -/
def ShowsByKey (field : List (String × Scalar) → List String) (text : Mapping Scalar → String) : Prop :=
  ∃ before after, ∀ values, ∃ entries, values.ByKey entries ∧
    text values = before ++ Text.unlines (field entries) ++ after

/-- What is shown by key does not show the order of insertion. -/
theorem ShowsByKey.congr (shows : ShowsByKey field text) (same : values.SameEntries others) :
    text values = text others := by
  obtain ⟨before, after, shown⟩ := shows
  obtain ⟨entries, listed, here⟩ := shown values
  obtain ⟨otherEntries, otherListed, there⟩ := shown others
  have alsoListed : values.ByKey otherEntries :=
    ⟨otherListed.perm.trans same.symm, otherListed.increasing⟩
  rw [here, there, listed.unique alsoListed]

theorem showsByKey_of_lines (front back : List String) (rest : String)
    (whole : ∀ values : Mapping Scalar,
      text values = Text.unlines (front ++ field values.sorted ++ back) ++ rest) :
    ShowsByKey field text := by
  refine ⟨Text.unlines front, Text.unlines back ++ rest, fun values =>
    ⟨values.sorted, values.byKey_sorted, ?_⟩⟩
  rw [whole, Text.unlines_append, Text.unlines_append, String.append_assoc]

end Yaml

namespace Job

open Yaml

variable {settings : Settings} {job other : Job}

/-- The same job, with its needs and the entries of its mappings in another order. -/
structure Reorders (job other : Job) : Prop where
  needs : job.needs.Perm other.needs
  env : job.env.SameEntries other.env
  outputs : job.outputs.SameEntries other.outputs
  inputs : job.inputs.SameEntries other.inputs
  secrets : job.secrets.SameEntries other.secrets
  rest : other = { job with
    needs := other.needs, env := other.env, outputs := other.outputs, inputs := other.inputs
    secrets := other.secrets }

/-- The field of some needs, left out when there are none. A single one stands behind the key. -/
def needsField : List String → List String
  | [] => []
  | [need] => [entry indent "needs" need]
  | needs => header indent "needs" :: needs.map (indent ++ "  - " ++ ·)

/-- The text shows the needs in one place, by name and as often as they are listed; nothing else in it
depends on them. -/
def ShowsByName (text : List String → String) : Prop :=
  ∃ before after, ∀ needs, ∃ names, names.Perm needs ∧ (names.Pairwise fun a b => a ≤ b) ∧
    text needs = before ++ Text.unlines (needsField names) ++ after

/-- What is shown by name does not show the order of listing. -/
theorem ShowsByName.congr {text : List String → String} {needs others : List String}
    (shows : ShowsByName text) (same : needs.Perm others) : text needs = text others := by
  obtain ⟨before, after, shown⟩ := shows
  obtain ⟨names, perm, ordered, here⟩ := shown needs
  obtain ⟨otherNames, otherPerm, otherOrdered, there⟩ := shown others
  have sameNames : names.Perm otherNames := (perm.trans same).trans otherPerm.symm
  rw [here, there, sameNames.eq_of_pairwise (fun _ _ _ _ => String.le_antisymm) ordered otherOrdered]

def firstLines (job : Job) : List String :=
  [header "  " job.name] ++
    if job.displayName = "" then [] else [entry indent "name" job.displayName]

def plainLines (settings : Settings) (job : Job) : List String :=
  job.conditionLines settings ++
    job.fragments.flatMap (fun (key, value) =>
      if value = "" then [] else fragment indent key value) ++
    if 0 < job.timeoutMinutes then
      [entry indent "timeout-minutes" (Text.ofInt job.timeoutMinutes)] else []

def lastLines (job : Job) : List String :=
  if job.isCall then job.callLines
  else if job.steps.isEmpty then [] else [header indent "steps"]

theorem headLines_eq (settings : Settings) (job : Job) : job.headLines settings =
    job.firstLines ++ job.needsLines ++ job.plainLines settings ++ mappingLines "env" job.env ++
      mappingLines "outputs" job.outputs ++ job.lastLines := by
  simp only [headLines, firstLines, plainLines, lastLines, List.append_assoc]

theorem mappingLines_eq (key : String) (values : Mapping Scalar) :
    mappingLines key values = lineField indent key values.sorted := by
  simp only [mappingLines, lineField, Mapping.sorted_eq_nil_iff]
  rfl

/-- Several needs are listed by name. -/
theorem needsLines_eq (job : Job) : job.needsLines = needsField (Sorted.names job.needs) := by
  rw [needsLines]
  match job.needs with
  | [] => rfl
  | [_] => rfl
  | first :: second :: rest =>
    have length := (Sorted.names_perm (first :: second :: rest)).length_eq
    dsimp only
    cases names : Sorted.names (first :: second :: rest) with
    | nil => simp [names] at length
    | cons least others =>
      cases others with
      | nil => simp [names] at length
      | cons next others => rfl

theorem showsByName_needs (settings : Settings) (job : Job) :
    ShowsByName fun needs => ({ job with needs } : Job).render settings := by
  refine ⟨Text.unlines job.firstLines, Text.unlines (job.plainLines settings ++
    mappingLines "env" job.env ++ mappingLines "outputs" job.outputs ++ job.lastLines) ++
      job.stepsText ++ "\n", fun needs =>
    ⟨Sorted.names needs, Sorted.names_perm needs, Sorted.pairwise_names needs, ?_⟩⟩
  show ({ job with needs } : Job).render settings = _
  rw [render, headLines_eq, needsLines_eq]
  simp only [Text.unlines_append, String.append_assoc]
  rfl

theorem showsByKey_env (settings : Settings) (job : Job) :
    ShowsByKey (lineField indent "env") fun env => ({ job with env } : Job).render settings := by
  refine showsByKey_of_lines (job.firstLines ++ job.needsLines ++ job.plainLines settings)
    (mappingLines "outputs" job.outputs ++ job.lastLines) (job.stepsText ++ "\n") fun env => ?_
  rw [← mappingLines_eq, render, headLines_eq]
  simp only [List.append_assoc, String.append_assoc]
  rfl

theorem showsByKey_outputs (settings : Settings) (job : Job) :
    ShowsByKey (lineField indent "outputs") fun outputs =>
      ({ job with outputs } : Job).render settings := by
  refine showsByKey_of_lines (job.firstLines ++ job.needsLines ++ job.plainLines settings ++
    mappingLines "env" job.env) job.lastLines (job.stepsText ++ "\n") fun outputs => ?_
  rw [← mappingLines_eq, render, headLines_eq]
  simp only [List.append_assoc, String.append_assoc]
  rfl

def aboveCall (settings : Settings) (job : Job) : List String :=
  job.firstLines ++ job.needsLines ++ job.plainLines settings ++ mappingLines "env" job.env ++
    mappingLines "outputs" job.outputs ++ [entry indent "uses" job.uses]

theorem render_of_isCall (settings : Settings) (job : Job) (isCall : job.isCall = true) :
    job.render settings = Text.unlines (job.aboveCall settings ++ mappingLines "with" job.inputs ++
      mappingLines "secrets" job.secrets) ++ "\n" := by
  rw [render, headLines_eq, lastLines, if_pos isCall, callLines, stepsText, if_pos isCall, aboveCall]
  simp

/-- A job that makes a call shows what it hands over. -/
theorem showsByKey_inputs (settings : Settings) (job : Job) (isCall : job.isCall = true) :
    ShowsByKey (lineField indent "with") fun inputs =>
      ({ job with inputs } : Job).render settings := by
  refine showsByKey_of_lines (job.aboveCall settings) (mappingLines "secrets" job.secrets) "\n"
    fun inputs => ?_
  rw [← mappingLines_eq]
  exact render_of_isCall settings { job with inputs } isCall

theorem showsByKey_secrets (settings : Settings) (job : Job) (isCall : job.isCall = true) :
    ShowsByKey (lineField indent "secrets") fun secrets =>
      ({ job with secrets } : Job).render settings := by
  refine showsByKey_of_lines (job.aboveCall settings ++ mappingLines "with" job.inputs) [] "\n"
    fun secrets => ?_
  rw [← mappingLines_eq, List.append_nil]
  exact render_of_isCall settings { job with secrets } isCall

/-- A job with steps shows nothing that it would hand over. -/
theorem render_of_not_isCall (settings : Settings) (isCall : job.isCall = false)
    (inputs secrets : Mapping Scalar) :
    ({ job with inputs, secrets } : Job).render settings = job.render settings := by
  have also : ({ job with inputs, secrets } : Job).isCall = false := isCall
  rw [render, render, headLines_eq, headLines_eq, lastLines, lastLines, stepsText, stepsText, isCall,
    also]
  rfl

/-- Every entry of the needs and mappings of a job stands in its text once, in increasing order, and
nothing else in the text depends on them. What is handed to a call is shown by jobs that make one. -/
structure ShowsEntries (settings : Settings) (job : Job) : Prop where
  needs : ShowsByName fun needs => ({ job with needs } : Job).render settings
  env : ShowsByKey (lineField indent "env") fun env => ({ job with env } : Job).render settings
  outputs : ShowsByKey (lineField indent "outputs") fun outputs =>
    ({ job with outputs } : Job).render settings
  inputs : job.isCall = true → ShowsByKey (lineField indent "with") fun inputs =>
    ({ job with inputs } : Job).render settings
  secrets : job.isCall = true → ShowsByKey (lineField indent "secrets") fun secrets =>
    ({ job with secrets } : Job).render settings

theorem showsEntries (settings : Settings) (job : Job) : job.ShowsEntries settings where
  needs := showsByName_needs settings job
  env := showsByKey_env settings job
  outputs := showsByKey_outputs settings job
  inputs := showsByKey_inputs settings job
  secrets := showsByKey_secrets settings job

/-- One collection after the other is put in the order of the other job. -/
theorem Reorders.render_eq (reorders : job.Reorders other) (settings : Settings) :
    job.render settings = other.render settings := by
  let ordered : Job := { job with
    needs := other.needs, env := other.env, outputs := other.outputs }
  let handing : Job := { ordered with inputs := other.inputs }
  have handed : ordered.render settings =
      ({ handing with secrets := other.secrets } : Job).render settings := by
    cases isCall : ordered.isCall with
    | true =>
      have inputs : ordered.render settings = handing.render settings :=
        (showsByKey_inputs settings ordered isCall).congr reorders.inputs
      exact inputs.trans ((showsByKey_secrets settings handing isCall).congr reorders.secrets)
    | false => exact (render_of_not_isCall settings isCall other.inputs other.secrets).symm
  calc job.render settings
    _ = ({ job with needs := other.needs } : Job).render settings :=
      (showsByName_needs settings job).congr reorders.needs
    _ = ({ job with needs := other.needs, env := other.env } : Job).render settings :=
      (showsByKey_env settings { job with needs := other.needs }).congr reorders.env
    _ = ordered.render settings :=
      (showsByKey_outputs settings { job with needs := other.needs, env := other.env }).congr
        reorders.outputs
    _ = ({ handing with secrets := other.secrets } : Job).render settings := handed
    _ = other.render settings := by
      rw [reorders.rest]

end Job

section steps

open Yaml

theorem Step.optionalMapping_eq (key : String) (values : Mapping Scalar) :
    optionalMapping key values = blockField fieldIndent key values.sorted := by
  simp only [optionalMapping, blockField, Mapping.sorted_eq_nil_iff]
  rfl

structure CommandStep.Reorders (step other : CommandStep) : Prop where
  environment : step.environment.SameEntries other.environment
  rest : other = { step with environment := other.environment }

structure ActionStep.Reorders (step other : ActionStep) : Prop where
  inputs : step.inputs.SameEntries other.inputs
  rest : other = { step with inputs := other.inputs }

theorem CommandStep.showsByKey_environment (step : CommandStep) :
    ShowsByKey (blockField Step.fieldIndent "env") fun environment =>
      (Step.command { step with environment }).text := by
  refine showsByKey_of_lines (Step.opening step.name step.id step.condition ++
      (if step.workingDirectory = "" then []
       else [entry Step.fieldIndent "working-directory" (scalar step.workingDirectory)]))
    (valueField Step.fieldIndent "run" step.command) "" fun environment => ?_
  rw [← Step.optionalMapping_eq, String.append_empty]
  rfl

theorem ActionStep.showsByKey_inputs (step : ActionStep) :
    ShowsByKey (blockField Step.fieldIndent "with") fun inputs =>
      (Step.action { step with inputs }).text := by
  refine showsByKey_of_lines (Step.opening step.name step.id step.condition ++
    [entry Step.fieldIndent "uses" step.action]) [] "" fun inputs => ?_
  rw [← Step.optionalMapping_eq, String.append_empty, List.append_nil]
  rfl

theorem CommandStep.Reorders.text_eq {step other : CommandStep} (reorders : step.Reorders other) :
    (Step.command step).text = (Step.command other).text := by
  rw [reorders.rest]
  exact step.showsByKey_environment.congr reorders.environment

theorem ActionStep.Reorders.text_eq {step other : ActionStep} (reorders : step.Reorders other) :
    (Step.action step).text = (Step.action other).text := by
  rw [reorders.rest]
  exact step.showsByKey_inputs.congr reorders.inputs

end steps

/-- Jobs and steps that differ only in the order in which their needs and the entries of their mappings were
given have the same text. Each entry stands in it once, in one place, by increasing key. -/
theorem texts_by_key (settings : Settings) :
    (∀ job other : Job, job.Reorders other → job.render settings = other.render settings) ∧
    (∀ step other : CommandStep, step.Reorders other →
      (Step.command step).text = (Step.command other).text) ∧
    (∀ step other : ActionStep, step.Reorders other →
      (Step.action step).text = (Step.action other).text) ∧
    (∀ job : Job, job.ShowsEntries settings) ∧
    (∀ step : CommandStep, Yaml.ShowsByKey (Yaml.blockField Step.fieldIndent "env") fun environment =>
      (Step.command { step with environment }).text) ∧
    (∀ step : ActionStep, Yaml.ShowsByKey (Yaml.blockField Step.fieldIndent "with") fun inputs =>
      (Step.action { step with inputs }).text) :=
  ⟨fun _ _ reorders => reorders.render_eq settings, fun _ _ reorders => reorders.text_eq,
    fun _ _ reorders => reorders.text_eq, Job.showsEntries settings,
    CommandStep.showsByKey_environment, ActionStep.showsByKey_inputs⟩

/-- A job that makes a call, with needs and mappings of two entries each, in this order or the other. -/
def deploying (swapped : Bool) : Job :=
  let pair {α : Type} (first second : α) : List α := if swapped then [second, first] else [first, second]
  { name := "deploy"
    needs := pair "lint" "build"
    env := .ofList (pair ("B", .text "2") ("A", .text "1"))
    outputs := .ofList (pair ("url", .text "x: y") ("id", .int 7))
    uses := "o/r/.github/workflows/deploy.yml@v1"
    inputs := .ofList (pair ("tag", .text "v1") ("dry-run", .bool true))
    secrets := .ofList (pair ("TOKEN", .text "t") ("KEY", .text "k")) }

/-- Swapping two entries with different keys. -/
theorem Mapping.sameEntries_swap {α : Type} {key other : String} (differ : key ≠ other)
    (value otherValue : α) :
    (ofList [(key, value), (other, otherValue)]).SameEntries
      (ofList [(other, otherValue), (key, value)]) := by
  have inOrder : (ofList [(key, value), (other, otherValue)]).entries =
      [(key, value), (other, otherValue)] := by
    simp [ofList, insertAll, insert, empty, put, differ]
  have swapped : (ofList [(other, otherValue), (key, value)]).entries =
      [(other, otherValue), (key, value)] := by
    simp [ofList, insertAll, insert, empty, put, differ.symm]
  rw [SameEntries, inOrder, swapped]
  exact List.Perm.swap _ _ _

def makingWith (environment : Mapping Scalar) : CommandStep where
  name := "Run"
  command := "make"
  environment := environment

def usingWith (inputs : Mapping Scalar) : ActionStep where
  name := "Use"
  action := "o/r@v1"
  inputs := inputs

theorem texts_by_key_deploying :
    (deploying false).Reorders (deploying true) ∧
      (deploying false).render {} = (deploying true).render {} ∧
    (Step.command (makingWith (.ofList [("B", .text "2\n3"), ("A", .text "1")]))).text =
      (Step.command (makingWith (.ofList [("A", .text "1"), ("B", .text "2\n3")]))).text ∧
    (Step.action (usingWith (.ofList [("path", .text "a\nb"), ("name", .text "x")]))).text =
      (Step.action (usingWith (.ofList [("name", .text "x"), ("path", .text "a\nb")]))).text := by
  obtain ⟨jobs, commands, actions, _⟩ := texts_by_key {}
  have reorders : (deploying false).Reorders (deploying true) :=
    { needs := List.Perm.swap _ _ _
      env := Mapping.sameEntries_swap (by decide) _ _
      outputs := Mapping.sameEntries_swap (by decide) _ _
      inputs := Mapping.sameEntries_swap (by decide) _ _
      secrets := Mapping.sameEntries_swap (by decide) _ _
      rest := rfl }
  exact ⟨reorders, jobs _ _ reorders,
    commands _ _ ⟨Mapping.sameEntries_swap (by decide) _ _, rfl⟩,
    actions _ _ ⟨Mapping.sameEntries_swap (by decide) _ _, rfl⟩⟩

end JobFlow
