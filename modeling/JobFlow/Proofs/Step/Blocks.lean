import Mathlib.Data.List.SplitBy
import JobFlow.Job.Render
import JobFlow.Proofs.Yaml.Scalar

/-!
The steps of a job as one text. Whatever a step holds is written deeper than the dash that starts it: all
lines of its block but the first are indented by the fields of a step, those of multi-line texts, too. So
the text of all steps is cut back into the steps at the lines that start an item.
-/

set_option autoImplicit false

namespace JobFlow

open Yaml

/-! ### Lines under an indentation -/

/-- The lines are one line each, and indented at least as deep as `indent`. -/
def Under (indent : String) (lines : List String) : Prop :=
  ∀ line ∈ lines, indent.toList <+: line.toList ∧ '\n' ∉ line.toList

section under

variable {indent deeper key value : String} {lines : List String} {values : Mapping Scalar}

theorem Under.append {others : List String} (here : Under indent lines) (there : Under indent others) :
    Under indent (lines ++ others) :=
  List.forall_mem_append.2 ⟨here, there⟩

theorem Under.cons {line : String} (first : Under indent [line]) (rest : Under indent lines) :
    Under indent (line :: lines) :=
  first.append rest

theorem Under.shallower (deep : Under (indent ++ deeper) lines) : Under indent lines := by
  intro line isLine
  obtain ⟨starts, single⟩ := deep line isLine
  rw [String.toList_append] at starts
  exact ⟨(List.prefix_append _ _).trans starts, single⟩

/-- A field of one line, indented by an indentation. -/
theorem under_entry (plain : '\n' ∉ indent.toList) (keyed : '\n' ∉ key.toList)
    (single : '\n' ∉ value.toList) : Under indent [entry indent key value] := by
  intro line isLine
  obtain rfl := List.mem_singleton.1 isLine
  simp [entry, plain, keyed, single]

theorem under_indentBy (plain : '\n' ∉ indent.toList) (whole : ∀ line ∈ lines, '\n' ∉ line.toList) :
    Under (indent ++ "  ") (Text.indentBy (indent ++ "  ") lines) := by
  intro line isLine
  obtain ⟨content, isContent, rfl⟩ := List.mem_map.1 isLine
  have single := whole content isContent
  simp [plain, single]

/-- A field of any text: its further lines are deeper than its first one. -/
theorem under_valueField (plain : '\n' ∉ indent.toList) (keyed : '\n' ∉ key.toList) :
    Under indent (valueField indent key value) := by
  rw [valueField]
  split
  · have first : Under indent [entry indent key "|"] := under_entry plain keyed (by decide)
    exact first.cons (under_indentBy plain fun line => Text.not_mem_of_mem_pieces).shallower
  · next single =>
    exact under_entry plain keyed (notMem_scalar (by simpa [Text.isMultiline] using single))

theorem under_blockMapping (plain : '\n' ∉ indent.toList) (keyed : '\n' ∉ key.toList)
    (keys : ∀ k ∈ values.keys, '\n' ∉ k.toList) : Under indent (blockMapping indent key values) := by
  have first : Under indent [header indent key] := by
    intro line isLine
    obtain rfl := List.mem_singleton.1 isLine
    simp [header, plain, keyed]
  refine first.cons fun line isLine => ?_
  obtain ⟨⟨k, v⟩, isEntry, inField⟩ := List.mem_flatMap.1 isLine
  have isKey : k ∈ values.keys := List.mem_map_of_mem (values.sorted_perm.mem_iff.1 isEntry)
  have plainDeeper : '\n' ∉ (indent ++ "  ").toList := by simpa using plain
  exact (under_valueField plainDeeper (keys k isKey)).shallower line inField

end under

/-! ### The parts of a step that stand on one line -/

/-- The parts of a command step that are written on one line have no line feed. -/
structure CommandStep.SingleLined (step : CommandStep) : Prop where
  name : '\n' ∉ step.name.toList
  id : '\n' ∉ step.id.toList
  condition : '\n' ∉ step.condition.toList
  workingDirectory : '\n' ∉ step.workingDirectory.toList
  keys : ∀ key ∈ step.environment.keys, '\n' ∉ key.toList

structure ActionStep.SingleLined (step : ActionStep) : Prop where
  name : '\n' ∉ step.name.toList
  id : '\n' ∉ step.id.toList
  condition : '\n' ∉ step.condition.toList
  action : '\n' ∉ step.action.toList
  keys : ∀ key ∈ step.inputs.keys, '\n' ∉ key.toList

/-- A generated step whose name, identifier, condition, directory, action, keys, and names and patterns of
artifacts have no line feed. Commands, values and paths may have any. -/
def Step.SingleLined : Step → Prop
  | .command step => step.SingleLined
  | .action step => step.SingleLined
  | .upload transfer => '\n' ∉ transfer.name.toList
  | .download transfer => '\n' ∉ transfer.name.toList ∧ '\n' ∉ transfer.pattern.toList
  | .block _ => False

instance (step : CommandStep) : Decidable step.SingleLined :=
  decidable_of_iff ('\n' ∉ step.name.toList ∧ '\n' ∉ step.id.toList ∧ '\n' ∉ step.condition.toList ∧
      '\n' ∉ step.workingDirectory.toList ∧ ∀ key ∈ step.environment.keys, '\n' ∉ key.toList)
    ⟨fun ⟨name, id, condition, directory, keys⟩ => ⟨name, id, condition, directory, keys⟩,
      fun ⟨name, id, condition, directory, keys⟩ => ⟨name, id, condition, directory, keys⟩⟩

instance (step : ActionStep) : Decidable step.SingleLined :=
  decidable_of_iff ('\n' ∉ step.name.toList ∧ '\n' ∉ step.id.toList ∧ '\n' ∉ step.condition.toList ∧
      '\n' ∉ step.action.toList ∧ ∀ key ∈ step.inputs.keys, '\n' ∉ key.toList)
    ⟨fun ⟨name, id, condition, action, keys⟩ => ⟨name, id, condition, action, keys⟩,
      fun ⟨name, id, condition, action, keys⟩ => ⟨name, id, condition, action, keys⟩⟩

instance : DecidablePred Step.SingleLined
  | .command step => inferInstanceAs (Decidable step.SingleLined)
  | .action step => inferInstanceAs (Decidable step.SingleLined)
  | .upload transfer => inferInstanceAs (Decidable ('\n' ∉ transfer.name.toList))
  | .download transfer =>
    inferInstanceAs (Decidable ('\n' ∉ transfer.name.toList ∧ '\n' ∉ transfer.pattern.toList))
  | .block _ => inferInstanceAs (Decidable False)

def transferKeys : List String :=
  ["name", "path", "pattern", "merge-multiple", "if-no-files-found", "include-hidden-files"]

theorem notMem_of_mem_transferKeys : ∀ key ∈ transferKeys, '\n' ∉ key.toList := by decide

theorem notMem_empty : '\n' ∉ "".toList := by decide

theorem Upload.singleLined_step {upload : Upload} (single : '\n' ∉ upload.name.toList) :
    upload.step.SingleLined := by
  refine ⟨by simpa [step] using single, notMem_empty, notMem_empty,
    (by decide : '\n' ∉ "actions/upload-artifact@v4".toList), fun key isKey => ?_⟩
  apply notMem_of_mem_transferKeys
  rw [step, Mapping.mem_keys_ofList] at isKey
  rw [List.map_append, List.mem_append] at isKey
  rcases isKey with always | hidden
  · exact (by decide : ["name", "path", "if-no-files-found"] ⊆ transferKeys) always
  · split at hidden <;> simp_all [transferKeys]

theorem Download.singleLined_step {download : Download} (named : '\n' ∉ download.name.toList)
    (matching : '\n' ∉ download.pattern.toList) : download.step.SingleLined := by
  refine ⟨?_, notMem_empty, notMem_empty,
    (by decide : '\n' ∉ "actions/download-artifact@v4".toList), fun key isKey => ?_⟩
  · rw [step]
    split <;> simpa
  · apply notMem_of_mem_transferKeys
    rw [step, Mapping.mem_keys_ofList] at isKey
    rw [List.map_append, List.map_append, List.mem_append, List.mem_append] at isKey
    rcases isKey with (isName | isPattern) | isPath
    · split at isName <;> simp_all [transferKeys]
    · split at isPattern
      · cases isPattern
      · split at isPattern
        · exact (by decide : ["pattern", "merge-multiple"] ⊆ transferKeys) isPattern
        · exact (by decide : ["pattern"] ⊆ transferKeys) isPattern
    · simp_all [transferKeys]

namespace Step

def startsItem (line : List Char) : Bool :=
  (itemIndent ++ "-").toList.isPrefixOf line

/-- The lines of one item: only the first one starts an item, and all others are indented like fields. -/
structure IsItem (lines : List String) : Prop where
  notNil : lines ≠ []
  starts : ∀ line ∈ lines.head?, startsItem line.toList = true ∧ '\n' ∉ line.toList
  fields : Under fieldIndent lines.tail

variable {name id condition key : String} {lines : List String} {values : Mapping Scalar}

theorem notMem_fieldIndent : '\n' ∉ fieldIndent.toList := by decide

theorem isItem_opening (named : '\n' ∉ name.toList) (identified : '\n' ∉ id.toList)
    (conditional : '\n' ∉ condition.toList) : IsItem (opening name id condition) := by
  refine ⟨List.cons_ne_nil _ _, ?_, ?_⟩
  · intro line isFirst
    obtain rfl := Option.some.inj isFirst
    have single := notMem_scalar named
    simp [startsItem, entry, itemIndent, single]
  · refine Under.append ?_ ?_
    · split
      · exact List.forall_mem_nil _
      · exact under_entry notMem_fieldIndent (by decide) identified
    · split
      · exact List.forall_mem_nil _
      · exact under_entry notMem_fieldIndent (by decide) (notMem_scalar conditional)

theorem IsItem.append (item : IsItem lines) {others : List String} (fields : Under fieldIndent others) :
    IsItem (lines ++ others) := by
  obtain ⟨first, rest, rfl⟩ := List.exists_cons_of_ne_nil item.notNil
  exact ⟨List.cons_ne_nil _ _, item.starts, Under.append item.fields fields⟩

theorem under_optionalMapping (keyed : '\n' ∉ key.toList) (keys : ∀ k ∈ values.keys, '\n' ∉ k.toList) :
    Under fieldIndent (optionalMapping key values) := by
  rw [optionalMapping]
  split
  · exact List.forall_mem_nil _
  · exact under_blockMapping notMem_fieldIndent keyed keys

end Step

open Step

theorem CommandStep.isItem_lines {step : CommandStep} (single : step.SingleLined) :
    IsItem step.lines := by
  have directory : Under fieldIndent (if step.workingDirectory = "" then []
      else [entry fieldIndent "working-directory" (scalar step.workingDirectory)]) := by
    split
    · exact List.forall_mem_nil _
    · exact under_entry notMem_fieldIndent (by decide) (notMem_scalar single.workingDirectory)
  exact (((isItem_opening single.name single.id single.condition).append directory).append
    (under_optionalMapping (by decide) single.keys)).append
    (under_valueField notMem_fieldIndent (by decide))

theorem ActionStep.isItem_lines {step : ActionStep} (single : step.SingleLined) :
    IsItem step.lines :=
  ((isItem_opening single.name single.id single.condition).append
    (under_entry notMem_fieldIndent (by decide) single.action)).append
    (under_optionalMapping (by decide) single.keys)

def Step.blockLines : Step → List String
  | .command step => step.lines
  | .action step => step.lines
  | .upload transfer => transfer.step.lines
  | .download transfer => transfer.step.lines
  | .block _ => []

theorem Step.text_eq_unlines {step : Step} (single : step.SingleLined) :
    step.text = Text.unlines step.blockLines := by
  cases step with
  | block text => exact absurd single id
  | command | action | upload | download => rfl

/-- The block of a generated step is one item. -/
theorem Step.isItem_blockLines {step : Step} (single : step.SingleLined) : IsItem step.blockLines := by
  cases step with
  | command step => exact step.isItem_lines single
  | action step => exact step.isItem_lines single
  | upload transfer => exact transfer.step.isItem_lines (Upload.singleLined_step single)
  | download transfer => exact transfer.step.isItem_lines (Download.singleLined_step single.1 single.2)
  | block text => exact absurd single id

/-! ### Cutting a text at the lines that start an item -/

section cut

variable {α : Type} {p : α → Bool} {parts : List (List α)}

/-- Parts that end with the only element of a kind are cut behind these elements. -/
theorem splitBy_behind (ends : ∀ part ∈ parts, ∃ front last, part = front ++ [last] ∧ p last = true ∧
    ∀ a ∈ front, p a = false) : parts.flatten.splitBy (fun a _ => !p a) = parts := by
  apply List.splitBy_flatten
  · intro isPart
    obtain ⟨front, last, split, _⟩ := ends [] isPart
    simp at split
  · intro part isPart
    obtain ⟨front, last, rfl, _, inside⟩ := ends part isPart
    refine List.isChain_append.2 ⟨?_, List.isChain_singleton last, ?_⟩
    · exact (List.pairwise_of_forall_mem_list fun a isMember _ _ => by simp [inside a isMember]).isChain
    · intro a isLast _ _
      simp [inside a (List.mem_of_mem_getLast? isLast)]
  · refine (List.pairwise_of_forall_mem_list fun part isPart next isNext => ?_).isChain
    obtain ⟨front, last, rfl, ending, _⟩ := ends part isPart
    obtain ⟨nextFront, nextLast, rfl, _⟩ := ends next isNext
    exact ⟨by simp, by simp, by simp [ending]⟩

/-- Parts that begin with the only element of a kind are cut before these elements. -/
theorem splitBy_before (starts : ∀ part ∈ parts, ∃ first rest, part = first :: rest ∧ p first = true ∧
    ∀ a ∈ rest, p a = false) : parts.flatten.splitBy (fun _ a => !p a) = parts := by
  apply List.splitBy_flatten
  · intro isPart
    obtain ⟨first, rest, split, _⟩ := starts [] isPart
    cases split
  · intro part isPart
    obtain ⟨first, rest, rfl, _, inside⟩ := starts part isPart
    refine List.Pairwise.isChain (List.pairwise_cons.2 ⟨fun a isMember => ?_, ?_⟩)
    · simp [inside a isMember]
    · exact List.pairwise_of_forall_mem_list fun _ _ a isMember => by simp [inside a isMember]
  · refine (List.pairwise_of_forall_mem_list fun part isPart next isNext => ?_).isChain
    obtain ⟨first, rest, rfl, _⟩ := starts part isPart
    obtain ⟨nextFirst, nextRest, rfl, starting, _⟩ := starts next isNext
    exact ⟨by simp, by simp, by simp [starting]⟩

end cut

namespace Text

/-- The lines of a text, each with its line feed. -/
def fedLines (cs : List Char) : List (List Char) :=
  cs.splitBy fun c _ => !(c == '\n')

def fed (line : String) : List Char :=
  line.toList ++ ['\n']

theorem toList_unlines (ls : List String) : (unlines ls).toList = (ls.map fed).flatten := by
  induction ls with
  | nil => rfl
  | cons line ls ih => simp [unlines_cons, ih, fed]

theorem join_unlines (blocks : List (List String)) :
    String.join (blocks.map unlines) = unlines blocks.flatten := by
  induction blocks with
  | nil => rfl
  | cons ls blocks ih => simp [unlines_append, ih]

theorem fedLines_unlines {ls : List String} (whole : ∀ line ∈ ls, '\n' ∉ line.toList) :
    fedLines (unlines ls).toList = ls.map fed := by
  rw [fedLines, toList_unlines]
  apply splitBy_behind
  intro part isPart
  obtain ⟨line, isLine, rfl⟩ := List.mem_map.1 isPart
  refine ⟨line.toList, '\n', rfl, rfl, fun c isMember => beq_eq_false_iff_ne.2 ?_⟩
  rintro rfl
  exact whole line isLine isMember

end Text

namespace Step

/-- The pieces of a text, a new one at each line that starts an item. -/
def items (text : String) : List String :=
  ((Text.fedLines text.toList).splitBy fun _ line => !startsItem line).map fun piece =>
    String.ofList piece.flatten

theorem IsItem.whole {lines : List String} (item : IsItem lines) : ∀ line ∈ lines, '\n' ∉ line.toList := by
  obtain ⟨first, rest, rfl⟩ := List.exists_cons_of_ne_nil item.notNil
  exact List.forall_mem_cons.2 ⟨(item.starts first rfl).2, fun line isField => (item.fields line isField).2⟩

variable {line rest : List Char}

theorem startsItem_append (starts : startsItem line = true) : startsItem (line ++ rest) = true := by
  rw [startsItem, List.isPrefixOf_iff_prefix] at starts ⊢
  exact starts.trans (List.prefix_append line rest)

/-- A line that is indented like a field starts no item. -/
theorem startsItem_of_field (isField : fieldIndent.toList <+: line) :
    startsItem (line ++ rest) = false := by
  obtain ⟨behind, rfl⟩ := isField
  rfl

theorem items_join {blocks : List (List String)} (areItems : ∀ lines ∈ blocks, IsItem lines) :
    items (String.join (blocks.map Text.unlines)) = blocks.map Text.unlines := by
  have whole : ∀ line ∈ blocks.flatten, '\n' ∉ line.toList := by
    intro line isLine
    obtain ⟨lines, isBlock, isMember⟩ := List.mem_flatten.1 isLine
    exact (areItems lines isBlock).whole line isMember
  rw [Text.join_unlines, items, Text.fedLines_unlines whole, List.map_flatten, splitBy_before, List.map_map]
  · apply List.map_congr_left
    intro lines _
    rw [Function.comp_apply, ← Text.toList_unlines, String.ofList_toList]
  · intro part isPart
    obtain ⟨lines, isBlock, rfl⟩ := List.mem_map.1 isPart
    have item := areItems lines isBlock
    obtain ⟨first, rest, rfl⟩ := List.exists_cons_of_ne_nil item.notNil
    refine ⟨Text.fed first, rest.map Text.fed, rfl, ?_, ?_⟩
    · exact startsItem_append (item.starts first rfl).1
    · intro line isLine
      obtain ⟨field, isField, rfl⟩ := List.mem_map.1 isLine
      exact startsItem_of_field (item.fields field isField).1

/-- The blocks of generated steps are cut out of their text. -/
theorem items_join_text {steps : List Step} (single : ∀ step ∈ steps, step.SingleLined) :
    items (String.join (steps.map Step.text)) = steps.map Step.text := by
  have texts : steps.map Step.text = (steps.map Step.blockLines).map Text.unlines := by
    rw [List.map_map]
    exact List.map_congr_left fun step isStep => text_eq_unlines (single step isStep)
  rw [texts]
  apply items_join
  intro lines isBlock
  obtain ⟨step, isStep, rfl⟩ := List.mem_map.1 isBlock
  exact isItem_blockLines (single step isStep)

theorem exists_text_eq {step : Step} (single : step.SingleLined) : ∃ front, step.text = front ++ "\n" := by
  obtain ⟨front, last, split⟩ :=
    (List.eq_nil_or_concat step.blockLines).resolve_left (isItem_blockLines single).notNil
  refine ⟨Text.unlines front ++ last, ?_⟩
  rw [text_eq_unlines single, split, List.concat_eq_append, Text.unlines_append, Text.unlines_cons,
    Text.unlines_nil, String.append_empty, String.append_assoc]

end Step

namespace Job

variable {job : Job} {steps : List Step}

/-- The steps stand under their key, at the end of their job. -/
theorem exists_render_eq (own : job.uses = "") (some : job.steps ≠ []) (settings : Settings) :
    ∃ head, job.render settings = head ++ header indent "steps" ++ "\n" ++ job.stepsText ++ "\n" := by
  have last : (if job.isCall then job.callLines
      else if job.steps.isEmpty then [] else [header indent "steps"]) = [header indent "steps"] := by
    simp [isCall, own, some]
  obtain ⟨front, split⟩ : ∃ front, job.headLines settings = front ++ [header indent "steps"] :=
    ⟨_, by rw [headLines, last]⟩
  refine ⟨Text.unlines front, ?_⟩
  simp [render, split, Text.unlines_append, Text.unlines_cons, Text.unlines_nil, String.append_assoc]

/-- No step breaks out of its place: the text of the steps of a job is cut back into them at the lines that
start an item, when their parts that are written on one line have no line feed. -/
theorem items_stepsText (own : job.uses = "") (written : job.steps = steps.map Step.text)
    (single : ∀ step ∈ steps, step.SingleLined) :
    Step.items job.stepsText = job.steps ∧
    (∀ block ∈ job.steps, block ≠ "" ∧ ∃ front, block = front ++ "\n") ∧
    (job.steps ≠ [] → ∀ settings, ∃ head,
      job.render settings = head ++ header indent "steps" ++ "\n" ++ job.stepsText ++ "\n") := by
  refine ⟨?_, ?_, fun some settings => exists_render_eq own some settings⟩
  · have text : job.stepsText = String.join job.steps := by simp [stepsText, isCall, own]
    rw [text, written]
    exact Step.items_join_text single
  · rw [written]
    intro block isBlock
    obtain ⟨step, isStep, rfl⟩ := List.mem_map.1 isBlock
    obtain ⟨front, ends⟩ := Step.exists_text_eq (single step isStep)
    refine ⟨fun empty => ?_, front, ends⟩
    simp [ends] at empty

def imitations : List Step :=
  [.command {
      name := "- name: a # 'b'"
      command := "cat <<END\n      - name: fake\n    steps:\nEND\n"
      environment := .ofList [("A", .text "\n      - name: fake"), ("B", .text "- run: x")]
      workingDirectory := "      - " },
    .action { name := "", action := "a/b@v1", inputs := .ofList [("name", .text "x\n\n      -")] },
    .upload { name := "logs", paths := ["out", "      - name: fake"] },
    .download { path := "in\n      - in", pattern := "log*", mergeMultiple := true }]

def imitating : Job where
  name := "build"
  steps := imitations.map Step.text

theorem items_stepsText_imitating :
    imitating.uses = "" ∧ imitating.steps = imitations.map Step.text ∧
      (∀ step ∈ imitations, step.SingleLined) ∧
      Step.items imitating.stepsText = imitations.map Step.text := by
  have single : ∀ step ∈ imitations, step.SingleLined := by decide +kernel
  exact ⟨rfl, rfl, single, (items_stepsText rfl rfl single).1⟩

end Job

end JobFlow
