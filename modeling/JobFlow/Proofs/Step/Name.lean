import Mathlib.Data.List.Nodup
import JobFlow.Proofs.Job.Drafting
import JobFlow.Proofs.JobGraph.StepNames
import JobFlow.Proofs.Yaml.Scalar

/-!
Reading the name of a step from its block. The reader looks for the first line that, apart from blanks and
one dash, starts with `name:`, and takes outer blanks and quotes from what stands behind. A generated step
has such a line at its start, written from the name alone, so nothing else in the step matters; and the
quotes that the name may need are taken off again, so a name without quotes is read as it was given.
-/

set_option autoImplicit false

namespace JobFlow.Step

open Yaml

def isQuote (c : Char) : Bool :=
  c == '"' || c == '\''

/-- A line that reads like a name: `name:` with a value behind it, and nothing in front but blanks and at
most one dash. -/
def NameLine (line value : List Char) : Prop :=
  ∃ front dash, (∀ c ∈ front, Text.isBlank c = true) ∧
    (dash = [] ∨ ∃ gap, dash = '-' :: gap ∧ ∀ c ∈ gap, Text.isBlank c = true) ∧
    line = front ++ dash ++ ("name:".toList ++ value)

/-- The name that a value is read as, without outer blanks and quotes. -/
def valueName (value : List Char) : List Char :=
  Text.trimWhile isQuote (Text.trim value)

/-- The value of the first line of a block that reads like a name. -/
def FirstNameLine (block : String) (value : List Char) : Prop :=
  ∃ before line after, block.toList.splitOn '\n' = before ++ line :: after ∧
    (∀ other ∈ before, ∀ v, ¬ NameLine other v) ∧ NameLine line value

variable {line value cs : List Char} {block name : String}

/-- What stands in front of the colon of a key is trimmed at its start only. -/
theorem trim_keyed {front : List Char} {first : Char} (blank : ∀ c ∈ front, Text.isBlank c = true)
    (solid : Text.isBlank first = false) (inner value : List Char) :
    Text.trim (front ++ (first :: inner ++ ':' :: value)) =
      first :: inner ++ ':' :: Text.trimEndWhile Text.isBlank value := by
  have around : Text.trim (front ++ (first :: inner ++ [':']) ++ value) =
      front.dropWhile Text.isBlank ++ (first :: inner ++ [':']) ++
        Text.trimEndWhile Text.isBlank value :=
    Text.trim_around solid (by decide)
  simpa [List.dropWhile_eq_nil_iff.2 blank] using around

def undashed (trimmed : List Char) : List Char :=
  match trimmed with
  | '-' :: rest => Text.trim rest
  | _ => trimmed

theorem lineName?_eq : lineName? line =
    if "name:".toList <+: undashed (Text.trim line) then
      some (valueName ((undashed (Text.trim line)).drop 5))
    else none := by
  simp only [← List.isPrefixOf_iff_prefix]
  rfl

theorem undashed_of_nameLine (reads : NameLine line value) :
    undashed (Text.trim line) = "name:".toList ++ Text.trimEndWhile Text.isBlank value := by
  obtain ⟨front, dash, blank, atMostOne, rfl⟩ := reads
  have field : ∀ {gap v : List Char}, (∀ c ∈ gap, Text.isBlank c = true) →
      Text.trim (gap ++ ("name:".toList ++ v)) = "name:".toList ++ Text.trimEndWhile Text.isBlank v :=
    fun blank => trim_keyed blank (by decide) "ame".toList _
  rcases atMostOne with rfl | ⟨gap, rfl, blankGap⟩
  · rw [List.append_nil, field blank]
    rfl
  · have trimmed := trim_keyed blank (by decide : Text.isBlank '-' = false) (gap ++ "name".toList) value
    have shift : front ++ '-' :: gap ++ ("name:".toList ++ value) =
        front ++ ('-' :: (gap ++ "name".toList) ++ ':' :: value) := by simp
    have back : gap ++ "name".toList ++ ':' :: Text.trimEndWhile Text.isBlank value =
        gap ++ ("name:".toList ++ Text.trimEndWhile Text.isBlank value) := by simp
    rw [shift, trimmed, List.cons_append, undashed, back, field blankGap, Text.trimEndWhile_idem]

theorem undashed_cases (trimmed : List Char) :
    (∃ rest, trimmed = '-' :: rest ∧ undashed trimmed = Text.trim rest) ∨ undashed trimmed = trimmed := by
  unfold undashed
  split
  · next rest => exact Or.inl ⟨rest, rfl, rfl⟩
  · exact Or.inr rfl

theorem exists_nameLine (starts : "name:".toList <+: undashed (Text.trim line)) :
    ∃ value, NameLine line value := by
  obtain ⟨v, field⟩ := starts
  obtain ⟨front, back, blankFront, blankBack, split⟩ := Text.exists_trim_eq line
  rcases undashed_cases (Text.trim line) with ⟨rest, dashed, isField⟩ | isField
  · obtain ⟨gap, after, blankGap, _, splitRest⟩ := Text.exists_trim_eq rest
    refine ⟨v ++ after ++ back, front, '-' :: gap, blankFront, Or.inr ⟨gap, rfl, blankGap⟩, ?_⟩
    rw [split, dashed, splitRest, ← isField, ← field]
    simp
  · refine ⟨v ++ back, front, [], blankFront, Or.inl rfl, ?_⟩
    rw [split, ← isField, ← field]
    simp

/-- The name of a line is the name of its value, when the line reads like a name. -/
theorem lineName?_of_nameLine (reads : NameLine line value) : lineName? line = some (valueName value) := by
  have behind (v : List Char) : ("name:".toList ++ v).drop 5 = v := List.drop_left' (by decide)
  rw [lineName?_eq, undashed_of_nameLine reads, if_pos (List.prefix_append _ _), behind, valueName,
    Text.trim_trimEndWhile, valueName]

theorem lineName?_eq_none_iff : lineName? line = none ↔ ∀ value, ¬ NameLine line value := by
  constructor
  · intro none value reads
    rw [lineName?_of_nameLine reads] at none
    cases none
  · intro never
    rw [lineName?_eq, if_neg]
    intro starts
    obtain ⟨value, reads⟩ := exists_nameLine starts
    exact never value reads

/-- The name of a block is that of its first line that reads like a name. -/
theorem nameOf_of_firstNameLine (first : FirstNameLine block value) :
    nameOf block = String.ofList (valueName value) := by
  obtain ⟨before, line, after, split, none, reads⟩ := first
  have found : (block.toList.splitOn '\n').findSome? lineName? = some (valueName value) :=
    List.findSome?_eq_some_iff.2 ⟨before, line, after, split, lineName?_of_nameLine reads,
      fun other isBefore => lineName?_eq_none_iff.2 (none other isBefore)⟩
  rw [nameOf, found, Option.getD_some]

theorem exists_firstNameLine (named : nameOf block ≠ "") : ∃ value, FirstNameLine block value := by
  cases found : (block.toList.splitOn '\n').findSome? lineName? with
  | none =>
    rw [nameOf, found] at named
    exact absurd rfl named
  | some name =>
    obtain ⟨before, line, after, split, isName, none⟩ := List.findSome?_eq_some_iff.1 found
    have reads : ∃ value, NameLine line value := by
      by_contra never
      rw [lineName?_eq_none_iff.2 (not_exists.1 never)] at isName
      cases isName
    obtain ⟨value, reads⟩ := reads
    exact ⟨value, before, line, after, split,
      fun other isBefore => lineName?_eq_none_iff.1 (none other isBefore), reads⟩

/-! ### The names that generated steps were given -/

section quotes

variable {cs : List Char}

theorem dropWhile_of_free (free : ∀ c ∈ cs, isQuote c = false) (some : cs ≠ []) (ds : List Char) :
    (cs ++ ds).dropWhile isQuote = cs ++ ds := by
  obtain ⟨first, rest, rfl⟩ := List.exists_cons_of_ne_nil some
  simp [free first List.mem_cons_self]

theorem trimEndWhile_of_free (free : ∀ c ∈ cs, isQuote c = false) :
    Text.trimEndWhile isQuote cs = cs := by
  rw [Text.trimEndWhile_eq_rdropWhile, List.rdropWhile_eq_self_iff]
  intro some
  simp [free _ (List.getLast_mem some)]

theorem notMem_of_free (free : ∀ c ∈ cs, isQuote c = false) : '\'' ∉ cs := fun isMember =>
  absurd (free '\'' isMember) (by decide)

/-- The quotes that a text without quotes was put in are taken off again. -/
theorem trimWhile_scalarChars (free : ∀ c ∈ cs, isQuote c = false) (some : cs ≠ []) :
    Text.trimWhile isQuote (scalarChars cs) = cs := by
  rw [scalarChars]
  split
  · have start : ('\'' :: cs ++ ['\'']).dropWhile isQuote = (cs ++ ['\'']).dropWhile isQuote := rfl
    rw [doubleQuotes_of_notMem (notMem_of_free free), Text.trimWhile, start, dropWhile_of_free free some,
      Text.trimEndWhile_append_of_all (List.forall_mem_singleton.2 (by decide)), trimEndWhile_of_free free]
  · have whole := dropWhile_of_free free some []
    rw [List.append_nil] at whole
    rw [Text.trimWhile, whole, trimEndWhile_of_free free]

end quotes

/-- The name that a generated step was given. A finished block was given none. -/
def given? : Step → Option String
  | .command step => some step.name
  | .action step => some step.name
  | .upload transfer => some transfer.step.name
  | .download transfer => some transfer.step.name
  | .block _ => none

def readName (name : String) : String :=
  String.ofList (Text.trimWhile isQuote (scalarChars name.toList))

/-- A generated step starts with a line that is written from its name alone. -/
theorem exists_text_of_given {step : Step} (given : step.given? = some name) :
    ∃ fields, step.text = Text.unlines (entry itemIndent "- name" (scalar name) :: fields) := by
  cases step with
  | block text => cases given
  | command step | action step | upload transfer | download transfer =>
    obtain rfl := Option.some.inj given
    exact ⟨_, rfl⟩

theorem isBlank_itemIndent : ∀ c ∈ itemIndent.toList, Text.isBlank c = true :=
  List.all_eq_true.1 (by decide)

theorem isBlank_space : ∀ c ∈ [' '], Text.isBlank c = true :=
  List.forall_mem_singleton.2 (by decide)

theorem nameLine_entry (name : String) :
    NameLine (entry itemIndent "- name" (scalar name)).toList (' ' :: scalarChars name.toList) := by
  refine ⟨itemIndent.toList, "- ".toList, isBlank_itemIndent, Or.inr ⟨[' '], rfl, isBlank_space⟩, ?_⟩
  simp [entry, toList_scalar]

theorem splitOn_unlines {line : String} (whole : '\n' ∉ line.toList) (ls : List String) :
    (Text.unlines (line :: ls)).toList.splitOn '\n' =
      line.toList :: (Text.unlines ls).toList.splitOn '\n' := by
  have feed : "\n".toList = ['\n'] := by decide
  rw [Text.unlines_cons, String.toList_append, String.toList_append, feed, List.append_assoc,
    List.singleton_append, List.splitOn_append_cons_self, List.splitOn_eq_singleton whole,
    List.singleton_append]

theorem firstNameLine_of_given {step : Step} (given : step.given? = some name)
    (single : '\n' ∉ name.toList) : FirstNameLine step.text (' ' :: scalarChars name.toList) := by
  obtain ⟨fields, written⟩ := exists_text_of_given given
  have whole : '\n' ∉ (entry itemIndent "- name" (scalar name)).toList := by
    simp [entry, itemIndent, notMem_scalar single]
  exact ⟨[], _, _, written ▸ splitOn_unlines whole fields, List.forall_mem_nil _, nameLine_entry name⟩

/-- The name that is read from a generated step depends on the name only that the step was given. -/
theorem nameOf_of_given {step : Step} (given : step.given? = some name) (single : '\n' ∉ name.toList) :
    nameOf step.text = readName name := by
  have trimmed : Text.trim ([' '] ++ scalarChars name.toList) = scalarChars name.toList := by
    rw [Text.trim_append_left isBlank_space, trim_scalarChars]
  rw [nameOf_of_firstNameLine (firstNameLine_of_given given single), valueName, ← List.singleton_append,
    trimmed, readName]

/-- A name without quotes is read as it was given. -/
theorem readName_eq_self (some : name ≠ "") (free : ∀ c ∈ name.toList, isQuote c = false) :
    readName name = name := by
  rw [readName, trimWhile_scalarChars free (by simpa using some), String.ofList_toList]

/-- A name that is read as it was given: not empty, on one line, and without quotes. -/
structure PlainName (name : String) : Prop where
  notEmpty : name ≠ ""
  single : '\n' ∉ name.toList
  free : ∀ c ∈ name.toList, isQuote c = false

instance (name : String) : Decidable (PlainName name) :=
  decidable_of_iff (name ≠ "" ∧ '\n' ∉ name.toList ∧ (name.toList.all fun c => !isQuote c) = true)
    ⟨fun ⟨notEmpty, single, free⟩ => ⟨notEmpty, single, by simpa using free⟩,
      fun ⟨notEmpty, single, free⟩ => ⟨notEmpty, single, by simpa using free⟩⟩

/-- The steps that calls on a draft add are generated. -/
theorem exists_given_of_added {owner : String} {call : JobDraft.Call} {step : Step}
    (isAdded : step ∈ call.added owner) : ∃ name, step.given? = some name := by
  cases call with
  | runStep | upload | download =>
    obtain rfl := List.mem_singleton.1 isAdded
    exact ⟨_, rfl⟩
  | actionStep name action inputs =>
    rw [JobDraft.Call.added] at isAdded
    split at isAdded
    · obtain rfl := List.mem_singleton.1 isAdded
      exact ⟨_, rfl⟩
    · cases isAdded
  | _ => cases isAdded

theorem steps_ofCalls (owner : String) (calls : List JobDraft.Call) :
    (JobDraft.ofCalls owner calls).steps =
      (calls.flatMap (JobDraft.Call.added owner)).map Step.text := by
  have run := JobDraft.gathers_foldl_apply { name := owner } calls
  rw [JobDraft.ofCalls, run.steps, JobDraft.appended_eq, List.nil_append, List.map_flatMap,
    List.map_flatMap]
  simp [Function.comp_def]

end JobFlow.Step

namespace JobFlow

open Step

theorem noRepeats_iff_nodup {names : List String} (named : ∀ name ∈ names, name ≠ "") :
    NoRepeats names ↔ names.Nodup := by
  refine List.Pairwise.iff_of_mem fun {a b} isName _ => ?_
  exact ⟨fun apart same => named a isName (apart same), fun differ same => absurd same differ⟩

/-- The steps of a job are distinct exactly when they were given distinct names. -/
theorem Job.distinctSteps_iff_nodup {job : Job} {steps : List Step}
    (written : job.steps = steps.map Step.text)
    (named : ∀ step ∈ steps, ∃ name ∈ step.given?, PlainName name) :
    job.DistinctSteps ↔ (steps.map Step.given?).Nodup := by
  have reads : ∀ step ∈ steps, step.given? = some (nameOf step.text) ∧ nameOf step.text ≠ "" := by
    intro step isStep
    obtain ⟨name, given, plain⟩ := named step isStep
    have same : nameOf step.text = name :=
      (nameOf_of_given given plain.single).trans (readName_eq_self plain.notEmpty plain.free)
    exact ⟨same.symm ▸ given, same.symm ▸ plain.notEmpty⟩
  have names : steps.map Step.given? = (steps.map fun step => nameOf step.text).map some := by
    rw [List.map_map]
    exact List.map_congr_left fun step isStep => (reads step isStep).1
  have notEmpty : ∀ name ∈ steps.map (fun step => nameOf step.text), name ≠ "" := by
    intro name isName
    obtain ⟨step, isStep, rfl⟩ := List.mem_map.1 isName
    exact (reads step isStep).2
  rw [names, List.nodup_map_iff fun _ _ => Option.some.inj, ← noRepeats_iff_nodup notEmpty,
    Job.DistinctSteps, written, List.map_map]
  rfl

/-- The name that is read from a generated step depends on its given name alone, whatever else the step
holds, and is the given name when this is not empty and holds no quotes. So the check of step names fails
exactly when two steps of one job were given the same name. -/
theorem JobGraph.checkSteps_of_given :
    (∀ (step : Step) name, step.given? = some name → '\n' ∉ name.toList → nameOf step.text = readName name) ∧
    (∀ name, name ≠ "" → (∀ c ∈ name.toList, isQuote c = false) → readName name = name) ∧
    (∀ owner calls,
      (JobDraft.ofCalls owner calls).steps =
        (calls.flatMap (JobDraft.Call.added owner)).map Step.text ∧
      ∀ step ∈ calls.flatMap (JobDraft.Call.added owner), ∃ name, step.given? = some name) ∧
    (∀ (g : JobGraph) (steps : Job → List Step),
      (∀ job ∈ g.jobs, job.steps = (steps job).map Step.text ∧
        ∀ step ∈ steps job, ∃ name ∈ step.given?, PlainName name) →
      ((∃ e, g.checkSteps = .error e) ↔ ∃ job ∈ g.jobs, ¬ ((steps job).map Step.given?).Nodup)) := by
  refine ⟨fun step name => nameOf_of_given, fun name => readName_eq_self, ?_, ?_⟩
  · refine fun owner calls => ⟨steps_ofCalls owner calls, fun step isStep => ?_⟩
    obtain ⟨call, _, isAdded⟩ := List.mem_flatMap.1 isStep
    exact exists_given_of_added isAdded
  · intro g steps generated
    have passes : g.checkSteps = .ok () ↔ ∀ job ∈ g.jobs, ((steps job).map Step.given?).Nodup := by
      rw [JobGraph.checkSteps_eq_ok]
      exact forall₂_congr fun job inGraph =>
        Job.distinctSteps_iff_nodup (generated job inGraph).1 (generated job inGraph).2
    have fails : (∃ e, g.checkSteps = .error e) ↔ ¬ g.checkSteps = .ok () := by
      cases g.checkSteps <;> simp
    rw [fails, passes]
    push Not
    rfl

/-- Two steps of one name among texts that look like names. -/
def echoes : List Step :=
  [.command { name := " - name: a # b ", command := "echo\n  name: c" },
    .action { name := "name: c", action := "x", inputs := .ofList [("name", .text " - name: a # b ")] },
    .action { name := " - name: a # b ", action := "y", id := "c\n        name: d" }]

def echoing : JobGraph :=
  ⟨[{ name := "build", steps := echoes.map Step.text }], List.pairwise_singleton ..⟩

theorem JobGraph.checkSteps_echoing :
    (∀ job ∈ echoing.jobs, job.steps = echoes.map Step.text ∧
      ∀ step ∈ echoes, ∃ name ∈ step.given?, PlainName name) ∧
    (∃ job ∈ echoing.jobs, ¬ (echoes.map Step.given?).Nodup) ∧ ∃ e, echoing.checkSteps = .error e := by
  have generated : ∀ job ∈ echoing.jobs, job.steps = echoes.map Step.text ∧
      ∀ step ∈ echoes, ∃ name ∈ step.given?, PlainName name := by
    intro job inGraph
    obtain rfl := List.mem_singleton.1 inGraph
    exact ⟨rfl, by decide +kernel⟩
  have twice : ∃ job ∈ echoing.jobs, ¬ (echoes.map Step.given?).Nodup :=
    ⟨_, List.mem_singleton_self _, by decide +kernel⟩
  exact ⟨generated, twice,
    (JobGraph.checkSteps_of_given.2.2.2 echoing (fun _ => echoes) generated).2 twice⟩

end JobFlow
