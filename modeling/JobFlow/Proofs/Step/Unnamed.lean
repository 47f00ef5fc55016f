import JobFlow.Proofs.JobGraph.DuplicateSteps
import JobFlow.Proofs.JobGraph.Needs
import JobFlow.Proofs.Step.Name

/-!
Finished blocks without a name of their own. The reader of names does not look at indentation, so it takes
a nested `name:` for the name of the step, and likewise a line of a script that starts so. A block without a
name is read as one exactly when no such line comes first, and only such blocks come up in the report of a
repeated name.
-/

set_option autoImplicit false

namespace JobFlow.Step

/-- A line with a key: behind the key stands a colon, and behind this nothing or a space. -/
def KeyLine (lead key line : List Char) : Prop :=
  ∃ value, line = lead ++ (key ++ ':' :: value) ∧ ∀ c ∈ value.head?, c = ' '

/-- A line below a field: deeper than the fields of a step, or blank. -/
def Deeper (line : List Char) : Prop :=
  (fieldIndent ++ " ").toList <+: line ∨ ∀ c ∈ line, Text.isBlank c = true

/-- What stands in front of the key of the first line of a step, and of its other fields. -/
def leads : List (List Char) :=
  [(itemIndent ++ "- ").toList, fieldIndent.toList]

/-- A finished block without a name of its own: its first line and its further fields have other keys, and
all other lines stand below the fields. -/
def Unnamed (block : String) : Prop :=
  ∃ first rest, block.toList.splitOn '\n' = first :: rest ∧
    (∃ key ≠ "name".toList, KeyLine (itemIndent ++ "- ").toList key first) ∧
    ∀ line ∈ rest, (∃ key ≠ "name".toList, KeyLine fieldIndent.toList key line) ∨ Deeper line

/-- A key that may read like a name, or begin with it, without being it: one that holds a colon, or begins
with a dash or a blank. -/
def OddKey (key : List Char) : Prop :=
  ':' ∈ key ∨ ∃ c ∈ key.head?, c = '-' ∨ Text.isBlank c = true

/-- The block is taken to have a name: the first of its lines that reads like one stands below a field, or
has an odd key, and its value is more than blanks and quotes. -/
def Misread (block : String) : Prop :=
  ∃ before line after value, block.toList.splitOn '\n' = before ++ line :: after ∧
    (∀ other ∈ before, ∀ v, ¬ NameLine other v) ∧ NameLine line value ∧
    (Deeper line ∨ ∃ lead ∈ leads, ∃ key, OddKey key ∧ KeyLine lead key line) ∧
    ∃ c ∈ Text.trim value, isQuote c = false

variable {line key value v lead pre : List Char} {block : String}

theorem nameLine_of_blank_cons {c : Char} (blank : Text.isBlank c = true)
    (reads : NameLine (c :: line) value) : NameLine line value := by
  obtain ⟨front, dash, blankFront, atMostOne, split⟩ := reads
  cases front with
  | nil =>
    rcases atMostOne with rfl | ⟨gap, rfl, _⟩
    · obtain rfl := (List.cons.inj split).1
      exact absurd blank (by decide)
    · obtain rfl := (List.cons.inj split).1
      exact absurd blank (by decide)
  | cons first front =>
    exact ⟨front, dash, (List.forall_mem_cons.1 blankFront).2, atMostOne, (List.cons.inj split).2⟩

theorem nameLine_of_blank_append (blank : ∀ c ∈ lead, Text.isBlank c = true)
    (reads : NameLine (lead ++ line) value) : NameLine line value := by
  induction lead with
  | nil => exact reads
  | cons c lead ih =>
    obtain ⟨first, rest⟩ := List.forall_mem_cons.1 blank
    exact ih rest (nameLine_of_blank_cons first reads)

theorem nameLine_of_dash_cons (reads : NameLine ('-' :: line) value) : NameLine line value := by
  obtain ⟨front, dash, blankFront, atMostOne, split⟩ := reads
  cases front with
  | nil =>
    rcases atMostOne with rfl | ⟨gap, rfl, blankGap⟩
    · exact absurd (List.cons.inj split).1 (by decide)
    · exact ⟨gap, [], blankGap, Or.inl rfl, by simpa using split⟩
  | cons first front =>
    obtain rfl := (List.cons.inj split).1
    exact absurd (blankFront '-' List.mem_cons_self) (by decide)

/-- What stands in front of the first colon is the same on both sides. -/
theorem eq_of_append_colon (free : ':' ∉ pre) (keyFree : ':' ∉ key)
    (same : pre ++ ':' :: value = key ++ ':' :: v) : pre = key := by
  have front : ∀ {start : List Char}, ':' ∉ start → ∀ rest,
      (start ++ ':' :: rest).takeWhile (· != ':') = start := by
    intro start free rest
    have kept : ∀ c ∈ start, (c != ':') = true := by
      intro c isMember
      rw [bne_iff_ne]
      rintro rfl
      exact free isMember
    rw [List.takeWhile_append_of_pos kept, List.takeWhile_cons_of_neg (by decide), List.append_nil]
  rw [← front free value, same, front keyFree]

theorem notMem_of_blank {cs : List Char} (blank : ∀ c ∈ cs, Text.isBlank c = true) : ':' ∉ cs :=
  fun isMember => absurd (blank ':' isMember) (by decide)

/-- A key that reads like a name without being it is odd. -/
theorem oddKey_of_nameLine (reads : NameLine (key ++ ':' :: v) value) (other : key ≠ "name".toList) :
    OddKey key := by
  by_cases colon : ':' ∈ key
  · exact Or.inl colon
  · obtain ⟨front, dash, blankFront, atMostOne, split⟩ := reads
    have dashFree : ':' ∉ dash := by
      rcases atMostOne with rfl | ⟨gap, rfl, blankGap⟩
      · exact List.not_mem_nil
      · simpa using notMem_of_blank blankGap
    have free : ':' ∉ front ++ dash ++ "name".toList := by
      simp [notMem_of_blank blankFront, dashFree]
    have shift : front ++ dash ++ ("name:".toList ++ value) =
        front ++ dash ++ "name".toList ++ ':' :: value := by simp
    have isKey : front ++ dash ++ "name".toList = key :=
      eq_of_append_colon free colon (shift.symm.trans split.symm)
    obtain rfl := isKey
    refine Or.inr ?_
    cases front with
    | cons first front => exact ⟨first, rfl, Or.inr (blankFront first List.mem_cons_self)⟩
    | nil =>
      rcases atMostOne with rfl | ⟨gap, rfl, _⟩
      · exact absurd rfl other
      · exact ⟨'-', rfl, Or.inl rfl⟩

theorem isBlank_fieldIndent : ∀ c ∈ fieldIndent.toList, Text.isBlank c = true :=
  List.all_eq_true.1 (by decide)

/-- In a block without a name of its own, only what stands below a field or has an odd key reads like a
name. -/
theorem deeper_or_odd (unnamed : Unnamed block) (isLine : line ∈ block.toList.splitOn '\n')
    (reads : NameLine line value) :
    Deeper line ∨ ∃ lead ∈ leads, ∃ key, OddKey key ∧ KeyLine lead key line := by
  obtain ⟨first, rest, split, ⟨firstKey, otherFirst, isFirst⟩, fields⟩ := unnamed
  rw [split] at isLine
  rcases List.mem_cons.1 isLine with rfl | isRest
  · have isKeyLine := isFirst
    obtain ⟨v, rfl, _⟩ := isFirst
    -- Under the blanks and the dash, and the blank behind it, stands the key.
    have dashed : NameLine ('-' :: ' ' :: (firstKey ++ ':' :: v)) value :=
      nameLine_of_blank_append isBlank_itemIndent reads
    have bare := nameLine_of_blank_cons (by decide) (nameLine_of_dash_cons dashed)
    exact Or.inr ⟨_, List.mem_cons_self, firstKey, oddKey_of_nameLine bare otherFirst, isKeyLine⟩
  · rcases fields line isRest with ⟨key, other, isKeyLine⟩ | deeper
    · have isField := isKeyLine
      obtain ⟨v, rfl, _⟩ := isField
      have bare := nameLine_of_blank_append isBlank_fieldIndent reads
      exact Or.inr ⟨_, by simp [leads], key, oddKey_of_nameLine bare other, isKeyLine⟩
    · exact Or.inl deeper

theorem ofList_valueName_eq_empty_iff :
    String.ofList (valueName value) = "" ↔ ∀ c ∈ Text.trim value, isQuote c = true := by
  rw [← Text.trimWhile_eq_nil_iff, ← String.toList_inj, String.toList_ofList]
  rfl

/-- A block without a name of its own has a name for the reader exactly when it is misread. -/
theorem nameOf_ne_empty_iff (unnamed : Unnamed block) : nameOf block ≠ "" ↔ Misread block := by
  constructor
  · intro named
    obtain ⟨value, first⟩ := exists_firstNameLine named
    rw [nameOf_of_firstNameLine first, Ne, ofList_valueName_eq_empty_iff] at named
    obtain ⟨before, line, after, split, none, reads⟩ := first
    have isLine : line ∈ block.toList.splitOn '\n' :=
      split ▸ List.mem_append_right before List.mem_cons_self
    exact ⟨before, line, after, value, split, none, reads, deeper_or_odd unnamed isLine reads,
      by simpa using named⟩
  · rintro ⟨before, line, after, value, split, none, reads, _, c, isMember, notQuote⟩
    rw [nameOf_of_firstNameLine ⟨before, line, after, split, none, reads⟩, Ne,
      ofList_valueName_eq_empty_iff]
    intro quotes
    exact absurd (quotes c isMember) (by simp [notQuote])

end JobFlow.Step

namespace JobFlow

open Step

variable {g : JobGraph} {e : DuplicateStep} {job : Job}

/-- The two steps of a report have the name that it gives, which is not empty. -/
theorem JobGraph.nameOf_of_reported (failed : g.checkSteps = .error e) (inGraph : job ∈ g.jobs)
    (isJob : job.name = e.job) {i : Nat} (isPlace : i = e.firstIndex ∨ i = e.index) {block : String}
    (isStep : job.steps[i]? = some block) : nameOf block ≠ "" := by
  obtain ⟨reported, alsoInGraph, isReported, _, report⟩ := checkSteps_eq_error.1 failed
  obtain rfl := JobGraph.eq_of_name_eq inGraph alsoInGraph (isJob.trans isReported.symm)
  have isName : (job.steps.map nameOf)[i]? = some e.step := by
    rcases isPlace with rfl | rfl
    · exact report.first.1
    · exact report.here
  rw [List.getElem?_map, isStep] at isName
  exact Option.some.inj isName ▸ report.named

/-- A block without a name of its own has an empty name exactly when no line below its fields, and no odd
key, is taken for its name. Only a block that is misread so comes up in the report of a repeated name. -/
theorem Step.unnamed_iff_not_misread {block : String} (unnamed : Unnamed block) :
    (nameOf block = "" ↔ ¬ Misread block) ∧
    (∀ (g : JobGraph) e, g.checkSteps = .error e → ∀ job ∈ g.jobs, job.name = e.job →
      ∀ i, i = e.firstIndex ∨ i = e.index → job.steps[i]? = some block → Misread block) := by
  refine ⟨by rw [← nameOf_ne_empty_iff unnamed, not_not], ?_⟩
  intro g e failed job inGraph isJob i isPlace isStep
  exact (nameOf_ne_empty_iff unnamed).1
    (JobGraph.nameOf_of_reported failed inGraph isJob isPlace isStep)

namespace Step

/-- A script that names something, in the middle of a line. -/
def quiet : String :=
  "      - run: |\n          echo name: x\n\n        env:\n          NAME: x\n"

theorem unnamed_iff_not_misread_quiet : Unnamed quiet ∧ ¬ Misread quiet ∧ nameOf quiet = "" := by
  have unnamed : Unnamed quiet := by
    refine ⟨"      - run: |".toList, ["          echo name: x".toList, [], "        env:".toList,
      "          NAME: x".toList, []], by decide +kernel, ?_, ?_⟩
    · exact ⟨"run".toList, by decide, " |".toList, by decide, by simp⟩
    · refine List.forall_mem_cons.2 ⟨Or.inr (Or.inl (by decide)), ?_⟩
      refine List.forall_mem_cons.2 ⟨Or.inr (Or.inr (List.forall_mem_nil _)), ?_⟩
      refine List.forall_mem_cons.2 ⟨Or.inl ⟨"env".toList, by decide, [], by decide, by simp⟩, ?_⟩
      refine List.forall_mem_cons.2 ⟨Or.inr (Or.inl (by decide)), ?_⟩
      exact List.forall_mem_singleton.2 (Or.inr (Or.inr (List.forall_mem_nil _)))
  have plain : ∀ line ∈ quiet.toList.splitOn '\n', lineName? line = none := by decide +kernel
  have notMisread : ¬ Misread quiet := by
    rintro ⟨before, line, after, value, split, _, reads, _⟩
    have isLine : line ∈ quiet.toList.splitOn '\n' :=
      split ▸ List.mem_append_right before List.mem_cons_self
    exact lineName?_eq_none_iff.1 (plain line isLine) value reads
  exact ⟨unnamed, notMisread, (unnamed_iff_not_misread unnamed).1.2 notMisread⟩

def nested : String :=
  "      - uses: actions/upload-artifact@v4\n        with:\n          name: dist\n"

/-- The name of an artifact is taken for the name of the step. -/
theorem unnamed_not_always_empty : ¬ ∀ block, Unnamed block → nameOf block = "" := by
  intro always
  have unnamed : Unnamed nested := by
    refine ⟨"      - uses: actions/upload-artifact@v4".toList, ["        with:".toList,
      "          name: dist".toList, []], by decide +kernel, ?_, ?_⟩
    · exact ⟨"uses".toList, by decide, " actions/upload-artifact@v4".toList, by decide, by simp⟩
    · refine List.forall_mem_cons.2 ⟨Or.inl ⟨"with".toList, by decide, [], by decide, by simp⟩, ?_⟩
      refine List.forall_mem_cons.2 ⟨Or.inr (Or.inl (by decide)), ?_⟩
      exact List.forall_mem_singleton.2 (Or.inr (Or.inr (List.forall_mem_nil _)))
  have read : nameOf nested = "dist" := by decide +kernel
  exact absurd ((always nested unnamed).symm.trans read) (by decide)

end Step

end JobFlow
