import Mathlib.Data.List.Infix
import JobFlow.Artifact.Pattern

/-!
What patterns mean. With at most one star, the names that match are those that arise when some text
takes the place of the star. With more stars the name has to be the pattern itself, unless the first or
the last character is a star: that one still stands for any text, and only the others are ordinary.
-/

set_option autoImplicit false

namespace JobFlow.Artifact

namespace Pattern

variable {pattern name start ending : List Char}

/-- A pattern with a text in the place of every star. -/
def fill (pattern text : List Char) : List Char :=
  pattern.flatMap fun c => if c = '*' then text else [c]

theorem fill_of_not_mem (plain : '*' ∉ pattern) (text : List Char) : fill pattern text = pattern := by
  induction pattern with
  | nil => rfl
  | cons c rest ih =>
    obtain ⟨other, plainRest⟩ := not_or.1 (mt List.mem_cons.2 plain)
    rw [fill, List.flatMap_cons, if_neg (Ne.symm other)]
    exact congrArg (c :: ·) (ih plainRest)

/-- A text in the place of the only star stands between what is before and what is behind it. -/
theorem fill_star (plainStart : '*' ∉ start) (plainEnding : '*' ∉ ending) (text : List Char) :
    fill (start ++ '*' :: ending) text = start ++ text ++ ending := by
  have before := fill_of_not_mem plainStart text
  have behind := fill_of_not_mem plainEnding text
  rw [fill] at before behind
  rw [fill, List.flatMap_append, List.flatMap_cons, before, behind, if_pos rfl, List.append_assoc]

/-- A start and an ending of a name do not overlap exactly when the rest of the name is between them. -/
theorem exists_between_iff :
    (start <+: name ∧ ending <:+ name ∧ start.length + ending.length ≤ name.length) ↔
      ∃ text, start ++ text ++ ending = name := by
  constructor
  · rintro ⟨⟨rest, rfl⟩, isEnding, fits⟩
    rw [List.length_append, Nat.add_le_add_iff_left] at fits
    obtain ⟨text, rfl⟩ := List.suffix_of_suffix_length_le isEnding (List.suffix_append start rest) fits
    exact ⟨text, List.append_assoc ..⟩
  · rintro ⟨text, rfl⟩
    refine ⟨⟨text ++ ending, (List.append_assoc ..).symm⟩, List.suffix_append _ _, ?_⟩
    simp only [List.length_append]
    omega

/-- A pattern has one part more than stars. -/
theorem length_parts (pattern : List Char) :
    (pattern.splitOn '*').length = pattern.count '*' + 1 := by
  induction pattern with
  | nil => rfl
  | cons c rest ih =>
    rw [List.splitOn_cons_eq_if_modifyHead, List.count_cons]
    split
    · rw [List.length_cons, ih]
    · rw [List.length_modifyHead, ih, Nat.add_zero]

/-- A pattern without stars is a name. -/
theorem accepts_plain (plain : '*' ∉ pattern) : accepts pattern name = true ↔ name = pattern := by
  rw [accepts, if_pos plain, beq_iff_eq]

/-- A star at the start leaves the ending to be met, whatever stars that has. -/
theorem accepts_leading : accepts ('*' :: ending) name = true ↔ ending <:+ name := by
  rw [accepts, if_neg (not_not_intro List.mem_cons_self), if_pos List.head?_cons, List.tail_cons,
    List.isSuffixOf_iff_suffix]

/-- A star at the end leaves the start to be met, unless there is a star at the start, too. -/
theorem accepts_trailing (notFirst : (start ++ ['*']).head? ≠ some '*') :
    accepts (start ++ ['*']) name = true ↔ start <+: name := by
  rw [accepts, if_neg (not_not_intro (by simp)), if_neg notFirst, if_pos List.getLast?_concat,
    List.dropLast_concat, List.isPrefixOf_iff_prefix]

/-- With one star, any text may stand between the two parts of the pattern. -/
theorem accepts_one (plainStart : '*' ∉ start) (plainEnding : '*' ∉ ending) :
    accepts (start ++ '*' :: ending) name = true ↔ ∃ text, start ++ text ++ ending = name := by
  -- A star at an end is found before the parts are counted, so an empty part is a case of its own.
  by_cases noStart : start = []
  · subst noStart
    exact accepts_leading
  · have notFirst : (start ++ '*' :: ending).head? ≠ some '*' := by
      rw [List.head?_append_of_ne_nil _ noStart]
      exact fun isFirst => plainStart (List.mem_of_head? isFirst)
    by_cases noEnding : ending = []
    · subst noEnding
      simp only [accepts_trailing notFirst, List.append_nil]
      exact Iff.rfl
    · have notLast : (start ++ '*' :: ending).getLast? ≠ some '*' := by
        rw [← List.singleton_append, ← List.append_assoc, List.getLast?_append_of_ne_nil _ noEnding]
        exact fun isLast => plainEnding (List.mem_of_getLast? isLast)
      have star : '*' ∈ start ++ '*' :: ending := List.mem_append_cons_self
      rw [accepts, if_neg (not_not_intro star), if_neg notFirst, if_neg notLast,
        List.splitOn_append_cons_self_of_not_mem plainStart, List.splitOn_eq_singleton plainEnding,
        ← exists_between_iff]
      simp only [Bool.and_eq_true, decide_eq_true_iff, List.isPrefixOf_iff_prefix,
        List.isSuffixOf_iff_suffix, and_assoc]

/-- With several stars, none of them at an end, only the pattern itself matches. -/
theorem accepts_several (several : 2 ≤ pattern.count '*') (notFirst : pattern.head? ≠ some '*')
    (notLast : pattern.getLast? ≠ some '*') : accepts pattern name = true ↔ name = pattern := by
  have star : '*' ∈ pattern := List.count_pos_iff.1 (Nat.lt_of_lt_of_le Nat.zero_lt_two several)
  rw [accepts, if_neg (not_not_intro star), if_neg notFirst, if_neg notLast]
  split
  · next start ending parts =>
    have two := length_parts pattern
    -- Two parts would mean a single star.
    rw [parts] at two
    simp only [List.length_cons, List.length_nil] at two
    omega
  · exact beq_iff_eq

/-- With at most one star, a name matches when the pattern can be filled to become the name. -/
theorem accepts_iff_fill (one : pattern.count '*' ≤ 1) :
    accepts pattern name = true ↔ ∃ text, fill pattern text = name := by
  by_cases star : '*' ∈ pattern
  · obtain ⟨start, ending, rfl, plainStart⟩ := List.eq_append_cons_of_mem star
    have plainEnding : '*' ∉ ending := by
      intro another
      have more := List.count_pos_iff.2 another
      rw [List.count_append, List.count_cons_self] at one
      omega
    simp only [accepts_one plainStart plainEnding, fill_star plainStart plainEnding]
  · simp only [accepts_plain star, fill_of_not_mem star, exists_const, eq_comm]

/-- A star at the start lets the ending match, too, and so does one at the end the start. So of the
patterns with several stars, those without a star at an end are the exact ones. -/
theorem accepts_exactly_iff (several : 2 ≤ pattern.count '*') :
    (∀ name, accepts pattern name = true ↔ name = pattern) ↔
      pattern.head? ≠ some '*' ∧ pattern.getLast? ≠ some '*' := by
  constructor
  · intro exactly
    have notFirst : pattern.head? ≠ some '*' := by
      intro isFirst
      obtain ⟨ending, rfl⟩ := List.head?_eq_some_iff.1 isFirst
      have same := (exactly ending).1 (accepts_leading.2 List.suffix_rfl)
      exact List.cons_ne_self '*' ending same.symm
    refine ⟨notFirst, fun isLast => ?_⟩
    obtain ⟨start, rfl⟩ := List.getLast?_eq_some_iff.1 isLast
    have same := (exactly start).1 ((accepts_trailing notFirst).2 List.prefix_rfl)
    simpa using congrArg List.length same
  · rintro ⟨notFirst, notLast⟩ name
    exact accepts_several several notFirst notLast

end Pattern

/-- A pattern with a text in the place of every star. What stands before a star and what stands behind
it do not overlap in the name that arises. -/
def filled (pattern text : String) : String :=
  String.ofList (Pattern.fill pattern.toList text.toList)

theorem exists_text_iff {p : List Char → Prop} : (∃ text : String, p text.toList) ↔ ∃ text, p text := by
  constructor
  · rintro ⟨text, holds⟩
    exact ⟨text.toList, holds⟩
  · rintro ⟨text, holds⟩
    exact ⟨String.ofList text, by rwa [String.toList_ofList]⟩

/-- A pattern with at most one star matches exactly the names that arise from it when some text takes the
place of the star. -/
theorem matchesPattern_iff_filled {pattern : String} (one : pattern.toList.count '*' ≤ 1)
    (name : String) : matchesPattern pattern name = true ↔ ∃ text, filled pattern text = name := by
  simp only [filled, ← String.toList_inj, String.toList_ofList]
  exact (Pattern.accepts_iff_fill one).trans exists_text_iff.symm

/-- In the name, the start and the ending must not overlap, and a star of its own is nothing special. -/
theorem matchesPattern_iff_filled_inner :
    "ab*b".toList.count '*' ≤ 1 ∧ (∃ text, filled "ab*b" text = "ab*b") ∧
      (∃ text, filled "ab*b" text = "abb") ∧ ¬ ∃ text, filled "ab*b" text = "ab" := by
  have one : "ab*b".toList.count '*' ≤ 1 := by decide
  refine ⟨one, ?_, ?_, ?_⟩
  · exact (matchesPattern_iff_filled one _).1 (by decide +kernel)
  · exact (matchesPattern_iff_filled one _).1 (by decide +kernel)
  · intro arises
    have isMatch := (matchesPattern_iff_filled one _).2 arises
    revert isMatch
    decide +kernel

/-- A pattern with several stars matches exactly itself if and only if neither its first nor its last
character is a star. A star at the start stands for any text, and one at the end does when there is none
at the start; the other stars are ordinary characters then. -/
theorem matchesPattern_exact_iff {pattern : String} (several : 2 ≤ pattern.toList.count '*') :
    ((∀ name, matchesPattern pattern name = true ↔ name = pattern) ↔
      pattern.toList.head? ≠ some '*' ∧ pattern.toList.getLast? ≠ some '*') ∧
    (∀ ending name, pattern = "*" ++ ending →
      (matchesPattern pattern name = true ↔ ∃ text, text ++ ending = name)) ∧
    (∀ start name, pattern = start ++ "*" → pattern.toList.head? ≠ some '*' →
      (matchesPattern pattern name = true ↔ ∃ text, start ++ text = name)) := by
  refine ⟨?_, ?_, ?_⟩
  · rw [← Pattern.accepts_exactly_iff several]
    constructor
    · intro exactly name
      have read := exactly (String.ofList name)
      rwa [matchesPattern, ← String.toList_inj, String.toList_ofList] at read
    · intro exactly name
      rw [matchesPattern, exactly, String.toList_inj]
  · rintro ending name rfl
    have parts : ("*" ++ ending).toList = '*' :: ending.toList := String.toList_append
    simp only [matchesPattern, parts, ← String.toList_inj, String.toList_append]
    exact Pattern.accepts_leading.trans exists_text_iff.symm
  · rintro start name rfl notFirst
    have parts : (start ++ "*").toList = start.toList ++ ['*'] := String.toList_append
    rw [parts] at notFirst
    simp only [matchesPattern, parts, ← String.toList_inj, String.toList_append]
    exact (Pattern.accepts_trailing notFirst).trans exists_text_iff.symm

/-- One pattern of each shape: stars in the middle, at both ends, and at the end. -/
theorem matchesPattern_exact_agent :
    2 ≤ "agent*x*y".toList.count '*' ∧ 2 ≤ "*log*".toList.count '*' ∧ 2 ≤ "a*b*".toList.count '*' ∧
      (∀ name, matchesPattern "agent*x*y" name = true ↔ name = "agent*x*y") ∧
      (∀ name, matchesPattern "*log*" name = true ↔ ∃ text, text ++ "log*" = name) ∧
      (∀ name, matchesPattern "a*b*" name = true ↔ ∃ text, "a*b" ++ text = name) := by
  have inside : 2 ≤ "agent*x*y".toList.count '*' := by decide
  have atBoth : 2 ≤ "*log*".toList.count '*' := by decide
  have atEnd : 2 ≤ "a*b*".toList.count '*' := by decide
  refine ⟨inside, atBoth, atEnd, ?_, ?_, ?_⟩
  · exact (matchesPattern_exact_iff inside).1.2 ⟨by decide, by decide⟩
  · exact fun name => (matchesPattern_exact_iff atBoth).2.1 "log*" name rfl
  · exact fun name => (matchesPattern_exact_iff atEnd).2.2 "a*b" name rfl (by decide)

/-- A name may end like a pattern that starts with a star without being the pattern. -/
theorem matchesPattern_not_always_exact :
    ¬ ∀ pattern name : String, 2 ≤ pattern.toList.count '*' →
      (matchesPattern pattern name = true ↔ name = pattern) := by
  intro exactly
  have same := (exactly "*log*" "old-log*" (by decide)).1 (by decide +kernel)
  revert same
  decide

end JobFlow.Artifact
