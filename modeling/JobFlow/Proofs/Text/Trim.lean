import Mathlib.Data.List.DropRight
import JobFlow.Text.Blank

/-!
Trimming a text that is put together from parts. Trimming stops at the first character that stays, so
whatever stands on its other side is left as it is.
-/

set_option autoImplicit false

namespace JobFlow.Text

variable {drop : Char → Bool} {cs ds : List Char}

theorem dropWhile_append (keeps : ∃ c ∈ cs, drop c = false) :
    (cs ++ ds).dropWhile drop = cs.dropWhile drop ++ ds := by
  obtain ⟨c, isMember, kept⟩ := keeps
  have some : cs.dropWhile drop ≠ [] := fun none =>
    absurd (List.dropWhile_eq_nil_iff.1 none c isMember) (by simp [kept])
  simp [List.dropWhile_append, some]

theorem trimEndWhile_eq_rdropWhile : trimEndWhile drop cs = cs.rdropWhile drop := rfl

theorem trimEndWhile_append (keeps : ∃ d ∈ ds, drop d = false) :
    trimEndWhile drop (cs ++ ds) = cs ++ trimEndWhile drop ds := by
  have reversed : ∃ d ∈ ds.reverse, drop d = false := by simpa using keeps
  rw [trimEndWhile, List.reverse_append, dropWhile_append reversed, List.reverse_append,
    List.reverse_reverse, trimEndWhile]

theorem trimEndWhile_append_of_all (all : ∀ d ∈ ds, drop d = true) :
    trimEndWhile drop (cs ++ ds) = trimEndWhile drop cs := by
  have reversed : ∀ d ∈ ds.reverse, drop d = true := by simpa using all
  rw [trimEndWhile, List.reverse_append, List.dropWhile_append_of_pos reversed, trimEndWhile]

/-- A text whose last character stays has nothing to trim at its end. -/
theorem trimEndWhile_concat {c : Char} (kept : drop c = false) :
    trimEndWhile drop (cs ++ [c]) = cs ++ [c] := by
  simp [trimEndWhile_eq_rdropWhile, kept]

theorem trimEndWhile_idem : trimEndWhile drop (trimEndWhile drop cs) = trimEndWhile drop cs :=
  List.rdropWhile_idempotent drop cs

/-- Nothing is left of a text exactly when all of it is dropped. -/
theorem trimWhile_eq_nil_iff : trimWhile drop cs = [] ↔ ∀ c ∈ cs, drop c = true := by
  rw [trimWhile, trimEndWhile_eq_rdropWhile, List.rdropWhile_eq_nil_iff]
  constructor
  · intro rest c isMember
    rw [← List.takeWhile_append_dropWhile (p := drop) (l := cs), List.mem_append] at isMember
    rcases isMember with dropped | left
    · exact List.mem_takeWhile_imp dropped
    · exact rest c left
  · intro all c left
    exact all c ((List.dropWhile_suffix drop).subset left)

theorem trim_eq_nil_iff : trim cs = [] ↔ ∀ c ∈ cs, isBlank c = true :=
  trimWhile_eq_nil_iff

theorem exists_mem_dropWhile (keeps : ∃ c ∈ cs, isBlank c = false) :
    ∃ c ∈ cs.dropWhile isBlank, isBlank c = false := by
  by_contra none
  have blank : trim (cs.dropWhile isBlank) = [] := trim_eq_nil_iff.2 (by simpa using none)
  rw [trim, trimWhile, List.dropWhile_idempotent] at blank
  obtain ⟨c, isMember, kept⟩ := keeps
  exact absurd (trim_eq_nil_iff.1 blank c isMember) (by simp [kept])

/-- Nothing is trimmed from a text exactly when neither of its ends is blank. -/
theorem trim_eq_self_iff : trim cs = cs ↔
    (∀ c ∈ cs.head?, isBlank c = false) ∧ ∀ c ∈ cs.getLast?, isBlank c = false := by
  have start : cs.dropWhile isBlank = cs ↔ ∀ c ∈ cs.head?, isBlank c = false := by
    cases cs with
    | nil => simp
    | cons c cs =>
      rw [List.dropWhile_eq_self_iff]
      simp
  have ending : cs.rdropWhile isBlank = cs ↔ ∀ c ∈ cs.getLast?, isBlank c = false := by
    rw [List.rdropWhile_eq_self_iff]
    cases cs with
    | nil => simp
    | cons c cs => simp [List.getLast?_eq_some_getLast (List.cons_ne_nil c cs)]
  rw [← start, ← ending, trim, trimWhile, trimEndWhile_eq_rdropWhile]
  constructor
  · intro same
    have shorter := (List.rdropWhile_prefix isBlank (l := cs.dropWhile isBlank)).length_le
    rw [same] at shorter
    have first : cs.dropWhile isBlank = cs := (List.dropWhile_suffix isBlank).eq_of_length_le shorter
    exact ⟨first, by rwa [first] at same⟩
  · rintro ⟨first, last⟩
    rw [first, last]

/-- What stands between two characters that stay is not touched. -/
theorem trim_around {first last : Char} {inner : List Char} (isFirst : isBlank first = false)
    (isLast : isBlank last = false) :
    trim (cs ++ (first :: inner ++ [last]) ++ ds) =
      cs.dropWhile isBlank ++ (first :: inner ++ [last]) ++ trimEndWhile isBlank ds := by
  have start : (cs ++ (first :: inner ++ [last]) ++ ds).dropWhile isBlank =
      cs.dropWhile isBlank ++ (first :: inner ++ [last]) ++ ds := by
    by_cases all : ∀ c ∈ cs, isBlank c = true
    · simp [List.dropWhile_append_of_pos all, List.dropWhile_eq_nil_iff.2 all, isFirst]
    · simp only [List.append_assoc, dropWhile_append (show ∃ c ∈ cs, isBlank c = false by simpa using all)]
  rw [trim, trimWhile, start]
  by_cases all : ∀ d ∈ ds, isBlank d = true
  · have none : trimEndWhile isBlank ds = [] := by
      simpa [trimEndWhile_eq_rdropWhile] using all
    rw [trimEndWhile_append_of_all all, none, List.append_nil, ← List.append_assoc]
    exact trimEndWhile_concat isLast
  · exact trimEndWhile_append (by simpa using all)

/-- Trimming splits off blanks at both ends. -/
theorem exists_trim_eq (cs : List Char) : ∃ front back : List Char,
    (∀ c ∈ front, isBlank c = true) ∧ (∀ c ∈ back, isBlank c = true) ∧ cs = front ++ trim cs ++ back := by
  refine ⟨cs.takeWhile isBlank, (cs.dropWhile isBlank).rtakeWhile isBlank,
    fun c => List.mem_takeWhile_imp, fun c => List.mem_rtakeWhile_imp, ?_⟩
  rw [List.append_assoc, trim, trimWhile, trimEndWhile_eq_rdropWhile,
    List.rdropWhile_append_rtakeWhile, List.takeWhile_append_dropWhile]

theorem trim_append_left (blank : ∀ c ∈ cs, isBlank c = true) : trim (cs ++ ds) = trim ds := by
  rw [trim, trimWhile, List.dropWhile_append_of_pos blank, trim, trimWhile]

theorem trim_append_right (blank : ∀ d ∈ ds, isBlank d = true) : trim (cs ++ ds) = trim cs := by
  by_cases all : ∀ c ∈ cs, isBlank c = true
  · rw [trim_append_left all, trim_eq_nil_iff.2 blank, trim_eq_nil_iff.2 all]
  · have keeps : ∃ c ∈ cs, isBlank c = false := by simpa using all
    rw [trim, trimWhile, dropWhile_append keeps, trimEndWhile_append_of_all blank, trim, trimWhile]

theorem trim_trimEndWhile : trim (trimEndWhile isBlank cs) = trim cs := by
  have split := List.rdropWhile_append_rtakeWhile (p := isBlank) (l := cs)
  calc trim (trimEndWhile isBlank cs)
      = trim (cs.rdropWhile isBlank ++ cs.rtakeWhile isBlank) :=
        (trim_append_right fun c => List.mem_rtakeWhile_imp).symm
    _ = trim cs := congrArg trim split

end JobFlow.Text
