import JobFlow.Proofs.RunnerPath.SharedParent

/-!
Files that overwrite each other inside an artifact. Below the shared directory all paths keep apart. A
path that is not below it keeps its file name only, and then a file of the same name at the top of the
artifact gets the same place.
-/

set_option autoImplicit false

namespace JobFlow.RunnerPath

/-- Only the file name of the path is kept: either the paths share no directory, or this path is relative
where that directory is absolute, or the other way round. -/
def KeepsNameOnly (paths : List String) (path : String) : Prop :=
  commonParent paths = "" ∨ (ofString path).absolute ≠ (ofString (commonParent paths)).absolute

/-- The path stands at the top of the artifact: without its directories, or right below the shared
one. -/
def AtTop (paths : List String) (path : String) : Prop :=
  KeepsNameOnly paths path ∨ (ofString path).parent = ofString (commonParent paths)

section segments

variable {s : String} {below : List String} {d p : RunnerPath}

theorem toString_singleton (s : String) : (mk false [s]).toString = s := by
  simp [toString]

theorem IsSegment.canonical (proper : IsSegment s) : Canonical ⟨false, [s]⟩ where
  proper := List.forall_mem_singleton.2 proper
  climbsFirst := List.pairwise_singleton _ _
  rooted := fun isAbsolute => absurd isAbsolute Bool.false_ne_true

/-- A text without slashes is the text of one segment only. -/
theorem eq_singleton_of_toString_eq (canonical : Canonical ⟨false, below⟩) (proper : IsSegment s)
    (same : (mk false below).toString = s) : below = [s] := by
  have read := congrArg ofString (same.trans (toString_singleton s).symm)
  rw [ofString_toString canonical, ofString_toString proper.canonical] at read
  exact (RunnerPath.mk.inj read).2

/-- The name of a path is the last of its segments below any directory. -/
theorem name_of_segments {front : List String} {last : String}
    (segments : p.segments = d.segments ++ (front ++ [last])) : p.name = last := by
  rw [name, segments, ← List.append_assoc, List.getLastD_concat]

/-- Below a directory, the name of a path is one of its segments. -/
theorem isSegment_name (canonical : p.Canonical) (present : below ≠ [])
    (segments : p.segments = d.segments ++ below) : IsSegment p.name := by
  rw [← List.dropLast_concat_getLast present] at segments
  rw [name_of_segments segments]
  exact canonical.proper _ (by simp [segments])

/-- A path stands right below a directory when only its name is below it. -/
theorem parent_eq_iff (sameKind : p.absolute = d.absolute) (present : below ≠ [])
    (segments : p.segments = d.segments ++ below) : p.parent = d ↔ below = [p.name] := by
  obtain ⟨front, last, rfl⟩ : ∃ front last, below = front ++ [last] :=
    ⟨_, _, (List.dropLast_concat_getLast present).symm⟩
  have directories : p.segments.dropLast = d.segments ++ front := by
    rw [segments, ← List.append_assoc, List.dropLast_concat]
  have parent : p.parent = ⟨d.absolute, d.segments ++ front⟩ := by
    rw [RunnerPath.parent, sameKind, directories]
  rw [parent, name_of_segments segments]
  constructor
  · intro same
    have none : front = [] := List.append_right_eq_self.1 (congrArg RunnerPath.segments same)
    rw [none, List.nil_append]
  · intro single
    have none : front = [] := List.append_left_eq_self.1 single
    rw [none, List.append_nil]

end segments

section several

variable {first second : String} {rest : List String} {p q : String} {d : RunnerPath}

/-- A path that keeps more than its name is of the kind of the shared directory. -/
theorem exists_sharedParent {paths : List String} (directories : ¬ KeepsNameOnly paths p) :
    ∃ d, sharedParent? (paths.map ofString) = some d ∧ (ofString p).absolute = d.absolute := by
  obtain ⟨sharing, sameKind⟩ := not_or.1 directories
  obtain ⟨d, isShared⟩ := commonParent_ne_empty.1 sharing
  rw [ofString_commonParent isShared] at sameKind
  exact ⟨d, isShared, Decidable.not_not.1 sameKind⟩

theorem place_of_keepsNameOnly (isPath : p ∈ first :: second :: rest)
    (nameOnly : KeepsNameOnly (first :: second :: rest) p) :
    (places (first :: second :: rest)).find? (clean p) = some (ofString p).name := by
  rw [find?_places isPath]
  cases isShared : sharedParent? ((first :: second :: rest).map ofString) with
  | none => rfl
  | some d =>
    have otherKind := nameOnly.resolve_left fun nothing =>
      Option.some_ne_none d (isShared.symm.trans (commonParent_eq_empty.1 nothing))
    rw [ofString_commonParent isShared] at otherKind
    rw [place, Option.bind_some, below?_of_other_kind otherKind, Option.getD_none]

/-- At the top of the artifact a path has its bare name. -/
theorem place_of_atTop (isPath : p ∈ first :: second :: rest)
    (top : AtTop (first :: second :: rest) p) :
    (places (first :: second :: rest)).find? (clean p) = some (ofString p).name := by
  rcases Classical.em (KeepsNameOnly (first :: second :: rest) p) with nameOnly | directories
  · exact place_of_keepsNameOnly isPath nameOnly
  · obtain ⟨d, isShared, sameKind⟩ := exists_sharedParent directories
    obtain ⟨below, present, segments, isPlace⟩ := place_of_sharedParent isShared isPath sameKind
    have parent := top.resolve_left directories
    rw [ofString_commonParent isShared] at parent
    rw [isPlace, (parent_eq_iff sameKind present segments).1 parent, toString_singleton]

/-- Below the shared directory, different paths have different places. -/
theorem clean_eq_of_same_place (isPath : p ∈ first :: second :: rest)
    (isOther : q ∈ first :: second :: rest)
    (directories : ¬ KeepsNameOnly (first :: second :: rest) p)
    (otherDirectories : ¬ KeepsNameOnly (first :: second :: rest) q)
    (same : (places (first :: second :: rest)).find? (clean p) =
      (places (first :: second :: rest)).find? (clean q)) : clean p = clean q := by
  obtain ⟨d, isShared, sameKind⟩ := exists_sharedParent directories
  obtain ⟨e, alsoShared, otherKind⟩ := exists_sharedParent otherDirectories
  cases isShared.symm.trans alsoShared
  obtain ⟨below, _, segments, isPlace⟩ := place_of_sharedParent isShared isPath sameKind
  obtain ⟨otherBelow, _, otherSegments, isOtherPlace⟩ :=
    place_of_sharedParent isShared isOther otherKind
  rw [isPlace, isOtherPlace] at same
  rw [← join_commonParent isShared sameKind segments, Option.some.inj same]
  exact join_commonParent isShared otherKind otherSegments

/-- A path with the place of one that keeps its name only has the same name, and stands at the top. -/
theorem atTop_of_same_place (isPath : p ∈ first :: second :: rest)
    (isOther : q ∈ first :: second :: rest) (nameOnly : KeepsNameOnly (first :: second :: rest) p)
    (same : (places (first :: second :: rest)).find? (clean p) =
      (places (first :: second :: rest)).find? (clean q)) :
    (ofString p).name = (ofString q).name ∧ AtTop (first :: second :: rest) q := by
  rw [place_of_keepsNameOnly isPath nameOnly] at same
  rcases Classical.em (KeepsNameOnly (first :: second :: rest) q) with otherNameOnly | directories
  · rw [place_of_keepsNameOnly isOther otherNameOnly] at same
    exact ⟨Option.some.inj same, Or.inl otherNameOnly⟩
  · obtain ⟨d, isShared, sameKind⟩ := exists_sharedParent directories
    obtain ⟨below, present, segments, isPlace⟩ := place_of_sharedParent isShared isOther sameKind
    obtain ⟨ofPath, somePart, ofSegments⟩ := exists_below isShared isPath
    have proper := isSegment_name (canonical_ofString p) somePart ofSegments
    have relative := (canonical_ofString q).remainder segments
    -- a bare name has no slash, so a place that equals it has no directories
    have single : below = [(ofString p).name] := by
      rw [isPlace] at same
      exact eq_singleton_of_toString_eq relative proper (Option.some.inj same).symm
    rw [single] at segments
    have sameName : (ofString q).name = (ofString p).name := by
      rw [name, segments, List.getLastD_concat]
    refine ⟨sameName.symm, Or.inr ?_⟩
    rw [ofString_commonParent isShared, parent_eq_iff sameKind (List.cons_ne_nil _ []) segments,
      sameName]

end several

/-- When two of the paths overwrite each other. Paths that keep more than their name never do; in all
other cases they do exactly when both stand at the top of the artifact and have the same name. -/
theorem places_collide_iff {paths : List String} {p q : String} (isPath : p ∈ paths) (isOther : q ∈ paths)
    (different : clean p ≠ clean q) :
    ∃ placeOfPath placeOfOther, (places paths).find? (clean p) = some placeOfPath ∧
      (places paths).find? (clean q) = some placeOfOther ∧
      (¬ KeepsNameOnly paths p → ¬ KeepsNameOnly paths q → placeOfPath ≠ placeOfOther) ∧
      (placeOfPath = placeOfOther ↔
        (ofString p).name = (ofString q).name ∧ AtTop paths p ∧ AtTop paths q) := by
  obtain ⟨placeOfPath, isPlace⟩ := exists_place isPath
  obtain ⟨placeOfOther, isOtherPlace⟩ := exists_place isOther
  refine ⟨placeOfPath, placeOfOther, isPlace, isOtherPlace, ?_⟩
  have same_iff : placeOfPath = placeOfOther ↔
      (places paths).find? (clean p) = (places paths).find? (clean q) := by
    rw [isPlace, isOtherPlace, Option.some_inj]
  rw [ne_eq, same_iff]
  match paths with
  | [] => cases isPath
  | [only] =>
    rw [List.mem_singleton.1 isPath, List.mem_singleton.1 isOther] at different
    exact absurd rfl different
  | first :: second :: rest =>
    have apart : ¬ KeepsNameOnly (first :: second :: rest) p →
        ¬ KeepsNameOnly (first :: second :: rest) q → _ := fun directories otherDirectories same =>
      different (clean_eq_of_same_place isPath isOther directories otherDirectories same)
    refine ⟨apart, fun same => ?_, ?_⟩
    -- one of the two keeps its name only, and that puts the other at the top
    · rcases Classical.em (KeepsNameOnly (first :: second :: rest) p) with nameOnly | directories
      · obtain ⟨sameName, top⟩ := atTop_of_same_place isPath isOther nameOnly same
        exact ⟨sameName, Or.inl nameOnly, top⟩
      · have nameOnly : KeepsNameOnly (first :: second :: rest) q :=
          Classical.not_not.1 fun otherDirectories => apart directories otherDirectories same
        obtain ⟨sameName, top⟩ := atTop_of_same_place isOther isPath nameOnly same.symm
        exact ⟨sameName.symm, top, Or.inl nameOnly⟩
    · rintro ⟨sameName, top, otherTop⟩
      rw [place_of_atTop isPath top, place_of_atTop isOther otherTop, sameName]

def mixedPaths : List String :=
  ["/srv/run", "./srv/run", "/srv/lib/run"]

theorem places_collide_mixed :
    "/srv/run" ∈ mixedPaths ∧ "./srv/run" ∈ mixedPaths ∧ clean "/srv/run" ≠ clean "./srv/run" ∧
    (places mixedPaths).find? (clean "/srv/run") = some "run" ∧
    (places mixedPaths).find? (clean "./srv/run") = some "run" ∧
    (ofString "/srv/run").name = (ofString "./srv/run").name ∧ AtTop mixedPaths "/srv/run" ∧
    AtTop mixedPaths "./srv/run" := by
  have isPath : "/srv/run" ∈ mixedPaths := by decide
  have isOther : "./srv/run" ∈ mixedPaths := by decide
  have different : clean "/srv/run" ≠ clean "./srv/run" := by decide +kernel
  have first : (places mixedPaths).find? (clean "/srv/run") = some "run" := by decide +kernel
  have second : (places mixedPaths).find? (clean "./srv/run") = some "run" := by decide +kernel
  obtain ⟨_, _, isPlace, isOtherPlace, _, collide⟩ := places_collide_iff isPath isOther different
  cases first.symm.trans isPlace
  cases second.symm.trans isOtherPlace
  exact ⟨isPath, isOther, different, first, second, collide.1 rfl⟩

/-- Files with one name in directories that share nothing. -/
theorem places_not_injective :
    ¬ ∀ (paths : List String) (p q : String), p ∈ paths → q ∈ paths → clean p ≠ clean q →
      (places paths).find? (clean p) ≠ (places paths).find? (clean q) := by
  intro injective
  exact injective ["/a/x", "/b/x"] "/a/x" "/b/x" (by decide) (by decide) (by decide +kernel)
    (by decide +kernel)

end JobFlow.RunnerPath
