import Mathlib.Data.List.Basic
import Mathlib.Data.List.Induction
import JobFlow.Proofs.RunnerPath.Collision

/-!
Steps up. What is entered behind a directory can only take back segments at its end, so a path that
begins with a step up leaves the directory, and comes back only by entering its segments again. The place
of a file inside an artifact begins with a step up exactly when the file lies further up than the
directory that is stripped from it.
-/

set_option autoImplicit false

namespace JobFlow.RunnerPath

section simplify

variable {absolute : Bool} {front written other rest inner : List String} {s : String}

/-- What follows is entered from the simplified segments on. -/
theorem simplify_append_congr (same : simplify absolute written = simplify absolute other)
    (rest : List String) :
    simplify absolute (written ++ rest) = simplify absolute (other ++ rest) := by
  have sameInner := List.reverse_inj.1 same
  rw [simplify, List.foldl_append, sameInner, ← List.foldl_append]
  rfl

theorem simplify_concat (absolute : Bool) (written : List String) (s : String) :
    simplify absolute (written ++ [s]) =
      (enter absolute (simplify absolute written).reverse s).reverse := by
  rw [simplify, List.foldl_append, simplify, List.reverse_reverse]
  rfl

/-- A segment changes nothing, takes back the last one, or is added. -/
theorem enter_cases (absolute : Bool) (inner : List String) (s : String) :
    enter absolute inner s = inner ∨ enter absolute inner s = inner.tail ∨
      enter absolute inner s = s :: inner := by
  unfold enter
  split
  · exact Or.inl rfl
  · split
    · next up =>
      subst up
      cases inner with
      | nil => cases absolute <;> simp
      | cons last outer =>
        by_cases stacked : last = ".."
        · exact Or.inr (Or.inr (if_pos stacked))
        · exact Or.inr (Or.inl (if_neg stacked))
    · exact Or.inr (Or.inr rfl)

/-- A step up takes back the last segment, unless that is a step up itself. -/
theorem simplify_step_up (canonical : Canonical ⟨absolute, front ++ [s]⟩) (down : s ≠ "..") :
    simplify absolute (front ++ [s] ++ [".."]) = front := by
  have inPlace : simplify absolute (front ++ [s]) = front ++ [s] := simplify_of_canonical canonical
  rw [simplify_concat, inPlace, List.reverse_concat]
  show (if s = ".." then _ else front.reverse).reverse = front
  rw [if_neg down, List.reverse_reverse]

/-- Entering segments takes some away at the end and adds some of the new ones. -/
theorem simplify_append_cases (canonical : Canonical ⟨absolute, front⟩) (rest : List String) :
    ∃ kept added, simplify absolute (front ++ rest) = kept ++ added ∧ kept <+: front ∧
      added ⊆ rest := by
  induction rest using List.reverseRecOn with
  | nil =>
    refine ⟨front, [], ?_, List.prefix_refl front, List.nil_subset []⟩
    rw [List.append_nil]
    exact simplify_of_canonical canonical
  | append_singleton rest s ih =>
    obtain ⟨kept, added, sofar, isKept, isAdded⟩ := ih
    have isAddedToo : added ⊆ rest ++ [s] :=
      List.Subset.trans isAdded (List.subset_append_left rest [s])
    rw [← List.append_assoc, simplify_concat, sofar]
    rcases enter_cases absolute (kept ++ added).reverse s with same | back | forth
    · exact ⟨kept, added, by rw [same, List.reverse_reverse], isKept, isAddedToo⟩
    · rw [back, List.tail_reverse, List.reverse_reverse]
      rcases List.eq_nil_or_concat' added with rfl | ⟨before, last, rfl⟩
      · refine ⟨kept.dropLast, [], by simp, ?_, List.nil_subset _⟩
        exact (List.dropLast_prefix kept).trans isKept
      · refine ⟨kept, before, ?_, isKept, ?_⟩
        · rw [← List.append_assoc, List.dropLast_concat]
        · exact List.Subset.trans (List.subset_append_left before [last]) isAddedToo
    · refine ⟨kept, added ++ [s], ?_, isKept, ?_⟩
      · rw [forth, List.reverse_cons, List.reverse_reverse, List.append_assoc]
      · exact List.append_subset.2 ⟨isAddedToo, List.subset_append_right rest [s]⟩

/-- A path that begins with a step up leaves a directory that ends in a name, for good when it does not
enter that name again. -/
theorem not_prefix_of_step_up (canonical : Canonical ⟨absolute, front ++ [s]⟩) (down : s ≠ "..")
    (absent : s ∉ rest) :
    ¬ front ++ [s] <+: simplify absolute (front ++ [s] ++ ".." :: rest) := by
  have before : Canonical ⟨absolute, front⟩ := (canonical_concat.1 canonical).1
  have back : simplify absolute (front ++ [s] ++ [".."]) = simplify absolute front := by
    rw [simplify_step_up canonical down]
    exact (simplify_of_canonical before).symm
  obtain ⟨kept, added, landing, ⟨gone, isFront⟩, isAdded⟩ := simplify_append_cases before rest
  rw [List.append_cons (front ++ [s]), simplify_append_congr back, landing]
  rintro ⟨behind, whole⟩
  rw [← isFront, List.append_assoc, List.append_assoc] at whole
  have isMember : s ∈ added := by
    rw [← List.append_cancel_left whole]
    simp
  exact absent (isAdded isMember)

end simplify

/-- The segments that a place adds to a directory which it is put behind. -/
structure Adds (place : String) (inside : List String) : Prop where
  filled : place ≠ ""
  canonical : Canonical ⟨false, inside⟩
  entered : ∀ absolute written, simplify absolute (written ++ Text.pieces '/' place) =
    simplify absolute (written ++ inside)

section adds

variable {p : RunnerPath} {below inside : List String} {place : String}

theorem adds_toString (canonical : Canonical ⟨false, below⟩) :
    Adds (toString ⟨false, below⟩) below where
  filled := toString_ne_empty canonical.filled
  canonical := canonical
  entered := simplify_append_pieces rfl canonical.proper

/-- A bare name adds the last segment, and the root and the current directory add nothing. -/
theorem adds_name (canonical : p.Canonical) : Adds p.name p.segments.getLast?.toList := by
  rcases List.eq_nil_or_concat' p.segments with none | ⟨front, last, segments⟩
  · rw [name, none]
    cases absolute : p.absolute with
    | false =>
      have dot : p.toString = toString ⟨false, []⟩ := by rw [toString, absolute, none]; rfl
      rw [List.getLastD_nil, dot]
      exact adds_toString (canonical_nil false)
    | true =>
      have slash : p.toString = "/" := by rw [toString, absolute, none]; rfl
      rw [List.getLastD_nil, slash]
      refine ⟨by decide, canonical_nil false, fun absolute written => ?_⟩
      have pieces : Text.pieces '/' "/" = ["", ""] := by decide +kernel
      rw [pieces, simplify, List.foldl_append, List.getLast?_nil, Option.toList_none, List.append_nil]
      rfl
  · have proper : IsSegment last := canonical.proper last (by simp [segments])
    rw [name, segments, List.getLastD_concat, List.getLast?_concat, Option.toList_some,
      ← toString_singleton last]
    exact adds_toString proper.canonical

/-- Two dots stand first, if anywhere. -/
theorem Canonical.exists_step_up (canonical : Canonical ⟨false, inside⟩) (up : ".." ∈ inside) :
    ∃ rest, inside = ".." :: rest := by
  cases inside with
  | nil => exact absurd up List.not_mem_nil
  | cons first rest =>
    rcases List.mem_cons.1 up with rfl | later
    · exact ⟨rest, rfl⟩
    · have climbsFirst := (List.pairwise_cons.1 canonical.climbsFirst).1
      rw [climbsFirst ".." later rfl]
      exact ⟨rest, rfl⟩

end adds

/-- The path steps up out of the directory that is stripped from it. Where only its name is kept, the
name itself is the step; otherwise it has more steps up than the shared directory. -/
def StepsOut (paths : List String) (path : String) : Prop :=
  (KeepsNameOnly paths path ∧ (ofString path).name = "..") ∨
    (¬ KeepsNameOnly paths path ∧
      (ofString (commonParent paths)).segments.count ".." < (ofString path).segments.count "..")

instance (paths : List String) (path : String) : Decidable (KeepsNameOnly paths path) :=
  inferInstanceAs (Decidable (_ ∨ _))

instance (paths : List String) (path : String) : Decidable (StepsOut paths path) :=
  inferInstanceAs (Decidable (_ ∨ _))

section stepsOut

variable {p : RunnerPath} {paths inside : List String} {path : String}

/-- The name of a path is two dots when its last segment is. -/
theorem step_up_mem_getLast : ".." ∈ p.segments.getLast?.toList ↔ p.name = ".." := by
  rcases List.eq_nil_or_concat' p.segments with none | ⟨front, last, segments⟩
  · have other : p.name ≠ ".." := by
      rw [name, none, List.getLastD_nil, toString, none]
      cases p.absolute <;> decide
    simp [none, other]
  · rw [name, segments, List.getLastD_concat, List.getLast?_concat, Option.toList_some,
      List.mem_singleton, eq_comm]

theorem parent_append_getLast (p : RunnerPath) :
    p.segments = p.parent.segments ++ p.segments.getLast?.toList := by
  rw [parent]
  rcases List.eq_nil_or_concat' p.segments with none | ⟨front, last, segments⟩
  · simp [none]
  · simp [segments]

theorem stepsOut_of_keepsNameOnly (nameOnly : KeepsNameOnly paths path) :
    StepsOut paths path ↔ (ofString path).name = ".." := by
  rw [StepsOut, and_iff_right nameOnly, or_iff_left fun directories => directories.1 nameOnly]

/-- Below the shared directory, the path steps out when a step up is left behind that directory. -/
theorem stepsOut_of_segments (directories : ¬ KeepsNameOnly paths path)
    (segments : (ofString path).segments = (ofString (commonParent paths)).segments ++ inside) :
    StepsOut paths path ↔ ".." ∈ inside := by
  rw [StepsOut, or_iff_right fun nameOnly => directories nameOnly.1, and_iff_right directories, segments,
    List.count_append, Nat.lt_add_right_iff_pos, List.count_pos_iff]

theorem ofString_commonParent_singleton (path : String) :
    ofString (commonParent [path]) = (ofString path).parent :=
  ofString_commonParent rfl

theorem not_keepsNameOnly_singleton (path : String) : ¬ KeepsNameOnly [path] path := by
  rintro (nothing | otherKind)
  · exact commonParent_ne_empty.2 ⟨_, rfl⟩ nothing
  · exact otherKind (congrArg RunnerPath.absolute (ofString_commonParent_singleton path)).symm

/-- What the place of a path adds to a directory ends the path, and begins with a step up exactly when
the path steps out. -/
theorem exists_inside (isPath : path ∈ paths) :
    ∃ place inside, (places paths).find? (clean path) = some place ∧ Adds place inside ∧
      inside ⊆ (ofString path).segments ∧ (StepsOut paths path ↔ ".." ∈ inside) := by
  have bareName : Adds (ofString path).name (ofString path).segments.getLast?.toList :=
    adds_name (canonical_ofString path)
  have ofPath : (ofString path).segments.getLast?.toList ⊆ (ofString path).segments := by
    intro s isLast
    rw [parent_append_getLast (ofString path)]
    exact List.mem_append_right _ isLast
  match paths with
  | [] => cases isPath
  | [only] =>
    cases List.mem_singleton.1 isPath
    refine ⟨_, _, find?_places_singleton path, bareName, ofPath, ?_⟩
    refine stepsOut_of_segments (not_keepsNameOnly_singleton path) ?_
    rw [ofString_commonParent_singleton]
    exact parent_append_getLast (ofString path)
  | first :: second :: rest =>
    by_cases nameOnly : KeepsNameOnly (first :: second :: rest) path
    · refine ⟨_, _, place_of_keepsNameOnly isPath nameOnly, bareName, ofPath, ?_⟩
      rw [stepsOut_of_keepsNameOnly nameOnly, step_up_mem_getLast]
    · obtain ⟨d, isShared, sameKind⟩ := exists_sharedParent nameOnly
      obtain ⟨below, _, segments, isPlace⟩ := place_of_sharedParent isShared isPath sameKind
      have relative := (canonical_ofString path).remainder segments
      refine ⟨_, below, isPlace, adds_toString relative, ?_, ?_⟩
      · rw [segments]
        exact List.subset_append_right d.segments below
      · refine stepsOut_of_segments nameOnly ?_
        rw [ofString_commonParent isShared]
        exact segments

end stepsOut

end JobFlow.RunnerPath
