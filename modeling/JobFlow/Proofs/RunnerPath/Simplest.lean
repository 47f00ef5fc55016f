import JobFlow.FilePath
import JobFlow.Proofs.RunnerPath.Climbing

/-!
Texts of paths in their simplest form. Such a text has single slashes only, no segment that could be left
out, and steps up at most in front of a relative path; simplifying it again changes nothing, wherever it
stands in front of other parts. The simplest form is also that of readers which give exactly two slashes in
front a meaning of their own, once these two are made one.
-/

set_option autoImplicit false

namespace JobFlow.RunnerPath

/-- The segments of a text that are neither empty nor a dot. -/
def keptSegments (s : String) : List String :=
  (Text.pieces '/' s).filter fun segment => segment ≠ "" && segment ≠ "."

/-- The segments behind the slash in front, as they are written. The root and the current directory have
none. -/
def segmentsOf (s : String) : List String :=
  if s = "/" ∨ s = "." then []
  else Text.pieces '/' (if Text.startsWith s "/" then Text.dropChars s 1 else s)

/-- A text in which nothing is left to simplify. -/
structure IsSimplest (s : String) : Prop where
  oneSlash : Text.startsWith s "//" = false
  noSlashBehind : s ≠ "/" → Text.endsWith s "/" = false
  proper : ∀ segment ∈ segmentsOf s, segment ≠ "" ∧ segment ≠ "."
  /-- Steps up stand in front of all names, and only in a relative path. -/
  climbsFirst : ∃ up down, segmentsOf s = List.replicate up ".." ++ down ∧ ".." ∉ down ∧
    (Text.startsWith s "/" = true → up = 0)

/-- The simplified form in which exactly two slashes in front stay two; any other number of them is one. -/
def normalForm (s : String) : String :=
  let p := FilePath.ofString s
  (FilePath.mk p.root (simplify p.isAbsolute p.segments)).text

def withOneSlash (s : String) : String :=
  if Text.startsWith s "//" then "/" ++ String.ofList (s.toList.dropWhile (· == '/')) else s

section segments

variable {segments : List String}

theorem startsWith_slash_intercalate (proper : ∀ s ∈ segments, IsSegment s) :
    Text.startsWith ("/".intercalate segments) "/" = false := by
  cases segments with
  | nil => rfl
  | cons first rest => exact startsWith_slash_toString (p := ⟨false, first :: rest⟩) proper

theorem pieces_of_segments (some : segments ≠ []) (proper : ∀ s ∈ segments, IsSegment s) :
    Text.pieces '/' ("/".intercalate segments) = segments :=
  Text.pieces_intercalate rfl some fun s isMember => (proper s isMember).noSlash

/-- Steps up that only follow their like stand in front. -/
theorem exists_steps_up
    (climbsFirst : segments.Pairwise fun outer inner => inner = ".." → outer = "..") :
    ∃ up down, segments = List.replicate up ".." ++ down ∧ ".." ∉ down := by
  induction segments with
  | nil => exact ⟨0, [], rfl, List.not_mem_nil⟩
  | cons first rest ih =>
    obtain ⟨before, later⟩ := List.pairwise_cons.1 climbsFirst
    by_cases isUp : first = ".."
    · obtain ⟨up, down, rfl, names⟩ := ih later
      exact ⟨up + 1, down, by rw [isUp]; rfl, names⟩
    · refine ⟨0, first :: rest, rfl, fun isMember => ?_⟩
      rcases List.mem_cons.1 isMember with isFirst | isLater
      · exact isUp isFirst.symm
      · exact isUp (before ".." isLater rfl)

end segments

section text

variable {p : RunnerPath} {s : String}

/-- Behind a slash at the end stands an empty piece. -/
theorem getLast?_pieces (slash : Text.endsWith s "/" = true) :
    (Text.pieces '/' s).getLast? = some "" := by
  obtain ⟨front, whole⟩ := Text.endsWith_iff.1 slash
  have text : s = String.ofList front ++ "/" ++ "" := by
    apply String.toList_injective
    simpa using whole.symm
  rw [text, Text.pieces_append rfl]
  exact List.getLast?_concat

theorem startsWith_slashes_append (s : String) :
    Text.startsWith ("/" ++ s) "//" = Text.startsWith s "/" := by
  simp [Text.startsWith]

theorem startsWith_of_slashes (slashes : Text.startsWith s "//" = true) :
    Text.startsWith s "/" = true :=
  Text.startsWith_iff.2 ((List.prefix_append ['/'] ['/']).trans (Text.startsWith_iff.1 slashes))

/-- A slash in front is no part of a segment. -/
theorem segmentsOf_of_absolute (some : s ≠ "") : segmentsOf ("/" ++ s) = Text.pieces '/' s := by
  have notBare : ¬ ("/" ++ s = "/" ∨ "/" ++ s = ".") := by
    rintro (root | dot)
    · exact some (String.toList_injective (by simpa using congrArg String.toList root))
    · simpa using congrArg String.toList dot
  have slash : Text.startsWith ("/" ++ s) "/" = true := startsWith_slash_append (by decide) s
  have behind : Text.dropChars ("/" ++ s) 1 = s := String.toList_injective (by simp [Text.dropChars])
  rw [segmentsOf, if_neg notBare, if_pos slash, behind]

theorem segmentsOf_of_relative (relative : Text.startsWith s "/" = false) (notDot : s ≠ ".") :
    segmentsOf s = Text.pieces '/' s := by
  have notRoot : s ≠ "/" := by
    rintro rfl
    cases relative
  rw [segmentsOf, if_neg (not_or.2 ⟨notRoot, notDot⟩), if_neg (Bool.eq_false_iff.1 relative)]

/-- The segments of a path stand in its text. -/
theorem segmentsOf_toString (canonical : p.Canonical) : segmentsOf p.toString = p.segments := by
  obtain ⟨absolute, segments⟩ := p
  cases segments with
  | nil => cases absolute <;> rfl
  | cons first rest =>
    have here : IsSegment first := canonical.proper first List.mem_cons_self
    have parts : Text.pieces '/' ("/".intercalate (first :: rest)) = first :: rest :=
      pieces_of_segments (List.cons_ne_nil first rest) canonical.proper
    cases absolute with
    | true => exact (segmentsOf_of_absolute (intercalate_ne_empty here.filled rest)).trans parts
    | false =>
      have notDot : "/".intercalate (first :: rest) ≠ "." := by
        intro dot
        rw [dot] at parts
        exact here.noDot (List.cons.inj parts).1.symm
      exact (segmentsOf_of_relative (startsWith_slash_intercalate canonical.proper) notDot).trans parts

/-- The text of a path has one slash in front at most. -/
theorem startsWith_slashes_toString (canonical : p.Canonical) :
    Text.startsWith p.toString "//" = false := by
  cases absolute : p.absolute with
  | true =>
    rw [toString, if_pos absolute, startsWith_slashes_append]
    exact startsWith_slash_intercalate canonical.proper
  | false =>
    refine Bool.eq_false_iff.2 fun slashes => ?_
    have slash := startsWith_of_slashes slashes
    rw [startsWith_slash_toString canonical.proper, absolute] at slash
    cases slash

/-- Only the root ends with a slash. -/
theorem endsWith_slash_toString (canonical : p.Canonical) (notRoot : p.toString ≠ "/") :
    Text.endsWith p.toString "/" = false := by
  obtain ⟨absolute, segments⟩ := p
  cases segments with
  | nil =>
    cases absolute with
    | true => exact absurd rfl notRoot
    | false => rfl
  | cons first rest =>
    have filled : ∀ s ∈ first :: rest, s ≠ "" := canonical.filled
    have parts : Text.pieces '/' ("/".intercalate (first :: rest)) = first :: rest :=
      pieces_of_segments (List.cons_ne_nil first rest) canonical.proper
    have last : (Text.pieces '/' (mk absolute (first :: rest)).toString).getLast? =
        (first :: rest).getLast? := by
      cases absolute with
      | true =>
        have cut : Text.pieces '/' ("" ++ "/" ++ "/".intercalate (first :: rest)) =
            Text.pieces '/' "" ++ Text.pieces '/' ("/".intercalate (first :: rest)) :=
          Text.pieces_append rfl "" _
        rw [parts] at cut
        exact (congrArg List.getLast? cut).trans List.getLast?_cons_cons
      | false => exact congrArg List.getLast? parts
    refine Bool.eq_false_iff.2 fun slash => ?_
    exact filled "" (List.mem_of_getLast? (last.symm.trans (getLast?_pieces slash))) rfl

/-- The text of a path with nothing left to simplify is in its simplest form. -/
theorem isSimplest_toString (canonical : p.Canonical) : IsSimplest p.toString where
  oneSlash := startsWith_slashes_toString canonical
  noSlashBehind := endsWith_slash_toString canonical
  proper := by
    rw [segmentsOf_toString canonical]
    exact fun s isMember => ⟨(canonical.proper s isMember).filled, (canonical.proper s isMember).noDot⟩
  climbsFirst := by
    obtain ⟨up, down, segments, names⟩ := exists_steps_up canonical.climbsFirst
    rw [segmentsOf_toString canonical, startsWith_slash_toString canonical.proper]
    refine ⟨up, down, segments, names, fun isAbsolute => ?_⟩
    have never := canonical.rooted isAbsolute
    rw [segments] at never
    cases up with
    | zero => rfl
    | succ n => exact absurd (List.mem_append_left down List.mem_cons_self) never

end text

section clean

variable {s t : String}

/-- Segments that are empty or a dot are passed over. -/
theorem simplify_kept (absolute : Bool) (written : List String) :
    simplify absolute (written.filter fun segment => segment ≠ "" && segment ≠ ".") =
      simplify absolute written := by
  have step : (fun inner segment => if (segment ≠ "" && segment ≠ ".") = true then
      enter absolute inner segment else inner) = enter absolute := by
    funext inner segment
    unfold enter
    split <;> split <;> simp_all
  rw [simplify, List.foldl_filter, step, simplify]

/-- The slash in front and the kept segments decide the simplest form. -/
theorem clean_eq_of_kept (s : String) : clean s =
    (mk (Text.startsWith s "/") (simplify (Text.startsWith s "/") (keptSegments s))).toString := by
  rw [keptSegments, simplify_kept]
  rfl

/-- A part in front of others may be simplified before them. -/
theorem clean_append_clean (filled : s ≠ "") (t : String) :
    clean (clean s ++ "/" ++ t) = clean (s ++ "/" ++ t) := by
  have canonical := canonical_ofString s
  have same : simplify (ofString s).absolute (Text.pieces '/' (clean s)) =
      simplify (ofString s).absolute (Text.pieces '/' s) := simplify_pieces_toString canonical
  have stays : clean s ≠ "" := toString_ne_empty canonical.filled
  rw [clean_eq_clean, ofString_append_slash stays, ofString_append_slash filled, ofString_clean,
    simplify_append_congr same]

/-- Empty parts do not count. -/
theorem join_filter (parts : List String) : join (parts.filter (· ≠ "")) = join parts := by
  rw [join, List.filter_filter, join]
  simp only [Bool.and_self]

/-- Parts may be joined early when all of them are there. -/
theorem join_clean_cons {front behind : List String} (some : front ≠ [])
    (filled : ∀ part ∈ front ++ behind, part ≠ "") :
    join (clean ("/".intercalate front) :: behind) = join (front ++ behind) := by
  obtain ⟨first, rest, rfl⟩ := List.exists_cons_of_ne_nil some
  obtain ⟨before, after⟩ := List.forall_mem_append.1 filled
  have start : "/".intercalate (first :: rest) ≠ "" :=
    intercalate_ne_empty (before first List.mem_cons_self) rest
  have stays : clean ("/".intercalate (first :: rest)) ≠ "" :=
    toString_ne_empty (filled_ofString _)
  rw [join_eq_clean (List.cons_ne_nil _ behind) (List.forall_mem_cons.2 ⟨stays, after⟩),
    join_eq_clean (List.append_ne_nil_of_left_ne_nil some behind) filled]
  by_cases last : behind = []
  · rw [last, String.intercalate_singleton, List.append_nil]
    exact clean_eq_clean.2 (ofString_clean _)
  · rw [String.intercalate_cons_of_ne_nil last, String.intercalate_append_of_ne_nil some last]
    exact clean_append_clean start _

/-- Parts that are joined early count like the parts they are made of. -/
theorem join_join (front behind : List String) :
    join (join front :: behind) = join (front ++ behind) := by
  have filled : ∀ part ∈ front.filter (· ≠ "") ++ behind.filter (· ≠ ""), part ≠ "" := by
    rw [← List.filter_append]
    exact fun part isPart => of_decide_eq_true (List.mem_filter.1 isPart).2
  by_cases none : front.filter (· ≠ "") = []
  · have nothing : join front = "" := by
      rw [← join_filter, none]
      rfl
    rw [← join_filter (front ++ behind), List.filter_append, none, nothing, ← join_filter]
    rfl
  · have joined : join front = clean ("/".intercalate (front.filter (· ≠ ""))) := by
      rw [← join_filter front]
      exact join_eq_clean none (List.forall_mem_append.1 filled).1
    have stays : join front ≠ "" := joined ▸ toString_ne_empty (filled_ofString _)
    have present : (join front :: behind).filter (· ≠ "") = join front :: behind.filter (· ≠ "") :=
      List.filter_cons_of_pos (decide_eq_true stays)
    rw [← join_filter (join front :: behind), present, joined, join_clean_cons none filled,
      ← List.filter_append, join_filter]

theorem normalForm_eq (s : String) :
    normalForm s = (FilePath.mk (FilePath.ofString s).root (ofString s).segments).text := by
  have segments : simplify (Text.startsWith s "/") (FilePath.ofString s).segments =
      (ofString s).segments := simplify_kept _ _
  rw [normalForm, FilePath.isAbsolute_ofString, segments]

theorem withOneSlash_slashes (relative : Text.startsWith s "/" = false) :
    withOneSlash ("//" ++ s) = "/" ++ s := by
  have slashes : Text.startsWith ("//" ++ s) "//" = true :=
    Text.startsWith_iff.2 (by simp)
  have behind : ("//" ++ s).toList.dropWhile (· == '/') = s.toList := by
    cases characters : s.toList with
    | nil => simp [characters]
    | cons c cs =>
      have other : c ≠ '/' := by
        rintro rfl
        simp [Text.startsWith, characters] at relative
      simp [characters, other]
  rw [withOneSlash, if_pos slashes, behind, String.ofList_toList]

/-- Two slashes in front are made one, and nothing else is changed, where they are kept at first. -/
theorem clean_eq_withOneSlash (s : String) : clean s = withOneSlash (normalForm s) := by
  have canonical := canonical_ofString s
  have whole : withOneSlash (clean s) = clean s :=
    if_neg (Bool.eq_false_iff.1 (startsWith_slashes_toString canonical))
  rw [normalForm_eq]
  rcases FilePath.root_cases s with ⟨relative, root⟩ | ⟨absolute, root | root⟩
  · have same : (FilePath.mk "" (ofString s).segments).text = clean s := by
      have kind : (ofString s).absolute = false := relative
      simp [FilePath.text, clean, toString, kind]
    rw [root, same, whole]
  · have same : (FilePath.mk "/" (ofString s).segments).text = clean s := by
      have kind : (ofString s).absolute = true := absolute
      simp [FilePath.text, clean, toString, kind]
    rw [root, same, whole]
  · have kind : (ofString s).absolute = true := absolute
    have same : (FilePath.mk "//" (ofString s).segments).text =
        "//" ++ "/".intercalate (ofString s).segments := by
      simp [FilePath.text]
    rw [root, same, withOneSlash_slashes (startsWith_slash_intercalate canonical.proper), clean,
      toString, if_pos kind]

end clean

/-- The simplest form of a text has nothing left to simplify, and a slash in front exactly when the text has
one. Simplifying it again changes nothing. The slash in front and the segments that are neither empty nor a
dot decide it. A part may be simplified before others are joined to it. It is the form that keeps exactly two
slashes in front, with these made one. -/
theorem clean_isSimplest (s t a b c : String) :
    IsSimplest (clean s) ∧ Text.startsWith (clean s) "/" = Text.startsWith s "/" ∧
    clean (clean s) = clean s ∧
    (Text.startsWith s "/" = Text.startsWith t "/" → keptSegments s = keptSegments t →
      clean s = clean t) ∧
    join [join [a, b], c] = join [a, b, c] ∧
    clean s = withOneSlash (normalForm s) := by
  have canonical := canonical_ofString s
  refine ⟨isSimplest_toString canonical, startsWith_slash_toString canonical.proper,
    clean_eq_clean.2 (ofString_clean s), ?_, join_join [a, b] [c], clean_eq_withOneSlash s⟩
  intro sameFront sameSegments
  rw [clean_eq_of_kept, clean_eq_of_kept, sameFront, sameSegments]

/-- Two slashes in front, a dot, empty segments and steps above the root. -/
theorem clean_isSimplest_above_root :
    Text.startsWith "//x/./../..//y/" "/" = Text.startsWith "/x/../../y" "/" ∧
      keptSegments "//x/./../..//y/" = keptSegments "/x/../../y" ∧
      clean "//x/./../..//y/" = clean "/x/../../y" ∧
      join [join ["/", "../x"], "/../y"] = join ["/", "../x", "/../y"] := by
  have sameFront : Text.startsWith "//x/./../..//y/" "/" = Text.startsWith "/x/../../y" "/" := by
    decide +kernel
  have sameSegments : keptSegments "//x/./../..//y/" = keptSegments "/x/../../y" := by
    decide +kernel
  obtain ⟨_, _, _, decided, joined, _⟩ :=
    clean_isSimplest "//x/./../..//y/" "/x/../../y" "/" "../x" "/../y"
  exact ⟨sameFront, sameSegments, decided sameFront sameSegments, joined⟩

end JobFlow.RunnerPath
