import JobFlow.RunnerPath.Basic

/-!
The form of a path in which nothing is left to simplify. Every path that was read has this form, and a
path of this form is read back from its own text. So two texts stand for the same path exactly when
their simplest forms are the same text, and what is put behind a slash comes out behind the segments
that were there before.
-/

set_option autoImplicit false

namespace JobFlow.RunnerPath

/-- A text that a path keeps as one of its segments. -/
structure IsSegment (s : String) : Prop where
  filled : s ≠ ""
  noDot : s ≠ "."
  noSlash : '/' ∉ s.toList

/-- Nothing is left to simplify. Two dots stand in front of all other segments, and only in a relative
path. -/
structure Canonical (p : RunnerPath) : Prop where
  proper : ∀ s ∈ p.segments, IsSegment s
  climbsFirst : p.segments.Pairwise fun outer inner => inner = ".." → outer = ".."
  rooted : p.absolute = true → ".." ∉ p.segments

section canonical

variable {p q : RunnerPath} {absolute : Bool} {inner written rest : List String} {s t : String}

/-- Without segments there is nothing to simplify. -/
theorem canonical_nil (absolute : Bool) : Canonical ⟨absolute, []⟩ where
  proper := fun _ none => absurd none List.not_mem_nil
  climbsFirst := List.Pairwise.nil
  rooted := fun _ => List.not_mem_nil

/-- Segments may be left out. -/
theorem Canonical.sublist (canonical : p.Canonical) (sub : q.segments.Sublist p.segments)
    (rooted : q.absolute = true → p.absolute = true) : q.Canonical where
  proper := fun segment isSegment => canonical.proper segment (sub.subset isSegment)
  climbsFirst := canonical.climbsFirst.sublist sub
  rooted := fun isAbsolute up => canonical.rooted (rooted isAbsolute) (sub.subset up)

/-- A segment that leaves no directory may follow any others; two dots may only follow their like. -/
theorem canonical_concat : Canonical ⟨absolute, rest ++ [s]⟩ ↔
    Canonical ⟨absolute, rest⟩ ∧ IsSegment s ∧
      (s = ".." → absolute = false ∧ ∀ outer ∈ rest, outer = "..") := by
  constructor
  · intro canonical
    have before : Canonical ⟨absolute, rest⟩ :=
      canonical.sublist (List.sublist_append_left rest [s]) id
    have last : s ∈ rest ++ [s] := List.mem_append_right rest List.mem_cons_self
    refine ⟨before, canonical.proper s last, ?_⟩
    rintro rfl
    constructor
    · exact Bool.eq_false_iff.2 fun isAbsolute => canonical.rooted isAbsolute last
    · intro outer isOuter
      exact (List.pairwise_append.1 canonical.climbsFirst).2.2 outer isOuter ".."
        List.mem_cons_self rfl
  · rintro ⟨before, proper, climbs⟩
    refine ⟨?_, ?_, ?_⟩
    · exact List.forall_mem_append.2 ⟨before.proper, List.forall_mem_singleton.2 proper⟩
    · refine List.pairwise_append.2 ⟨before.climbsFirst, List.pairwise_singleton _ _, ?_⟩
      intro outer isOuter inner isLast up
      exact (climbs (List.mem_singleton.1 isLast ▸ up)).2 outer isOuter
    · intro isAbsolute up
      rcases List.mem_append.1 up with early | late
      · exact before.rooted isAbsolute early
      · have relative := (climbs (List.mem_singleton.1 late).symm).1
        exact Bool.false_ne_true (relative.symm.trans isAbsolute)

/-- Segments that leave no directory may follow a path. -/
theorem Canonical.append (canonical : p.Canonical) (proper : ∀ s ∈ rest, IsSegment s)
    (down : ".." ∉ rest) : Canonical ⟨p.absolute, p.segments ++ rest⟩ where
  proper := List.forall_mem_append.2 ⟨canonical.proper, proper⟩
  climbsFirst := by
    have never : ∀ segment ∈ rest, segment ≠ ".." := fun segment isSegment up => down (up ▸ isSegment)
    refine List.pairwise_append.2 ⟨canonical.climbsFirst, ?_, ?_⟩
    · exact List.pairwise_iff_forall_sublist.2 fun sub up =>
        absurd up (never _ (sub.subset (by simp)))
    · exact fun _ _ segment isSegment up => absurd up (never segment isSegment)
  rooted := fun isAbsolute up =>
    (List.mem_append.1 up).elim (canonical.rooted isAbsolute) down

/-- Entering a segment leaves nothing to simplify. -/
theorem Canonical.enter (canonical : Canonical ⟨absolute, inner.reverse⟩) (whole : '/' ∉ s.toList) :
    Canonical ⟨absolute, (RunnerPath.enter absolute inner s).reverse⟩ := by
  unfold RunnerPath.enter
  split
  · exact canonical
  · next kept =>
    obtain ⟨filled, noDot⟩ := not_or.1 kept
    have proper : IsSegment s := ⟨filled, noDot, whole⟩
    split
    · next up =>
      subst up
      -- two dots take back the last segment, unless it is two dots itself or there is none
      cases inner with
      | nil =>
        cases absolute with
        | true => exact canonical
        | false => exact canonical_concat.2 ⟨canonical, proper, fun _ => ⟨rfl, by simp⟩⟩
      | cons last outer =>
        obtain ⟨before, _, climbs⟩ := canonical_concat.1 (List.reverse_cons ▸ canonical)
        show Canonical ⟨absolute, (if last = ".." then ".." :: last :: outer else outer).reverse⟩
        split
        · next stacked =>
          rw [List.reverse_cons]
          refine canonical_concat.2 ⟨canonical, proper, fun _ => ⟨(climbs stacked).1, ?_⟩⟩
          rw [List.reverse_cons]
          exact List.forall_mem_append.2
            ⟨(climbs stacked).2, List.forall_mem_singleton.2 stacked⟩
        · exact before
    · next down =>
      rw [List.reverse_cons]
      exact canonical_concat.2 ⟨canonical, proper, fun up => absurd up down⟩

theorem Canonical.foldl_enter (canonical : Canonical ⟨absolute, inner.reverse⟩)
    (whole : ∀ s ∈ written, '/' ∉ s.toList) :
    Canonical ⟨absolute, (written.foldl (RunnerPath.enter absolute) inner).reverse⟩ := by
  induction written generalizing inner with
  | nil => exact canonical
  | cons first rest ih =>
    obtain ⟨here, later⟩ := List.forall_mem_cons.1 whole
    exact ih (canonical.enter here) later

/-- In simplified segments nothing is left to simplify. -/
theorem canonical_simplify (absolute : Bool) (whole : ∀ s ∈ written, '/' ∉ s.toList) :
    Canonical ⟨absolute, simplify absolute written⟩ :=
  Canonical.foldl_enter (canonical_nil absolute) whole

/-- A path that was read has nothing left to simplify. -/
theorem canonical_ofString (s : String) : (ofString s).Canonical :=
  canonical_simplify _ fun _ => Text.not_mem_of_mem_pieces

/-- A segment that has its place where it is written is entered as it is. -/
theorem enter_of_canonical (canonical : Canonical ⟨absolute, inner.reverse ++ [s]⟩) :
    enter absolute inner s = s :: inner := by
  obtain ⟨_, proper, climbs⟩ := canonical_concat.1 canonical
  unfold enter
  rw [if_neg (not_or.2 ⟨proper.filled, proper.noDot⟩)]
  split
  · next up =>
    subst up
    obtain ⟨rfl, all⟩ := climbs rfl
    cases inner with
    | nil => rfl
    | cons last outer =>
      have stacked : last = ".." := all last (List.mem_reverse.2 List.mem_cons_self)
      show (if last = ".." then ".." :: last :: outer else outer) = _
      rw [if_pos stacked]
  · rfl

theorem foldl_enter_of_canonical (canonical : Canonical ⟨absolute, inner.reverse ++ written⟩) :
    written.foldl (enter absolute) inner = written.reverse ++ inner := by
  induction written generalizing inner with
  | nil => rfl
  | cons first rest ih =>
    have here : Canonical ⟨absolute, inner.reverse ++ [first]⟩ :=
      canonical.sublist (List.Sublist.append_left (by simp) inner.reverse) id
    have later : Canonical ⟨absolute, (first :: inner).reverse ++ rest⟩ := by
      rw [List.reverse_cons, List.append_assoc]
      exact canonical
    rw [List.foldl_cons, enter_of_canonical here, ih later, List.reverse_cons, List.append_assoc]
    rfl

/-- Segments that are in place behind simplified ones stay as they are. -/
theorem simplify_append (canonical : Canonical ⟨absolute, simplify absolute written ++ rest⟩) :
    simplify absolute (written ++ rest) = simplify absolute written ++ rest := by
  rw [simplify, List.foldl_append, foldl_enter_of_canonical canonical, List.reverse_append,
    List.reverse_reverse]
  rfl

theorem simplify_of_canonical (canonical : p.Canonical) :
    simplify p.absolute p.segments = p.segments :=
  simplify_append (show Canonical ⟨p.absolute, simplify p.absolute [] ++ p.segments⟩ from canonical)

end canonical

section text

variable {p q : RunnerPath} {s t : String}

/-- The segments of a relative path are read from its text. Without segments the text is a dot, which
changes nothing. -/
theorem simplify_append_pieces (relative : q.absolute = false) (proper : ∀ s ∈ q.segments, IsSegment s)
    (absolute : Bool) (written : List String) :
    simplify absolute (written ++ Text.pieces '/' q.toString) =
      simplify absolute (written ++ q.segments) := by
  rw [toString, relative, if_neg Bool.false_ne_true]
  cases segments : q.segments with
  | nil =>
    rw [List.append_nil, simplify, List.foldl_append]
    rfl
  | cons first rest =>
    rw [segments] at proper
    rw [List.isEmpty_cons, if_neg Bool.false_ne_true,
      Text.pieces_intercalate rfl (List.cons_ne_nil first rest) fun s isSegment =>
        (proper s isSegment).noSlash]

/-- The first character decides whether a path is absolute, whatever follows. -/
theorem startsWith_slash_append (filled : s ≠ "") (t : String) :
    Text.startsWith (s ++ t) "/" = Text.startsWith s "/" := by
  rw [Text.startsWith, String.toList_append, Text.startsWith]
  cases characters : s.toList with
  | nil => exact absurd (String.toList_eq_nil_iff.1 characters) filled
  | cons c cs => simp [List.isPrefixOf]

theorem startsWith_slash_of_isSegment (proper : IsSegment s) : Text.startsWith s "/" = false := by
  refine Bool.eq_false_iff.2 fun starts => proper.noSlash ?_
  exact (Text.startsWith_iff.1 starts).subset List.mem_cons_self

/-- A relative path does not start with a slash. -/
theorem startsWith_slash_toString (proper : ∀ s ∈ p.segments, IsSegment s) :
    Text.startsWith p.toString "/" = p.absolute := by
  rw [toString]
  cases absolute : p.absolute with
  | true =>
    rw [if_pos rfl]
    exact startsWith_slash_append (s := "/") (by decide) _
  | false =>
    rw [if_neg Bool.false_ne_true]
    cases segments : p.segments with
    | nil => rfl
    | cons first rest =>
      rw [segments] at proper
      obtain ⟨here, _⟩ := List.forall_mem_cons.1 proper
      rw [List.isEmpty_cons, if_neg Bool.false_ne_true]
      cases rest with
      | nil => simpa using startsWith_slash_of_isSegment here
      | cons second others =>
        rw [String.intercalate_cons_cons, String.append_assoc, startsWith_slash_append here.filled]
        exact startsWith_slash_of_isSegment here

theorem simplify_pieces_toString (canonical : p.Canonical) :
    simplify p.absolute (Text.pieces '/' p.toString) = p.segments := by
  cases absolute : p.absolute with
  | false =>
    have read := simplify_append_pieces absolute canonical.proper false []
    rw [List.nil_append, List.nil_append] at read
    rw [read, ← absolute]
    exact simplify_of_canonical canonical
  | true =>
    rw [toString, absolute, if_pos rfl]
    cases segments : p.segments with
    | nil => decide
    | cons first rest =>
      have whole : ∀ s ∈ first :: rest, '/' ∉ s.toList := fun s isSegment =>
        (canonical.proper s (segments ▸ isSegment)).noSlash
      have cut : Text.pieces '/' ("" ++ "/" ++ "/".intercalate (first :: rest)) =
          Text.pieces '/' "" ++ Text.pieces '/' ("/".intercalate (first :: rest)) :=
        Text.pieces_append rfl "" _
      rw [String.empty_append] at cut
      rw [cut, Text.pieces_intercalate rfl (List.cons_ne_nil first rest) whole, ← segments,
        ← absolute]
      exact simplify_of_canonical canonical

/-- A path with nothing left to simplify is read back from its text. -/
theorem ofString_toString (canonical : p.Canonical) : ofString p.toString = p := by
  rw [ofString, startsWith_slash_toString canonical.proper]
  show mk p.absolute (simplify p.absolute (Text.pieces '/' p.toString)) = p
  rw [simplify_pieces_toString canonical]

/-- The simplest form of a text stands for the same path. -/
theorem ofString_clean (s : String) : ofString (clean s) = ofString s :=
  ofString_toString (canonical_ofString s)

/-- Texts stand for the same path exactly when they have the same simplest form. -/
theorem clean_eq_clean : clean s = clean t ↔ ofString s = ofString t := by
  constructor
  · intro same
    rw [← ofString_clean s, same, ofString_clean]
  · intro same
    rw [clean, same, clean]

/-- A slash between two texts puts the segments of the second behind those of the first. -/
theorem ofString_append_slash (filled : s ≠ "") (t : String) :
    ofString (s ++ "/" ++ t) = ⟨(ofString s).absolute,
      simplify (ofString s).absolute (Text.pieces '/' s ++ Text.pieces '/' t)⟩ := by
  rw [ofString, String.append_assoc, startsWith_slash_append filled, ← String.append_assoc,
    Text.pieces_append rfl]
  rfl

/-- A relative path comes out behind a directory as it is, when nothing of it is left to simplify
there. -/
theorem ofString_append_toString (filled : s ≠ "") (relative : q.absolute = false)
    (canonical : Canonical ⟨(ofString s).absolute, (ofString s).segments ++ q.segments⟩) :
    ofString (s ++ "/" ++ q.toString) =
      ⟨(ofString s).absolute, (ofString s).segments ++ q.segments⟩ := by
  have proper : ∀ segment ∈ q.segments, IsSegment segment := fun segment isSegment =>
    canonical.proper segment (List.mem_append_right _ isSegment)
  rw [ofString_append_slash filled, simplify_append_pieces relative proper]
  exact congrArg (mk _) (simplify_append canonical)

/-- Parts that are all there are put together with slashes. -/
theorem join_eq_clean {parts : List String} (some : parts ≠ []) (filled : ∀ part ∈ parts, part ≠ "") :
    join parts = clean ("/".intercalate parts) := by
  have present : parts.filter (· ≠ "") = parts :=
    List.filter_eq_self.2 fun part isPart => decide_eq_true (filled part isPart)
  rw [join, present]
  cases parts with
  | nil => exact absurd rfl some
  | cons first rest => rfl

end text

end JobFlow.RunnerPath
