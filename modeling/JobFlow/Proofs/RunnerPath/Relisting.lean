import JobFlow.Proofs.RunnerPath.Collision

/-!
Listing the same files in another way. The directories of the files decide what is shared, in whatever
order, how often and in whatever spelling the files are listed. Only the kind of the shared directory is
that of the path listed first, so a list with absolute and relative paths may place them differently when
another path comes first.
-/

set_option autoImplicit false

namespace JobFlow.RunnerPath

/-- Both lists name the same files, each by its simplest form. -/
def SameFiles (paths others : List String) : Prop :=
  ∀ text, text ∈ paths.map clean ↔ text ∈ others.map clean

/-- The place of a path among files that share the given start of their directories: behind that start
when the path is of the given kind, and its bare name otherwise. -/
def placeBehind (absolute : Bool) (shared : List String) (p : RunnerPath) : String :=
  if shared = [] ∨ p.absolute ≠ absolute then p.name
  else (mk false (p.segments.drop shared.length)).toString

section shared

variable {lists others : List (List String)} {shared other : List String}

/-- There is one longest shared start at most, and it depends on the members of the lists only. -/
theorem LongestShared.unique (longest : LongestShared lists shared)
    (alsoLongest : LongestShared others other) (same : ∀ list, list ∈ lists ↔ list ∈ others) :
    shared = other := by
  have below : shared <+: other :=
    alsoLongest.longest shared fun list isList => longest.isShared list ((same list).2 isList)
  have above : other <+: shared :=
    longest.longest other fun list isList => alsoLongest.isShared list ((same list).1 isList)
  exact below.eq_of_length_le above.length_le

/-- One list shares all of itself. -/
theorem longestShared_singleton (list : List String) : LongestShared [list] list where
  isShared := List.forall_mem_singleton.2 (List.prefix_refl list)
  longest := fun _ starts => List.forall_mem_singleton.1 starts

end shared

section placeBehind

variable {absolute : Bool} {shared : List String} {p : RunnerPath}

theorem placeBehind_nil (absolute : Bool) (p : RunnerPath) : placeBehind absolute [] p = p.name :=
  if_pos (Or.inl rfl)

theorem placeBehind_of_other_kind (otherKind : p.absolute ≠ absolute) :
    placeBehind absolute shared p = p.name :=
  if_pos (Or.inr otherKind)

theorem placeBehind_of_append {below : List String} (some : shared ≠ []) (sameKind : p.absolute = absolute)
    (segments : p.segments = shared ++ below) :
    placeBehind absolute shared p = (mk false below).toString := by
  rw [placeBehind, if_neg (not_or.2 ⟨some, not_not_intro sameKind⟩), segments, List.drop_left]

/-- Behind a shared start, a path of the given kind gets its bare name exactly when it lies right
there. -/
theorem placeBehind_eq_name_iff (canonical : p.Canonical) (some : shared ≠ [])
    (sameKind : p.absolute = absolute) (starts : shared <+: p.segments.dropLast) :
    placeBehind absolute shared p = p.name ↔ p.segments.dropLast = shared := by
  let d : RunnerPath := ⟨p.absolute, shared⟩
  obtain ⟨below, present, segments⟩ := exists_below_of_prefix some starts
  have ofDirectory : p.segments = d.segments ++ below := segments
  have relative : Canonical ⟨false, below⟩ := canonical.remainder ofDirectory
  have proper : IsSegment p.name := isSegment_name canonical present ofDirectory
  rw [placeBehind_of_append some sameKind segments]
  constructor
  · intro same
    rw [segments, eq_singleton_of_toString_eq relative proper same, List.dropLast_concat]
  · intro directory
    have parent : p.parent = d := congrArg (mk p.absolute) directory
    have kind : p.absolute = d.absolute := rfl
    have single : below = [p.name] := (parent_eq_iff kind present ofDirectory).1 parent
    rw [single, toString_singleton]

/-- A path that lies right behind the shared start gets its bare name, whatever its kind. -/
theorem placeBehind_of_directory (canonical : p.Canonical) (directory : p.segments.dropLast = shared) :
    placeBehind absolute shared p = p.name := by
  by_cases none : shared = []
  · rw [none, placeBehind_nil]
  · by_cases sameKind : p.absolute = absolute
    · have starts : shared <+: p.segments.dropLast := directory ▸ List.prefix_refl shared
      exact (placeBehind_eq_name_iff canonical none sameKind starts).2 directory
    · exact placeBehind_of_other_kind sameKind

/-- Behind shared starts of different kinds, a path has the same place exactly when nothing is shared or
the path lies right there: behind one of the two it gets its bare name anyway. -/
theorem placeBehind_eq_iff (canonical : p.Canonical) (starts : shared <+: p.segments.dropLast)
    {other : Bool} (differ : absolute ≠ other) :
    placeBehind absolute shared p = placeBehind other shared p ↔
      shared = [] ∨ p.segments.dropLast = shared := by
  by_cases none : shared = []
  · subst none
    exact iff_of_true ((placeBehind_nil absolute p).trans (placeBehind_nil other p).symm) (Or.inl rfl)
  · rw [or_iff_right none]
    by_cases sameKind : p.absolute = absolute
    · have otherKind : p.absolute ≠ other := sameKind ▸ differ
      rw [placeBehind_of_other_kind otherKind]
      exact placeBehind_eq_name_iff canonical none sameKind starts
    · have otherKind : p.absolute = other := by
        rw [Bool.eq_not.2 sameKind, Bool.eq_not.2 differ, Bool.not_not]
      rw [placeBehind_of_other_kind sameKind, eq_comm]
      exact placeBehind_eq_name_iff canonical none otherKind starts

end placeBehind

section places

variable {paths others : List String} {first second path : String} {shared : List String}

theorem starts_with_shared (longest : LongestShared (directoriesOf paths) shared) (isPath : path ∈ paths) :
    shared <+: (ofString path).segments.dropLast :=
  longest.isShared _ (List.mem_map_of_mem isPath)

/-- Files that lie in one directory share that directory. -/
theorem LongestShared.eq_of_together {directory : List String}
    (longest : LongestShared (directoriesOf paths) shared) (some : paths ≠ [])
    (together : ∀ path ∈ paths, (ofString path).segments.dropLast = directory) : shared = directory := by
  refine longest.unique (longestShared_singleton directory) fun list => ?_
  rw [List.mem_singleton]
  constructor
  · intro isList
    obtain ⟨path, isPath, rfl⟩ := List.mem_map.1 isList
    exact together path isPath
  · rintro rfl
    obtain ⟨path, isPath⟩ := List.exists_mem_of_ne_nil paths some
    exact List.mem_map.2 ⟨path, isPath, together path isPath⟩

/-- However many paths there are, the first one and the shared start of the directories decide all
places. -/
theorem exists_shared_places (isFirst : paths.head? = some first) :
    ∃ shared, LongestShared (directoriesOf paths) shared ∧ ∀ path ∈ paths,
      (places paths).find? (clean path) =
        some (placeBehind (ofString first).absolute shared (ofString path)) := by
  match paths with
  | [] => cases isFirst
  | [only] =>
    cases isFirst
    refine ⟨_, longestShared_singleton _, List.forall_mem_singleton.2 ?_⟩
    rw [find?_places_singleton, placeBehind_of_directory (canonical_ofString first) rfl]
  | first :: second :: rest =>
    cases isFirst
    obtain ⟨shared, longest, found⟩ :=
      sharedParent?_several (ofString first) (ofString second) (rest.map ofString)
    rw [← List.map_cons, ← List.map_cons, ← directoriesOf_eq] at longest
    rw [← List.map_cons, ← List.map_cons] at found
    refine ⟨shared, longest, fun path isPath => ?_⟩
    rw [find?_places isPath, found, Option.some_inj]
    by_cases none : shared = []
    · rw [if_pos none, none, placeBehind_nil]
      rfl
    · let d : RunnerPath := ⟨(ofString first).absolute, shared⟩
      rw [if_neg none]
      show (below? d (ofString path)).getD (ofString path).name = _
      by_cases sameKind : (ofString path).absolute = d.absolute
      · obtain ⟨below, _, segments⟩ := exists_below_of_prefix none (starts_with_shared longest isPath)
        rw [below?_of_append (d := d) sameKind segments, placeBehind_of_append none sameKind segments,
          Option.getD_some]
      · rw [below?_of_other_kind sameKind, placeBehind_of_other_kind sameKind, Option.getD_none]

/-- Lists of the same files list the same simplified paths. -/
theorem SameFiles.mem_map_ofString (same : SameFiles paths others) {p : RunnerPath} :
    p ∈ paths.map ofString ↔ p ∈ others.map ofString := by
  have read : ∀ list : List String, p ∈ list.map ofString → p.toString ∈ list.map clean := by
    rintro list isPath
    obtain ⟨path, isMember, rfl⟩ := List.mem_map.1 isPath
    exact List.mem_map_of_mem isMember
  have back : ∀ list : List String, p.Canonical → p.toString ∈ list.map clean →
      p ∈ list.map ofString := by
    intro list canonical isText
    obtain ⟨path, isMember, sameText⟩ := List.mem_map.1 isText
    rw [← ofString_toString canonical, ← sameText, ofString_clean]
    exact List.mem_map_of_mem isMember
  constructor
  · intro isPath
    exact back others (canonical_ofStrings paths p isPath) ((same _).1 (read paths isPath))
  · intro isOther
    exact back paths (canonical_ofStrings others p isOther) ((same _).2 (read others isOther))

/-- The same files lie in the same directories. -/
theorem SameFiles.mem_directoriesOf (same : SameFiles paths others) {directory : List String} :
    directory ∈ directoriesOf paths ↔ directory ∈ directoriesOf others := by
  rw [directoriesOf_eq, directoriesOf_eq, List.mem_map, List.mem_map]
  simp only [same.mem_map_ofString]

/-- Mappings of the same files are equal when each listed file has the same place in both. -/
theorem SameFiles.places_eq_iff (same : SameFiles paths others) :
    (∀ key, (places paths).find? key = (places others).find? key) ↔
      ∀ path ∈ paths, (places paths).find? (clean path) = (places others).find? (clean path) := by
  refine ⟨fun equal path _ => equal (clean path), fun equal key => ?_⟩
  by_cases listed : key ∈ paths.map clean
  · obtain ⟨path, isPath, rfl⟩ := List.mem_map.1 listed
    exact equal path isPath
  · have unlisted : ∀ list : List String, key ∉ list.map clean → (places list).find? key = none := by
      intro list absent
      refine Mapping.find?_eq_none fun isKey => absent ?_
      exact List.mem_map.2 (mem_keys_places.1 isKey)
    rw [unlisted paths listed, unlisted others fun isOther => listed ((same key).2 isOther)]

end places

/-- When the way of listing some files has no influence on their places. If the two first paths are both
absolute or both relative, it never has, whatever the order, the repetitions and the spelling. Otherwise
the list mixes absolute and relative paths; then its places are independent of the first path exactly
when the directories share no segment at the start, or are all the same. -/
theorem places_relisted_iff {paths others : List String} {first second : String}
    (isFirst : paths.head? = some first) (isSecond : others.head? = some second)
    (same : SameFiles paths others) :
    (∀ key, (places paths).find? key = (places others).find? key) ↔
      Text.startsWith first "/" = Text.startsWith second "/" ∨
      (¬ ∃ segment, ∀ directory ∈ directoriesOf paths, directory.head? = some segment) ∨
      ∃ directory, ∀ path ∈ paths, (ofString path).segments.dropLast = directory := by
  obtain ⟨shared, longest, placed⟩ := exists_shared_places isFirst
  obtain ⟨other, alsoLongest, alsoPlaced⟩ := exists_shared_places isSecond
  cases longest.unique alsoLongest fun _ => same.mem_directoriesOf
  have ofOthers : ∀ path ∈ paths, (places others).find? (clean path) =
      some (placeBehind (ofString second).absolute shared (ofString path)) := by
    intro path isPath
    obtain ⟨twin, isTwin, sameText⟩ :=
      List.mem_map.1 ((same (clean path)).1 (List.mem_map_of_mem isPath))
    rw [← clean_eq_clean.1 sameText, ← sameText]
    exact alsoPlaced twin isTwin
  have samePlace_iff : ∀ path ∈ paths,
      ((places paths).find? (clean path) = (places others).find? (clean path) ↔
        placeBehind (ofString first).absolute shared (ofString path) =
          placeBehind (ofString second).absolute shared (ofString path)) := by
    intro path isPath
    rw [placed path isPath, ofOthers path isPath, Option.some_inj]
  rw [same.places_eq_iff, forall₂_congr samePlace_iff, ← longest.eq_nil_iff]
  show _ ↔ (ofString first).absolute = (ofString second).absolute ∨ _
  by_cases sameKind : (ofString first).absolute = (ofString second).absolute
  · exact iff_of_true (fun path _ => by rw [sameKind]) (Or.inl sameKind)
  rw [or_iff_right sameKind, forall₂_congr fun path isPath =>
    placeBehind_eq_iff (canonical_ofString path) (starts_with_shared longest isPath) sameKind]
  constructor
  · intro apart
    by_cases nothing : shared = []
    · exact Or.inl nothing
    · exact Or.inr ⟨shared, fun path isPath => (apart path isPath).resolve_left nothing⟩
  · rintro (nothing | ⟨directory, together⟩) path isPath
    · exact Or.inl nothing
    · have some : paths ≠ [] := List.ne_nil_of_mem isPath
      exact Or.inr ((together path isPath).trans (longest.eq_of_together some together).symm)

/-- Absolute and relative files that lie in directories of the same segments. -/
def binPaths : List String :=
  ["usr//bin/cc", "/usr/bin/ld", "usr/bin/../bin/cc"]

def binPathsReversed : List String :=
  ["/usr/./bin/ld", "./usr/bin/cc"]

theorem places_relisted_bin :
    binPaths.head? = some "usr//bin/cc" ∧ binPathsReversed.head? = some "/usr/./bin/ld" ∧
    SameFiles binPaths binPathsReversed ∧
    Text.startsWith "usr//bin/cc" "/" ≠ Text.startsWith "/usr/./bin/ld" "/" ∧
    (∀ key, (places binPaths).find? key = (places binPathsReversed).find? key) := by
  have isFirst : binPaths.head? = some "usr//bin/cc" := rfl
  have isSecond : binPathsReversed.head? = some "/usr/./bin/ld" := rfl
  have cleaned : binPaths.map clean = ["usr/bin/cc", "/usr/bin/ld", "usr/bin/cc"] := by decide +kernel
  have cleanedReversed : binPathsReversed.map clean = ["/usr/bin/ld", "usr/bin/cc"] := by
    decide +kernel
  have same : SameFiles binPaths binPathsReversed := by
    intro text
    rw [cleaned, cleanedReversed]
    grind
  have together : ∀ path ∈ binPaths, (ofString path).segments.dropLast = ["usr", "bin"] := by
    decide +kernel
  exact ⟨isFirst, isSecond, same, by decide +kernel,
    (places_relisted_iff isFirst isSecond same).2 (Or.inr (Or.inr ⟨_, together⟩))⟩

/-- Of an absolute and a relative file in different directories, the one listed first keeps its
directory. -/
theorem places_depend_on_first :
    ¬ ∀ paths others : List String, paths ≠ [] → others ≠ [] → SameFiles paths others →
      ∀ key, (places paths).find? key = (places others).find? key := by
  intro independent
  have cleaned : ["/tmp/a/x", "tmp/b/y"].map clean = ["/tmp/a/x", "tmp/b/y"] := by decide +kernel
  have cleanedReversed : ["tmp/b/y", "/tmp/a/x"].map clean = ["tmp/b/y", "/tmp/a/x"] := by
    decide +kernel
  have same : SameFiles ["/tmp/a/x", "tmp/b/y"] ["tmp/b/y", "/tmp/a/x"] := by
    intro text
    rw [cleaned, cleanedReversed]
    simp [or_comm]
  have equal := independent _ _ (by decide) (by decide) same "/tmp/a/x"
  revert equal
  decide +kernel

end JobFlow.RunnerPath
