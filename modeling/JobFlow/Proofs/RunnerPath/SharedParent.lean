import JobFlow.Proofs.RunnerPath.Places

/-!
The directory that several paths share. It is the longest start that the directories of all the paths
have, and a path of its kind comes back when its place inside the artifact is joined to it.
-/

set_option autoImplicit false

namespace JobFlow.RunnerPath

/-- The longest list that all lists start with. -/
structure LongestShared (lists : List (List String)) (shared : List String) : Prop where
  isShared : ∀ list ∈ lists, shared <+: list
  longest : ∀ other, (∀ list ∈ lists, other <+: list) → other <+: shared

def directoriesOf (paths : List String) : List (List String) :=
  paths.map fun path => (ofString path).segments.dropLast

theorem directoriesOf_eq (paths : List String) :
    directoriesOf paths = (paths.map ofString).map (·.segments.dropLast) := by
  rw [List.map_map]
  rfl

section shared

variable {start as bs shared : List String} {lists : List (List String)}

/-- What both lists start with are the starts of their shared start. -/
theorem prefix_sharedStart : start <+: sharedStart as bs ↔ start <+: as ∧ start <+: bs := by
  induction as, bs using sharedStart.induct generalizing start with
  | case1 as b bs ih =>
    rw [sharedStart, if_pos rfl]
    cases start with
    | nil => simp
    | cons s start =>
      rw [List.cons_prefix_cons, List.cons_prefix_cons, List.cons_prefix_cons, ih, and_and_left]
  | case2 a as b bs other =>
    rw [sharedStart, if_neg other]
    cases start with
    | nil => simp
    | cons s start =>
      rw [List.prefix_nil, List.cons_prefix_cons, List.cons_prefix_cons]
      exact iff_of_false (List.cons_ne_nil s start) fun both => other (both.1.1.symm.trans both.2.1)
  | case3 as bs ended =>
    rw [sharedStart.eq_2 as bs ended]
    cases start with
    | nil => simp
    | cons s start =>
      refine iff_of_false (by simp) ?_
      rintro ⟨⟨more, rfl⟩, ⟨others, rfl⟩⟩
      exact ended s (start ++ more) s (start ++ others) rfl rfl

/-- A fold keeps the starts that all lists have so far. -/
theorem prefix_foldl_sharedStart {α : Type} (f : α → List String) {items : List α} :
    start <+: items.foldl (fun shared item => sharedStart shared (f item)) as ↔
      start <+: as ∧ ∀ item ∈ items, start <+: f item := by
  induction items generalizing as with
  | nil => simp
  | cons item items ih =>
    rw [List.foldl_cons, ih, prefix_sharedStart, List.forall_mem_cons, and_assoc]

/-- Of a path that has a directory, something is left behind any start of that directory. -/
theorem exists_below_of_prefix {segments : List String} (some : shared ≠ [])
    (starts : shared <+: segments.dropLast) : ∃ below, below ≠ [] ∧ segments = shared ++ below := by
  obtain ⟨more, directory⟩ := starts
  have filled : segments ≠ [] := by
    rintro rfl
    rw [List.dropLast_nil, List.append_eq_nil_iff] at directory
    exact some directory.1
  -- the last segment is in no directory, so it always stays behind
  refine ⟨more ++ [segments.getLast filled], by simp, ?_⟩
  rw [← List.append_assoc, directory, List.dropLast_concat_getLast]

theorem longestShared_of_prefix_iff
    (starts : ∀ start, start <+: shared ↔ ∀ list ∈ lists, start <+: list) :
    LongestShared lists shared where
  isShared := (starts shared).1 (List.prefix_refl shared)
  longest := fun other => (starts other).2

/-- Nothing is shared exactly when the lists do not all begin with the same segment. -/
theorem LongestShared.eq_nil_iff (longest : LongestShared lists shared) :
    shared = [] ↔ ¬ ∃ segment, ∀ list ∈ lists, list.head? = some segment := by
  constructor
  · rintro rfl ⟨segment, heads⟩
    have common : [segment] <+: [] := longest.longest [segment] fun list isList =>
      List.singleton_prefix_iff_head?_eq_some.2 (heads list isList)
    exact List.cons_ne_nil segment [] (List.prefix_nil.1 common)
  · intro differ
    cases shared with
    | nil => rfl
    | cons segment rest =>
      refine absurd ⟨segment, fun list isList => ?_⟩ differ
      obtain ⟨more, rfl⟩ := longest.isShared list isList
      rfl

end shared

section sharedParent

variable {d p : RunnerPath} {ps : List RunnerPath} {below : List String}

/-- Several paths share the longest start of their directories, unless that is empty; the first path
decides whether it is absolute. -/
theorem sharedParent?_several (first second : RunnerPath) (rest : List RunnerPath) :
    ∃ shared, LongestShared ((first :: second :: rest).map (·.segments.dropLast)) shared ∧
      sharedParent? (first :: second :: rest) =
        if shared = [] then none else some ⟨first.absolute, shared⟩ := by
  let shared := (second :: rest).foldl (fun shared q => sharedStart shared q.parent.segments)
    first.parent.segments
  refine ⟨shared, longestShared_of_prefix_iff fun start => ?_, ?_⟩
  · rw [List.forall_mem_map, List.forall_mem_cons]
    exact prefix_foldl_sharedStart fun q : RunnerPath => q.parent.segments
  · rw [sharedParent?.eq_3 first (second :: rest) (List.cons_ne_nil second rest)]
    split
    · next nothing => exact (if_pos nothing).symm
    · next some => exact (if_neg some).symm

theorem sharedParent?_eq_some {first second : RunnerPath} {rest : List RunnerPath}
    (isShared : sharedParent? (first :: second :: rest) = some d) :
    d.absolute = first.absolute ∧ d.segments ≠ [] ∧
      LongestShared ((first :: second :: rest).map (·.segments.dropLast)) d.segments := by
  obtain ⟨shared, longest, found⟩ := sharedParent?_several first second rest
  rw [found] at isShared
  split at isShared
  · cases isShared
  · next some =>
    cases isShared
    exact ⟨rfl, some, longest⟩

/-- With nothing left to simplify in the paths, nothing is left in the directory that they share. -/
theorem canonical_sharedParent (isShared : sharedParent? ps = some d) (canonical : ∀ p ∈ ps, p.Canonical) :
    d.Canonical := by
  match ps with
  | [] => cases isShared
  | [p] =>
    cases isShared
    exact (canonical p List.mem_cons_self).sublist (List.dropLast_sublist p.segments) id
  | first :: second :: rest =>
    obtain ⟨sameKind, _, longest⟩ := sharedParent?_eq_some isShared
    have ofFirst : d.segments <+: first.segments.dropLast :=
      longest.isShared _ (List.mem_map_of_mem List.mem_cons_self)
    exact (canonical first List.mem_cons_self).sublist
      (ofFirst.sublist.trans (List.dropLast_sublist first.segments)) (sameKind ▸ id)

/-- What stands behind the segments of a directory is the place below it. -/
theorem below?_of_append (sameKind : p.absolute = d.absolute) (segments : p.segments = d.segments ++ below) :
    below? d p = some (mk false below).toString := by
  rw [below?, if_pos ⟨sameKind, segments ▸ List.prefix_append d.segments below⟩, segments,
    List.drop_left]

/-- A relative path never stands below an absolute one, nor the other way round. -/
theorem below?_of_other_kind (otherKind : p.absolute ≠ d.absolute) : below? d p = none := by
  rw [below?, if_neg fun both => otherKind both.1]

/-- What stands behind a directory is a relative path with nothing left to simplify. -/
theorem Canonical.remainder (canonical : p.Canonical) (segments : p.segments = d.segments ++ below) :
    Canonical ⟨false, below⟩ :=
  canonical.sublist (segments ▸ List.sublist_append_right d.segments below) (by simp)

end sharedParent

section paths

variable {paths : List String} {path : String} {d : RunnerPath}

theorem canonical_ofStrings (paths : List String) : ∀ p ∈ paths.map ofString, p.Canonical :=
  List.forall_mem_map.2 fun path _ => canonical_ofString path

theorem commonParent_of_none (nothing : sharedParent? (paths.map ofString) = none) :
    commonParent paths = "" := by
  rw [commonParent, nothing]
  rfl

theorem commonParent_of_some (isShared : sharedParent? (paths.map ofString) = some d) :
    commonParent paths = d.toString := by
  rw [commonParent, isShared]
  rfl

theorem commonParent_eq_empty :
    commonParent paths = "" ↔ sharedParent? (paths.map ofString) = none := by
  refine ⟨fun empty => ?_, commonParent_of_none⟩
  cases isShared : sharedParent? (paths.map ofString) with
  | none => rfl
  | some d =>
    rw [commonParent_of_some isShared] at empty
    have canonical := canonical_sharedParent isShared (canonical_ofStrings paths)
    exact absurd empty (toString_ne_empty canonical.filled)

theorem commonParent_ne_empty :
    commonParent paths ≠ "" ↔ ∃ d, sharedParent? (paths.map ofString) = some d := by
  rw [ne_eq, commonParent_eq_empty, ← ne_eq, Option.ne_none_iff_exists']

/-- The text of the shared directory is read back as that directory. -/
theorem ofString_commonParent (isShared : sharedParent? (paths.map ofString) = some d) :
    ofString (commonParent paths) = d := by
  rw [commonParent_of_some isShared]
  exact ofString_toString (canonical_sharedParent isShared (canonical_ofStrings paths))

end paths

section several

variable {first second : String} {rest : List String} {path : String} {d : RunnerPath}

/-- A single path has its bare name. -/
theorem find?_places_singleton (path : String) :
    (places [path]).find? (clean path) = some (ofString path).name :=
  Mapping.find?_ofList_of_mem List.mem_cons_self fun _ isPlace =>
    (Prod.mk.inj (List.mem_singleton.1 isPlace)).2

/-- Each of several paths stands under its simplest form. -/
theorem find?_places (isPath : path ∈ first :: second :: rest) :
    (places (first :: second :: rest)).find? (clean path) =
      some (place (sharedParent? ((first :: second :: rest).map ofString)) (ofString path)) := by
  rw [places_several]
  refine Mapping.find?_ofList_of_mem (List.mem_map.2 ⟨path, isPath, rfl⟩) ?_
  intro placed isPlaced
  obtain ⟨other, _, same⟩ := List.mem_map.1 isPlaced
  obtain ⟨sameText, rfl⟩ := Prod.mk.inj same
  rw [clean_eq_clean.1 sameText]

/-- The shared directory holds a part of each path, and never all of it. -/
theorem exists_below (isShared : sharedParent? ((first :: second :: rest).map ofString) = some d)
    (isPath : path ∈ first :: second :: rest) :
    ∃ below, below ≠ [] ∧ (ofString path).segments = d.segments ++ below := by
  obtain ⟨_, some, longest⟩ := sharedParent?_eq_some isShared
  exact exists_below_of_prefix some
    (longest.isShared _ (List.mem_map_of_mem (List.mem_map_of_mem isPath)))

/-- A path of the same kind as the shared directory is placed below it. -/
theorem place_of_sharedParent
    (isShared : sharedParent? ((first :: second :: rest).map ofString) = some d)
    (isPath : path ∈ first :: second :: rest) (sameKind : (ofString path).absolute = d.absolute) :
    ∃ below, below ≠ [] ∧ (ofString path).segments = d.segments ++ below ∧
      (places (first :: second :: rest)).find? (clean path) = some (mk false below).toString := by
  obtain ⟨below, some, segments⟩ := exists_below isShared isPath
  refine ⟨below, some, segments, ?_⟩
  rw [find?_places isPath, isShared, place, Option.bind_some, below?_of_append sameKind segments,
    Option.getD_some]

theorem exists_of_several {paths : List String} (several : 2 ≤ paths.length) :
    ∃ first second rest, paths = first :: second :: rest := by
  match paths, several with
  | first :: second :: rest, _ => exact ⟨first, second, rest, rfl⟩

/-- Absolute paths never climb, so their places below a shared directory do not either. -/
theorem place_of_absolute {paths : List String} (several : 2 ≤ paths.length)
    (absolute : ∀ path ∈ paths, Text.startsWith path "/" = true) (sharing : commonParent paths ≠ "")
    (isPath : path ∈ paths) :
    ∃ below, (∀ segment ∈ below, IsSegment segment) ∧ ".." ∉ below ∧
      (ofString path).segments = (ofString (commonParent paths)).segments ++ below ∧
      (places paths).find? (clean path) = some (mk false below).toString := by
  obtain ⟨first, second, rest, rfl⟩ := exists_of_several several
  obtain ⟨d, isShared⟩ := commonParent_ne_empty.1 sharing
  have isAbsolute : (ofString path).absolute = true := absolute path isPath
  have ofFirst : (ofString first).absolute = true := absolute first List.mem_cons_self
  have sameKind : (ofString path).absolute = d.absolute := by
    rw [(sharedParent?_eq_some isShared).1, isAbsolute, ofFirst]
  obtain ⟨below, _, segments, isPlace⟩ := place_of_sharedParent isShared isPath sameKind
  have canonical := canonical_ofString path
  have down : ".." ∉ below := fun up =>
    canonical.rooted isAbsolute (segments ▸ List.mem_append_right d.segments up)
  rw [ofString_commonParent isShared]
  exact ⟨below, (canonical.remainder segments).proper, down, segments, isPlace⟩

/-- Joining the place of such a path to the shared directory gives the path back. -/
theorem join_commonParent {below : List String}
    (isShared : sharedParent? ((first :: second :: rest).map ofString) = some d)
    (sameKind : (ofString path).absolute = d.absolute)
    (segments : (ofString path).segments = d.segments ++ below) :
    join [commonParent (first :: second :: rest), (mk false below).toString] = clean path := by
  have canonical := canonical_ofString path
  have relative := canonical.remainder segments
  have whole : ofString path = ⟨d.absolute, d.segments ++ below⟩ := by rw [← sameKind, ← segments]
  rw [whole] at canonical
  have ofDirectory : d.Canonical :=
    canonical.sublist (List.sublist_append_left d.segments below) id
  have filled := toString_ne_empty ofDirectory.filled
  rw [commonParent_of_some isShared, join_eq_clean (by simp)
    (by simp [filled, toString_ne_empty relative.filled]), String.intercalate_cons_cons,
    String.intercalate_singleton, clean_eq_clean, whole]
  rw [← ofString_toString ofDirectory] at canonical
  rw [ofString_append_toString filled rfl canonical, ofString_toString ofDirectory]

/-- The shared directory of several paths: it is the longest start that the directories of all of them
have. It is empty when they do not even begin with the same segment. Every path of its kind has a place
below it, from which the path comes back. -/
theorem commonParent_longest {paths : List String} (isFirst : paths.head? = some first)
    (several : 2 ≤ paths.length) :
    (commonParent paths = "" ↔
      ¬ ∃ segment, ∀ directory ∈ directoriesOf paths, directory.head? = some segment) ∧
    (commonParent paths ≠ "" →
      (∃ shared, LongestShared (directoriesOf paths) shared ∧
        commonParent paths = (mk (Text.startsWith first "/") shared).toString ∧
        ofString (commonParent paths) = ⟨Text.startsWith first "/", shared⟩) ∧
      ∀ path ∈ paths, Text.startsWith path "/" = Text.startsWith first "/" →
        ∃ remainder, (places paths).find? (clean path) = some remainder ∧ remainder ≠ "" ∧
          Text.startsWith remainder "/" = false ∧
          join [commonParent paths, remainder] = clean path) := by
  obtain ⟨first, second, rest, rfl⟩ := exists_of_several several
  cases isFirst
  rw [directoriesOf_eq]
  constructor
  · obtain ⟨shared, longest, found⟩ :=
      sharedParent?_several (ofString first) (ofString second) (rest.map ofString)
    have none_iff : sharedParent? ((first :: second :: rest).map ofString) = none ↔ shared = [] := by
      rw [List.map_cons, List.map_cons, found]
      simp
    exact commonParent_eq_empty.trans (none_iff.trans longest.eq_nil_iff)
  · intro sharing
    obtain ⟨d, isShared⟩ := commonParent_ne_empty.1 sharing
    obtain ⟨ofFirst, _, longest⟩ := sharedParent?_eq_some isShared
    have whole : d = ⟨(ofString first).absolute, d.segments⟩ := by rw [← ofFirst]
    refine ⟨⟨d.segments, longest, (commonParent_of_some isShared).trans (congrArg toString whole),
      (ofString_commonParent isShared).trans whole⟩, ?_⟩
    intro path isPath sameKind
    have sameKind : (ofString path).absolute = d.absolute := sameKind.trans ofFirst.symm
    obtain ⟨below, _, segments, isPlace⟩ := place_of_sharedParent isShared isPath sameKind
    have relative := (canonical_ofString path).remainder segments
    exact ⟨_, isPlace, toString_ne_empty relative.filled, startsWith_slash_toString relative.proper,
      join_commonParent isShared sameKind segments⟩

/-- Paths that leave the working directory, one of them ending in the step up. -/
def climbingPaths : List String :=
  ["../../a", "./../../..", "../../b/c"]

theorem commonParent_longest_climbing :
    climbingPaths.head? = some "../../a" ∧ 2 ≤ climbingPaths.length ∧
    commonParent climbingPaths = "../.." ∧
    LongestShared (directoriesOf climbingPaths) ["..", ".."] ∧
    ∃ remainder, (places climbingPaths).find? (clean "./../../..") = some remainder ∧
      join ["../..", remainder] = "../../.." := by
  have isFirst : climbingPaths.head? = some "../../a" := rfl
  have several : 2 ≤ climbingPaths.length := by decide
  have parent : commonParent climbingPaths = "../.." := by decide +kernel
  have cleaned : clean "./../../.." = "../../.." := by decide +kernel
  obtain ⟨⟨shared, longest, _, read⟩, comeBack⟩ :=
    (commonParent_longest isFirst several).2 (by rw [parent]; decide)
  have isShared : shared = ["..", ".."] := by
    have segments : (ofString (commonParent climbingPaths)).segments = ["..", ".."] := by
      decide +kernel
    rw [read] at segments
    exact segments
  obtain ⟨remainder, isPlace, _, _, joined⟩ :=
    comeBack "./../../.." (by decide) (by decide +kernel)
  rw [parent, cleaned] at joined
  exact ⟨isFirst, several, parent, isShared ▸ longest, remainder, isPlace, joined⟩

end several

end JobFlow.RunnerPath
