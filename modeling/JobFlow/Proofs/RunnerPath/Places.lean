import JobFlow.Proofs.RunnerPath.Canonical
import JobFlow.RunnerPath.Shared

/-!
Places inside an artifact. The places of some paths know each of them by its simplest form, and nothing
else; and no place is empty, because simplified paths have no empty segments.
-/

set_option autoImplicit false

namespace JobFlow.RunnerPath

def Filled (segments : List String) : Prop :=
  ∀ segment ∈ segments, segment ≠ ""

theorem Canonical.filled {p : RunnerPath} (canonical : p.Canonical) : Filled p.segments :=
  fun segment isSegment => (canonical.proper segment isSegment).filled

theorem filled_ofString (s : String) : Filled (ofString s).segments :=
  (canonical_ofString s).filled

theorem intercalate_ne_empty {first : String} (filled : first ≠ "") (rest : List String) :
    "/".intercalate (first :: rest) ≠ "" := by
  cases rest with
  | nil => simpa using filled
  | cons second others =>
    rw [String.intercalate_cons_cons]
    simp

theorem toString_ne_empty {p : RunnerPath} (filled : Filled p.segments) : p.toString ≠ "" := by
  unfold toString
  split
  · simp
  · cases segments : p.segments with
    | nil => decide
    | cons first rest =>
      rw [segments] at filled
      exact intercalate_ne_empty (filled first List.mem_cons_self) rest

theorem name_ne_empty {p : RunnerPath} (filled : Filled p.segments) : p.name ≠ "" := by
  rcases List.mem_cons.1 (List.getLastD_mem_cons (l := p.segments) (a := p.toString)) with
    same | isSegment
  · rw [name, same]
    exact toString_ne_empty filled
  · exact filled _ isSegment

/-- A path below a directory is never written as nothing. -/
theorem below?_ne_empty {directory p : RunnerPath} {place : String} (filled : Filled p.segments)
    (isBelow : below? directory p = some place) : place ≠ "" := by
  unfold below? at isBelow
  split at isBelow
  · cases isBelow
    exact toString_ne_empty fun segment isSegment => filled segment (List.mem_of_mem_drop isSegment)
  · cases isBelow

theorem place_ne_empty (directory : Option RunnerPath) {p : RunnerPath} (filled : Filled p.segments) :
    place directory p ≠ "" := by
  unfold place
  cases below : directory.bind fun d => below? d p with
  | none => exact name_ne_empty filled
  | some placed =>
    obtain ⟨d, _, isBelow⟩ := Option.bind_eq_some_iff.1 below
    exact below?_ne_empty filled isBelow

theorem places_several (first second : String) (rest : List String) :
    places (first :: second :: rest) = .ofList ((first :: second :: rest).map fun path => (clean path,
      place (sharedParent? ((first :: second :: rest).map ofString)) (ofString path))) := by
  show Mapping.ofList (List.map _ (List.map ofString (first :: second :: rest))) = _
  rw [List.map_map]
  rfl

/-- However many paths there are, each stands under its simplest form, with a place that is not empty. -/
theorem exists_placing (paths : List String) :
    ∃ placing : String → String, (∀ path, placing path ≠ "") ∧
      places paths = .ofList (paths.map fun path => (clean path, placing path)) := by
  match paths with
  | [] => exact ⟨fun s => (ofString s).name, fun s => name_ne_empty (filled_ofString s), rfl⟩
  | [_] => exact ⟨fun s => (ofString s).name, fun s => name_ne_empty (filled_ofString s), rfl⟩
  | first :: second :: rest =>
    exact ⟨_, fun s => place_ne_empty _ (filled_ofString s), places_several first second rest⟩

/-- The keys are exactly the simplest forms of the paths. -/
theorem mem_keys_places {paths : List String} {key : String} :
    key ∈ (places paths).keys ↔ ∃ path ∈ paths, clean path = key := by
  obtain ⟨placing, _, same⟩ := exists_placing paths
  rw [same, Mapping.mem_keys_ofList, List.map_map, List.mem_map]
  rfl

/-- No place is empty. -/
theorem ne_empty_of_mem_places {paths : List String} {entry : String × String}
    (isEntry : entry ∈ (places paths).entries) : entry.2 ≠ "" := by
  obtain ⟨placing, filled, same⟩ := exists_placing paths
  rw [same] at isEntry
  obtain ⟨path, _, rfl⟩ := List.mem_map.1 (Mapping.mem_of_mem_ofList isEntry)
  exact filled path

/-- Every path has a place. -/
theorem exists_place {paths : List String} {path : String} (isPath : path ∈ paths) :
    ∃ place, (places paths).find? (clean path) = some place :=
  Mapping.exists_find?_of_mem_keys (mem_keys_places.2 ⟨path, isPath, rfl⟩)

end JobFlow.RunnerPath
