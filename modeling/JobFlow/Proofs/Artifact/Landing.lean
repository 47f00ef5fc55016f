import JobFlow.Proofs.Artifact.History
import JobFlow.Proofs.RunnerPath.Climbing

/-!
Where downloaded files land. The place of a file inside its artifact comes out unchanged behind the
directory that the artifact is unpacked into. So a download keeps the directories below the shared one,
and different files of one upload do not meet.
-/

set_option autoImplicit false

namespace JobFlow

open RunnerPath

/-- The directory that an upload is unpacked into: that of the download, or one with the name of the
artifact there. -/
def Download.directoryFor (download : Download) (upload : Upload) : String :=
  if download.separates then join [download.path, upload.name] else clean download.path

/-- A path that has a place in the artifact is found there. -/
theorem Upload.placeOf_of_find? {upload : Upload} {places : Mapping String} {path place : String}
    (known : upload.places = some places) (isPlace : places.find? (clean path) = some place) :
    upload.placeOf path = place := by
  rw [placeOf, known, Option.bind_some, isPlace]

namespace Download

variable {download : Download} {upload : Upload} {path : String} {below : List String}

/-- A target is the place put behind the directory, both as they are written. -/
theorem exists_target_eq (hasPath : download.path ≠ "") (named : upload.name ≠ "")
    (placed : upload.placeOf path ≠ "") :
    ∃ written, written ≠ "" ∧ ofString (download.directoryFor upload) = ofString written ∧
      download.target upload path = clean (written ++ "/" ++ upload.placeOf path) := by
  rw [target, directoryFor]
  split
  · refine ⟨download.path ++ "/" ++ upload.name, by simp, ?_, ?_⟩
    · rw [join_eq_clean (by simp) (by simp [hasPath, named]), String.intercalate_cons_cons,
        String.intercalate_singleton, ofString_clean]
    · rw [join_eq_clean (by simp) (by simp [hasPath, named, placed]), String.intercalate_cons_cons,
        String.intercalate_cons_cons, String.intercalate_singleton]
      simp only [String.append_assoc]
  · refine ⟨download.path, hasPath, ofString_clean download.path, ?_⟩
    rw [join_eq_clean (by simp) (by simp [hasPath, placed]), String.intercalate_cons_cons,
      String.intercalate_singleton]

/-- What a place adds is entered from the directory of the download on. -/
theorem ofString_target (hasPath : download.path ≠ "") (named : upload.name ≠ "")
    (adds : Adds (upload.placeOf path) below) :
    let directory := ofString (download.directoryFor upload)
    ofString (download.target upload path) =
      ⟨directory.absolute, simplify directory.absolute (directory.segments ++ below)⟩ := by
  obtain ⟨written, filled, directory, isTarget⟩ := exists_target_eq hasPath named adds.filled
  have simplified : simplify (ofString written).absolute (Text.pieces '/' written) =
      simplify (ofString written).absolute (ofString written).segments :=
    (simplify_of_canonical (canonical_ofString written)).symm
  simp only [isTarget, directory, ofString_clean, ofString_append_slash filled, adds.entered,
    simplify_append_congr simplified]

/-- A target is in its simplest form. -/
theorem target_eq_toString (hasPath : download.path ≠ "") (named : upload.name ≠ "")
    (placed : upload.placeOf path ≠ "") :
    download.target upload path = (ofString (download.target upload path)).toString := by
  obtain ⟨written, _, _, isTarget⟩ := exists_target_eq hasPath named placed
  rw [isTarget, ofString_clean, clean]

/-- A place that leaves no directory comes out behind the directory of the download. -/
theorem target_of_place (hasPath : download.path ≠ "") (named : upload.name ≠ "")
    (isPlace : upload.placeOf path = (RunnerPath.mk false below).toString)
    (proper : ∀ s ∈ below, IsSegment s) (down : ".." ∉ below) :
    let landing : RunnerPath := ⟨(ofString (download.directoryFor upload)).absolute,
      (ofString (download.directoryFor upload)).segments ++ below⟩
    download.target upload path = landing.toString ∧
      ofString (download.target upload path) = landing := by
  intro landing
  have relative : Canonical ⟨false, below⟩ := (canonical_nil false).append proper down
  have adds : Adds (upload.placeOf path) below := isPlace ▸ adds_toString relative
  have canonical : landing.Canonical := (canonical_ofString _).append proper down
  have read : ofString (download.target upload path) = landing := by
    have inPlace := simplify_of_canonical canonical
    rw [ofString_target hasPath named adds, inPlace]
  exact ⟨by rw [target_eq_toString hasPath named adds.filled, read], read⟩

end Download

namespace Ledger

variable {l after other afterOther : Ledger} {upload stored : Upload} {download kept : Download}

/-- Several absolute files that share a directory: a download keeps what is below that directory, and
no two files land on one path. -/
theorem target_keeps_structure (recorded : l.recordUpload upload = .ok (stored, after))
    (several : 2 ≤ upload.paths.length)
    (absolute : ∀ path ∈ upload.paths, Text.startsWith path "/" = true)
    (sharing : commonParent upload.paths ≠ "")
    (accepted : other.recordDownload download = .ok (kept, afterOther)) :
    let directory := ofString (download.directoryFor upload)
    (∀ path ∈ upload.paths, ∃ below,
      (ofString path).segments = (ofString (commonParent upload.paths)).segments ++ below ∧
      download.target stored path =
        (RunnerPath.mk directory.absolute (directory.segments ++ below)).toString ∧
      ofString (download.target stored path) = ⟨directory.absolute, directory.segments ++ below⟩) ∧
    ∀ path ∈ upload.paths, ∀ another ∈ upload.paths, clean path ≠ clean another →
      download.target stored path ≠ download.target stored another := by
  intro directory
  obtain ⟨⟨named, _⟩, isStored⟩ := accept?_eq_ok.1 (recordUpload_eq_ok.1 recorded).1
  obtain ⟨⟨_, hasPath⟩, _⟩ := acceptDownload?_eq_ok.1 (recordDownload_eq_ok.1 accepted).1
  have known : stored.places = some (places upload.paths) := by rw [isStored]
  have sameName : stored.name = upload.name := by rw [isStored]
  have sameDirectory : download.directoryFor stored = download.directoryFor upload := by
    rw [Download.directoryFor, sameName, Download.directoryFor]
  have each : ∀ path ∈ upload.paths, ∃ below,
      (ofString path).segments = (ofString (commonParent upload.paths)).segments ++ below ∧
      download.target stored path =
        (RunnerPath.mk directory.absolute (directory.segments ++ below)).toString ∧
      ofString (download.target stored path) = ⟨directory.absolute, directory.segments ++ below⟩ := by
    intro path isPath
    obtain ⟨below, proper, down, segments, isPlace⟩ :=
      place_of_absolute several absolute sharing isPath
    have landing := Download.target_of_place hasPath (sameName ▸ named)
      (Upload.placeOf_of_find? known isPlace) proper down
    rw [sameDirectory] at landing
    exact ⟨below, segments, landing⟩
  refine ⟨each, fun path isPath another isAnother different same => different ?_⟩
  obtain ⟨below, segments, _, lands⟩ := each path isPath
  obtain ⟨otherBelow, otherSegments, _, otherLands⟩ := each another isAnother
  rw [same, otherLands, RunnerPath.mk.injEq] at lands
  have sameBelow : otherBelow = below := List.append_cancel_left lands.2
  have bothAbsolute : (ofString path).absolute = (ofString another).absolute :=
    (absolute path isPath).trans (absolute another isAnother).symm
  have sameSegments : (ofString path).segments = (ofString another).segments := by
    rw [segments, otherSegments, sameBelow]
  have samePath : RunnerPath.mk (ofString path).absolute (ofString path).segments =
      RunnerPath.mk (ofString another).absolute (ofString another).segments := by
    rw [bothAbsolute, sameSegments]
  exact clean_eq_clean.2 samePath

/-- Two files in a directory that is spelled in different ways. -/
def appUpload : Upload :=
  { name := "app", paths := ["//srv//app/./bin/run", "/srv/app/lib/../etc/conf/"] }

/-- A download into a directory outside the working directory. -/
def appDownload : Download :=
  { path := "../out//", pattern := "app*" }

theorem target_keeps_structure_app :
    ∃ stored after kept afterDownload,
      ({ strict := true } : Ledger).recordUpload appUpload = .ok (stored, after) ∧
      after.recordDownload appDownload = .ok (kept, afterDownload) ∧
      2 ≤ appUpload.paths.length ∧
      (∀ path ∈ appUpload.paths, Text.startsWith path "/" = true) ∧
      commonParent appUpload.paths ≠ "" ∧
      (∀ path ∈ appUpload.paths, ∃ below, (ofString path).segments = ["srv", "app"] ++ below ∧
        ofString (appDownload.target stored path) = ⟨false, ["..", "out", "app"] ++ below⟩) ∧
      appDownload.target stored "//srv//app/./bin/run" ≠
        appDownload.target stored "/srv/app/lib/../etc/conf/" := by
  obtain ⟨stored, after, recorded⟩ : ∃ stored after,
      ({ strict := true } : Ledger).recordUpload appUpload = .ok (stored, after) :=
    ⟨_, _, recordUpload_eq_ok.2 ⟨accept?_eq_ok.2 ⟨⟨by decide, by decide⟩, rfl⟩, rfl⟩⟩
  obtain ⟨kept, afterDownload, accepted⟩ : ∃ kept afterDownload,
      after.recordDownload appDownload = .ok (kept, afterDownload) :=
    ⟨_, _, recordDownload_eq_ok.2
      ⟨acceptDownload?_eq_ok.2 ⟨⟨Or.inr (by decide), by decide⟩, rfl⟩, rfl⟩⟩
  have several : 2 ≤ appUpload.paths.length := by decide
  have absolute : ∀ path ∈ appUpload.paths, Text.startsWith path "/" = true := by decide +kernel
  have sharing : commonParent appUpload.paths ≠ "" := by decide +kernel
  have parent : (ofString (commonParent appUpload.paths)).segments = ["srv", "app"] := by
    decide +kernel
  have directory : ofString (appDownload.directoryFor appUpload) = ⟨false, ["..", "out", "app"]⟩ := by
    decide +kernel
  obtain ⟨each, apart⟩ := target_keeps_structure recorded several absolute sharing accepted
  rw [parent, directory] at each
  refine ⟨stored, after, kept, afterDownload, recorded, accepted, several, absolute, sharing, ?_,
    apart _ (by decide) _ (by decide) (by decide +kernel)⟩
  intro path isPath
  obtain ⟨below, segments, _, lands⟩ := each path isPath
  exact ⟨below, segments, lands⟩

end Ledger

end JobFlow
