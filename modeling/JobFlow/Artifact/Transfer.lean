import JobFlow.Mapping

/-!
The two transfers of artifacts: a job uploads files as a named artifact, and another job downloads
artifacts by name or by pattern.
-/

set_option autoImplicit false

namespace JobFlow

/-- One upload. Every upload makes a new artifact. -/
structure Upload where
  name : String
  paths : List String
  /-- Where each path, in its simplest form, sits inside the artifact; known once the upload has
  been recorded. -/
  places : Option (Mapping String) := none
  ifNoFilesFound : String := "warn"
  includeHiddenFiles : Bool := false
  job : String := ""
  deriving Inhabited

structure Download where
  path : String
  name : String := ""
  pattern : String := ""
  /-- Whether the files of all matching artifacts go into one directory. -/
  mergeMultiple : Bool := false
  job : String := ""
  /-- The jobs whose artifacts are looked at first. -/
  dependsOn : List String := []
  deriving Inhabited

structure ArtifactFile where
  artifact : String
  uploadedPath : String
  downloadPath : String
  job : String
  deriving DecidableEq, Repr

inductive InvalidUpload
  | withoutName
  | withoutPaths
  deriving DecidableEq, Repr

def InvalidUpload.message : InvalidUpload → String
  | withoutName => "artifact upload must have a name"
  | withoutPaths => "artifact upload must have at least one path"

inductive InvalidDownload
  | withoutNameOrPattern
  | withoutPath
  deriving DecidableEq, Repr

def InvalidDownload.message : InvalidDownload → String
  | withoutNameOrPattern => "artifact download must have either name or pattern"
  | withoutPath => "artifact download must have a path"

end JobFlow
