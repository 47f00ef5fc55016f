import JobFlow.Artifact.Transfer
import JobFlow.RunnerPath.Shared

/-!
Where a downloaded file lands. Artifacts downloaded by name, or merged, are unpacked into the
download directory; otherwise every matching artifact gets a directory of its own there.
-/

set_option autoImplicit false

namespace JobFlow

/-- The place of an uploaded path inside the artifact. A path that the upload does not know keeps
its spelling, except for a leading `./`. -/
def Upload.placeOf (upload : Upload) (path : String) : String :=
  match upload.places.bind (·.find? (RunnerPath.clean path)) with
  | some place => place
  | none => if Text.startsWith path "./" then Text.dropChars path 2 else path

/-- Whether matching artifacts are kept apart, each in a directory with its name. -/
def Download.separates (download : Download) : Bool :=
  download.pattern ≠ "" && !download.mergeMultiple

def Download.target (download : Download) (upload : Upload) (path : String) : String :=
  let place := upload.placeOf path
  if download.separates then RunnerPath.join [download.path, upload.name, place]
  else RunnerPath.join [download.path, place]

def Download.filesOf (download : Download) (upload : Upload) : List ArtifactFile :=
  upload.paths.map fun path => ⟨upload.name, path, download.target upload path, upload.job⟩

end JobFlow
