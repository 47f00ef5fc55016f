import JobFlow.Artifact.Lookup
import JobFlow.Text.Quoted

/-!
The messages of the ledger: what was recorded, where an artifact was found, and what a check of
all downloads came to.
-/

set_option autoImplicit false

namespace JobFlow

def RunnerPath.placesReport (paths : List String) : List String :=
  match paths with
  | [] => []
  | [path] =>
    let p := RunnerPath.ofString path
    ["Single path normalization: " ++ p.toString ++ " -> " ++ p.name]
  | _ =>
    ["Common parent for " ++ Text.ofNat paths.length ++ " paths: " ++
      Text.quoted (RunnerPath.commonParent paths)]

def Upload.report (upload : Upload) : String :=
  "Recording upload: artifact=" ++ upload.name ++ ", job=" ++ upload.job ++
    ", paths=" ++ Text.quotedList upload.paths ++
    ", normalized=" ++ Text.quotedPairs (upload.places.getD .empty).entries

def Download.report (download : Download) : String :=
  "Recording download: name=" ++ download.name ++ ", pattern=" ++ download.pattern ++
    ", job=" ++ download.job ++ ", path=" ++ download.path

def Found.report : Option Found → List String
  | some ⟨upload, false⟩ =>
    ["Found artifact " ++ upload.name ++ " uploaded by job " ++ upload.job ++ " (global search)"]
  | _ => []

namespace Ledger

def tracedSetCurrentJob {ε : Type} (l : Ledger) (job : String) : Traced ε Ledger :=
  ⟨.ok (l.setCurrentJob job), ["Setting current job: " ++ job]⟩

/-- Records an upload. A refused one gives no message. -/
def tracedRecordUpload (l : Ledger) (upload : Upload) :
    Traced InvalidUpload (Upload × Ledger) :=
  let outcome := l.recordUpload upload
  ⟨outcome, match outcome with
    | .ok (accepted, _) => RunnerPath.placesReport upload.paths ++ [accepted.report]
    | .error _ => []⟩

def tracedRecordDownload (l : Ledger) (download : Download) :
    Traced InvalidDownload (Download × Ledger) :=
  let outcome := l.recordDownload download
  ⟨outcome, match outcome with
    | .ok (accepted, _) => [accepted.report]
    | .error _ => []⟩

def tracedReset {ε : Type} (l : Ledger) : Traced ε Ledger :=
  ⟨.ok l.reset, ["Reset artifact tracker"]⟩

def tracedLocate {ε : Type} (l : Ledger) (scope : List String) (name : String) :
    Traced ε (Option Found) :=
  let found := l.locate scope (.named name)
  ⟨.ok found, Found.report found⟩

def findReport (l : Ledger) (scope : List String) (name : String) : List String :=
  Found.report (l.locate scope (.named name)) ++
    if (l.find? scope name).isNone then ["Artifact " ++ name ++ " not found in any job"] else []

def tracedFind {ε : Type} (l : Ledger) (scope : List String) (name : String) :
    Traced ε (Option Upload) :=
  ⟨.ok (l.find? scope name), l.findReport scope name⟩

def tracedCheckWanted (l : Ledger) (download : Download) (wanted : Wanted) :
    Traced Unresolved Unit :=
  ⟨l.checkWanted download wanted, Found.report (l.locate download.dependsOn wanted)⟩

/-- Checks a download. The check ends at the first thing that is not found. -/
def tracedCheck (l : Ledger) (download : Download) : Traced Unresolved Unit :=
  download.wanted.forM (l.tracedCheckWanted download)

def tracedUnresolved {ε : Type} (l : Ledger) : Traced ε (List Unresolved) :=
  let errors := l.unresolved
  ⟨.ok errors, (l.downloadsByJob.flatMap fun d => (l.tracedCheck d).trace) ++
    [if errors.isEmpty then "All downloads validated successfully"
     else "Validation found " ++ Text.ofNat errors.length ++ " error(s)"]⟩

/-- Refuses a ledger with unresolved downloads, reporting all of them. -/
def tracedCheckAll (l : Ledger) : Traced (List Unresolved) Unit := do
  let errors ← l.tracedUnresolved
  if errors.isEmpty then return () else Traced.quiet (.error errors)

/-- The files of a download. Only a lookup by name has something to tell. -/
def tracedResolve {ε : Type} (l : Ledger) (download : Download) : Traced ε (List ArtifactFile) :=
  ⟨.ok (l.resolve download),
    if download.pattern ≠ "" then [] else l.findReport download.dependsOn download.name⟩

/-- Messages do not change what a check finds. -/
theorem outcome_tracedCheck (l : Ledger) (download : Download) :
    (l.tracedCheck download).outcome = l.check download := by
  unfold tracedCheck check
  induction download.wanted with
  | nil => rfl
  | cons wanted rest ih =>
    simp only [List.forM_eq_forM, List.forM_cons] at ih ⊢
    rw [Traced.outcome_bind, ih]
    rfl

end Ledger

end JobFlow
