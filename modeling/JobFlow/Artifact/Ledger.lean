import JobFlow.Artifact.Placement
import JobFlow.Traced

/-!
The ledger of all transfers of one compilation. Records stand in the order in which they came,
and the transfers of one job are those that carry its name.
-/

set_option autoImplicit false

namespace JobFlow

structure Ledger where
  /-- Whether a download may only use artifacts of the jobs it depends on. -/
  strict : Bool
  /-- The job that transfers without a job name of their own are recorded for. -/
  currentJob : String := ""
  uploads : List Upload := []
  downloads : List Download := []

namespace Ledger

/-- The form in which an upload is recorded: with a job, and with its paths placed. -/
def accept? (current : String) (upload : Upload) : Except InvalidUpload Upload :=
  if upload.name = "" then .error .withoutName
  else if upload.paths.isEmpty then .error .withoutPaths
  else .ok { upload with
    job := if upload.job = "" then current else upload.job
    places := some (RunnerPath.places upload.paths) }

def acceptDownload? (current : String) (download : Download) : Except InvalidDownload Download :=
  if download.name = "" ∧ download.pattern = "" then .error .withoutNameOrPattern
  else if download.path = "" then .error .withoutPath
  else .ok { download with job := if download.job = "" then current else download.job }

def setCurrentJob (l : Ledger) (job : String) : Ledger :=
  { l with currentJob := job }

def recordUpload (l : Ledger) (upload : Upload) : Except InvalidUpload (Upload × Ledger) := do
  let accepted ← accept? l.currentJob upload
  return (accepted, { l with uploads := l.uploads ++ [accepted] })

def recordDownload (l : Ledger) (download : Download) :
    Except InvalidDownload (Download × Ledger) := do
  let accepted ← acceptDownload? l.currentJob download
  return (accepted, { l with downloads := l.downloads ++ [accepted] })

/-- An upload is recorded when it is accepted. It stands at the end, and nothing else changes. -/
theorem recordUpload_eq_ok {l after : Ledger} {upload accepted : Upload} :
    l.recordUpload upload = .ok (accepted, after) ↔
      accept? l.currentJob upload = .ok accepted ∧
        after = { l with uploads := l.uploads ++ [accepted] } := by
  rw [recordUpload, bind_eq_ok]
  constructor
  · rintro ⟨stored, isStored, same⟩
    cases same
    exact ⟨isStored, rfl⟩
  · rintro ⟨isAccepted, rfl⟩
    exact ⟨accepted, isAccepted, rfl⟩

theorem recordDownload_eq_ok {l after : Ledger} {download accepted : Download} :
    l.recordDownload download = .ok (accepted, after) ↔
      acceptDownload? l.currentJob download = .ok accepted ∧
        after = { l with downloads := l.downloads ++ [accepted] } := by
  rw [recordDownload, bind_eq_ok]
  constructor
  · rintro ⟨stored, isStored, same⟩
    cases same
    exact ⟨isStored, rfl⟩
  · rintro ⟨isAccepted, rfl⟩
    exact ⟨accepted, isAccepted, rfl⟩

def reset (l : Ledger) : Ledger :=
  { strict := l.strict }

def uploadsOf (l : Ledger) (job : String) : List Upload :=
  l.uploads.filter (·.job == job)

def downloadsOf (l : Ledger) (job : String) : List Download :=
  l.downloads.filter (·.job == job)

def uploadJobs (l : Ledger) : List String :=
  Sorted.distinct (l.uploads.map (·.job))

def downloadJobs (l : Ledger) : List String :=
  Sorted.distinct (l.downloads.map (·.job))

/-- All downloads, by job name and then in recording order. -/
def downloadsByJob (l : Ledger) : List Download :=
  l.downloadJobs.flatMap l.downloadsOf

end Ledger

end JobFlow
