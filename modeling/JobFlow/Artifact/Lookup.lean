import JobFlow.Artifact.Ledger
import JobFlow.Artifact.Pattern
import JobFlow.Text.Digit

/-!
Finding the artifacts of a download. The jobs that the download depends on are searched first, in
their order, and then all jobs by name. An artifact found only in the second search is out of
scope; a strict ledger does not use it.
-/

set_option autoImplicit false

namespace JobFlow

inductive Wanted
  | named (name : String)
  | matching (pattern : String)
  deriving DecidableEq, Repr

/-- Whether an upload is what is looked for. An empty name or pattern looks for nothing. -/
def Wanted.accepts : Wanted → Upload → Bool
  | named name, upload => name ≠ "" && upload.name == name
  | matching pattern, upload => pattern ≠ "" && Artifact.matchesPattern pattern upload.name

def Download.wanted (download : Download) : List Wanted :=
  (if download.name = "" then [] else [.named download.name]) ++
    (if download.pattern = "" then [] else [.matching download.pattern])

/-- An upload that was found, and whether one of the jobs depended on made it. -/
structure Found where
  upload : Upload
  inScope : Bool

structure Unresolved where
  job : String
  wanted : Wanted
  /-- The job of an upload that would satisfy it, but is out of scope. -/
  unscopedJob : Option String := none
  deriving DecidableEq, Repr

/-- Names the job out of scope only when it has a name. -/
def Unresolved.message (e : Unresolved) : String :=
  let reason := match e.wanted with
    | .named name =>
      "artifact '" ++ name ++ "' downloaded by job '" ++ e.job ++
        "' not found in any dependent job"
    | .matching pattern =>
      "no artifacts matching pattern '" ++ pattern ++ "' found for job '" ++ e.job ++ "'"
  match e.unscopedJob with
  | none => reason
  | some "" => reason
  | some job => reason ++ " (uploaded by job '" ++ job ++ "', which is not in needs)"

namespace Ledger

/-- The first upload of the given jobs that is what is looked for. -/
def search (l : Ledger) (jobs : List String) (wanted : Wanted) : Option Upload :=
  (jobs.flatMap l.uploadsOf).find? wanted.accepts

def locate (l : Ledger) (scope : List String) (wanted : Wanted) : Option Found :=
  match l.search scope wanted with
  | some upload => some ⟨upload, true⟩
  | none => (l.search l.uploadJobs wanted).map fun upload => ⟨upload, false⟩

def mayUse (l : Ledger) (found : Found) : Bool :=
  found.inScope || !l.strict

/-- The usable upload with a name. -/
def find? (l : Ledger) (scope : List String) (name : String) : Option Upload :=
  match l.locate scope (.named name) with
  | some found => if l.mayUse found then some found.upload else none
  | none => none

def checkWanted (l : Ledger) (download : Download) (wanted : Wanted) : Except Unresolved Unit :=
  match l.locate download.dependsOn wanted with
  | none => .error ⟨download.job, wanted, none⟩
  | some found =>
    if l.mayUse found then .ok () else .error ⟨download.job, wanted, some found.upload.job⟩

/-- Checks that a download can be satisfied; the name is checked before the pattern. -/
def check (l : Ledger) (download : Download) : Except Unresolved Unit :=
  download.wanted.forM (l.checkWanted download)

/-- The recorded downloads that cannot be satisfied, by job name and then in recording order. -/
def unresolved (l : Ledger) : List Unresolved :=
  l.downloadsByJob.filterMap fun download =>
    match l.check download with
    | .error e => some e
    | .ok () => none

def matchingUploads (l : Ledger) (jobs : List String) (pattern : String) : List Upload :=
  (jobs.flatMap l.uploadsOf).filter fun upload => Artifact.matchesPattern pattern upload.name

/-- The uploads that a download brings. A pattern brings every match in scope, or, when there is
none and the ledger is not strict, every match at all. A name brings one upload at most. -/
def retrieved (l : Ledger) (download : Download) : List Upload :=
  if download.pattern ≠ "" then
    let inScope := l.matchingUploads download.dependsOn download.pattern
    if !inScope.isEmpty || l.strict then inScope
    else l.matchingUploads l.uploadJobs download.pattern
  else (l.find? download.dependsOn download.name).toList

def resolve (l : Ledger) (download : Download) : List ArtifactFile :=
  (l.retrieved download).flatMap download.filesOf

end Ledger

def Unresolved.summary (errors : List Unresolved) : String :=
  "\n".intercalate ((Text.ofNat errors.length ++ " artifact download(s) could not be resolved:") ::
    errors.map fun e => "  job " ++ e.job ++ ": " ++ e.message)

end JobFlow
