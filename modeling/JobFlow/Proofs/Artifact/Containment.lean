import JobFlow.Proofs.Artifact.Landing

/-!
Downloads stay in their directory, but for files that step up. A file whose place inside the artifact
begins with a step up is unpacked outside the download directory; every other file lands in it.
-/

set_option autoImplicit false

namespace JobFlow

open RunnerPath

/-- The path goes on from the directory, and never up. -/
def RunnerPath.Within (directory p : RunnerPath) : Prop :=
  p.absolute = directory.absolute ∧
    ∃ below, ".." ∉ below ∧ p.segments = directory.segments ++ below

namespace Ledger

variable {l after other afterOther : Ledger} {upload stored : Upload} {download kept : Download}
  {path : String}

/-- Where a file of an upload lands when its artifact is unpacked straight into the download directory.
If it does not step out of the directory that is stripped from it, it stays in the download directory. If
it does, it leaves every download directory that ends in a name which the path does not enter again. -/
theorem target_within (recorded : l.recordUpload upload = .ok (stored, after))
    (isPath : path ∈ upload.paths) (accepted : other.recordDownload download = .ok (kept, afterOther))
    (flat : download.separates = false) :
    (¬ StepsOut upload.paths path →
      Within (ofString download.path) (ofString (download.target stored path))) ∧
    (StepsOut upload.paths path → ∀ outer last,
      (ofString download.path).segments = outer ++ [last] → last ≠ ".." →
        last ∉ (ofString path).segments →
          ¬ (ofString download.path).segments <+: (ofString (download.target stored path)).segments) := by
  obtain ⟨⟨named, _⟩, isStored⟩ := accept?_eq_ok.1 (recordUpload_eq_ok.1 recorded).1
  obtain ⟨⟨_, hasPath⟩, _⟩ := acceptDownload?_eq_ok.1 (recordDownload_eq_ok.1 accepted).1
  have known : stored.places = some (places upload.paths) := by rw [isStored]
  have storedName : stored.name ≠ "" := by rwa [isStored]
  obtain ⟨place, inside, isPlace, adds, ofPath, stepsOut_iff⟩ := exists_inside isPath
  rw [← Upload.placeOf_of_find? known isPlace] at adds
  have directory : ofString (download.directoryFor stored) = ofString download.path := by
    rw [Download.directoryFor, flat, if_neg Bool.false_ne_true, ofString_clean]
  have landing := Download.ofString_target hasPath storedName adds
  rw [directory] at landing
  have canonical := canonical_ofString download.path
  rw [landing, stepsOut_iff]
  constructor
  · intro down
    have inPlace := simplify_of_canonical (canonical.append adds.canonical.proper down)
    exact ⟨rfl, inside, down, inPlace⟩
  · intro up outer last segments isName absent
    obtain ⟨rest, rfl⟩ := adds.canonical.exists_step_up up
    have ending : Canonical ⟨(ofString download.path).absolute, outer ++ [last]⟩ := segments ▸ canonical
    rw [segments]
    exact not_prefix_of_step_up ending isName fun again =>
      absent (ofPath (List.mem_cons_of_mem ".." again))

/-- One file next to the directory of another that is further up. -/
def teamUpload : Upload :=
  { name := "team", paths := ["../logs/run.txt", "../../shared/conf"] }

def teamDownload : Download :=
  { path := "/in//team/", name := "team" }

theorem target_within_team :
    ∃ stored after kept afterDownload,
      ({ strict := false } : Ledger).recordUpload teamUpload = .ok (stored, after) ∧
      after.recordDownload teamDownload = .ok (kept, afterDownload) ∧
      teamDownload.separates = false ∧
      "../logs/run.txt" ∈ teamUpload.paths ∧ ¬ StepsOut teamUpload.paths "../logs/run.txt" ∧
      Within ⟨true, ["in", "team"]⟩ (ofString (teamDownload.target stored "../logs/run.txt")) ∧
      "../../shared/conf" ∈ teamUpload.paths ∧ StepsOut teamUpload.paths "../../shared/conf" ∧
      ¬ ["in", "team"] <+: (ofString (teamDownload.target stored "../../shared/conf")).segments := by
  obtain ⟨stored, after, recorded⟩ : ∃ stored after,
      ({ strict := false } : Ledger).recordUpload teamUpload = .ok (stored, after) :=
    ⟨_, _, recordUpload_eq_ok.2 ⟨accept?_eq_ok.2 ⟨⟨by decide, by decide⟩, rfl⟩, rfl⟩⟩
  obtain ⟨kept, afterDownload, accepted⟩ : ∃ kept afterDownload,
      after.recordDownload teamDownload = .ok (kept, afterDownload) :=
    ⟨_, _, recordDownload_eq_ok.2
      ⟨acceptDownload?_eq_ok.2 ⟨⟨Or.inl (by decide), by decide⟩, rfl⟩, rfl⟩⟩
  have isRun : "../logs/run.txt" ∈ teamUpload.paths := by decide
  have isConf : "../../shared/conf" ∈ teamUpload.paths := by decide
  have stays : ¬ StepsOut teamUpload.paths "../logs/run.txt" := by decide +kernel
  have leaves : StepsOut teamUpload.paths "../../shared/conf" := by decide +kernel
  have directory : ofString teamDownload.path = ⟨true, ["in"] ++ ["team"]⟩ := by decide +kernel
  have inside := (target_within recorded isRun accepted (by decide)).1 stays
  have outside := (target_within recorded isConf accepted (by decide)).2 leaves ["in"] "team"
    (congrArg RunnerPath.segments directory) (by decide) (by decide +kernel)
  rw [directory] at inside outside
  exact ⟨stored, after, kept, afterDownload, recorded, accepted, by decide, isRun, stays, inside, isConf,
    leaves, outside⟩

/-- A file that steps up is unpacked beside the download directory. -/
theorem target_not_always_within :
    ¬ ∀ (l after other afterOther : Ledger) (upload stored : Upload) (download kept : Download)
        (path : String), l.recordUpload upload = .ok (stored, after) → path ∈ upload.paths →
      other.recordDownload download = .ok (kept, afterOther) → download.separates = false →
        (ofString download.path).segments <+: (ofString (download.target stored path)).segments := by
  intro within
  have outside := within { strict := false } _ { strict := false } _
    { name := "logs", paths := ["../logs/a.txt", "../../shared/b.txt"] } _
    { path := "/out", name := "logs" } _ "../../shared/b.txt" rfl (by decide) rfl (by decide)
  revert outside
  decide +kernel

end Ledger

end JobFlow
