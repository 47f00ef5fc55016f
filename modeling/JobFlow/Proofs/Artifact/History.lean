import JobFlow.Artifact.Ledger

/-!
Histories of a ledger. A history is any sequence of calls, and a call that is refused leaves the ledger
as it was. So whatever the history, all records are well formed; and how strict a ledger is has no
influence on what it records.
-/

set_option autoImplicit false

namespace JobFlow

def Upload.WellFormed (upload : Upload) : Prop :=
  upload.name ≠ "" ∧ upload.paths ≠ []

def Download.WellFormed (download : Download) : Prop :=
  (download.name ≠ "" ∨ download.pattern ≠ "") ∧ download.path ≠ ""

namespace Ledger

variable {l : Ledger}

/-- An upload is accepted exactly when it is well formed, and only its job and its places are set. -/
theorem accept?_eq_ok {current : String} {upload accepted : Upload} :
    accept? current upload = .ok accepted ↔ upload.WellFormed ∧ accepted = { upload with
      job := if upload.job = "" then current else upload.job
      places := some (RunnerPath.places upload.paths) } := by
  unfold accept?
  split
  · next unnamed => exact iff_of_false (by simp) fun h => h.1.1 unnamed
  · next named =>
    split
    · next noPaths => exact iff_of_false (by simp) fun h => h.1.2 (List.isEmpty_iff.1 noPaths)
    · next paths =>
      constructor
      · intro same
        cases same
        exact ⟨⟨named, fun none => paths (List.isEmpty_iff.2 none)⟩, rfl⟩
      · rintro ⟨_, rfl⟩
        rfl

/-- An upload that is not well formed is refused. -/
theorem accept?_cases (current : String) (upload : Upload) :
    (upload.WellFormed ∧ ∃ accepted, accept? current upload = .ok accepted) ∨
      (¬ upload.WellFormed ∧ ∃ reason, accept? current upload = .error reason) := by
  cases outcome : accept? current upload with
  | ok accepted => exact Or.inl ⟨(accept?_eq_ok.1 outcome).1, accepted, rfl⟩
  | error reason =>
    refine Or.inr ⟨fun wellFormed => ?_, reason, rfl⟩
    cases outcome.symm.trans (accept?_eq_ok.2 ⟨wellFormed, rfl⟩)

/-- A download is accepted exactly when it is well formed, and only its job is set. -/
theorem acceptDownload?_eq_ok {current : String} {download accepted : Download} :
    acceptDownload? current download = .ok accepted ↔ download.WellFormed ∧ accepted = { download with
      job := if download.job = "" then current else download.job } := by
  unfold acceptDownload?
  split
  · next nothing => exact iff_of_false (by simp) fun h => h.1.1.elim (· nothing.1) (· nothing.2)
  · next something =>
    split
    · next noPath => exact iff_of_false (by simp) fun h => h.1.2 noPath
    · next path =>
      constructor
      · intro same
        cases same
        exact ⟨⟨Classical.not_and_iff_not_or_not.1 something, path⟩, rfl⟩
      · rintro ⟨_, rfl⟩
        rfl

/-- A download that is not well formed is refused. -/
theorem acceptDownload?_cases (current : String) (download : Download) :
    (download.WellFormed ∧ ∃ accepted, acceptDownload? current download = .ok accepted) ∨
      (¬ download.WellFormed ∧ ∃ reason, acceptDownload? current download = .error reason) := by
  cases outcome : acceptDownload? current download with
  | ok accepted => exact Or.inl ⟨(acceptDownload?_eq_ok.1 outcome).1, accepted, rfl⟩
  | error reason =>
    refine Or.inr ⟨fun wellFormed => ?_, reason, rfl⟩
    cases outcome.symm.trans (acceptDownload?_eq_ok.2 ⟨wellFormed, rfl⟩)

inductive Call
  | setCurrentJob (job : String)
  | recordUpload (upload : Upload)
  | recordDownload (download : Download)
  | reset

/-- The ledger after a call. A record that is refused changes nothing. -/
def apply (l : Ledger) : Call → Ledger
  | .setCurrentJob job => l.setCurrentJob job
  | .recordUpload upload =>
    match l.recordUpload upload with
    | .ok (_, after) => after
    | .error _ => l
  | .recordDownload download =>
    match l.recordDownload download with
    | .ok (_, after) => after
    | .error _ => l
  | .reset => l.reset

/-- The ledger after a history, which starts without records. -/
def ofHistory (strict : Bool) (calls : List Call) : Ledger :=
  calls.foldl apply { strict }

theorem apply_recordUpload (l : Ledger) (upload : Upload) :
    l.apply (.recordUpload upload) = match accept? l.currentJob upload with
      | .ok accepted => { l with uploads := l.uploads ++ [accepted] }
      | .error _ => l := by
  simp only [apply, recordUpload]
  cases accept? l.currentJob upload <;> rfl

theorem apply_recordDownload (l : Ledger) (download : Download) :
    l.apply (.recordDownload download) = match acceptDownload? l.currentJob download with
      | .ok accepted => { l with downloads := l.downloads ++ [accepted] }
      | .error _ => l := by
  simp only [apply, recordDownload]
  cases acceptDownload? l.currentJob download <;> rfl

structure Sound (l : Ledger) : Prop where
  uploads : ∀ upload ∈ l.uploads, upload.WellFormed
  downloads : ∀ download ∈ l.downloads, download.WellFormed

/-- Every call keeps the records well formed. -/
theorem Sound.apply (sound : l.Sound) (call : Call) : (l.apply call).Sound := by
  cases call with
  | setCurrentJob job => exact ⟨sound.uploads, sound.downloads⟩
  | reset => exact ⟨fun _ none => absurd none List.not_mem_nil, fun _ none => absurd none List.not_mem_nil⟩
  | recordUpload upload =>
    rw [apply_recordUpload]
    split
    · next accepted isAccepted =>
      obtain ⟨wellFormed, rfl⟩ := accept?_eq_ok.1 isAccepted
      exact ⟨List.forall_mem_append.2 ⟨sound.uploads, List.forall_mem_singleton.2 wellFormed⟩,
        sound.downloads⟩
    · exact sound
  | recordDownload download =>
    rw [apply_recordDownload]
    split
    · next accepted isAccepted =>
      obtain ⟨wellFormed, rfl⟩ := acceptDownload?_eq_ok.1 isAccepted
      exact ⟨sound.uploads,
        List.forall_mem_append.2 ⟨sound.downloads, List.forall_mem_singleton.2 wellFormed⟩⟩
    · exact sound

theorem Sound.foldl_apply (sound : l.Sound) (calls : List Call) : (calls.foldl Ledger.apply l).Sound := by
  induction calls generalizing l with
  | nil => exact sound
  | cons call rest ih => exact ih (sound.apply call)

/-- After any history all records are well formed. -/
theorem sound_ofHistory (strict : Bool) (calls : List Call) : (ofHistory strict calls).Sound := by
  apply Sound.foldl_apply
  constructor
  · exact fun _ none => absurd none List.not_mem_nil
  · exact fun _ none => absurd none List.not_mem_nil

def withStrict (l : Ledger) (strict : Bool) : Ledger :=
  { l with strict }

/-- No call looks at the strictness of the ledger. -/
theorem apply_withStrict (l : Ledger) (strict : Bool) (call : Call) :
    (l.withStrict strict).apply call = (l.apply call).withStrict strict := by
  cases call with
  | setCurrentJob job => rfl
  | reset => rfl
  | recordUpload upload =>
    rw [apply_recordUpload, apply_recordUpload]
    show (match accept? l.currentJob upload with | .ok _ => _ | .error _ => _) = _
    cases accept? l.currentJob upload <;> rfl
  | recordDownload download =>
    rw [apply_recordDownload, apply_recordDownload]
    show (match acceptDownload? l.currentJob download with | .ok _ => _ | .error _ => _) = _
    cases acceptDownload? l.currentJob download <;> rfl

theorem foldl_apply_withStrict (l : Ledger) (strict : Bool) (calls : List Call) :
    calls.foldl apply (l.withStrict strict) = (calls.foldl apply l).withStrict strict := by
  induction calls generalizing l with
  | nil => rfl
  | cons call rest ih => rw [List.foldl_cons, List.foldl_cons, apply_withStrict, ih]

/-- One history leaves the same records in a strict ledger as in a lenient one. -/
theorem ofHistory_eq_withStrict (strict other : Bool) (calls : List Call) :
    ofHistory strict calls = (ofHistory other calls).withStrict strict :=
  foldl_apply_withStrict { strict := other } strict calls

theorem strict_ofHistory (strict : Bool) (calls : List Call) :
    (ofHistory strict calls).strict = strict := by
  rw [ofHistory_eq_withStrict strict strict calls]
  rfl

end Ledger

end JobFlow
