import Mathlib.Data.List.DropRight
import JobFlow.Proofs.Artifact.History
import JobFlow.Proofs.Artifact.Lookup
import JobFlow.Proofs.RunnerPath.Places

/-!
The records after a history. A ledger holds, job by job, exactly the records that its calls gave back
since the last reset, in their order. Each record is complete: it has its job, and an upload knows the
place of each of its paths, so that no lookup has to guess one.
-/

set_option autoImplicit false

namespace JobFlow

/-- The job that a transfer counts for: the one it names, or else the current one. -/
def effectiveJob (current own : String) : String :=
  if own = "" then current else own

def Upload.recordFor (upload : Upload) (current : String) : Upload :=
  { upload with
    job := effectiveJob current upload.job
    places := some (RunnerPath.places upload.paths) }

def Download.recordFor (download : Download) (current : String) : Download :=
  { download with job := effectiveJob current download.job }

/-- An upload as it is stored for a job. -/
structure Upload.StoredFor (upload : Upload) (job : String) : Prop where
  job : upload.job = job
  wellFormed : upload.WellFormed
  places : upload.places = some (RunnerPath.places upload.paths)
  keys : ∀ key, key ∈ (RunnerPath.places upload.paths).keys ↔
    ∃ path ∈ upload.paths, RunnerPath.clean path = key
  filled : ∀ entry ∈ (RunnerPath.places upload.paths).entries, entry.2 ≠ ""

structure Download.StoredFor (download : Download) (job : String) : Prop where
  job : download.job = job
  wellFormed : download.WellFormed

/-- The upload has a place for the path, so that its spelling is not used instead. -/
def Upload.Knows (upload : Upload) (path : String) : Prop :=
  ∃ place, upload.places.bind (·.find? (RunnerPath.clean path)) = some place

theorem Upload.WellFormed.storedFor {upload : Upload} (wellFormed : upload.WellFormed)
    (current : String) : (upload.recordFor current).StoredFor (effectiveJob current upload.job) where
  job := rfl
  wellFormed := wellFormed
  places := rfl
  keys := fun _ => RunnerPath.mem_keys_places
  filled := fun _ => RunnerPath.ne_empty_of_mem_places

theorem Upload.StoredFor.knows {upload : Upload} {job path : String} (stored : upload.StoredFor job)
    (isPath : path ∈ upload.paths) : upload.Knows path := by
  rw [Upload.Knows, stored.places]
  exact RunnerPath.exists_place isPath

namespace Ledger

variable {l : Ledger}

inductive Answer
  | nothing
  | upload (record : Upload)
  | download (record : Download)

inductive Refusal
  | upload (reason : InvalidUpload)
  | download (reason : InvalidDownload)

def answer (l : Ledger) : Call → Except Refusal Answer
  | .setCurrentJob _ => .ok .nothing
  | .recordUpload upload =>
    match l.recordUpload upload with
    | .ok (record, _) => .ok (.upload record)
    | .error reason => .error (.upload reason)
  | .recordDownload download =>
    match l.recordDownload download with
    | .ok (record, _) => .ok (.download record)
    | .error reason => .error (.download reason)
  | .reset => .ok .nothing

/-- An upload is recorded at the end and given back, or refused without a trace. -/
theorem recordUpload_call_cases (l : Ledger) (upload : Upload) :
    (upload.WellFormed ∧
      l.answer (.recordUpload upload) = .ok (.upload (upload.recordFor l.currentJob)) ∧
      l.apply (.recordUpload upload) =
        { l with uploads := l.uploads ++ [upload.recordFor l.currentJob] }) ∨
    (¬ upload.WellFormed ∧ ∃ reason, l.answer (.recordUpload upload) = .error (.upload reason) ∧
      l.apply (.recordUpload upload) = l) := by
  rw [apply_recordUpload]
  simp only [answer, recordUpload]
  rcases accept?_cases l.currentJob upload with
    ⟨wellFormed, accepted, isAccepted⟩ | ⟨illFormed, reason, isRefused⟩
  · obtain ⟨_, rfl⟩ := accept?_eq_ok.1 isAccepted
    rw [isAccepted]
    exact Or.inl ⟨wellFormed, rfl, rfl⟩
  · rw [isRefused]
    exact Or.inr ⟨illFormed, reason, rfl, rfl⟩

/-- A download is recorded at the end and given back, or refused without a trace. -/
theorem recordDownload_call_cases (l : Ledger) (download : Download) :
    (download.WellFormed ∧
      l.answer (.recordDownload download) = .ok (.download (download.recordFor l.currentJob)) ∧
      l.apply (.recordDownload download) =
        { l with downloads := l.downloads ++ [download.recordFor l.currentJob] }) ∨
    (¬ download.WellFormed ∧
      ∃ reason, l.answer (.recordDownload download) = .error (.download reason) ∧
        l.apply (.recordDownload download) = l) := by
  rw [apply_recordDownload]
  simp only [answer, recordDownload]
  rcases acceptDownload?_cases l.currentJob download with
    ⟨wellFormed, accepted, isAccepted⟩ | ⟨illFormed, reason, isRefused⟩
  · obtain ⟨_, rfl⟩ := acceptDownload?_eq_ok.1 isAccepted
    rw [isAccepted]
    exact Or.inl ⟨wellFormed, rfl, rfl⟩
  · rw [isRefused]
    exact Or.inr ⟨illFormed, reason, rfl, rfl⟩

/-- A call that is refused leaves the ledger as it was. -/
theorem apply_of_refused {call : Call} {reason : Refusal} (refused : l.answer call = .error reason) :
    l.apply call = l := by
  cases call with
  | setCurrentJob job => cases refused
  | reset => cases refused
  | recordUpload upload =>
    rcases l.recordUpload_call_cases upload with ⟨_, answered, _⟩ | ⟨_, _, _, unchanged⟩
    · cases answered.symm.trans refused
    · exact unchanged
  | recordDownload download =>
    rcases l.recordDownload_call_cases download with ⟨_, answered, _⟩ | ⟨_, _, _, unchanged⟩
    · cases answered.symm.trans refused
    · exact unchanged

/-- A call of a history, with the ledger that it was made on. -/
structure Event where
  ledger : Ledger
  call : Call

namespace Event

def answer (event : Event) : Except Refusal Answer :=
  event.ledger.answer event.call

def isReset (event : Event) : Bool :=
  match event.call with
  | .reset => true
  | _ => false

def jobSet? (event : Event) : Option String :=
  match event.call with
  | .setCurrentJob job => some job
  | _ => none

def upload? (job : String) (event : Event) : Option Upload :=
  match event.call, event.answer with
  | .recordUpload upload, .ok (.upload record) =>
    if effectiveJob event.ledger.currentJob upload.job = job then some record else none
  | _, _ => none

def download? (job : String) (event : Event) : Option Download :=
  match event.call, event.answer with
  | .recordDownload download, .ok (.download record) =>
    if effectiveJob event.ledger.currentJob download.job = job then some record else none
  | _, _ => none

theorem storedFor_of_upload? {event : Event} {job : String} {record : Upload}
    (given : event.upload? job = some record) : record.StoredFor job := by
  obtain ⟨ledger, call⟩ := event
  cases call with
  | recordUpload upload =>
    rcases ledger.recordUpload_call_cases upload with ⟨wellFormed, answered, _⟩ | ⟨_, _, answered, _⟩
    · simp only [upload?, answer, answered, Option.ite_none_right_eq_some] at given
      obtain ⟨rfl, same⟩ := given
      cases same
      exact wellFormed.storedFor ledger.currentJob
    · simp [upload?, answer, answered] at given
  | setCurrentJob name => cases given
  | recordDownload download => cases given
  | reset => cases given

theorem storedFor_of_download? {event : Event} {job : String} {record : Download}
    (given : event.download? job = some record) : record.StoredFor job := by
  obtain ⟨ledger, call⟩ := event
  cases call with
  | recordDownload download =>
    rcases ledger.recordDownload_call_cases download with
      ⟨wellFormed, answered, _⟩ | ⟨_, _, answered, _⟩
    · simp only [download?, answer, answered, Option.ite_none_right_eq_some] at given
      obtain ⟨rfl, same⟩ := given
      cases same
      exact ⟨rfl, wellFormed⟩
    · simp [download?, answer, answered] at given
  | setCurrentJob name => cases given
  | recordUpload upload => cases given
  | reset => cases given

end Event

/-- The calls of a history in their order, each with the ledger that it was made on. -/
def events (l : Ledger) : List Call → List Event
  | [] => []
  | call :: rest => ⟨l, call⟩ :: (l.apply call).events rest

/-- The events of a history after its last reset. -/
def sinceReset (strict : Bool) (calls : List Call) : List Event :=
  (events { strict } calls).rtakeWhile fun event => !event.isReset

theorem events_concat (l : Ledger) (calls : List Call) (call : Call) :
    l.events (calls ++ [call]) = l.events calls ++ [⟨calls.foldl apply l, call⟩] := by
  induction calls generalizing l with
  | nil => rfl
  | cons first rest ih => exact congrArg _ (ih (l.apply first))

theorem ofHistory_concat (strict : Bool) (calls : List Call) (call : Call) :
    ofHistory strict (calls ++ [call]) = (ofHistory strict calls).apply call := by
  rw [ofHistory, List.foldl_append]
  rfl

/-- The last call of a history is the last event, or it is a reset that clears all. -/
theorem sinceReset_concat (strict : Bool) (calls : List Call) (call : Call) :
    sinceReset strict (calls ++ [call]) =
      if Event.isReset ⟨ofHistory strict calls, call⟩ then []
      else sinceReset strict calls ++ [⟨ofHistory strict calls, call⟩] := by
  rw [sinceReset, events_concat, List.rtakeWhile_concat]
  show (if !Event.isReset ⟨ofHistory strict calls, call⟩ then _ else _) = _
  cases Event.isReset ⟨ofHistory strict calls, call⟩ <;> rfl

/-- A list that starts empty, is emptied by resets, and grows by what other events give, has after a
history what the events since the last reset gave. -/
theorem given_since_reset {α : Type} (held : Ledger → List α) (given : Event → Option α)
    (start : ∀ strict, held { strict } = [])
    (step : ∀ l call, held (l.apply call) =
      if Event.isReset ⟨l, call⟩ then [] else held l ++ (given ⟨l, call⟩).toList)
    (strict : Bool) (calls : List Call) :
    held (ofHistory strict calls) = (sinceReset strict calls).filterMap given := by
  induction calls using List.reverseRecOn with
  | nil => exact start strict
  | append_singleton calls call ih =>
    rw [ofHistory_concat, step, sinceReset_concat]
    split
    · rfl
    · rw [ih, List.filterMap_append]
      cases isGiven : given ⟨ofHistory strict calls, call⟩ <;> simp [isGiven]

/-- A call adds to the uploads of a job the record that it gives back for it. -/
theorem uploadsOf_apply (job : String) (l : Ledger) (call : Call) :
    (l.apply call).uploadsOf job =
      if Event.isReset ⟨l, call⟩ then []
      else l.uploadsOf job ++ (Event.upload? job ⟨l, call⟩).toList := by
  cases call with
  | setCurrentJob name => exact (List.append_nil _).symm
  | reset => rfl
  | recordUpload upload =>
    rcases l.recordUpload_call_cases upload with
      ⟨_, answered, after⟩ | ⟨_, _, answered, unchanged⟩
    · rw [after]
      by_cases own : effectiveJob l.currentJob upload.job = job <;>
        simp [Event.isReset, Event.upload?, Event.answer, answered, uploadsOf, own, Upload.recordFor]
    · rw [unchanged]
      simp [Event.isReset, Event.upload?, Event.answer, answered]
  | recordDownload download =>
    have same : (l.apply (.recordDownload download)).uploadsOf job = l.uploadsOf job := by
      rcases l.recordDownload_call_cases download with ⟨_, _, after⟩ | ⟨_, _, _, unchanged⟩
      · rw [after]
        rfl
      · rw [unchanged]
    rw [same]
    exact (List.append_nil _).symm

theorem uploadsOf_ofHistory (strict : Bool) (calls : List Call) (job : String) :
    (ofHistory strict calls).uploadsOf job =
      (sinceReset strict calls).filterMap (Event.upload? job) :=
  given_since_reset (·.uploadsOf job) (Event.upload? job) (fun _ => rfl) (uploadsOf_apply job) strict
    calls

theorem downloadsOf_apply (job : String) (l : Ledger) (call : Call) :
    (l.apply call).downloadsOf job =
      if Event.isReset ⟨l, call⟩ then []
      else l.downloadsOf job ++ (Event.download? job ⟨l, call⟩).toList := by
  cases call with
  | setCurrentJob name => exact (List.append_nil _).symm
  | reset => rfl
  | recordDownload download =>
    rcases l.recordDownload_call_cases download with
      ⟨_, answered, after⟩ | ⟨_, _, answered, unchanged⟩
    · rw [after]
      by_cases own : effectiveJob l.currentJob download.job = job <;>
        simp [Event.isReset, Event.download?, Event.answer, answered, downloadsOf, own,
          Download.recordFor]
    · rw [unchanged]
      simp [Event.isReset, Event.download?, Event.answer, answered]
  | recordUpload upload =>
    have same : (l.apply (.recordUpload upload)).downloadsOf job = l.downloadsOf job := by
      rcases l.recordUpload_call_cases upload with ⟨_, _, after⟩ | ⟨_, _, _, unchanged⟩
      · rw [after]
        rfl
      · rw [unchanged]
    rw [same]
    exact (List.append_nil _).symm

theorem downloadsOf_ofHistory (strict : Bool) (calls : List Call) (job : String) :
    (ofHistory strict calls).downloadsOf job =
      (sinceReset strict calls).filterMap (Event.download? job) :=
  given_since_reset (·.downloadsOf job) (Event.download? job) (fun _ => rfl) (downloadsOf_apply job)
    strict calls

/-- A call that sets a job makes it the current one, a reset leaves none, and others keep it. -/
theorem currentJob_apply (l : Ledger) (call : Call) :
    (l.apply call).currentJob =
      if Event.isReset ⟨l, call⟩ then "" else (Event.jobSet? ⟨l, call⟩).getD l.currentJob := by
  cases call with
  | setCurrentJob job => rfl
  | reset => rfl
  | recordUpload upload =>
    rcases l.recordUpload_call_cases upload with ⟨_, _, after⟩ | ⟨_, _, _, unchanged⟩
    · rw [after]
      rfl
    · rw [unchanged]
      rfl
  | recordDownload download =>
    rcases l.recordDownload_call_cases download with ⟨_, _, after⟩ | ⟨_, _, _, unchanged⟩
    · rw [after]
      rfl
    · rw [unchanged]
      rfl

/-- The current job is the one set last since the last reset. -/
theorem currentJob_ofHistory (strict : Bool) (calls : List Call) :
    (ofHistory strict calls).currentJob =
      ((sinceReset strict calls).filterMap Event.jobSet?).getLastD "" := by
  induction calls using List.reverseRecOn with
  | nil => rfl
  | append_singleton calls call ih =>
    rw [ofHistory_concat, currentJob_apply, sinceReset_concat]
    split
    · rfl
    · rw [ih, List.filterMap_append]
      cases isSet : Event.jobSet? ⟨ofHistory strict calls, call⟩ <;> simp [isSet]

/-- After any history a job has exactly the records that the calls since the last reset gave back for it,
in their order; what a call counts for is the job it names, or else the one set last. All records are
complete, a download never brings a path whose place is not known, and a call that is refused changes
nothing. -/
theorem records_since_reset (strict : Bool) (calls : List Call) :
    (∀ job,
      (ofHistory strict calls).uploadsOf job =
        (sinceReset strict calls).filterMap (Event.upload? job) ∧
      (ofHistory strict calls).downloadsOf job =
        (sinceReset strict calls).filterMap (Event.download? job)) ∧
    (ofHistory strict calls).currentJob =
      ((sinceReset strict calls).filterMap Event.jobSet?).getLastD "" ∧
    (∀ job, ∀ upload ∈ (ofHistory strict calls).uploadsOf job, upload.StoredFor job) ∧
    (∀ job, ∀ download ∈ (ofHistory strict calls).downloadsOf job, download.StoredFor job) ∧
    (∀ download, ∀ upload ∈ (ofHistory strict calls).retrieved download,
      ∀ path ∈ upload.paths, upload.Knows path) ∧
    (∀ call reason, (ofHistory strict calls).answer call = .error reason →
      (ofHistory strict calls).apply call = ofHistory strict calls) := by
  have stored : ∀ job, ∀ upload ∈ (ofHistory strict calls).uploadsOf job, upload.StoredFor job := by
    intro job upload isStored
    rw [uploadsOf_ofHistory] at isStored
    obtain ⟨_, _, given⟩ := List.mem_filterMap.1 isStored
    exact Event.storedFor_of_upload? given
  refine ⟨?_, currentJob_ofHistory strict calls, stored, ?_, ?_, fun _ _ => apply_of_refused⟩
  · exact fun job => ⟨uploadsOf_ofHistory strict calls job, downloadsOf_ofHistory strict calls job⟩
  · intro job download isStored
    rw [downloadsOf_ofHistory] at isStored
    obtain ⟨_, _, given⟩ := List.mem_filterMap.1 isStored
    exact Event.storedFor_of_download? given
  · intro download upload brought path isPath
    have isUpload := (mem_of_retrieved brought).1
    have ofJob : upload ∈ (ofHistory strict calls).uploadsOf upload.job :=
      List.mem_filter.2 ⟨isUpload, beq_self_eq_true _⟩
    exact (stored upload.job upload ofJob).knows isPath

end Ledger

end JobFlow
