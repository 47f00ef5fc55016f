import Mathlib.Data.List.Basic
import JobFlow.Proofs.Artifact.Retrieval

/-!
Isolation of unrelated jobs. A search in scope reads the uploads of the jobs in scope, and those only.
So what other jobs record has no influence on a download of a strict ledger, and on one of a lenient
ledger only when nothing in scope is what the download seeks.
-/

set_option autoImplicit false

namespace JobFlow.Ledger

variable {k l : Ledger} {download : Download} {wanted : Wanted} {scope : List String}

/-- Two ledgers hold the same uploads of each job in scope, in the same order. -/
def AgreeOn (k l : Ledger) (scope : List String) : Prop :=
  ∀ job ∈ scope, k.uploadsOf job = l.uploadsOf job

namespace AgreeOn

theorem flatMap_uploadsOf (agree : k.AgreeOn l scope) :
    scope.flatMap k.uploadsOf = scope.flatMap l.uploadsOf :=
  List.flatMap_congr agree

theorem mem_uploads_iff (agree : k.AgreeOn l scope) {upload : Upload} (ofScope : upload.job ∈ scope) :
    upload ∈ k.uploads ↔ upload ∈ l.uploads := by
  have both : upload ∈ scope.flatMap k.uploadsOf ↔ upload ∈ scope.flatMap l.uploadsOf := by
    rw [agree.flatMap_uploadsOf]
  rw [mem_flatMap_uploadsOf, mem_flatMap_uploadsOf] at both
  simpa [ofScope] using both

theorem search_eq (agree : k.AgreeOn l scope) (wanted : Wanted) :
    k.search scope wanted = l.search scope wanted := by
  rw [search, agree.flatMap_uploadsOf, search]

theorem matchingUploads_eq (agree : k.AgreeOn l scope) (pattern : String) :
    k.matchingUploads scope pattern = l.matchingUploads scope pattern := by
  rw [matchingUploads, agree.flatMap_uploadsOf, matchingUploads]

/-- What the jobs in scope have for a download is the same. -/
theorem offered_eq (agree : k.AgreeOn l download.dependsOn) :
    k.offered download = l.offered download := by
  rw [offered, agree.matchingUploads_eq, agree.search_eq, offered]

theorem inScope_iff_inScope (agree : k.AgreeOn l download.dependsOn) :
    k.InScope download ↔ l.InScope download := by
  rw [inScope_iff, inScope_iff]
  constructor
  · rintro ⟨upload, isUpload, ofScope, accepted⟩
    exact ⟨upload, (agree.mem_uploads_iff ofScope).1 isUpload, ofScope, accepted⟩
  · rintro ⟨upload, isUpload, ofScope, accepted⟩
    exact ⟨upload, (agree.mem_uploads_iff ofScope).2 isUpload, ofScope, accepted⟩

/-- With an upload in scope, both ledgers bring the same, however strict they are. -/
theorem retrieved_eq (agree : k.AgreeOn l download.dependsOn) (inScope : k.InScope download) :
    k.retrieved download = l.retrieved download := by
  rw [retrieved_of_inScope inScope, retrieved_of_inScope (agree.inScope_iff_inScope.1 inScope),
    agree.offered_eq]

/-- Strict ledgers bring the same: without an upload in scope, nothing. -/
theorem retrieved_eq_of_strict (agree : k.AgreeOn l download.dependsOn) (strict : k.strict = true)
    (alsoStrict : l.strict = true) : k.retrieved download = l.retrieved download := by
  by_cases inScope : k.InScope download
  · exact agree.retrieved_eq inScope
  · have alsoNone : ¬ l.InScope download := fun h => inScope (agree.inScope_iff_inScope.2 h)
    rw [retrieved_eq_nil_of_strict strict inScope, retrieved_eq_nil_of_strict alsoStrict alsoNone]

/-- What a strict ledger may use for a download stands in scope, so the other ledger has it, too. -/
theorem usable_iff (agree : k.AgreeOn l download.dependsOn) (strict : k.strict = true)
    (alsoStrict : l.strict = true) {upload : Upload} :
    k.Usable download wanted upload ↔ l.Usable download wanted upload := by
  constructor
  · rintro ⟨isUpload, accepted, ofScope⟩
    have inScope := ofScope strict
    exact ⟨(agree.mem_uploads_iff inScope).1 isUpload, accepted, fun _ => inScope⟩
  · rintro ⟨isUpload, accepted, ofScope⟩
    have inScope := ofScope alsoStrict
    exact ⟨(agree.mem_uploads_iff inScope).2 isUpload, accepted, fun _ => inScope⟩

/-- Strict ledgers accept the same downloads. -/
theorem check_eq_ok_iff (agree : k.AgreeOn l download.dependsOn) (strict : k.strict = true)
    (alsoStrict : l.strict = true) : k.check download = .ok () ↔ l.check download = .ok () := by
  rw [check_eq_ok, check_eq_ok]
  simp only [checkWanted_iff_usable, agree.usable_iff strict alsoStrict]

end AgreeOn

/-- Two histories after which the jobs that a download depends on have the same uploads. Whatever was
recorded for other jobs, strict ledgers bring the same files and accept or refuse alike; and ledgers of
any strictness bring the same files when an upload in scope is what the download seeks. -/
theorem resolve_isolated (strict : Bool) (calls others : List Call) (download : Download)
    (agree : (ofHistory strict calls).AgreeOn (ofHistory strict others) download.dependsOn) :
    (strict = true →
      (ofHistory strict calls).resolve download = (ofHistory strict others).resolve download ∧
      ((ofHistory strict calls).check download = .ok () ↔
        (ofHistory strict others).check download = .ok ())) ∧
    ((ofHistory strict calls).InScope download →
      (ofHistory strict calls).resolve download = (ofHistory strict others).resolve download) := by
  constructor
  · intro isStrict
    have first : (ofHistory strict calls).strict = true := (strict_ofHistory strict calls).trans isStrict
    have second : (ofHistory strict others).strict = true :=
      (strict_ofHistory strict others).trans isStrict
    refine ⟨?_, agree.check_eq_ok_iff first second⟩
    rw [resolve, agree.retrieved_eq_of_strict first second, resolve]
  · intro inScope
    rw [resolve, agree.retrieved_eq inScope, resolve]

/-- One job uploads what another one downloads. -/
def quietHistory : List Call :=
  [.setCurrentJob "build", .recordUpload { name := "dist", paths := ["out/app"] }]

/-- The same, between uploads of the same name by jobs that stand before and after it by name. -/
def crowdedHistory : List Call :=
  [.recordUpload { name := "dist", paths := ["old/app"], job := "attic" },
    .recordUpload { name := "dist", paths := ["out/app"], job := "build" },
    .recordUpload { name := "dist", paths := ["new/app"], job := "zoo" }]

/-- A download that depends on the one job in both histories. -/
def distDownload : Download :=
  { path := "in", pattern := "dist*", job := "test", dependsOn := ["build"] }

theorem agreeOn_crowded (strict : Bool) :
    (ofHistory strict quietHistory).AgreeOn (ofHistory strict crowdedHistory) distDownload.dependsOn :=
  List.forall_mem_singleton.2 rfl

theorem resolve_isolated_crowded :
    (ofHistory true quietHistory).AgreeOn (ofHistory true crowdedHistory) distDownload.dependsOn ∧
    (ofHistory false quietHistory).AgreeOn (ofHistory false crowdedHistory) distDownload.dependsOn ∧
    (ofHistory true quietHistory).resolve distDownload =
      (ofHistory true crowdedHistory).resolve distDownload ∧
    ((ofHistory true quietHistory).check distDownload = .ok () ↔
      (ofHistory true crowdedHistory).check distDownload = .ok ()) ∧
    (ofHistory false quietHistory).resolve distDownload =
      (ofHistory false crowdedHistory).resolve distDownload ∧
    (ofHistory false crowdedHistory).resolve distDownload =
      [⟨"dist", "out/app", "in/dist/app", "build"⟩] := by
  have strict := (resolve_isolated true _ _ _ (agreeOn_crowded true)).1 rfl
  have inScope : (ofHistory false quietHistory).InScope distDownload :=
    ⟨"build", List.mem_singleton.2 rfl, _, List.mem_singleton.2 rfl, by decide +kernel⟩
  have lenient := (resolve_isolated false _ _ _ (agreeOn_crowded false)).2 inScope
  exact ⟨agreeOn_crowded true, agreeOn_crowded false, strict.1, strict.2, lenient,
    by decide +kernel⟩

end JobFlow.Ledger
