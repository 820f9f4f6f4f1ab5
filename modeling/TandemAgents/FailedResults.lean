import TandemAgents.WorktreeSync

/-!
# Taking over the work of a failed worker

A failed result whose diff can be reviewed is synced into the run checkout and counts as completed.
What is checked are the changed files that the result lists; what is synced is whatever git reports
in the worktree. A sync that raises leaves what it has done, and the result failed.
-/
namespace FailedResults

open FileTree GitStatus PythonText Scheduler ScopeOverlap WorktreeSync

set_option maxRecDepth 20000

/-! ## The declared files of a subtask -/

/-- `texts` are the title, the goal, the scope note, the acceptance criteria and the deliverables. -/
structure Subtask where
  files : List String
  targetFiles : List String
  texts : List String
  deriving Repr

section
variable (lower : String → String)

/-- `_is_test_path`. -/
def isTestPath (path : String) : Bool :=
  let lowered := (lower (replaceChar '\\' '/' (strip path))).toList
  decide (lowered ≠ []) && ("tests/".toList.isPrefixOf lowered || decide ("/tests/".toList <:+: '/' :: lowered) ||
    ["_test.rs", "_tests.rs", "_test.py", ".test.ts", ".test.tsx", ".spec.ts", ".spec.tsx"].any fun ending =>
      ending.toList.isSuffixOf lowered)

/-- `_text_mentions_test_work`. -/
def textMentionsTestWork (value : String) : Bool :=
  ["test", "tests", "coverage", "regression"].any fun word => decide (word.toList <:+: (lower value).toList)

/-- `_subtask_required_test_files`. -/
def subtaskRequiredTestFiles (subtask : Subtask) : List String :=
  let files := if subtask.files.isEmpty then subtask.targetFiles else subtask.files
  (files.filter (isTestPath lower)).map strip

/-- `_subtask_requires_test_changes`. -/
def subtaskRequiresTestChanges (subtask : Subtask) : Bool :=
  !(subtaskRequiredTestFiles lower subtask).isEmpty && subtask.texts.any (textMentionsTestWork lower)

/-- `str(path or "").strip().replace("\\", "/")`. -/
def slashed (path : String) : String := replaceChar '\\' '/' (strip path)

/-- `_normalize_repo_path`. -/
def normalizeRepoPath (path : String) : String := stripBy (fun c => decide (c = '/')) (slashed path)

/-- `_subtask_declared_change_files`. -/
def subtaskDeclaredChangeFiles (subtask : Subtask) : List String :=
  (((subtask.targetFiles ++ subtask.files).map normalizeRepoPath).filter fun path => decide (path ≠ "")).eraseDups

/-- `_subtask_primary_source_files`. -/
def subtaskPrimarySourceFiles (subtask : Subtask) : List String :=
  ((subtaskDeclaredChangeFiles subtask).find? fun path => !isTestPath lower path).toList

/-- `_changed_files_satisfy_required_test_files`. -/
def changedFilesSatisfyRequiredTestFiles (changedFiles requiredTestFiles : List String) : Bool :=
  if requiredTestFiles.isEmpty then (changedFiles.map slashed).any (isTestPath lower)
  else (changedFiles.map slashed).any fun path => decide (path ∈ requiredTestFiles.map slashed)

/-- `_changed_files_satisfy_primary_source_target`. -/
def changedFilesSatisfyPrimarySourceTarget (changedFiles : List String) (subtask : Subtask) : Bool :=
  let primarySources := subtaskPrimarySourceFiles lower subtask
  primarySources.isEmpty ||
    primarySources.any fun path => decide (path ∈ (changedFiles.map normalizeRepoPath).filter fun p => decide (p ≠ ""))

/-- `_subtask_has_verifiable_source_and_test_diff`. -/
def subtaskHasVerifiableSourceAndTestDiff (subtask : Subtask) (changedFiles : List String) : Bool :=
  subtaskRequiresTestChanges lower subtask &&
    changedFilesSatisfyRequiredTestFiles lower changedFiles (subtaskRequiredTestFiles lower subtask) &&
    changedFilesSatisfyPrimarySourceTarget lower changedFiles subtask && changedFiles.any fun path => !isTestPath lower path

end

/-! ## The result of a worker -/

/-- `patch` is the partial diff that the result or its artifacts name; `verificationReturncode` is
none where it is no number. -/
structure WorkerResult where
  status : String
  returncode : Int
  failureReason : String
  blockerKind : String
  verificationReturncode : Option Int
  verificationTimedOut : Bool
  patch : String
  changedFiles : List String
  syncedFiles : List String
  deriving Repr

/-- What the checks say that read the contents of the changed files: `rejection` is the reason of
`_reviewable_failed_diff_rejection`, `productive` stands for the texts, the syntax and the diff that
`_failed_result_has_reviewable_production_diff` reads. -/
structure Contents where
  rejection : List String → Option String
  productive : List String → Bool

/-- `[str(path or "").strip() for path in ... if str(path or "").strip()]`. -/
def listedFiles (result : WorkerResult) : List String := (result.changedFiles.map strip).filter fun path => decide (path ≠ "")

section
variable (lower : String → String) (contents : Contents) (subtask : Subtask)

/-- `_failed_result_has_reviewable_source_and_test_diff`. -/
def failedResultHasReviewableSourceAndTestDiff (result : WorkerResult) : Bool :=
  let verified :=
    if result.failureReason = "WORKER_VERIFIABLE_DIFF_UNTERMINATED" then
      decide (result.verificationReturncode = some 0) && !result.verificationTimedOut
    else decide (result.failureReason ∉
      ["WORKER_SYNTAX_INVALID_DIFF", "WORKER_VERIFIABLE_DIFF_TEST_FAILED", "WORKER_VERIFIABLE_DIFF_WEAK_TEST"])
  decide (result.returncode ≠ 0) && verified && decide (result.patch ≠ "") &&
    subtaskHasVerifiableSourceAndTestDiff lower subtask (listedFiles result)

/-- `_failed_result_has_reviewable_production_diff`. -/
def failedResultHasReviewableProductionDiff (result : WorkerResult) : Bool :=
  let changedFiles := (listedFiles result).map (replaceChar '\\' '/')
  let declared := ((subtask.targetFiles ++ subtask.files).map slashed).filter fun path => decide (path ≠ "")
  decide (result.returncode ≠ 0) && decide (result.patch ≠ "") && !subtaskRequiresTestChanges lower subtask &&
    !changedFiles.isEmpty && !changedFiles.any (isTestPath lower) &&
    (declared.isEmpty || changedFiles.all fun path => decide (path ∈ declared)) &&
    changedFilesSatisfyPrimarySourceTarget lower changedFiles subtask && contents.productive changedFiles

end

/-! ## Taking it over -/

variable {Content : Type}

/-- `_sync_verifiable_worker_diff`: the merged changed files and the synced ones, or none. -/
def syncVerifiableWorkerDiff [DecidableEq Content] (allowed : Bool) (worktree : Checkout Content) (changedFiles : List String)
    (t : Files Content) : Option (List String × List String) × Files Content :=
  match syncWorktreeChanges allowed worktree t with
  | .error () u => (none, u)
  | .ok synced u =>
    let syncedFiles := synced.filter fun path => decide (strip path ≠ "")
    if syncedFiles.isEmpty then (none, u) else (some ((changedFiles ++ syncedFiles).eraseDups, syncedFiles), u)

/-- The result as it is completed. -/
def completed (result : WorkerResult) (merged synced : List String) : WorkerResult :=
  { result with
    status := "completed"
    returncode := 0
    changedFiles := merged
    syncedFiles := synced
    failureReason := ""
    blockerKind := "" }

/-- The result as its diff is rejected. -/
def rejected (result : WorkerResult) (reason : String) : WorkerResult :=
  { result with
    failureReason := if reason = "misaligned_test_diff" then "WORKER_VERIFIABLE_DIFF_MISALIGNED_TEST"
      else "WORKER_VERIFIABLE_DIFF_WEAK_TEST"
    blockerKind := "worker_incomplete_diff" }

section
variable [DecidableEq Content] (lower : String → String) (contents : Contents) (allowed : Bool) (subtask : Subtask)
  (worktree : Checkout Content)

/-- The sync of a branch, and what becomes of the result. -/
def takeOver (result : WorkerResult) (t : Files Content) : WorkerResult × Files Content :=
  match syncVerifiableWorkerDiff allowed worktree (listedFiles result) t with
  | (some (merged, synced), u) => (completed result merged synced, u)
  | (none, u) => (result, u)

/-- The two branches for a diff that can be reviewed. -/
def reviewFailed (result : WorkerResult) (t : Files Content) : WorkerResult × Files Content :=
  if failedResultHasReviewableSourceAndTestDiff lower subtask result then
    match contents.rejection (listedFiles result) with
    | some reason => (rejected result reason, t)
    | none => takeOver allowed worktree result t
  else if failedResultHasReviewableProductionDiff lower contents subtask result then takeOver allowed worktree result t
  else (result, t)

/-- The check of the primary source target. -/
def checkPrimarySource (result : WorkerResult) : WorkerResult :=
  if result.returncode = 0 ∧ ¬ changedFilesSatisfyPrimarySourceTarget lower ((listedFiles result).map (replaceChar '\\' '/')) subtask then
    { result with
      status := "failed"
      returncode := 1
      failureReason := "WORKER_PRIMARY_SOURCE_TARGET_MISSING"
      blockerKind := "worker_off_target" }
  else result

/-- `_on_result`, once the changed files of the result are those since its baseline; a worker without a worktree
is not reviewed. -/
def onResult (worktree : Option (Checkout Content)) (result : WorkerResult) (t : Files Content) :
    WorkerResult × Files Content :=
  let reviewed := match worktree with
    | none => (result, t)
    | some g => reviewFailed lower contents allowed subtask g result t
  (checkPrimarySource lower subtask reviewed.1, reviewed.2)

end

/-! ## Only validated work -/

def validatedPaths (result : WorkerResult) : List Path := (listedFiles result).map nameParts

def declaredPaths (subtask : Subtask) : List Path := (subtaskDeclaredChangeFiles subtask).map pathParts

def writtenPaths (result : WorkerResult) : List Path := result.syncedFiles.map pathParts

/-- The path that a change has the loop remove or copy. -/
def reportedPath (source : Files Content) (change : Change) : Option Path :=
  (safeStatusRelPath change.path).bind fun relPath =>
    if 'D' ∈ change.status ∨ source.fileAt (pathParts relPath) ≠ none then some (pathParts relPath) else none

section
variable [DecidableEq Content] (lower : String → String) (contents : Contents) (allowed : Bool) (subtask : Subtask)

/-- A failed result that is completed has had its validated files written, all of them declared; a result that
ends as failed has left the run checkout as it was. -/
structure OnlyValidated (worktree : Option (Checkout Content)) (result : WorkerResult) (t : Files Content) : Prop where
  accepted : let out := (onResult lower contents allowed subtask worktree result t).1
    result.returncode ≠ 0 → out.returncode = 0 →
      (∀ p, p ∈ writtenPaths out ↔ p ∈ validatedPaths result) ∧ ∀ p ∈ writtenPaths out, p ∈ declaredPaths subtask
  failed : let out := onResult lower contents allowed subtask worktree result t
    out.1.returncode ≠ 0 → out.2 = t

/-- The result has passed the checks of one of the branches. -/
def isReviewable (result : WorkerResult) : Bool :=
  if failedResultHasReviewableSourceAndTestDiff lower subtask result then (contents.rejection (listedFiles result)).isNone
  else failedResultHasReviewableProductionDiff lower contents subtask result

/-- The paths of git's report, as the code reads it. -/
def reported (g : Checkout Content) : List Path := (listWorktreeChanges (lines g)).filterMap (reportedPath g.files)

/-- If every reported change can be done, the reported paths are the validated ones and declared; if one cannot,
those before it come to nothing. -/
structure Covered (g : Checkout Content) (result : WorkerResult) (t : Files Content) : Prop where
  whole : ∀ named u, applyChanges g.files (listWorktreeChanges (lines g)) t = .ok named u → reported g ≠ [] →
    (∀ p, p ∈ reported g ↔ p ∈ validatedPaths result) ∧ ∀ p ∈ reported g, p ∈ declaredPaths subtask
  stopped : ∀ front change back named u, listWorktreeChanges (lines g) = front ++ change :: back →
    applyChanges g.files front t = .ok named u → applyChange g.files change u = .error () u → u = t

end

/-! ## The sync, change by change -/

section
variable {source : Files Content} {change : Change} {t u : Files Content}

theorem strip_replace (s : String) : strip (replaceChar '\\' '/' s) = replaceChar '\\' '/' (strip s) := by
  have hspace : isSpace ∘ (fun c => if c = '\\' then '/' else c) = isSpace := by
    funext c
    by_cases hc : c = '\\'
    · subst hc
      decide
    · rw [Function.comp_apply, if_neg hc]
  simp only [strip, stripBy, replaceChar, String.toList_ofList, List.dropWhile_map, ← List.map_reverse, hspace]

theorem last_strip (s : String) : ∀ c ∈ (strip s).toList.getLast?, isSpace c = false := by
  intro c hc
  rw [strip, stripBy, String.toList_ofList, List.getLast?_reverse] at hc
  have hnot := List.head?_dropWhile_not isSpace (s.toList.dropWhile isSpace).reverse
  rw [hc] at hnot
  simpa using hnot

/-- A safe path ends in no blank, so it is no blank text. -/
theorem safeStatusRelPath_nonblank {path rel : String} (h : safeStatusRelPath path = some rel) : strip rel ≠ "" := by
  rw [safeStatusRelPath] at h
  split at h
  · cases h
  · rename_i hsafe
    obtain rfl := Option.some.inj h
    intro hblank
    have hall := of_stripBy_eq_empty hblank
    rw [String.toList_ofList] at hall
    have hne : dropDotSlash (replaceChar '\\' '/' (strip path)).toList ≠ [] := by
      intro he
      simp [he] at hsafe
    obtain ⟨front, c, hc⟩ := (List.eq_nil_or_concat' _).resolve_left hne
    have hlast : c ∈ (replaceChar '\\' '/' (strip path)).toList.getLast? := by
      obtain ⟨more, hmore⟩ := dropDotSlash_suffix (replaceChar '\\' '/' (strip path)).toList
      rw [← hmore, hc, ← List.append_assoc, List.getLast?_concat]
      rfl
    rw [← strip_replace] at hlast
    have hspace := hall c (by rw [hc]; simp)
    rw [last_strip _ c hlast] at hspace
    cases hspace

/-- A change that is done is one that git reports, and is named. -/
theorem applyChange_ok {named : Option String} (h : applyChange source change t = .ok named u) :
    named.map pathParts = reportedPath source change ∧ (named = none → u = t) ∧ ∀ rel ∈ named, strip rel ≠ "" := by
  unfold applyChange at h
  rw [reportedPath]
  cases hsafe : safeStatusRelPath change.path with
  | none =>
    simp only [hsafe] at h
    cases h
  | some rel =>
    have hblank := safeStatusRelPath_nonblank hsafe
    simp only [hsafe] at h
    rw [Option.bind_some]
    by_cases hd : 'D' ∈ change.status
    · rw [if_pos hd] at h
      obtain ⟨a, v, -, hpure⟩ := Effects.bind_eq_ok.mp h
      obtain ⟨rfl, -⟩ := Effects.pure_eq_ok.mp hpure
      rw [if_pos (.inl hd)]
      exact ⟨rfl, nofun, fun x hx => by cases hx; exact hblank⟩
    · rw [if_neg hd] at h
      cases hfile : source.fileAt (pathParts rel) with
      | none =>
        simp only [hfile] at h
        obtain ⟨rfl, rfl⟩ := Effects.pure_eq_ok.mp h
        rw [if_neg (by simp [hd])]
        exact ⟨rfl, fun _ => rfl, nofun⟩
      | some c =>
        simp only [hfile] at h
        obtain ⟨a, v, -, hpure⟩ := Effects.bind_eq_ok.mp h
        obtain ⟨rfl, -⟩ := Effects.pure_eq_ok.mp hpure
        rw [if_pos (.inr (by simp))]
        exact ⟨rfl, nofun, fun x hx => by cases hx; exact hblank⟩

theorem attempt_error {command : Files Content → Option (Files Content)} (h : attempt command t = .error () u) : u = t := by
  rw [attempt] at h
  split at h
  · cases h
  · cases h
    rfl

/-- A change that raises has done nothing. -/
theorem applyChange_error (h : applyChange source change t = .error () u) : u = t := by
  have hbind : ∀ (command : Files Content → Option (Files Content)) (rel : String),
      (attempt command >>= fun _ => pure (some rel)) t = .error () u → u = t := by
    intro command rel hrun
    cases hcommand : attempt command t with
    | ok a v =>
      rw [Effects.run_bind_ok hcommand] at hrun
      cases hrun
    | error e v =>
      rw [Effects.run_bind_error hcommand] at hrun
      cases hrun
      exact attempt_error hcommand
  unfold applyChange at h
  cases hsafe : safeStatusRelPath change.path with
  | none =>
    simp only [hsafe] at h
    cases h
    rfl
  | some rel =>
    simp only [hsafe] at h
    by_cases hd : 'D' ∈ change.status
    · rw [if_pos hd] at h
      exact hbind _ rel h
    · rw [if_neg hd] at h
      cases hfile : source.fileAt (pathParts rel) with
      | none =>
        simp only [hfile] at h
        cases h
      | some c =>
        simp only [hfile] at h
        exact hbind _ rel h

theorem applyChanges_cons_ok {changes : List Change} {named : List String} (h : applyChanges source (change :: changes) t = .ok named u) :
    ∃ one more v, applyChange source change t = .ok one v ∧ applyChanges source changes v = .ok more u ∧
      named = one.toList ++ more := by
  obtain ⟨one, v, hone, hrest⟩ := Effects.bind_eq_ok.mp h
  obtain ⟨more, w, hmore, hpure⟩ := Effects.bind_eq_ok.mp hrest
  obtain ⟨rfl, rfl⟩ := Effects.pure_eq_ok.mp hpure
  exact ⟨one, more, v, hone, hmore, rfl⟩

/-- A sync that returns names the reported paths. -/
theorem applyChanges_ok {changes : List Change} {named : List String} (h : applyChanges source changes t = .ok named u) :
    named.map pathParts = changes.filterMap (reportedPath source) ∧ (∀ rel ∈ named, strip rel ≠ "") ∧ (named = [] → u = t) := by
  induction changes generalizing t named with
  | nil =>
    obtain ⟨rfl, rfl⟩ := Effects.pure_eq_ok.mp h
    exact ⟨rfl, nofun, fun _ => rfl⟩
  | cons change changes ih =>
    obtain ⟨one, more, v, hone, hmore, rfl⟩ := applyChanges_cons_ok h
    obtain ⟨hpath, hsame, hblank⟩ := applyChange_ok hone
    obtain ⟨hpaths, hblanks, hsames⟩ := ih hmore
    refine ⟨?_, ?_, ?_⟩
    · rw [List.map_append, hpaths, ← Option.toList_map, hpath, List.filterMap_cons]
      cases reportedPath source change <;> rfl
    · intro rel hrel
      rcases List.mem_append.mp hrel with hrel | hrel
      · exact hblank rel (Option.mem_toList.mp hrel)
      · exact hblanks rel hrel
    · intro hnil
      obtain ⟨hnone, hempty⟩ := List.append_eq_nil_iff.mp hnil
      rw [hsames hempty]
      exact hsame (Option.toList_eq_nil_iff.mp hnone)

/-- A sync that raises has done the changes before one that cannot be done. -/
theorem applyChanges_error {changes : List Change} (h : applyChanges source changes t = .error () u) :
    ∃ front change back named, changes = front ++ change :: back ∧ applyChanges source front t = .ok named u ∧
      applyChange source change u = .error () u := by
  induction changes generalizing t with
  | nil => cases h
  | cons change changes ih =>
    cases hone : applyChange source change t with
    | error e v =>
      rw [applyChanges, Effects.run_bind_error hone] at h
      cases h
      obtain rfl := applyChange_error hone
      exact ⟨[], change, changes, [], rfl, rfl, hone⟩
    | ok one v =>
      rw [applyChanges, Effects.run_bind_ok hone] at h
      cases hrest : applyChanges source changes v with
      | ok more w =>
        rw [Effects.run_bind_ok hrest] at h
        cases h
      | error e w =>
        rw [Effects.run_bind_error hrest] at h
        cases h
        obtain ⟨front, other, back, named, rfl, hfront, hother⟩ := ih hrest
        refine ⟨change :: front, other, back, one.toList ++ named, rfl, ?_, hother⟩
        rw [applyChanges, Effects.run_bind_ok hone, Effects.run_bind_ok hfront]
        rfl

theorem applyChanges_stopped {front : List Change} (back : List Change) {named : List String}
    (hfront : applyChanges source front t = .ok named u)
    (hchange : applyChange source change u = .error () u) : applyChanges source (front ++ change :: back) t = .error () u := by
  induction front generalizing t named with
  | nil =>
    obtain ⟨-, rfl⟩ := Effects.pure_eq_ok.mp hfront
    exact Effects.run_bind_error hchange
  | cons first front ih =>
    obtain ⟨one, more, v, hone, hmore, -⟩ := applyChanges_cons_ok hfront
    rw [List.cons_append, applyChanges, Effects.run_bind_ok hone]
    exact Effects.run_bind_error (ih hmore)

end
/-! ## The primary source target -/

section
variable {lower : String → String} {subtask : Subtask}

theorem replaceChar_idem (s : String) : replaceChar '\\' '/' (replaceChar '\\' '/' s) = replaceChar '\\' '/' s := by
  simp only [replaceChar, String.toList_ofList, List.map_map]
  congr 2
  funext c
  by_cases hc : c = '\\'
  · subst hc
    rfl
  · simp [hc]

theorem normalizeRepoPath_replace (s : String) : normalizeRepoPath (replaceChar '\\' '/' s) = normalizeRepoPath s := by
  simp only [normalizeRepoPath, slashed, strip_replace, replaceChar_idem]

theorem satisfies_mono {changedFiles more : List String}
    (h : changedFilesSatisfyPrimarySourceTarget lower changedFiles subtask = true)
    (hmore : ∀ path ∈ changedFiles, normalizeRepoPath path ∈ more.map normalizeRepoPath) :
    changedFilesSatisfyPrimarySourceTarget lower more subtask = true := by
  rw [changedFilesSatisfyPrimarySourceTarget, Bool.or_eq_true, List.any_eq_true] at h ⊢
  refine h.imp_right ?_
  rintro ⟨source, hsource, hmem⟩
  obtain ⟨hin, hne⟩ := List.mem_filter.mp (of_decide_eq_true hmem)
  obtain ⟨path, hpath, rfl⟩ := List.mem_map.mp hin
  exact ⟨_, hsource, decide_eq_true (List.mem_filter.mpr ⟨hmore path hpath, hne⟩)⟩

theorem mem_listedFiles {result : WorkerResult} {path : String} :
    path ∈ listedFiles result ↔ (∃ listed ∈ result.changedFiles, strip listed = path) ∧ path ≠ "" := by
  rw [listedFiles, List.mem_filter, List.mem_map, decide_eq_true_eq]

theorem strip_listed {result : WorkerResult} {path : String} (h : path ∈ listedFiles result) : strip path = path := by
  obtain ⟨⟨listed, -, rfl⟩, -⟩ := mem_listedFiles.mp h
  exact strip_idem listed

theorem listed_completed {result : WorkerResult} {path : String} (synced : List String) (h : path ∈ listedFiles result) :
    path ∈ listedFiles (completed result (listedFiles result ++ synced).eraseDups synced) :=
  mem_listedFiles.mpr ⟨⟨path, List.mem_eraseDups.mpr (List.mem_append_left _ h), strip_listed h⟩, (mem_listedFiles.mp h).2⟩

variable {contents : Contents} {result : WorkerResult}

theorem returncode_of_reviewable (h : isReviewable lower contents subtask result = true) : result.returncode ≠ 0 := by
  rw [isReviewable] at h
  split at h
  · rename_i hsource
    simp only [failedResultHasReviewableSourceAndTestDiff, Bool.and_eq_true, decide_eq_true_eq] at hsource
    exact hsource.1.1.1
  · simp only [failedResultHasReviewableProductionDiff, Bool.and_eq_true, decide_eq_true_eq] at h
    exact h.1.1.1.1.1.1.1

/-- Both branches have seen the primary source among the listed files. -/
theorem satisfies_of_reviewable (h : isReviewable lower contents subtask result = true) :
    changedFilesSatisfyPrimarySourceTarget lower (listedFiles result) subtask = true := by
  rw [isReviewable] at h
  split at h
  · rename_i hsource
    simp only [failedResultHasReviewableSourceAndTestDiff, subtaskHasVerifiableSourceAndTestDiff, Bool.and_eq_true] at hsource
    exact hsource.2.1.2
  · simp only [failedResultHasReviewableProductionDiff, Bool.and_eq_true] at h
    apply satisfies_mono h.1.2
    intro path hpath
    obtain ⟨listed, hlisted, rfl⟩ := List.mem_map.mp hpath
    rw [normalizeRepoPath_replace]
    exact List.mem_map_of_mem hlisted

theorem checkPrimarySource_failed (h : result.returncode ≠ 0) : checkPrimarySource lower subtask result = result :=
  if_neg fun hc => h hc.1

/-- A result that was taken over is not turned back. -/
theorem checkPrimarySource_completed (h : isReviewable lower contents subtask result = true) (synced : List String) :
    checkPrimarySource lower subtask (completed result (listedFiles result ++ synced).eraseDups synced) =
      completed result (listedFiles result ++ synced).eraseDups synced := by
  apply if_neg
  rintro ⟨-, hmissing⟩
  apply hmissing
  apply satisfies_mono (satisfies_of_reviewable h)
  intro path hpath
  rw [← normalizeRepoPath_replace path]
  exact List.mem_map_of_mem (List.mem_map_of_mem (listed_completed synced hpath))

end

/-! ## When it is only validated work -/

section
variable [DecidableEq Content] {lower : String → String} {contents : Contents} {allowed : Bool} {subtask : Subtask}
  {worktree : Option (Checkout Content)} {g : Checkout Content} {result : WorkerResult} {t u : Files Content}

theorem reviewFailed_reviewable (h : isReviewable lower contents subtask result = true) :
    reviewFailed lower contents allowed subtask g result t = takeOver allowed g result t := by
  rw [isReviewable] at h
  rw [reviewFailed]
  by_cases hsource : failedResultHasReviewableSourceAndTestDiff lower subtask result = true
  · rw [if_pos hsource] at h ⊢
    rw [Option.isNone_iff_eq_none.mp h]
  · rw [if_neg hsource] at h ⊢
    rw [if_pos h]

/-- A result that passes no check is kept or rejected, and nothing is synced. -/
theorem reviewFailed_other (allowed : Bool) (g : Checkout Content) (t : Files Content)
    (h : isReviewable lower contents subtask result = false) :
    ∃ kept, reviewFailed lower contents allowed subtask g result t = (kept, t) ∧ kept.returncode = result.returncode := by
  rw [isReviewable] at h
  rw [reviewFailed]
  by_cases hsource : failedResultHasReviewableSourceAndTestDiff lower subtask result = true
  · rw [if_pos hsource] at h ⊢
    cases hreason : contents.rejection (listedFiles result) with
    | none =>
      rw [hreason] at h
      cases h
    | some reason => exact ⟨_, rfl, rfl⟩
  · rw [if_neg hsource] at h ⊢
    rw [if_neg (by simp [h])]
    exact ⟨_, rfl, rfl⟩

/-- Where nothing is done to the run checkout and the result is not completed, there is nothing to validate. -/
theorem onlyValidated_idle (kept : WorkerResult) (hcode : kept.returncode = result.returncode)
    (h : onResult lower contents allowed subtask worktree result t = (checkPrimarySource lower subtask kept, t)) :
    OnlyValidated lower contents allowed subtask worktree result t where
  accepted := by
    intro out hfailed hdone
    have hkept : kept.returncode ≠ 0 := by rwa [hcode]
    simp only [out, h, checkPrimarySource_failed hkept] at hdone
    exact absurd hdone hkept
  failed := by
    intro out _
    simp only [out, h]

theorem onResult_takeOver (h : isReviewable lower contents subtask result = true) :
    onResult lower contents allowed subtask (some g) result t =
      (checkPrimarySource lower subtask (takeOver allowed g result t).1, (takeOver allowed g result t).2) := by
  simp only [onResult, reviewFailed_reviewable h]

theorem takeOver_forbidden : takeOver false g result t = (result, t) := rfl

theorem takeOver_error (h : applyChanges g.files (listWorktreeChanges (lines g)) t = .error () u) :
    takeOver true g result t = (result, u) := by
  have hsync : syncWorktreeChanges true g t = .error () u := h
  simp only [takeOver, syncVerifiableWorkerDiff, hsync]

theorem filter_nonblank {named : List String} (h : ∀ rel ∈ named, strip rel ≠ "") :
    (named.filter fun path => decide (strip path ≠ "")) = named :=
  List.filter_eq_self.mpr fun rel hrel => decide_eq_true (h rel hrel)

theorem takeOver_idle (h : applyChanges g.files (listWorktreeChanges (lines g)) t = .ok [] u) :
    takeOver true g result t = (result, u) := by
  have hsync : syncWorktreeChanges true g t = .ok [] u := h
  simp only [takeOver, syncVerifiableWorkerDiff, hsync, List.filter_nil, List.isEmpty_nil, if_true]

theorem takeOver_done {named : List String} (h : applyChanges g.files (listWorktreeChanges (lines g)) t = .ok named u)
    (hne : named ≠ []) :
    takeOver true g result t = (completed result (listedFiles result ++ named).eraseDups named, u) := by
  have hsync : syncWorktreeChanges true g t = .ok named u := h
  have hempty : named.isEmpty = false := by simpa using hne
  simp only [takeOver, syncVerifiableWorkerDiff, hsync, filter_nonblank (applyChanges_ok h).2.1, hempty, Bool.false_eq_true,
    if_false]

/-- A sync that raises is harmless where it has come to nothing. -/
theorem onlyValidated_error (h : isReviewable lower contents subtask result = true)
    (herror : applyChanges g.files (listWorktreeChanges (lines g)) t = .error () u) :
    OnlyValidated lower contents true subtask (some g) result t ↔ Covered subtask g result t := by
  have hcode := returncode_of_reviewable h
  have hout : onResult lower contents true subtask (some g) result t = (result, u) := by
    rw [onResult_takeOver h, takeOver_error herror, checkPrimarySource_failed hcode]
  constructor
  · intro honly
    have hsame : u = t := by
      have hfailed := honly.failed
      simp only [hout] at hfailed
      exact hfailed hcode
    constructor
    · intro named v hdone
      rw [herror] at hdone
      cases hdone
    · intro front change back named v hsplit hfront hchange
      have hstop := applyChanges_stopped back hfront hchange
      rw [← hsplit, herror] at hstop
      cases hstop
      exact hsame
  · intro hcovered
    obtain ⟨front, change, back, named, hsplit, hfront, hchange⟩ := applyChanges_error herror
    obtain rfl := hcovered.stopped front change back named u hsplit hfront hchange
    apply onlyValidated_idle result rfl
    rw [hout, checkPrimarySource_failed hcode]

theorem writtenPaths_completed {named merged : List String}
    (h : applyChanges g.files (listWorktreeChanges (lines g)) t = .ok named u) :
    writtenPaths (completed result merged named) = reported g := (applyChanges_ok h).1

/-- A sync that returns writes what git reports. -/
theorem onlyValidated_ok {named : List String} (h : isReviewable lower contents subtask result = true)
    (hdone : applyChanges g.files (listWorktreeChanges (lines g)) t = .ok named u) :
    OnlyValidated lower contents true subtask (some g) result t ↔ Covered subtask g result t := by
  have hcode := returncode_of_reviewable h
  have hpaths : named.map pathParts = reported g := (applyChanges_ok hdone).1
  have hstopped : ∀ front change back (others : List String) v, listWorktreeChanges (lines g) = front ++ change :: back →
      applyChanges g.files front t = .ok others v → applyChange g.files change v = .error () v → v = t := by
    intro front change back others v hsplit hfront hchange
    have hstop := applyChanges_stopped back hfront hchange
    rw [← hsplit, hdone] at hstop
    cases hstop
  by_cases hnil : named = []
  · subst hnil
    obtain rfl := (applyChanges_ok hdone).2.2 rfl
    refine iff_of_true ?_ ⟨fun others v hothers hne => absurd hpaths.symm hne, hstopped⟩
    apply onlyValidated_idle result rfl
    rw [onResult_takeOver h, takeOver_idle hdone]
  · have hout : onResult lower contents true subtask (some g) result t =
        (completed result (listedFiles result ++ named).eraseDups named, u) := by
      rw [onResult_takeOver h, takeOver_done hdone hnil, checkPrimarySource_completed h]
    constructor
    · intro honly
      have haccepted := honly.accepted
      simp only [hout, writtenPaths_completed hdone] at haccepted
      exact ⟨fun others v _ _ => haccepted hcode rfl, hstopped⟩
    · intro hcovered
      have hne : reported g ≠ [] := by
        rw [← hpaths]
        simpa using hnil
      constructor
      · intro out _ _
        simp only [out, hout, writtenPaths_completed hdone]
        exact hcovered.whole named u hdone hne
      · intro out hfailed
        simp only [out, hout] at hfailed
        exact absurd rfl hfailed

end

/-! ## A file that nobody has validated -/

def libSubtask : Subtask where
  files := ["lib.py"]
  targetFiles := ["lib.py"]
  texts := ["Fix the parser"]

/-- The worker has run into its time limit. -/
def timedOut : WorkerResult where
  status := "failed"
  returncode := 124
  failureReason := "WORKER_TIMEOUT"
  blockerKind := ""
  verificationReturncode := none
  verificationTimedOut := false
  patch := "worker.partial.diff"
  changedFiles := ["lib.py"]
  syncedFiles := []

/-- The file of the subtask was edited; another one was in the worktree before the worker started. -/
def inheritedCheckout : Checkout Nat where
  head := fun p => if p = ["lib.py"] then some 1 else none
  index := fun p => if p = ["lib.py"] then some 1 else none
  files := flat fun name => if name = "lib.py" then some 2 else if name = "other.py" then some 3 else none
  ignored := fun _ => false
  renamedFrom := fun _ => none
  tracked := [["lib.py"]]
  others := [["other.py"]]
  tracked_iff := by
    intro p
    by_cases hp : p = ["lib.py"] <;> simp [hp]
  others_iff := by
    intro p
    rw [fileAt_flat]
    by_cases hlib : p = ["lib.py"]
    · simp [hlib]
    · by_cases hother : p = ["other.py"]
      · simp [hother]
      · simp only [List.mem_singleton, hother, hlib, if_false, true_and, ne_eq, false_iff, not_not]
        split
        · rename_i name
          have hnames : name ≠ "lib.py" ∧ name ≠ "other.py" :=
            ⟨fun he => hlib (by rw [he]), fun he => hother (by rw [he])⟩
          rw [if_neg hnames.1, if_neg hnames.2]
        · rfl
  sorted := List.pairwise_singleton _ _
  named := by decide
  renamed := nofun

end FailedResults
