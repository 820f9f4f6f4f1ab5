import TandemAgents.PrSupervision

/-!
# One refresh of a pull request

The supervisor reads the request again, persists what it found, and then updates the
branch, starts a repair pass or merges.
-/
namespace PrRefresh

open PythonText JsonData PullRequests Effects IssueSpend RepairBreaker PrSupervision

set_option maxRecDepth 20000

/-- The normalized request as a dictionary. -/
def toDict (pr : PullRequest) : Dict :=
  [("url", .str pr.url), ("number", pr.number.elim .null .int), ("head_branch", .str pr.headBranch),
    ("base_branch", .str pr.baseBranch), ("base_repo", .str pr.baseRepo), ("state", .str pr.state),
    ("draft", .bool pr.draft), ("merged", .bool pr.merged), ("review_state", .str pr.reviewState),
    ("checks_state", .str pr.checksState), ("mergeable_state", .str pr.mergeableState.text),
    ("lifecycle_state", .str pr.lifecycleState.text), ("terminal", .bool pr.terminal)]

/-- `number in (None, "")`. -/
def isMissing : Json → Bool
  | .null => true
  | .str s => decide (s = "")
  | _ => false

/-- What `refresh_pull_request_lifecycle` returns. -/
inductive Refreshed where
  | missing (lifecycle : Dict)
  | read (pr : PullRequest)

/-- What the update of a branch meets. -/
structure Rebase where
  call : Moment := {}
  answer : Dict := []
  completedAtMs : Int := 0
  persist : PersistMoments := {}
  event : Moment := {}

/-- What a merge meets. -/
structure Merge where
  merge : Moment := {}
  mergeResult : Dict := []
  delete : Moment := {}
  deleteResult : Dict := []
  completedAtMs : Int := 0
  persist : PersistMoments := {}
  event : Moment := {}
  checkedAtMs : Int := 0
  merged : PersistMoments := {}
  enqueue : Moment := {}

/-- What one refresh meets: the answer of GitHub, the clock, and its calls. -/
structure Refresh where
  fetch : Moment := {}
  payload : Dict := []
  checkedAtMs : Int := 0
  persist : PersistMoments := {}
  rebase : Rebase := {}
  pass : RepairPass := {}
  merge : Merge := {}
  event : Moment := {}

section
variable (n : Numbers) (cfg : Config)

/-- `str(pull_request.get("base_repo") or cfg.repository.slug or "").strip()`. -/
def baseRepoOf (pullRequest : Dict) : String :=
  strip (n.text ((pullRequest.get "base_repo").or (.str cfg.review.repositorySlug)))

/-- The base repository or the number is missing. -/
def lacksIdentity (pullRequest : Dict) : Bool :=
  decide (baseRepoOf n cfg pullRequest = "" ∨ '/' ∉ (baseRepoOf n cfg pullRequest).toList) ||
    isMissing (pullRequest.get "number")

/-- `refresh_pull_request_lifecycle`. -/
def refreshPullRequestLifecycle (fetch : Moment) (payload : Dict) (pullRequest : Dict) : Except Stop Refreshed :=
  if lacksIdentity n cfg pullRequest then
    .ok (.missing (update pullRequest [("lifecycle_state", .str "blocked"), ("terminal", .bool true),
      ("error", .str "Missing PR base repo or number.")]))
  else
    match n.int (pullRequest.get "number") with
    | none => .error (.raised ⟨n.intError (pullRequest.get "number"), "ValueError()"⟩)
    | some _ =>
      match fetch.fault with
      | some fault => .error fault.stop
      | none => .ok (.read (normalizePullRequestMetadata n.toRuntime payload (n.text (pullRequest.get "head_branch"))
          (baseRepoOf n cfg pullRequest) (n.text (pullRequest.get "base_branch"))))

/-- `update_pull_request_branch`. -/
def updatePullRequestBranch (t : Rebase) (pullRequest : Dict) : Act Dict := do
  if lacksIdentity n cfg pullRequest then
    return [("updated", .bool false), ("error", .str "Missing base repo or PR number.")]
  else
    call t.call
    return t.answer

/-- `_update_pr_branch_for_run`. -/
def updatePrBranchForRun (t : Rebase) (pullRequest : Dict) : Act Dict := do
  let answer ← catchExc (updatePullRequestBranch n cfg t pullRequest)
    (fun e => pure [("updated", .bool false), ("error", .str e.message)])
  let result := Dict.set answer "completed_at_ms" (.int t.completedAtMs)
  persist t.persist (entryAssignments "pull_request_rebase" result)
  call t.event
  return result

/-! ## Merging -/

def pendingAction : PendingApproval → String
  | .merge => "merge_pull_request"
  | .branchDelete => "delete_remote_branch"

def pendingDicts (pending : List PendingApproval) : Json :=
  .arr (pending.map fun p => .obj [("action", .str (pendingAction p)), ("key", .str p.key), ("reason", .str p.reason)])

/-- The record `guarded_auto_merge` returns; `branch_deleted` is read off the deletion. -/
def mergeRecord (status : String) (merged : Bool) (deleteResult : Dict) (more : Dict) : Dict :=
  [("status", .str status), ("merged", .bool merged), ("branch_deleted", .bool (deleteResult.get "deleted").truthy),
    ("strategy", .str (mergeStrategy n.toRuntime cfg.review))] ++ more

/-- What becomes of the branch behind a merge: the approvals still asked for, and the record
of the deletion. -/
def branchDeletion (t : Merge) (branch : BranchDelete) : Act (List PendingApproval × Dict) :=
  match branch with
  | .pending => pure ([.branchDelete], [("deleted", .bool false), ("skipped", .bool true),
      ("pending_approvals", pendingDicts [.branchDelete]),
      ("reason", .str "branch_delete_requires_approval is enabled and approval was not granted")])
  | .requested => do
    call t.delete
    return ([], t.deleteResult)
  | .disabled => pure ([], [("deleted", .bool false), ("skipped", .bool true),
      ("reason", .str "delete_branch_after_merge is disabled")])

/-- `guarded_auto_merge`. -/
def guardedMerge (t : Merge) (pr : PullRequest) (pullRequest approvals : Dict) : Act Dict :=
  match guardedAutoMerge n.toRuntime cfg.review pr (some approvals) with
  | none => throw (.raised typeError)
  | some (.denied denials) => pure (mergeRecord n cfg "denied" false []
      [("denials", .arr (denials.map fun d => .str d.text)), ("pending_approvals", .arr []),
        ("pull_request", .obj pullRequest)])
  | some (.pendingApproval pending) => pure (mergeRecord n cfg "pending_approval" false []
      [("denials", .arr []), ("pending_approvals", pendingDicts pending), ("pull_request", .obj pullRequest)])
  | some (.merge _ branch) => do
    call t.merge
    let (pending, deleteResult) ← branchDeletion t branch
    return mergeRecord n cfg "merged" true deleteResult [("pending_approvals", pendingDicts pending),
      ("pull_request", .obj pullRequest), ("merge_result", .obj t.mergeResult), ("delete_result", .obj deleteResult)]

/-- The record of a merge that raised. -/
def blockedMerge (pullRequest : Dict) (e : Exc) : Dict :=
  [("status", .str "blocked"), ("merged", .bool false), ("branch_deleted", .bool false),
    ("strategy", .str (n.lower (strip cfg.review.autoMergeStrategy))), ("pull_request", .obj pullRequest),
    ("error", .str e.message)]

/-- `blackboard["finalization_approvals"]`, else that of the status, else nothing. -/
def approvalsOf (w : World) : Dict :=
  ((w.blackboard.get "finalization_approvals").asDict.orElse fun _ =>
    (w.status.get "finalization_approvals").asDict).getD []

/-- `{**pull_request, "lifecycle_state": "merged", ...}`. -/
def mergedPr (t : Merge) (pullRequest merge : Dict) : Dict :=
  update pullRequest [("lifecycle_state", .str "merged"), ("terminal", .bool true), ("merged", .bool true),
    ("merge_strategy", merge.get "strategy"), ("branch_deleted", merge.get "branch_deleted"),
    ("last_checked_at_ms", .int t.checkedAtMs)]

/-- What follows the record of a merge: only a merge that was made changes the lifecycle. -/
def closeMerge (t : Merge) (pullRequest merge : Dict) : Act Unit :=
  if (merge.get "merged").truthy then do
    persistPullRequestLifecycle n t.merged (mergedPr t pullRequest merge)
    call t.enqueue
  else pure ()

/-- What `_maybe_auto_merge_pr` does with the record of a merge. -/
def recordMerge (t : Merge) (pullRequest merge : Dict) : Act (Option Dict) := do
  persist t.persist (entryAssignments "pull_request_merge" merge)
  call t.event
  closeMerge n t pullRequest merge
  return some merge

/-- `_maybe_auto_merge_pr`. -/
def maybeAutoMergePr (t : Merge) (pr : PullRequest) (pullRequest : Dict) : Act (Option Dict) := do
  if n.lower (strip cfg.review.policy) ≠ "auto_merge" then
    return none
  else
    let approvals := approvalsOf (← get)
    let answer ← catchExc (guardedMerge n cfg t pr pullRequest approvals)
      (fun e => pure (blockedMerge n cfg pullRequest e))
    recordMerge n t pullRequest (Dict.set answer "completed_at_ms" (.int t.completedAtMs))

/-! ## The refresh -/

/-- `dict(blackboard.get("pull_request_lifecycle") or status_payload.get(...) or {})`. -/
def existingLifecycle (w : World) : Option Dict :=
  (((w.blackboard.get lifecycleKey).or (w.status.get lifecycleKey)).or (.obj [])).asDict

/-- The states a failed refresh leaves as they are. -/
def keptStates : List String :=
  ["running", "waiting-for-review", "needs-repair", "needs-rebase", "conflicted", "ready-to-merge"]

/-- `{**existing, "lifecycle_state": retryable_state, ...}`. -/
def failedLifecycle (t : Refresh) (existing : Dict) (e : Exc) : Dict :=
  let existingState := lifecycleState n existing
  update existing [
    ("lifecycle_state", .str (if existingState ∈ keptStates then existingState else "waiting-for-review")),
    ("terminal", .bool false), ("error", .str e.message), ("last_checked_at_ms", .int t.checkedAtMs)]

/-- The refreshed request with the time of the check. -/
def Refreshed.toDict (t : Refresh) : Refreshed → Dict
  | .missing lifecycle => lifecycle.set "last_checked_at_ms" (.int t.checkedAtMs)
  | .read pr => (PrRefresh.toDict pr).set "last_checked_at_ms" (.int t.checkedAtMs)

/-- The entry of an optional record. -/
def optional (key : String) : Option Dict → Dict
  | some d => [(key, .obj d)]
  | none => []

/-- What a refresh starts behind the state it read. -/
def followUp (runId : String) (t : Refresh) (pr : PullRequest) (pullRequest : Dict) : Act Dict := do
  match pr.lifecycleState with
  | .needsRebase =>
    let rebase ← updatePrBranchForRun n cfg t.rebase pullRequest
    return [("rebase", .obj rebase)]
  | .needsRepair | .conflicted =>
    let repair ← startPrRepairPass n cfg runId t.pass pullRequest
    return [("repair", .obj repair)]
  | .readyToMerge =>
    let merge ← maybeAutoMergePr n cfg t.merge pr pullRequest
    return optional "merge" merge
  | _ => return []

/-- The result of a refresh, by what stands on the blackboard in the end. -/
def refreshResult (runId : String) (t : Refresh) (pullRequest started : Dict) : Act Dict := do
  call t.event
  let current ← orRaise typeError ((existingLifecycle (← get)).map fun d => if d = [] then pullRequest else d)
  return [("run_id", .str runId),
    ("status", ((current.get "lifecycle_state").or (pullRequest.get "lifecycle_state")).or (.str "unknown")),
    ("terminal", .bool (current.get "terminal").truthy), ("pull_request", .obj current)] ++ started

/-- A refresh that could not read the request. -/
def refreshFailed (runId : String) (t : Refresh) (existing : Dict) (e : Exc) : Act Dict := do
  let failed := failedLifecycle n t existing e
  persistPullRequestLifecycle n t.persist failed
  call t.event
  return [("run_id", .str runId), ("status", failed.get "lifecycle_state"), ("terminal", .bool false),
    ("pull_request", .obj failed), ("error", .str e.message)]

/-- A refresh that read the request. -/
def refreshRead (runId : String) (t : Refresh) (refreshed : Refreshed) : Act Dict := do
  let pullRequest := refreshed.toDict t
  persistPullRequestLifecycle n t.persist pullRequest
  match refreshed with
  | .missing _ => refreshResult runId t pullRequest []
  | .read pr =>
    let started ← followUp n cfg runId t pr pullRequest
    refreshResult runId t pullRequest started

/-- The refresh of a lifecycle; an empty one is skipped. -/
def refreshExisting (runId : String) (t : Refresh) (existing : Dict) : Act Dict :=
  if existing = [] then
    pure [("run_id", .str runId), ("status", .str "skipped"), ("reason", .str "missing_pull_request_lifecycle")]
  else
    match refreshPullRequestLifecycle n cfg t.fetch t.payload existing with
    | .error .crash => throw .crash
    | .error (.raised e) => refreshFailed n runId t existing e
    | .ok refreshed => refreshRead n cfg runId t refreshed

/-- `_refresh_pr_lifecycle_for_run`. -/
def refreshPrLifecycleForRun (runId : String) (t : Refresh) : Act Dict := do
  let existing ← orRaise typeError (existingLifecycle (← get))
  refreshExisting n cfg runId t existing

end
end PrRefresh
