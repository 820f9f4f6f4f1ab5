import TandemAgents.JsonData

/-!
# Pull requests as the program reads them

A raw pull request comes from the MCP server, the GraphQL interface or the `gh` tool, and
its checks, reviews and mergeability stand under different keys. The program reduces them
to one lifecycle state.
-/
namespace PullRequests

open PythonText JsonData

set_option maxRecDepth 20000

/-- What reading pull requests takes from the language besides: the decimal digits of
`\d`, and `int(value)`, which can fail. -/
structure Runtime extends Python where
  isDigit : Char → Bool
  int : Json → Option Int

section
variable (py : Runtime)

/-- `re.sub(r"[^a-z0-9]+", "_", text)`: the flag says that the previous character belonged
to a run already replaced. -/
def underscoreRuns : Bool → List Char → List Char
  | _, [] => []
  | inRun, c :: cs =>
    if isAsciiAlnum c ∧ asciiLower c = c then c :: underscoreRuns false cs
    else if inRun then underscoreRuns true cs
    else '_' :: underscoreRuns true cs

/-- `normalize_status_key`. -/
def normalizeStatusKey (value : String) : String :=
  stripBy (· = '_') (String.ofList (underscoreRuns false (py.lower (strip value)).toList))

/-- `normalize_status_key(str(value or ""))`. -/
def statusKey (v : Json) : String := normalizeStatusKey py (py.text v)

/-- The first of the keys that holds a status. -/
def firstStatus (d : Dict) (keys : List String) : String :=
  ((keys.map (fun key => statusKey py (d.get key))).find? (fun value => decide (value ≠ ""))).getD ""

/-- The first of the keys that holds a text which is not blank, stripped. -/
def firstText (d : Dict) (keys : List String) : String :=
  ((keys.filterMap (fun key => (d.get key).asStr.map strip)).find? (fun value => decide (value ≠ ""))).getD ""

/-! ## Where the request comes from -/

/-- `_pull_request_head_ref`. -/
def pullRequestHeadRef (pr : Dict) : String :=
  orElse (firstText ((pr.get "head").asDict.getD []) ["ref", "name", "branch"])
    (firstText pr ["headRefName", "head_ref_name", "head_branch", "ref"])

/-- `_pull_request_url`. -/
def pullRequestUrl (pr : Dict) : String := firstText pr ["html_url", "url", "web_url"]

/-- The digits behind `/pull/`, where no digit follows them. -/
def pullDigits (url : List Char) : Option (List Char) :=
  if "/pull/".toList <+: url then
    let rest := url.drop "/pull/".length
    let digits := rest.takeWhile py.isDigit
    if digits ≠ [] ∧ (rest.dropWhile py.isDigit).all (fun c => !py.isDigit c) then some digits else none
  else none

/-- `re.search(r"/pull/(\d+)(?:\D*$|$)", url)`. -/
def searchPullNumber : List Char → Option (List Char)
  | [] => none
  | c :: cs => (pullDigits py (c :: cs)).orElse fun _ => searchPullNumber cs

/-- `_pull_request_number`. -/
def pullRequestNumber (pr : Dict) : Option Int :=
  ((["number", "pull_number", "pullNumber"].filterMap (fun key => py.int (pr.get key))).head?).orElse fun _ =>
    (searchPullNumber py (pullRequestUrl pr).toList).bind (fun digits => py.int (.str (String.ofList digits)))

/-- `_pull_request_base_ref`. -/
def pullRequestBaseRef (pr : Dict) : String :=
  orElse (firstText ((pr.get "base").asDict.getD []) ["ref", "name", "branch"])
    (firstText pr ["baseRefName", "base_ref_name", "base_branch", "base"])

/-- `_pull_request_base_repo`. -/
def pullRequestBaseRepo (pr : Dict) (fallback : String) : String :=
  let repo := ((((pr.get "base").asDict.getD []).get "repo").asDict).getD []
  let ownerName := match (repo.get "owner").asDict with
    | some owner => strip (py.text ((owner.get "login").or (owner.get "name")))
    | none => ""
  let repoName := strip (py.text (repo.get "name"))
  orElse (firstText repo ["full_name", "nameWithOwner", "name_with_owner"])
    (orElse (if ownerName ≠ "" ∧ repoName ≠ "" then ownerName ++ "/" ++ repoName else "")
      (orElse (firstText pr ["base_repo", "baseRepo", "repository", "repo"]) fallback))

/-! ## Reviews -/

/-- `_pull_request_reviews_state`. -/
def pullRequestReviewsState (pr : Dict) : String :=
  let value := firstStatus py pr ["reviewDecision", "review_decision", "review_state", "reviewState"]
  if value ≠ "" then
    if value ∈ ["changes_requested", "requested_changes"] then "changes_requested"
    else if value ∈ ["approved", "approve"] then "approved"
    else if value ∈ ["review_required", "requires_review"] then "review_required"
    else value
  else
    let reviews := (pr.get "reviews").or (pr.get "reviewThreads")
    let reviews := match reviews.asDict with
      | some d => (d.get "nodes").or (d.get "items")
      | none => reviews
    let states := reviews.dicts.map (fun review => statusKey py ((review.get "state").or (review.get "status")))
    if states.any (fun state => decide (state ∈ ["changes_requested", "requested_changes"])) then "changes_requested"
    else if states.any (fun state => decide (state ∈ ["approved", "approve"])) then "approved"
    else "review_required"

/-! ## Checks -/

def flattenKeys : List String :=
  ["checks", "check_runs", "checkRuns", "checkSuites", "statusCheckRollup", "status_check_rollup", "nodes", "items"]

/-- What stands under a key. -/
def flattenedUnder (key : String) : List (String × List Dict) → List Dict
  | [] => []
  | (k, entries) :: fields => if k = key then entries else flattenedUnder key fields

mutual
/-- `_flatten_check_entries`. -/
def flattenCheckEntries : Json → List Dict
  | .arr items => items.filterMap Json.asDict
  | .obj fields => flattenKeys.flatMap (fun key => flattenedUnder key (flattenFields fields))
  | _ => []

/-- The entries under each key of a dictionary. -/
def flattenFields : List (String × Json) → List (String × List Dict)
  | [] => []
  | (key, value) :: fields => (key, flattenCheckEntries value) :: flattenFields fields
end

def checkKeys : List String :=
  ["checks", "check_runs", "checkSuites", "statusCheckRollup", "status_check_rollup", "combined_status"]

/-- The entries of all keys, in the order in which they are read. -/
def checkEntries (pr : Dict) : List Dict := checkKeys.flatMap (fun key => flattenCheckEntries (pr.get key))

/-- The name and the url by which two entries are the same. -/
def entryKey (entry : Dict) : String × String :=
  (strip (py.text ((entry.get "name").or ((entry.get "context").or (entry.get "title")))),
    strip (py.text ((entry.get "detailsUrl").or ((entry.get "details_url").or (entry.get "url")))))

/-- Keep the first entry of each key that has not been seen. -/
def dedupe : List (String × String) → List Dict → List Dict
  | _, [] => []
  | seen, entry :: entries =>
    if entryKey py entry ∈ seen then dedupe seen entries
    else entry :: dedupe (entryKey py entry :: seen) entries

/-- `_pull_request_check_entries`. -/
def pullRequestCheckEntries (pr : Dict) : List Dict := dedupe py [] (checkEntries pr)

def failedWords : List String := ["failure", "failed", "error", "cancelled", "canceled", "timed_out"]

/-- The state a summary of the checks stands for. -/
def summaryState (value : String) : String :=
  if value ∈ ["success", "successful", "passed", "pass"] then "success"
  else if value ∈ failedWords then "failure"
  else if value ∈ ["pending", "queued", "in_progress", "running", "waiting"] then "pending"
  else value

/-- The state of a rollup that names one. -/
def rollupState (value : String) : Option String :=
  if value ∈ ["success", "successful", "passed", "pass"] then some "success"
  else if value ∈ failedWords then some "failure"
  else if value ∈ ["pending", "queued", "in_progress", "running", "waiting", "expected"] then some "pending"
  else none

/-- What the request says of its checks as a whole. -/
def overallState (pr : Dict) : Option String :=
  let value := firstStatus py pr ["checks_status", "check_status", "checksState", "checks_state"]
  if value ≠ "" then some (summaryState value)
  else
    let rollup := (pr.get "statusCheckRollup").or ((pr.get "status_check_rollup").or (pr.get "combined_status"))
    rollup.asDict.bind fun d =>
      rollupState (statusKey py ((d.get "state").or ((d.get "status").or (d.get "conclusion"))))

/-- What is read of one entry. -/
def readState (entry : Dict) : String := statusKey py ((entry.get "conclusion").or (entry.get "status"))

def pendingWords : List String := ["pending", "queued", "in_progress", "running", "waiting", "expected", "requested"]
def passedWords : List String := ["success", "successful", "passed", "completed", "neutral", "skipped"]

/-- What the entries say together. -/
def entriesState (checks : List Dict) : String :=
  if checks = [] then "unknown"
  else
    let states := checks.map (readState py)
    if states.any (fun state => decide (state ∈ failedWords)) then "failure"
    else if states.any (fun state => decide (state ∈ pendingWords)) then "pending"
    else
      let knownStates := states.filter (fun state => decide (state ≠ ""))
      if knownStates ≠ [] ∧ knownStates.all (fun state => decide (state ∈ passedWords)) then "success" else "pending"

/-- `_pull_request_checks_state`. -/
def pullRequestChecksState (pr : Dict) : String :=
  (overallState py pr).getD (entriesState py (pullRequestCheckEntries py pr))

/-! ## Mergeability and lifecycle -/

inductive MergeableState where
  | clean | conflicting | behind | blocked | unstable | unknown
  deriving DecidableEq, Repr

def MergeableState.text : MergeableState → String
  | .clean => "clean"
  | .conflicting => "conflicting"
  | .behind => "behind"
  | .blocked => "blocked"
  | .unstable => "unstable"
  | .unknown => ""

/-- `value is not None`. -/
def notNone : Json → Bool
  | .null => false
  | _ => true

/-- `value is False`. -/
def isFalse : Json → Bool
  | .bool false => true
  | _ => false

/-- `_pull_request_mergeable_state`. -/
def pullRequestMergeableState (pr : Dict) : MergeableState :=
  let mergeableRaw := normalizeStatusKey py (if notNone (pr.get "mergeable") then py.str (pr.get "mergeable") else "")
  let mergeState := statusKey py
    ((pr.get "mergeStateStatus").or ((pr.get "merge_state_status").or (pr.get "mergeable_state")))
  if mergeableRaw = "conflicting" then .conflicting
  else if mergeState = "dirty" then .conflicting
  else if mergeState = "behind" then .behind
  else if mergeState = "clean" then .clean
  else if mergeState ∈ ["blocked", "draft", "has_hooks"] then .blocked
  else if mergeState = "unstable" then .unstable
  else if isFalse (pr.get "mergeable") ∧ mergeState = "" then .conflicting
  else .unknown

inductive LifecycleState where
  | merged | blocked | conflicted | needsRepair | running | needsRebase | readyToMerge | waitingForReview
  deriving DecidableEq, Repr

def LifecycleState.text : LifecycleState → String
  | .merged => "merged"
  | .blocked => "blocked"
  | .conflicted => "conflicted"
  | .needsRepair => "needs-repair"
  | .running => "running"
  | .needsRebase => "needs-rebase"
  | .readyToMerge => "ready-to-merge"
  | .waitingForReview => "waiting-for-review"

def isMerged (pr : Dict) : Bool :=
  (pr.get "merged").truthy || (pr.get "merged_at").truthy || (pr.get "mergedAt").truthy

def isDraft (pr : Dict) : Bool := (pr.get "draft").truthy || (pr.get "isDraft").truthy

/-- `normalize_status_key(str(pr.get("state") or "open"))`. -/
def stateKey (pr : Dict) : String := statusKey py ((pr.get "state").or (.str "open"))

def isClosed (pr : Dict) : Bool := decide (stateKey py pr ∈ ["closed", "cancelled", "canceled"])

/-- `pull_request_lifecycle_state`. -/
def pullRequestLifecycleState (pr : Dict) : LifecycleState :=
  let reviewState := pullRequestReviewsState py pr
  let checksState := pullRequestChecksState py pr
  let mergeableState := pullRequestMergeableState py pr
  if isMerged pr then .merged
  else if isClosed py pr then .blocked
  else if mergeableState = .conflicting then .conflicted
  else if reviewState = "changes_requested" ∨ checksState = "failure" then .needsRepair
  else if isDraft pr = true ∨ checksState = "pending" then .running
  else if mergeableState = .behind then .needsRebase
  else if reviewState = "approved" ∧ checksState = "success" then .readyToMerge
  else .waitingForReview

/-- The normalized pull request. -/
structure PullRequest where
  url : String
  number : Option Int
  headBranch : String
  baseBranch : String
  baseRepo : String
  state : String
  draft : Bool
  merged : Bool
  reviewState : String
  checksState : String
  mergeableState : MergeableState
  lifecycleState : LifecycleState
  terminal : Bool

/-- `normalize_pull_request_metadata`. -/
def normalizePullRequestMetadata (pr : Dict) (headBranch baseRepo baseBranch : String) : PullRequest where
  url := pullRequestUrl pr
  number := pullRequestNumber py pr
  headBranch := orElse (pullRequestHeadRef pr) headBranch
  baseBranch := orElse (pullRequestBaseRef pr) baseBranch
  baseRepo := pullRequestBaseRepo py pr baseRepo
  state := orElse (py.lower (strip (py.text ((pr.get "state").or (.str "open"))))) "open"
  draft := isDraft pr
  merged := isMerged pr
  reviewState := pullRequestReviewsState py pr
  checksState := pullRequestChecksState py pr
  mergeableState := pullRequestMergeableState py pr
  lifecycleState := pullRequestLifecycleState py pr
  terminal := decide (pullRequestLifecycleState py pr ∈ [LifecycleState.merged, .blocked])

/-! ## Auto-merge -/

/-- The settings of `cfg.review` and `cfg.repository` that auto-merge reads. -/
structure ReviewConfig where
  policy : String
  autoMergeStrategy : String
  autoMergeAllowedStrategies : String
  mergeRequiresApproval : Bool
  deleteBranchAfterMerge : Bool
  branchDeleteRequiresApproval : Bool
  repositorySlug : String

/-- `_allowed_merge_strategies`. -/
def allowedMergeStrategies (cfg : ReviewConfig) : List String :=
  (((cfg.autoMergeAllowedStrategies.toList.splitOn ',').map String.ofList).filter
    (fun strategy => decide (strip strategy ≠ ""))).map (fun strategy => py.lower (strip strategy))

/-- `_approval_granted`. -/
def approvalGranted (approvals : Option Dict) (key : String) : Bool :=
  match approvals with
  | none => false
  | some d =>
    let value := match (d.get key).asDict with
      | some answer => (answer.get "approved").or (answer.get "status")
      | none => d.get key
    match value with
    | .bool b => b
    | value => decide (py.lower (strip (py.text value)) ∈ ["approved", "approve", "granted", "true", "yes", "1"])

inductive Denial where
  | policyNotAutoMerge
  | strategyNotSupported (strategy : String)
  | strategyNotAllowed (strategy : String)
  | headNotCreated
  | baseRepoMismatch (baseRepo expectedRepo : String)
  | notReadyToMerge
  | checksNotClean
  | notApproved
  | alreadyTerminal
  | numberMissing
  | baseRepoMissing
  deriving DecidableEq, Repr

def Denial.text : Denial → String
  | .policyNotAutoMerge => "review.policy is not auto_merge"
  | .strategyNotSupported strategy => "merge strategy `" ++ strategy ++ "` is not supported"
  | .strategyNotAllowed strategy => "merge strategy `" ++ strategy ++ "` is not allowed by policy"
  | .headNotCreated => "head branch is not ACA-created"
  | .baseRepoMismatch baseRepo expectedRepo =>
    "PR base repo `" ++ baseRepo ++ "` does not match configured repo `" ++ expectedRepo ++ "`"
  | .notReadyToMerge => "PR lifecycle state is not ready-to-merge"
  | .checksNotClean => "PR checks are not proven clean"
  | .notApproved => "PR review state is not approved"
  | .alreadyTerminal => "PR is already terminal"
  | .numberMissing => "PR number is missing"
  | .baseRepoMissing => "PR base repo is missing"

inductive PendingApproval where
  | merge | branchDelete
  deriving DecidableEq, Repr

def PendingApproval.key : PendingApproval → String
  | .merge => "merge"
  | .branchDelete => "branch_delete"

def PendingApproval.reason : PendingApproval → String
  | .merge => "Policy requires explicit approval before ACA merges the pull request."
  | .branchDelete => "Policy requires separate approval before ACA deletes the remote branch."

structure AutoMergeGates where
  denials : List Denial
  pendingApprovals : List PendingApproval
  strategy : String
  headBranch : String
  baseRepo : String

def AutoMergeGates.allowed (g : AutoMergeGates) : Bool := g.denials.isEmpty && decide (.merge ∉ g.pendingApprovals)

/-- `cfg.review.auto_merge_strategy or "squash"`, as the gates read it. -/
def mergeStrategy (cfg : ReviewConfig) : String := py.lower (strip (orElse cfg.autoMergeStrategy "squash"))

/-- The denials of `evaluate_auto_merge_gates`, in its order. -/
def autoMergeDenials (cfg : ReviewConfig) (pr : PullRequest) : List Denial :=
  let strategy := mergeStrategy py cfg
  let baseRepo := strip pr.baseRepo
  let expectedRepo := strip cfg.repositorySlug
  (if py.lower (strip cfg.policy) ≠ "auto_merge" then [.policyNotAutoMerge] else []) ++
  (if strategy ∉ ["merge", "squash", "rebase"] then [.strategyNotSupported strategy] else []) ++
  (if strategy ∉ allowedMergeStrategies py cfg then [.strategyNotAllowed strategy] else []) ++
  (if ¬ "aca/".toList <+: (strip pr.headBranch).toList then [.headNotCreated] else []) ++
  (if expectedRepo ≠ "" ∧ baseRepo ≠ "" ∧ baseRepo ≠ expectedRepo then [.baseRepoMismatch baseRepo expectedRepo]
    else []) ++
  (if pr.lifecycleState ≠ .readyToMerge then [.notReadyToMerge] else []) ++
  (if strip pr.checksState ≠ "success" then [.checksNotClean] else []) ++
  (if strip pr.reviewState ≠ "approved" then [.notApproved] else []) ++
  (if pr.terminal = true ∨ pr.merged = true then [.alreadyTerminal] else []) ++
  (if pr.number = none then [.numberMissing] else []) ++
  (if baseRepo = "" ∨ '/' ∉ baseRepo.toList then [.baseRepoMissing] else [])

/-- `evaluate_auto_merge_gates`. -/
def evaluateAutoMergeGates (cfg : ReviewConfig) (pr : PullRequest) (approvals : Option Dict) : AutoMergeGates :=
  let denials := autoMergeDenials py cfg pr
  { denials := denials
    pendingApprovals :=
      (if denials = [] ∧ cfg.mergeRequiresApproval = true ∧ approvalGranted py approvals "merge" = false then [.merge]
        else []) ++
      (if denials = [] ∧ cfg.deleteBranchAfterMerge = true ∧ cfg.branchDeleteRequiresApproval = true ∧
          approvalGranted py approvals "branch_delete" = false then [.branchDelete] else [])
    strategy := mergeStrategy py cfg
    headBranch := strip pr.headBranch
    baseRepo := strip pr.baseRepo }

/-- The arguments of the merge tool. -/
structure MergeCall where
  owner : String
  repo : String
  pullNumber : Int
  mergeMethod : String
  deriving DecidableEq

/-- What becomes of the branch behind a merge. -/
inductive BranchDelete where
  | pending | requested | disabled
  deriving DecidableEq

inductive AutoMerge where
  | denied (denials : List Denial)
  | pendingApproval (pending : List PendingApproval)
  | merge (call : MergeCall) (branch : BranchDelete)

/-- The call of `merge_pull_request`; without a number `int` raises. -/
def mergePullRequest (cfg : ReviewConfig) (pr : PullRequest) (strategy : String) : Option MergeCall :=
  let baseRepo := (strip (orElse pr.baseRepo cfg.repositorySlug)).toList
  pr.number.map fun number =>
    { owner := String.ofList (baseRepo.takeWhile (· ≠ '/'))
      repo := String.ofList ((baseRepo.dropWhile (· ≠ '/')).tail)
      pullNumber := number
      mergeMethod := strategy }

/-- `guarded_auto_merge`, to the call of the merge tool; `none` where it raises before. -/
def guardedAutoMerge (cfg : ReviewConfig) (pr : PullRequest) (approvals : Option Dict) : Option AutoMerge :=
  let gates := evaluateAutoMergeGates py cfg pr approvals
  if gates.denials ≠ [] then some (.denied gates.denials)
  else if .merge ∈ gates.pendingApprovals then
    some (.pendingApproval (gates.pendingApprovals.filter (fun item => decide (item = .merge))))
  else
    (mergePullRequest cfg pr gates.strategy).map fun call => .merge call
      (if .branchDelete ∈ gates.pendingApprovals then .pending
        else if cfg.deleteBranchAfterMerge then .requested else .disabled)

end
end PullRequests
