import TandemAgents.JsonText
import TandemAgents.WatchedRequests

/-!
# What the engine answers to a write

Merging a pull request, deleting its branch and updating it are calls of the engine's tool.
Whether such a call succeeded is read off the JSON in its result, and the reader makes an
object of every result, so that an answer without a body reads as one in which nothing
happened, and a merge that says it did not happen as one that did.
-/
namespace WriteOutcomes

open PythonText JsonData JsonText Effects PrSupervision PrRefresh

set_option maxRecDepth 20000

/-! ## The tool -/

/-- What `execute_engine_tool` raises: a `RuntimeError`, which some callers catch, or
something else. -/
inductive Refusal where
  | runtime (e : Exc)
  | other (e : Exc)

/-- `execute_engine_tool(cfg, tool, args)`. -/
abbrev Tool := String → Dict → Except Refusal Dict

/-- The calls so far. -/
abbrev Log := List (String × Dict)

abbrev Calls := EStateM Refusal Log

variable (n : IssueSpend.Numbers) (floats : Floats) (cfg : Config) (tool : Tool)

def execute (name : String) (args : Dict) : Calls Dict := fun log =>
  match tool name args with
  | .ok result => .ok result (log ++ [(name, args)])
  | .error e => .error e (log ++ [(name, args)])

/-- `result["metadata"]["result"]`, where both are dictionaries. -/
def innerResult (result : Dict) : Option Dict := (result.get "metadata").asDict.bind fun metadata => (metadata.get "result").asDict

def failedStarts : List String := ["failed", "unknown method", "unknown tool", "missing required"]

/-- `_tool_failed`. -/
def toolFailed (result : Dict) : Bool :=
  (innerResult result).any (fun inner => match inner.get "isError" with
    | .bool b => b
    | _ => false) ||
  failedStarts.any fun start => start.toList.isPrefixOf (n.lower (strip (n.text (result.get "output")))).toList

/-- `_tool_error_message`. -/
def toolErrorMessage (result : Dict) : String :=
  let output := strip (n.text (result.get "output"))
  let texts := ((innerResult result).elim [] fun inner => (inner.get "content").dicts).filterMap fun entry =>
    ((entry.get "text").asStr.map strip).filter fun text => decide (text ≠ "")
  orElse output (texts.head?.getD "unknown GitHub MCP error")

/-- `json.loads(text)`, where it gives a dictionary or a list. -/
def loadsContainer (text : String) : Option Json :=
  if strip text = "" then none
  else (loads floats text.toList).bind fun v =>
    match v with
    | .obj _ => some v
    | .arr _ => some v
    | _ => none

/-- `_parse_json_output`. -/
def parseJsonOutput (result : Dict) : Json :=
  let texts := ((innerResult result).elim [] fun inner => (inner.get "content").dicts).filterMap fun entry =>
    (entry.get "text").asStr
  (((result.get "output").asStr.bind (loadsContainer floats)).orElse
    fun _ => texts.findSome? (loadsContainer floats)).getD (.obj [])

/-- `data if isinstance(data, dict) else {key: True}`. -/
def reportOf (key : String) (result : Dict) : Dict := (parseJsonOutput floats result).asDict.getD [(key, .bool true)]

/-! ## Deleting and updating a branch -/

/-- A call whose `RuntimeError` is caught. -/
def tryTool (name : String) (args : Dict) : Calls (Option Dict) := fun log =>
  match execute tool name args log with
  | .ok result log' => .ok (some result) log'
  | .error (.runtime _) log' => .ok none log'
  | .error (.other e) log' => .error (.other e) log'

/-- The tools of a list tried in turn, until one of them neither raises a `RuntimeError` nor
answers that it failed. -/
def attempt (key failure : String) : List (String × Dict) → Calls Dict
  | [] => pure [(key, .bool false), ("error", .str failure)]
  | (name, args) :: rest => do
    match ← tryTool tool name args with
    | none => attempt key failure rest
    | some result => if toolFailed n result then attempt key failure rest else return reportOf floats key result

/-- `base_repo.split("/", 1)`. -/
def splitRepo (baseRepo : String) : String × String :=
  (String.ofList (baseRepo.toList.takeWhile (· ≠ '/')), String.ofList ((baseRepo.toList.dropWhile (· ≠ '/')).tail))

def repoArgs (baseRepo : String) (more : Dict) : Dict :=
  [("owner", .str (splitRepo baseRepo).1), ("repo", .str (splitRepo baseRepo).2)] ++ more

def deleteTools : List String := ["mcp.github.delete_branch", "mcp.github.delete_ref"]

/-- The attempts of `delete_remote_branch`; none without a repository and a branch. -/
def deleteCalls (pullRequest : Dict) : List (String × Dict) :=
  let baseRepo := baseRepoOf n cfg pullRequest
  let headBranch := strip (n.text (pullRequest.get "head_branch"))
  if baseRepo = "" ∨ '/' ∉ baseRepo.toList ∨ headBranch = "" then []
  else [("mcp.github.delete_branch", repoArgs baseRepo [("branch", .str headBranch)]),
    ("mcp.github.delete_ref", repoArgs baseRepo [("ref", .str ("heads/" ++ headBranch))])]

/-- `delete_remote_branch`. -/
def deleteRemoteBranch (pullRequest : Dict) : Calls Dict :=
  attempt n floats tool "deleted"
    (if deleteCalls n cfg pullRequest = [] then "Missing base repo or head branch."
      else "Could not delete remote branch through GitHub MCP.") (deleteCalls n cfg pullRequest)

/-- The attempts of `update_pull_request_branch`; none without a repository and a number. -/
def updateCalls (pullRequest : Dict) (number : Int) : List (String × Dict) :=
  if lacksIdentity n cfg pullRequest then []
  else [("mcp.github.update_pull_request_branch", repoArgs (baseRepoOf n cfg pullRequest) [("pullNumber", .int number)]),
    ("mcp.github.update_pull_request_branch", repoArgs (baseRepoOf n cfg pullRequest) [("pull_number", .int number)])]

/-- `update_pull_request_branch`; a number that `int` does not read raises. -/
def updatePullRequestBranch (pullRequest : Dict) : Calls Dict :=
  if lacksIdentity n cfg pullRequest then
    pure [("updated", .bool false), ("error", .str "Missing base repo or PR number.")]
  else
    match n.int (pullRequest.get "number") with
    | none => throw (.other ⟨n.intError (pullRequest.get "number"), "ValueError()"⟩)
    | some number => attempt n floats tool "updated" "Could not update PR branch through GitHub MCP."
        (updateCalls n cfg pullRequest number)

/-! ## Merging -/

def mergeTool : String := "mcp.github.merge_pull_request"

def mergeArgs (call : PullRequests.MergeCall) : Dict :=
  [("owner", .str call.owner), ("repo", .str call.repo), ("pullNumber", .int call.pullNumber),
    ("merge_method", .str call.mergeMethod)]

/-- `merge_pull_request`. -/
def mergePullRequest (call : PullRequests.MergeCall) : Calls Dict := do
  let result ← execute tool mergeTool (mergeArgs call)
  if toolFailed n result then throw (.runtime ⟨toolErrorMessage n result, "RuntimeError()"⟩)
  else return reportOf floats "merged" result

/-- What becomes of the branch behind a merge. -/
def branchDeletion (pullRequest : Dict) (branch : PullRequests.BranchDelete) :
    Calls (List PullRequests.PendingApproval × Dict) :=
  match branch with
  | .pending => pure ([.branchDelete], [("deleted", .bool false), ("skipped", .bool true),
      ("pending_approvals", pendingDicts [.branchDelete]),
      ("reason", .str "branch_delete_requires_approval is enabled and approval was not granted")])
  | .requested => do
    let deleteResult ← deleteRemoteBranch n floats cfg tool pullRequest
    return ([], deleteResult)
  | .disabled => pure ([], [("deleted", .bool false), ("skipped", .bool true),
      ("reason", .str "delete_branch_after_merge is disabled")])

/-- `guarded_auto_merge`, with its calls. -/
def guardedAutoMerge (pr : PullRequests.PullRequest) (pullRequest : Dict) (approvals : Option Dict) : Calls Dict :=
  match PullRequests.guardedAutoMerge n.toRuntime cfg.review pr approvals with
  | none => throw (.other typeError)
  | some (.denied denials) => pure (mergeRecord n cfg "denied" false []
      [("denials", .arr (denials.map fun d => .str d.text)), ("pending_approvals", .arr []),
        ("pull_request", .obj pullRequest)])
  | some (.pendingApproval pending) => pure (mergeRecord n cfg "pending_approval" false []
      [("denials", .arr []), ("pending_approvals", pendingDicts pending), ("pull_request", .obj pullRequest)])
  | some (.merge call branch) => do
    let mergeResult ← mergePullRequest n floats tool call
    let (pending, deleteResult) ← branchDeletion n floats cfg tool pullRequest branch
    return mergeRecord n cfg "merged" true deleteResult [("pending_approvals", pendingDicts pending),
      ("pull_request", .obj pullRequest), ("merge_result", .obj mergeResult), ("delete_result", .obj deleteResult)]

/-! ## What is asked of them -/

/-- A payload in which `merged` is false. -/
def SaysNotMerged (result : Dict) : Prop :=
  ∃ data : Dict, parseJsonOutput floats result = .obj data ∧ data.get "merged" = .bool false

/-- The answer that the first successful call of a list gives. -/
def firstSuccess : List (String × Dict) → Option Dict
  | [] => none
  | (name, args) :: rest =>
    match tool name args with
    | .ok result => if toolFailed n result then firstSuccess rest else some result
    | .error (.runtime _) => firstSuccess rest
    | .error (.other _) => none

/-- The merge tool is called and does not fail. -/
def MergeAnswered (pr : PullRequests.PullRequest) (approvals : Option Dict) (result : Dict) : Prop :=
  ∃ call branch, PullRequests.guardedAutoMerge n.toRuntime cfg.review pr approvals = some (.merge call branch) ∧
    tool mergeTool (mergeArgs call) = .ok result ∧ toolFailed n result = false

/-- A merge is reported, and the branch deleted, only if the answer does not deny the merge. -/
structure MergeHonest (pr : PullRequests.PullRequest) (pullRequest : Dict) (approvals : Option Dict) : Prop where
  merged : ∀ result, MergeAnswered n cfg tool pr approvals result → ∀ record log,
    guardedAutoMerge n floats cfg tool pr pullRequest approvals [] = .ok record log →
      (record.get "merged").truthy = true → ¬ SaysNotMerged floats result
  deleted : ∀ result, MergeAnswered n cfg tool pr approvals result →
    (∃ c ∈ endState (guardedAutoMerge n floats cfg tool pr pullRequest approvals []), c.1 ∈ deleteTools) →
      ¬ SaysNotMerged floats result

/-- A deletion that succeeded is reported as one. -/
def DeleteHonest (pullRequest : Dict) : Prop :=
  ∀ result, firstSuccess n tool (deleteCalls n cfg pullRequest) = some result → ∀ log report log',
    deleteRemoteBranch n floats cfg tool pullRequest log = .ok report log' → (report.get "deleted").truthy = true

/-- The first successful answer to an update. -/
def UpdateAnswered (pullRequest result : Dict) : Prop :=
  ∃ number, n.int (pullRequest.get "number") = some number ∧
    firstSuccess n tool (updateCalls n cfg pullRequest number) = some result

/-- An update that succeeded is reported as one, and the supervisor puts it on the blackboard
as one. -/
structure UpdateHonest (pullRequest : Dict) : Prop where
  reported : ∀ result, UpdateAnswered n cfg tool pullRequest result → ∀ log report log',
    updatePullRequestBranch n floats cfg tool pullRequest log = .ok report log' → (report.get "updated").truthy = true
  recorded : ∀ result, UpdateAnswered n cfg tool pullRequest result → ∀ log report log',
    updatePullRequestBranch n floats cfg tool pullRequest log = .ok report log' →
      ∀ t : Rebase, t.call = {} → t.answer = report → ∀ w record w',
        updatePrBranchForRun n cfg t pullRequest w = .ok record w' →
          w'.blackboard.get "pull_request_rebase" = .obj record ∧ (record.get "updated").truthy = true

/-- The body of an answer says under a key that the write happened, or is no object. -/
def Confirms (key : String) (result : Dict) : Prop :=
  ∀ data : Dict, parseJsonOutput floats result = .obj data → (data.get key).truthy = true

variable {n floats cfg tool}

/-! ## The attempts -/

theorem reportOf_truthy {key : String} {result : Dict} :
    ((reportOf floats key result).get key).truthy = true ↔ Confirms floats key result := by
  unfold reportOf Confirms
  cases parseJsonOutput floats result with
  | obj data => simp [Json.asDict]
  | _ => simp [Json.asDict, Dict.get_cons, Json.truthy]

theorem execute_ok {name : String} {args result : Dict} (h : tool name args = .ok result) (log : Log) :
    execute tool name args log = .ok result (log ++ [(name, args)]) := by
  rw [execute, h]

theorem execute_error {name : String} {args : Dict} {e : Refusal} (h : tool name args = .error e) (log : Log) :
    execute tool name args log = .error e (log ++ [(name, args)]) := by
  rw [execute, h]

/-- The rest of the attempts behind a call. -/
theorem attempt_cons (key failure name : String) (args : Dict) (rest : List (String × Dict)) (log : Log) :
    attempt n floats tool key failure ((name, args) :: rest) log =
      match tool name args with
      | .ok result => if toolFailed n result then attempt n floats tool key failure rest (log ++ [(name, args)])
          else .ok (reportOf floats key result) (log ++ [(name, args)])
      | .error (.runtime _) => attempt n floats tool key failure rest (log ++ [(name, args)])
      | .error (.other e) => .error (.other e) (log ++ [(name, args)]) := by
  rw [attempt]
  cases htool : tool name args with
  | ok result =>
    have htry : tryTool tool name args log = .ok (some result) (log ++ [(name, args)]) := by
      rw [tryTool, execute_ok htool]
    rw [run_bind_ok htry]
    dsimp only
    split <;> rfl
  | error e =>
    cases e with
    | runtime e =>
      have htry : tryTool tool name args log = .ok none (log ++ [(name, args)]) := by
        rw [tryTool, execute_error htool]
      rw [run_bind_ok htry]
    | other e =>
      have htry : tryTool tool name args log = .error (.other e) (log ++ [(name, args)]) := by
        rw [tryTool, execute_error htool]
      rw [run_bind_error htry]

/-- Where a call succeeds, its answer is reported. -/
theorem attempt_success {key failure : String} {calls : List (String × Dict)} {result : Dict}
    (h : firstSuccess n tool calls = some result) (log : Log) :
    ∃ log', attempt n floats tool key failure calls log = .ok (reportOf floats key result) log' := by
  induction calls generalizing log with
  | nil => cases h
  | cons call rest ih =>
    obtain ⟨name, args⟩ := call
    rw [firstSuccess] at h
    rw [attempt_cons]
    cases htool : tool name args with
    | ok answer =>
      rw [htool] at h
      dsimp only at h ⊢
      by_cases hfailed : toolFailed n answer = true
      · rw [if_pos hfailed] at h ⊢
        exact ih h _
      · rw [if_neg hfailed] at h ⊢
        obtain rfl := Option.some.inj h
        exact ⟨_, rfl⟩
    | error e =>
      rw [htool] at h
      cases e with
      | runtime e => exact ih h _
      | other e => cases h

theorem attempt_keeps (key failure : String) (calls : List (String × Dict)) (c : String × Dict) :
    Keeps (fun log => c ∈ log) (attempt n floats tool key failure calls) := by
  induction calls with
  | nil => exact Keeps.pure _
  | cons call rest ih =>
    obtain ⟨name, args⟩ := call
    intro log hlog
    have hmore : c ∈ log ++ [(name, args)] := List.mem_append_left _ hlog
    rw [attempt_cons]
    cases tool name args with
    | ok answer =>
      dsimp only
      by_cases hfailed : toolFailed n answer = true
      · rw [if_pos hfailed]
        exact ih _ hmore
      · rw [if_neg hfailed]
        exact hmore
    | error e =>
      cases e with
      | runtime e => exact ih _ hmore
      | other e => exact hmore

/-- The first of some attempts is made. -/
theorem attempt_calls (key failure name : String) (args : Dict) (rest : List (String × Dict)) (log : Log) :
    (name, args) ∈ endState (attempt n floats tool key failure ((name, args) :: rest) log) := by
  have hmore : (name, args) ∈ log ++ [(name, args)] := by simp
  rw [attempt_cons]
  cases tool name args with
  | ok answer =>
    dsimp only
    by_cases hfailed : toolFailed n answer = true
    · rw [if_pos hfailed]
      exact (attempt_keeps key failure rest _).endState hmore
    · rw [if_neg hfailed]
      exact hmore
  | error e =>
    cases e with
    | runtime e => exact (attempt_keeps key failure rest _).endState hmore
    | other e => exact hmore

/-! ## Merging -/

theorem mergeRecord_merged (status : String) (merged : Bool) (deleteResult more : Dict) :
    (mergeRecord n cfg status merged deleteResult more).get "merged" = .bool merged := by
  simp [mergeRecord, Dict.get_cons]

/-- Behind an answered merge the deletion is what is left. -/
theorem guardedAutoMerge_answered {pr : PullRequests.PullRequest} {approvals : Option Dict} {call : PullRequests.MergeCall}
    {branch : PullRequests.BranchDelete} {result : Dict}
    (hgate : PullRequests.guardedAutoMerge n.toRuntime cfg.review pr approvals = some (.merge call branch))
    (htool : tool mergeTool (mergeArgs call) = .ok result) (hfailed : toolFailed n result = false) (pullRequest : Dict) :
    guardedAutoMerge n floats cfg tool pr pullRequest approvals [] =
      (branchDeletion n floats cfg tool pullRequest branch >>= fun r => pure (mergeRecord n cfg "merged" true r.2
        [("pending_approvals", pendingDicts r.1), ("pull_request", .obj pullRequest),
          ("merge_result", .obj (reportOf floats "merged" result)), ("delete_result", .obj r.2)]))
      [(mergeTool, mergeArgs call)] := by
  have hmerge : mergePullRequest n floats tool call [] =
      .ok (reportOf floats "merged" result) [(mergeTool, mergeArgs call)] := by
    unfold mergePullRequest
    rw [run_bind_ok (execute_ok htool []), if_neg (by simp [hfailed])]
    rfl
  unfold guardedAutoMerge
  rw [hgate]
  exact run_bind_ok hmerge

/-- A deletion that raises was tried. -/
theorem branchDeletion_error {pullRequest : Dict} {branch : PullRequests.BranchDelete} {log log' : Log} {e : Refusal}
    (h : branchDeletion n floats cfg tool pullRequest branch log = .error e log') :
    ∃ c ∈ log', c.1 ∈ deleteTools := by
  cases branch with
  | pending => cases h
  | disabled => cases h
  | requested =>
    have hdelete : deleteRemoteBranch n floats cfg tool pullRequest log = .error e log' := by
      cases hd : deleteRemoteBranch n floats cfg tool pullRequest log with
      | ok report log'' =>
        have hrun : branchDeletion n floats cfg tool pullRequest .requested log = .ok ([], report) log'' := run_bind_ok hd
        rw [hrun] at h
        cases h
      | error e' log'' =>
        have hrun : branchDeletion n floats cfg tool pullRequest .requested log = .error e' log'' := run_bind_error hd
        rw [hrun] at h
        obtain ⟨rfl, rfl⟩ := EStateM.Result.error.inj h
        rfl
    unfold deleteRemoteBranch at hdelete
    by_cases hnone : deleteCalls n cfg pullRequest = []
    · rw [hnone] at hdelete
      cases hdelete
    · have hcalls : deleteCalls n cfg pullRequest =
          [("mcp.github.delete_branch", repoArgs (baseRepoOf n cfg pullRequest)
            [("branch", .str (strip (n.text (pullRequest.get "head_branch"))))]),
          ("mcp.github.delete_ref", repoArgs (baseRepoOf n cfg pullRequest)
            [("ref", .str ("heads/" ++ strip (n.text (pullRequest.get "head_branch"))))])] := by
        unfold deleteCalls at hnone ⊢
        dsimp only at hnone ⊢
        split_ifs at hnone ⊢
        · exact absurd rfl hnone
        · rfl
      rw [hcalls] at hdelete
      have hmade := @attempt_calls n floats tool "deleted"
        "Could not delete remote branch through GitHub MCP." "mcp.github.delete_branch" (repoArgs (baseRepoOf n cfg pullRequest)
          [("branch", .str (strip (n.text (pullRequest.get "head_branch"))))]) [("mcp.github.delete_ref",
          repoArgs (baseRepoOf n cfg pullRequest) [("ref", .str ("heads/" ++ strip (n.text (pullRequest.get "head_branch"))))])] log
      rw [if_neg (by simp)] at hdelete
      rw [hdelete] at hmade
      exact ⟨_, hmade, by simp [deleteTools]⟩

theorem mergeHonest_iff (pr : PullRequests.PullRequest) (pullRequest : Dict) (approvals : Option Dict) :
    MergeHonest n floats cfg tool pr pullRequest approvals ↔
      ∀ result, MergeAnswered n cfg tool pr approvals result → ¬ SaysNotMerged floats result := by
  constructor
  · intro h result hanswered
    obtain ⟨call, branch, hgate, htool, hfailed⟩ := hanswered
    have hrun := @guardedAutoMerge_answered n floats cfg tool pr approvals call branch result hgate htool hfailed pullRequest
    cases hd : branchDeletion n floats cfg tool pullRequest branch [(mergeTool, mergeArgs call)] with
    | ok r log =>
      rw [run_bind_ok hd] at hrun
      apply h.merged result ⟨call, branch, hgate, htool, hfailed⟩ _ _ hrun
      rw [mergeRecord_merged]
      rfl
    | error e log =>
      rw [run_bind_error hd] at hrun
      apply h.deleted result ⟨call, branch, hgate, htool, hfailed⟩
      rw [hrun]
      exact branchDeletion_error hd
  · intro h
    exact ⟨fun result hanswered _ _ _ _ => h result hanswered, fun result hanswered _ => h result hanswered⟩

/-! ## Deleting and updating -/

theorem deleteHonest_iff (pullRequest : Dict) : DeleteHonest n floats cfg tool pullRequest ↔
    ∀ result, firstSuccess n tool (deleteCalls n cfg pullRequest) = some result → Confirms floats "deleted" result := by
  have hrun : ∀ result, firstSuccess n tool (deleteCalls n cfg pullRequest) = some result → ∀ log, ∃ log',
      deleteRemoteBranch n floats cfg tool pullRequest log = .ok (reportOf floats "deleted" result) log' :=
    fun result hresult log => attempt_success hresult log
  constructor
  · intro h result hresult
    obtain ⟨log', hlog⟩ := hrun result hresult []
    exact reportOf_truthy.mp (h result hresult [] _ log' hlog)
  · intro h result hresult log report log' hok
    obtain ⟨log'', hlog⟩ := hrun result hresult log
    rw [hlog] at hok
    obtain ⟨rfl, -⟩ := EStateM.Result.ok.inj hok
    exact reportOf_truthy.mpr (h result hresult)

theorem lacksIdentity_of_answered {pullRequest result : Dict} (h : UpdateAnswered n cfg tool pullRequest result) :
    lacksIdentity n cfg pullRequest = false := by
  obtain ⟨number, -, hfirst⟩ := h
  unfold updateCalls at hfirst
  split_ifs at hfirst with hid
  · cases hfirst
  · exact Bool.eq_false_iff.mpr hid

/-- An update that is answered reports its answer. -/
theorem update_reports {pullRequest result : Dict} (h : UpdateAnswered n cfg tool pullRequest result) (log : Log) :
    ∃ log', updatePullRequestBranch n floats cfg tool pullRequest log = .ok (reportOf floats "updated" result) log' := by
  have hid := lacksIdentity_of_answered h
  obtain ⟨number, hnumber, hfirst⟩ := h
  unfold updatePullRequestBranch
  rw [if_neg (by simp [hid]), hnumber]
  exact attempt_success hfirst log

/-- The supervisor records what the update reports, with the time. -/
theorem updatePrBranch_records {t : Rebase} {pullRequest record : Dict} {w w' : World}
    (hid : lacksIdentity n cfg pullRequest = false) (hcall : t.call = {})
    (h : updatePrBranchForRun n cfg t pullRequest w = .ok record w') :
    record = t.answer.set "completed_at_ms" (.int t.completedAtMs) ∧
      w'.blackboard.get "pull_request_rebase" = .obj record := by
  have hanswer : catchExc (PrRefresh.updatePullRequestBranch n cfg t pullRequest)
      (fun e => pure [("updated", .bool false), ("error", .str e.message)]) w = .ok t.answer w := by
    apply catchExc_ok
    unfold PrRefresh.updatePullRequestBranch
    rw [if_neg (by simp [hid])]
    exact run_bind_ok (call_returns (by rw [hcall]; rfl))
  unfold updatePrBranchForRun at h
  rw [run_bind_ok hanswer] at h
  obtain ⟨_, w₁, hpersist, h⟩ := bind_eq_ok.mp h
  obtain ⟨_, w₂, hevent, h⟩ := bind_eq_ok.mp h
  obtain ⟨rfl, rfl⟩ := pure_eq_ok.mp h
  have hw₂ : w₂ = w₁ := by
    cases hreturns : t.event.returns with
    | true =>
      rw [call_returns hreturns] at hevent
      exact (EStateM.Result.ok.inj hevent).2.symm
    | false =>
      obtain ⟨stop, hstop⟩ := call_stops (w := w₁) hreturns
      rw [hstop] at hevent
      cases hevent
  have hw₁ : w₁ = persisted t.persist (entryAssignments "pull_request_rebase"
      (t.answer.set "completed_at_ms" (.int t.completedAtMs))) w := by
    cases hreturns : t.persist.returns with
    | true =>
      rw [persist_returns hreturns] at hpersist
      exact (EStateM.Result.ok.inj hpersist).2.symm
    | false =>
      obtain ⟨stop, u, hstop⟩ := persist_stops (w := w) (a := entryAssignments "pull_request_rebase"
        (t.answer.set "completed_at_ms" (.int t.completedAtMs))) hreturns
      rw [hstop] at hpersist
      cases hpersist
  refine ⟨rfl, ?_⟩
  rw [hw₂, hw₁]
  simp [persisted, entryAssignments]

theorem updateHonest_iff (pullRequest : Dict) : UpdateHonest n floats cfg tool pullRequest ↔
    ∀ result, UpdateAnswered n cfg tool pullRequest result → Confirms floats "updated" result := by
  constructor
  · intro h result hanswered
    obtain ⟨log', hlog⟩ := @update_reports n floats cfg tool pullRequest result hanswered []
    exact reportOf_truthy.mp (h.reported result hanswered [] _ log' hlog)
  · intro h
    have hreport : ∀ result, UpdateAnswered n cfg tool pullRequest result → ∀ log report log',
        updatePullRequestBranch n floats cfg tool pullRequest log = .ok report log' →
          (report.get "updated").truthy = true := by
      intro result hanswered log report log' hok
      obtain ⟨log'', hlog⟩ := @update_reports n floats cfg tool pullRequest result hanswered log
      rw [hlog] at hok
      obtain ⟨rfl, -⟩ := EStateM.Result.ok.inj hok
      exact reportOf_truthy.mpr (h result hanswered)
    refine ⟨hreport, ?_⟩
    intro result hanswered log report log' hok t hcall hanswer w record w' hrun
    obtain ⟨hrecord, hboard⟩ := updatePrBranch_records (lacksIdentity_of_answered hanswered) hcall hrun
    have htruthy := hreport result hanswered log report log' hok
    refine ⟨hboard, ?_⟩
    rw [hrecord, Dict.get_set, if_neg (by decide), hanswer]
    exact htruthy

/-! ## The condition -/

/-- The three writes are reported as they are exactly when no answer to a merge denies it, and
the bodies of the answers to a deletion and to an update, where they are objects, say under
`deleted` and `updated` that it happened. -/
theorem outcomes_iff (n : IssueSpend.Numbers) (floats : Floats) (cfg : Config) (tool : Tool) (pr : PullRequests.PullRequest)
    (pullRequest : Dict) (approvals : Option Dict) :
    (MergeHonest n floats cfg tool pr pullRequest approvals ∧ DeleteHonest n floats cfg tool pullRequest ∧
        UpdateHonest n floats cfg tool pullRequest) ↔
      (∀ result, MergeAnswered n cfg tool pr approvals result → ¬ SaysNotMerged floats result) ∧
      (∀ result, firstSuccess n tool (deleteCalls n cfg pullRequest) = some result → Confirms floats "deleted" result) ∧
      ∀ result, UpdateAnswered n cfg tool pullRequest result → Confirms floats "updated" result := by
  rw [mergeHonest_iff, deleteHonest_iff, updateHonest_iff]

/-- A tool that answers a merge with one that was not made, and any other call in words. -/
def wordyTool : Tool := fun name _ =>
  if name = mergeTool then .ok [("output", .str "\x7b\"merged\": false\x7d")] else .ok [("output", .str "Done.")]

def plainFloats : Floats := ⟨id, id⟩

def readyRequest : PullRequests.PullRequest where
  url := "https://github.com/acme/app/pull/7"
  number := some 7
  headBranch := "aca/task-1"
  baseBranch := "main"
  baseRepo := "acme/app"
  state := "open"
  draft := false
  merged := false
  reviewState := "approved"
  checksState := "success"
  mergeableState := .clean
  lifecycleState := .readyToMerge
  terminal := false

theorem merge_of_reachesMerge {answer : Option PullRequests.AutoMerge} (h : AutoMerge.reachesMerge answer = true) :
    ∃ call branch, answer = some (.merge call branch) := by
  unfold AutoMerge.reachesMerge at h
  split at h
  · exact ⟨_, _, rfl⟩
  · cases h

theorem not_confirms {key : String} {result : Dict}
    (h : (parseJsonOutput floats result).asDict.any (fun data => !(data.get key).truthy) = true) :
    ¬ Confirms floats key result := by
  intro hconfirms
  cases hparse : parseJsonOutput floats result with
  | obj data =>
    rw [hparse] at h
    simp [Json.asDict, hconfirms data hparse] at h
  | _ =>
    rw [hparse] at h
    cases h

theorem saysNotMerged_of {result : Dict} (h : (parseJsonOutput floats result).asDict.any (fun data =>
    match data.get "merged" with
    | .bool b => !b
    | _ => false) = true) : SaysNotMerged floats result := by
  cases hparse : parseJsonOutput floats result with
  | obj data =>
    rw [hparse] at h
    refine ⟨data, hparse, ?_⟩
    simp only [Json.asDict, Option.any_some] at h
    split at h
    · rename_i b hb
      rw [hb]
      simpa using h
    · cases h
  | _ =>
    rw [hparse] at h
    cases h

theorem wordy_success {name : String} (h : name ≠ mergeTool) (args : Dict) (rest : List (String × Dict)) :
    firstSuccess IssueSpend.wholeNumbers wordyTool ((name, args) :: rest) = some [("output", .str "Done.")] := by
  have hdone : toolFailed IssueSpend.wholeNumbers [("output", .str "Done.")] = false := by decide +kernel
  have htool : wordyTool name args = .ok [("output", .str "Done.")] := if_neg h
  rw [firstSuccess, htool]
  simp only [hdone, Bool.false_eq_true, if_false]

/-- The merge that was not made counts as made, and the branch that was deleted or updated as
left alone. -/
theorem wordy_misread :
    ¬ MergeHonest IssueSpend.wholeNumbers plainFloats WatchedRequests.supervisorConfig wordyTool readyRequest
        (toDict readyRequest) none ∧
      ¬ DeleteHonest IssueSpend.wholeNumbers plainFloats WatchedRequests.supervisorConfig wordyTool (toDict readyRequest) ∧
      ¬ UpdateHonest IssueSpend.wholeNumbers plainFloats WatchedRequests.supervisorConfig wordyTool (toDict readyRequest) := by
  refine ⟨?_, ?_, ?_⟩
  · rw [mergeHonest_iff]
    intro h
    obtain ⟨call, branch, hgate⟩ := @merge_of_reachesMerge (PullRequests.guardedAutoMerge
      IssueSpend.wholeNumbers.toRuntime WatchedRequests.supervisorConfig.review readyRequest none) (by decide +kernel)
    have htool : wordyTool mergeTool (mergeArgs call) = .ok [("output", .str "\x7b\"merged\": false\x7d")] := if_pos rfl
    exact h _ ⟨call, branch, hgate, htool, by decide +kernel⟩ (saysNotMerged_of (by decide +kernel))
  · rw [deleteHonest_iff]
    intro h
    have hcalls : firstSuccess IssueSpend.wholeNumbers wordyTool (deleteCalls IssueSpend.wholeNumbers
        WatchedRequests.supervisorConfig (toDict readyRequest)) = some [("output", .str "Done.")] := by
      rw [deleteCalls, if_neg (by decide +kernel)]
      exact wordy_success (by decide) _ _
    exact not_confirms (by decide +kernel) (h _ hcalls)
  · rw [updateHonest_iff]
    intro h
    have hnumber : IssueSpend.wholeNumbers.int ((toDict readyRequest).get "number") = some 7 := by decide +kernel
    have hcalls : firstSuccess IssueSpend.wholeNumbers wordyTool (updateCalls IssueSpend.wholeNumbers
        WatchedRequests.supervisorConfig (toDict readyRequest) 7) = some [("output", .str "Done.")] := by
      rw [updateCalls, if_neg (by decide +kernel)]
      exact wordy_success (by decide) _ _
    exact not_confirms (by decide +kernel) (h _ ⟨7, hnumber, hcalls⟩)

end WriteOutcomes
