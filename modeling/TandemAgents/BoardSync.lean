import TandemAgents.RunFinalize

/-!
# Telling the remote board that a run is completed

The last sync of a run: the outbox where a coordination store is given, the remote system itself
where none is. Scope and mode come from the configuration, the connection and every update may be
refused, and every call may raise. The ghost field `write` says what became of the status.
-/
namespace BoardSync

open PythonText JsonData Effects Calls

set_option maxRecDepth 20000

/-! ## Configuration -/

/-- `cfg.github_mcp` and `cfg.linear_mcp`. -/
structure McpConfig where
  enabled : Bool := false
  scope : String := "none"
  remoteSync : String := "off"

/-- What the sync reads of the configuration. -/
structure SyncConfig where
  sourceType : String
  github : McpConfig := {}
  linear : McpConfig := {}
  reviewStatus : String := "In Review"
  doneStatus : String := "Done"
  doneLabel : String := ""

/-- `task.get("source") or {}`. -/
def sourceOf (task : Dict) : Option Dict := ((task.get "source").or (.obj [])).asDict

section
variable (py : Python)

/-- `str((task.get("source") or {}).get("type") or cfg.task_source.type)`. -/
def sourceType (cfg : SyncConfig) (task : Dict) : Option String :=
  (sourceOf task).map fun source => py.str ((source.get "type").or (.str cfg.sourceType))

/-- The scope of a server for a source; only its own source gets less than `always`. -/
def mcpScope (own : String) (m : McpConfig) (sourceType : String) : String :=
  let scope := py.lower (strip (orElse m.scope "none"))
  if !m.enabled then "none"
  else if sourceType ≠ own ∧ scope ≠ "always" then "none"
  else scope

/-- The mode of a server for a source, which is off for every source but its own. -/
def remoteSyncMode (own : String) (m : McpConfig) (sourceType : String) : String :=
  if mcpScope py own m sourceType = "none" then "off"
  else if sourceType ≠ own then "off"
  else py.lower (strip (orElse m.remoteSync "off"))

/-- `github_mcp_scope`. -/
def githubMcpScope (cfg : SyncConfig) : String → String := mcpScope py "github_project" cfg.github

/-- `github_remote_sync_mode`. -/
def githubRemoteSyncMode (cfg : SyncConfig) : String → String := remoteSyncMode py "github_project" cfg.github

/-- `linear_mcp_scope`. -/
def linearMcpScope (cfg : SyncConfig) : String → String := mcpScope py "linear" cfg.linear

/-- `linear_remote_sync_mode`. -/
def linearRemoteSyncMode (cfg : SyncConfig) : String → String := remoteSyncMode py "linear" cfg.linear

/-- The scopes that take in the end of a run. -/
def covers (scope : String) : Bool := decide (scope = "intake_finalize" ∨ scope = "always")

/-- `linear_status_name_for_outcome` of a completed run. -/
def linearTargetStatus (cfg : SyncConfig) : String := orElse cfg.reviewStatus (orElse cfg.doneStatus "In Review")

/-- `github_project_status_name_for_outcome` of a completed run. -/
def githubTargetStatus : String := "Review"

/-- The labels of a completed run. -/
def doneLabels (cfg : SyncConfig) : List String := if strip cfg.doneLabel = "" then [] else [cfg.doneLabel]

/-! ## Updating a Linear issue -/

/-- The arguments of one update: the issue under `idKey`, the status under each of `statusKeys`
and the labels under each of `labelKeys`. -/
structure Attempt where
  idKey : String
  statusKeys : List String
  labelKeys : List String
  deriving DecidableEq, Repr

/-- The spellings of the fields, the most likely first. -/
def fieldVariants (labelled : Bool) : List (List String × List String) :=
  let paired := [(["state"], ["labels"]), (["status"], ["labels"]), (["stateName"], ["labelNames"])]
  let alone := [(["state"], []), (["status"], []), (["state_name"], []), (["stateName"], [])]
  let labels := [([], ["labels"]), ([], ["label_names"]), ([], ["labelNames"])]
  let all := (["status", "state", "state_name"], if labelled then ["labels", "label_names"] else [])
  ((["state"], []) :: (if labelled then paired else []) ++ alone ++ (if labelled then labels else []) ++ [all]).eraseDups

/-- Every spelling of the fields under every spelling of the issue. -/
def updateAttempts (labelled : Bool) : List Attempt :=
  (fieldVariants labelled).flatMap fun v => ["id", "issue_id", "issueId", "identifier"].map fun key => ⟨key, v.1, v.2⟩

/-- The first attempt that is accepted; the answers are counted from `k`. -/
def firstAccepted (answers : Nat → Option String) : Nat → List Attempt → Option Attempt
  | _, [] => none
  | k, a :: rest => if (answers k).isNone then some a else firstAccepted answers (k + 1) rest

/-- The issue a task is linked to. -/
def issueId (task : Dict) : String :=
  let source := (sourceOf task).getD []
  strip (py.text ((source.get "issue_id").or ((source.get "id").or ((source.get "identifier").or (source.get "item")))))

/-- The attempts for the labels of a completed run. -/
def attemptsFor (cfg : SyncConfig) : List Attempt := updateAttempts (decide (doneLabels cfg ≠ []))

/-- The warning of `linear_update_issue`. -/
def linearUpdateIssue (cfg : SyncConfig) (task : Dict) (answers : Nat → Option String) : Option String :=
  if issueId py task = "" then some "No linked Linear issue metadata available for update sync."
  else match firstAccepted answers 0 (attemptsFor cfg) with
    | some _ => none
    | none => some ((answers ((attemptsFor cfg).length - 1)).getD "Linear issue update failed.")

/-- Linear took a call that names the status. -/
def statusTaken (cfg : SyncConfig) (task : Dict) (answers : Nat → Option String) : Bool :=
  decide (issueId py task ≠ "") && (firstAccepted answers 0 (attemptsFor cfg)).any fun a => !a.statusKeys.isEmpty

end

/-! ## The state and the calls -/

/-- What became of the status of the completed run: nothing was attempted, it waits in the outbox,
it reached the remote system, or it was given up. -/
inductive Write where
  | unsent | pending | dispatched | refused
  deriving DecidableEq, Repr

/-- A message put into the outbox. -/
structure Entry where
  kind : String
  aggregateId : String
  payload : Dict
  dedupeKey : String

/-- The outbox, and what became of the status. -/
structure Remote where
  outbox : List Entry := []
  write : Write := .unsent

abbrev Sync := EStateM String Remote

/-- The calls by which a step is told: the event, the status file, the blackboard and its
snapshot. -/
abbrev Notice := List (Meets String)

/-- A call to a server that may be refused; the exception is caught and told as a warning. -/
structure ServerCall where
  refused : Option String := none
  notice : Notice := []
  warning : Notice := []

/-- The call with its notice or its warning. -/
def ServerCall.attempt (s : ServerCall) : Sync Bool := do
  if s.refused.isSome then
    calls s.warning
    return false
  else
    calls s.notice
    return true

/-- `_connect_github_for_phase` and `_connect_linear_for_phase` where the server is not required;
without it the status is given up. -/
def connectForPhase (s : ServerCall) : Sync Bool := do
  modify fun r => { r with write := if s.refused.isSome then .refused else r.write }
  s.attempt

/-- What one item of `_dispatch_outbox_now` says. -/
structure Item where
  runId : String
  kind : String
  status : String
  terminal : Bool := false
  notice : Notice := []

/-- What a sync meets. -/
structure SyncCalls where
  enqueueStatus : Meets String := none
  enqueueComment : Meets String := none
  tick : Meets String := none
  items : List Item := []
  tickWarning : Notice := []
  connect : ServerCall := {}
  updateIssue : Nat → Option String := fun _ => none
  updateWarning : Notice := []
  comment : Meets String := none
  board : Notice := []
  lookup : Meets String := none
  serverConnected : Bool := true
  disconnect : ServerCall := {}

/-- The run, its task and what the sync is told to send. -/
structure Request where
  runId : String
  task : Dict
  summary : String := "Run completed successfully."

section
variable (py : Python)

/-- `str(task.get("task_id") or run_id)`. -/
def Request.aggregateId (q : Request) : String := py.str ((q.task.get "task_id").or (.str q.runId))

def Request.entry (q : Request) (kind suffix : String) (fields : Dict) : Entry where
  kind := kind
  aggregateId := q.aggregateId py
  payload := [("run_id", .str q.runId), ("outcome", .str "completed"), ("summary", .str q.summary)] ++ fields ++
    [("task", .obj q.task)]
  dedupeKey := q.runId ++ suffix

def enqueue (e : Entry) (r : Remote) : Remote := { r with outbox := r.outbox ++ [e] }

/-- The status waits in the outbox. -/
def enqueueStatus (e : Entry) (r : Remote) : Remote := { enqueue e r with write := .pending }

def Item.failed (i : Item) : Bool := decide (py.lower (strip i.status) ≠ "dispatched")

/-- What an item says of the status. -/
def Item.write (i : Item) : Write := if i.failed py then if i.terminal then .refused else .pending else .dispatched

/-- What the items of a tick say of the status of a run, which waits where none of them is about it. -/
def settled (runId kind : String) (items : List Item) : Write :=
  ((items.filter fun i => decide (i.runId = runId ∧ strip i.kind = kind)).getLast?.map (Item.write py)).getD .pending

/-- The loop over the items of a tick. -/
def readItems (runId : String) : List Item → Sync Bool
  | [] => pure false
  | i :: rest => do
    if i.runId ≠ runId then readItems runId rest
    else if i.failed py then
      let later ← readItems runId rest
      return i.terminal || later
    else
      calls i.notice
      readItems runId rest

/-- `_disconnect_github_for_coding`. -/
def disconnectGithub (s : SyncCalls) : Sync Unit := do
  call s.lookup
  if s.serverConnected then
    let _ ← s.disconnect.attempt

/-- A tick of the outbox and what it says of this run. -/
def dispatch (q : Request) (kind : String) (s : SyncCalls) : Sync Bool := do
  effect s.tick fun r => { r with write := settled py q.runId kind s.items }
  let lost ← readItems py q.runId s.items
  calls (if lost then s.tickWarning else [])
  calls s.board
  return lost

/-- `_finalize_linear_sync` behind its guard; `store` says that a coordination store was given. -/
def linearSync (cfg : SyncConfig) (q : Request) (store : Bool) (mode : String) (s : SyncCalls) : Sync Bool := do
  let commented := mode = "status_comment" ∨ mode = "rich"
  if store then
    effect s.enqueueStatus (enqueueStatus (q.entry py "linear_issue.status_update" ":linear:finalize-status"
      [("target_status", .str (linearTargetStatus cfg)), ("labels", .arr ((doneLabels cfg).map .str))]))
    if commented then
      effect s.enqueueComment (enqueue (q.entry py "linear_issue.comment" ":linear:finalize-comment" []))
    dispatch py q "linear_issue.status_update" s
  else if ← connectForPhase s.connect then
    modify fun r => { r with write := if statusTaken py cfg q.task s.updateIssue then .dispatched else .refused }
    -- an empty warning is none
    if (linearUpdateIssue py cfg q.task s.updateIssue).getD "" ≠ "" then
      calls s.updateWarning
    else
      -- the issue is known here, so that the comment is taken or the call raises
      if commented then call s.comment
      calls s.board
    return false
  else
    return false

/-- `_finalize_linear_sync`. -/
def finalizeLinearSync (cfg : SyncConfig) (q : Request) (store : Bool) (sourceType : String) (s : SyncCalls) :
    Sync Bool :=
  let mode := linearRemoteSyncMode py cfg sourceType
  if mode = "off" ∨ ¬ covers (linearMcpScope py cfg sourceType) then pure false
  else linearSync py cfg q store mode s

/-- `_finalize_github_sync` behind its guards. -/
def githubSync (q : Request) (store : Bool) (mode scope : String) (s : SyncCalls) : Sync Bool := do
  if store then
    effect s.enqueueStatus (enqueueStatus (q.entry py "github_project.status_update" ":github:finalize-status"
      [("target_status", .str githubTargetStatus)]))
    if mode = "status_comment" then
      effect s.enqueueComment (enqueue (q.entry py "github_issue.comment" ":github:finalize-comment" []))
    let lost ← dispatch py q "github_project.status_update" s
    if scope ≠ "always" then disconnectGithub s
    return lost
  else if ← connectForPhase s.connect then
    calls s.board
    if scope ≠ "always" then disconnectGithub s
    return false
  else
    return false

/-- `_finalize_github_sync`. -/
def finalizeGithubSync (cfg : SyncConfig) (q : Request) (store : Bool) (s : SyncCalls) : Sync Bool := do
  let sourceType ← orRaise RunFinalize.attributeError (sourceType py cfg q.task)
  if sourceType = "linear" then finalizeLinearSync py cfg q store sourceType s
  else
    let mode := githubRemoteSyncMode py cfg sourceType
    let scope := githubMcpScope py cfg sourceType
    if mode = "off" ∨ ¬ covers scope then return false
    else githubSync py q store mode scope s

/-! ## Where no coordination store is given -/

def ServerCall.returns (s : ServerCall) : Bool := (if s.refused.isSome then s.warning else s.notice).all Calls.returns

def disconnectReturns (s : SyncCalls) : Bool := returns s.lookup && (!s.serverConnected || s.disconnect.returns)

/-- The mode is on, and the scope takes in the end of a run. -/
def covered (mode scope : String) : Bool := !decide (mode = "off" ∨ ¬ covers scope)

/-- The calls behind the connection to Linear return. -/
def linearReturns (cfg : SyncConfig) (q : Request) (mode : String) (s : SyncCalls) : Bool :=
  if (linearUpdateIssue py cfg q.task s.updateIssue).getD "" ≠ "" then s.updateWarning.all returns
  else (!decide (mode = "status_comment" ∨ mode = "rich") || returns s.comment) && s.board.all returns

/-- The calls behind the connection to GitHub return. -/
def githubReturns (scope : String) (s : SyncCalls) : Bool :=
  s.board.all returns && (decide (scope = "always") || disconnectReturns s)

/-- The sync returns. -/
def directReturns (cfg : SyncConfig) (q : Request) (s : SyncCalls) : Bool :=
  (sourceType py cfg q.task).any fun source =>
    if source = "linear" then
      !covered (linearRemoteSyncMode py cfg source) (linearMcpScope py cfg source) ||
        s.connect.returns && (s.connect.refused.isSome || linearReturns py cfg q (linearRemoteSyncMode py cfg source) s)
    else
      !covered (githubRemoteSyncMode py cfg source) (githubMcpScope py cfg source) ||
        s.connect.returns && (s.connect.refused.isSome || githubReturns (githubMcpScope py cfg source) s)

/-- What becomes of the status of a Linear issue. -/
def linearWrite (cfg : SyncConfig) (q : Request) (s : SyncCalls) : Write :=
  if s.connect.refused.isSome then .refused
  else if s.connect.notice.all returns then if statusTaken py cfg q.task s.updateIssue then .dispatched else .refused
  else .unsent

/-- What becomes of the status. -/
def directWrite (cfg : SyncConfig) (q : Request) (s : SyncCalls) : Write :=
  match sourceType py cfg q.task with
  | none => .unsent
  | some source =>
    if source = "linear" then
      if covered (linearRemoteSyncMode py cfg source) (linearMcpScope py cfg source) then linearWrite py cfg q s else .unsent
    else if covered (githubRemoteSyncMode py cfg source) (githubMcpScope py cfg source) then
      if s.connect.refused.isSome then .refused else .unsent
    else .unsent

end

section
variable {py : Python} {cfg : SyncConfig} {q : Request} {s : SyncCalls} {r : Remote}

theorem attempt_eq (c : ServerCall) :
    c.attempt = calls (if c.refused.isSome then c.warning else c.notice) >>= fun _ => pure c.refused.isNone := by
  unfold ServerCall.attempt
  cases c.refused <;> rfl

theorem isOk_attempt_bind {α : Type} {c : ServerCall} {k : Bool → Sync α} :
    isOk ((c.attempt >>= k) r) = (c.returns && isOk (k c.refused.isNone r)) := by
  rw [attempt_eq, bind_assoc, isOk_calls_bind]
  rfl

theorem isOk_disconnectGithub : isOk (disconnectGithub s r) = disconnectReturns s := by
  unfold disconnectGithub disconnectReturns
  have hcall := isOk_effect_bind (c := s.lookup) (f := id) (s := r)
    (g := fun _ => if s.serverConnected then (do let _ ← s.disconnect.attempt) else pure ())
  refine hcall.trans ?_
  cases s.serverConnected with
  | false => rfl
  | true => exact congrArg _ (isOk_attempt_bind.trans (Bool.and_true _))

/-- The connection, and whether it stands. -/
theorem isOk_connectForPhase_bind {α : Type} {c : ServerCall} {k : Bool → Sync α} :
    isOk ((connectForPhase c >>= k) r) = (c.returns && isOk (k c.refused.isNone
      { r with write := if c.refused.isSome then .refused else r.write })) := by
  unfold connectForPhase
  rw [bind_assoc]
  exact isOk_attempt_bind

theorem isOk_githubSync (mode scope : String) :
    isOk (githubSync py q false mode scope s r) =
      (s.connect.returns && (s.connect.refused.isSome || githubReturns scope s)) := by
  unfold githubSync
  rw [if_neg Bool.false_ne_true, isOk_connectForPhase_bind]
  cases s.connect.refused with
  | some message => rfl
  | none =>
    rw [Option.isNone_none, if_pos rfl, isOk_calls_bind]
    unfold githubReturns
    by_cases hscope : scope = "always"
    · simp [hscope, isOk, pure, EStateM.pure]
    · rw [if_pos hscope, decide_eq_false hscope, isOk_bind_pure, isOk_disconnectGithub]
      rfl

theorem isOk_linearSync (mode : String) :
    isOk (linearSync py cfg q false mode s r) =
      (s.connect.returns && (s.connect.refused.isSome || linearReturns py cfg q mode s)) := by
  unfold linearSync
  rw [if_neg Bool.false_ne_true, isOk_connectForPhase_bind]
  cases s.connect.refused with
  | some message => rfl
  | none =>
    rw [Option.isNone_none, if_pos rfl, isOk_modify_bind, Option.isSome_none, Bool.false_or]
    unfold linearReturns
    by_cases hwarning : (linearUpdateIssue py cfg q.task s.updateIssue).getD "" ≠ ""
    · rw [if_pos hwarning, if_pos hwarning, isOk_calls_bind, isOk_pure, Bool.and_true]
    · rw [if_neg hwarning, if_neg hwarning]
      by_cases hcommented : mode = "status_comment" ∨ mode = "rich"
      · rw [if_pos hcommented, call, isOk_effect_bind, isOk_calls_bind, isOk_pure, Bool.and_true]
        simp [hcommented]
      · rw [if_neg hcommented, isOk_calls_bind, isOk_pure, Bool.and_true]
        simp [hcommented]

theorem isOk_finalizeGithubSync : isOk (finalizeGithubSync py cfg q false s r) = directReturns py cfg q s := by
  unfold finalizeGithubSync directReturns
  rw [isOk_orRaise_bind]
  congr 1
  funext source
  by_cases hsource : source = "linear"
  · rw [if_pos hsource, if_pos hsource]
    unfold finalizeLinearSync covered
    by_cases hoff : linearRemoteSyncMode py cfg source = "off" ∨ ¬ covers (linearMcpScope py cfg source)
    · rw [decide_eq_true hoff]
      simp only [if_pos hoff, isOk_pure]
      rfl
    · rw [decide_eq_false hoff]
      simp only [if_neg hoff]
      exact isOk_linearSync _
  · rw [if_neg hsource, if_neg hsource]
    unfold covered
    by_cases hoff : githubRemoteSyncMode py cfg source = "off" ∨ ¬ covers (githubMcpScope py cfg source)
    · rw [decide_eq_true hoff]
      simp only [if_pos hoff, isOk_pure]
      rfl
    · rw [decide_eq_false hoff]
      simp only [if_neg hoff]
      exact isOk_githubSync _ _

/-! ## What becomes of the status -/

variable {w : Write} {P : Remote → Prop}

/-- The status is where `w` says. -/
def At (w : Write) (r : Remote) : Prop := r.write = w

theorem keeps_attempt (c : ServerCall) : Keeps P c.attempt := by
  rw [attempt_eq]
  exact Effects.Keeps.bind (Keeps.calls _) fun _ => Effects.Keeps.pure _

theorem keeps_disconnectGithub : Keeps P (disconnectGithub s) := by
  refine Effects.Keeps.bind Keeps.call fun _ => ?_
  cases s.serverConnected with
  | false => exact Effects.Keeps.pure _
  | true => exact Effects.Keeps.bind (keeps_attempt _) fun _ => Effects.Keeps.pure _

/-- What the connection leaves of the status. -/
def connected (c : ServerCall) (w : Write) : Write := if c.refused.isSome then .refused else w

theorem leads_connectForPhase (c : ServerCall) :
    Leads (At w) (connectForPhase c) (fun b r => At (connected c w) r ∧ b = c.refused.isNone ∧
      (c.refused = none → c.notice.all returns = true))
      (fun _ r => At (connected c w) r ∧ (c.refused = none → c.notice.all returns = false)) := by
  unfold connectForPhase
  refine Leads.bind (Leads.modify (T := fun _ => At (connected c w)) ?_) fun _ => ?_
  · intro r hr
    rw [At] at hr
    rw [hr]
    rfl
  · rw [attempt_eq]
    cases hrefused : c.refused with
    | some message =>
      refine Leads.bind ((Keeps.calls _).leads fun _ _ hr => ⟨hr, fun h => by cases h⟩) fun _ => ?_
      exact Leads.pure fun _ hr => ⟨hr, rfl, fun h => by cases h⟩
    | none =>
      refine Leads.bind ((Leads.calls _).weaken (fun _ hr => hr) (fun _ _ hr => hr) fun _ _ hr => ⟨hr.1, fun _ => hr.2⟩) fun _ => ?_
      exact Leads.pure fun _ hr => ⟨hr.1, rfl, fun _ => hr.2⟩

/-- The value is `false`, and the status is where `w` says. -/
def Silent (w : Write) (failed : Bool) (r : Remote) : Prop := At w r ∧ failed = false

theorem leads_githubSync (mode scope : String) :
    Leads (At w) (githubSync py q false mode scope s) (Silent (connected s.connect w)) fun _ => At (connected s.connect w) := by
  unfold githubSync
  rw [if_neg Bool.false_ne_true]
  refine Leads.bind ((leads_connectForPhase _).weaken (fun _ h => h) (fun _ _ h => h.1) fun _ _ h => h.1) fun stands => ?_
  cases stands with
  | false => exact Leads.pure fun _ hr => ⟨hr, rfl⟩
  | true =>
    rw [if_pos rfl]
    refine Leads.bind ((Keeps.calls _).leads fun _ _ hr => hr) fun _ => ?_
    by_cases hscope : scope = "always"
    · rw [if_neg fun h => h hscope]
      exact Leads.pure fun _ hr => ⟨hr, rfl⟩
    · rw [if_pos hscope]
      refine Leads.bind (keeps_disconnectGithub.leads fun _ _ hr => hr) fun _ => ?_
      exact Leads.pure fun _ hr => ⟨hr, rfl⟩

theorem leads_linearSync (mode : String) :
    Leads (At .unsent) (linearSync py cfg q false mode s) (Silent (linearWrite py cfg q s)) fun _ => At (linearWrite py cfg q s) := by
  unfold linearSync
  rw [if_neg Bool.false_ne_true]
  have hstops : ∀ r, At (connected s.connect .unsent) r ∧ (s.connect.refused = none → s.connect.notice.all returns = false) →
      At (linearWrite py cfg q s) r := by
    rintro r ⟨hr, hnotice⟩
    rw [At, hr]
    unfold connected linearWrite
    cases hrefused : s.connect.refused with
    | some message => rfl
    | none => simp [hnotice hrefused]
  refine Leads.bind ((leads_connectForPhase _).weaken (fun _ h => h) (fun _ _ h => h) fun _ => hstops) fun stands => ?_
  refine Leads.assume fun h => ?_
  obtain ⟨rfl, hnotice⟩ := h
  cases hrefused : s.connect.refused with
  | some message =>
    refine Leads.pure fun r hr => ⟨?_, rfl⟩
    rw [At, hr]
    simp [connected, linearWrite, hrefused]
  | none =>
    have htaken : linearWrite py cfg q s = if statusTaken py cfg q.task s.updateIssue then .dispatched else .refused := by
      simp [linearWrite, hrefused, hnotice hrefused]
    rw [Option.isNone_none, if_pos rfl, htaken]
    generalize statusTaken py cfg q.task s.updateIssue = taken
    generalize (linearUpdateIssue py cfg q.task s.updateIssue).getD "" = warning
    have hcalls (ms : Notice) : Keeps (At (if taken then .dispatched else .refused)) (calls ms) := Keeps.calls ms
    refine Leads.bind (Leads.modify (T := fun _ => At (if taken then .dispatched else .refused)) fun r _ => rfl) fun _ => ?_
    by_cases hwarning : warning ≠ ""
    · rw [if_pos hwarning]
      refine Leads.bind ((hcalls _).leads fun _ _ hr => hr) fun _ => ?_
      exact Leads.pure fun _ hr => ⟨hr, rfl⟩
    · rw [if_neg hwarning]
      by_cases hcommented : mode = "status_comment" ∨ mode = "rich"
      · rw [if_pos hcommented]
        refine Leads.bind (Keeps.call.leads fun _ _ hr => hr) fun _ => ?_
        refine Leads.bind ((hcalls _).leads fun _ _ hr => hr) fun _ => ?_
        exact Leads.pure fun _ hr => ⟨hr, rfl⟩
      · rw [if_neg hcommented]
        refine Leads.bind ((hcalls _).leads fun _ _ hr => hr) fun _ => ?_
        exact Leads.pure fun _ hr => ⟨hr, rfl⟩

/-- Without a store the sync never reports a failure. -/
theorem leads_finalizeGithubSync :
    Leads (At .unsent) (finalizeGithubSync py cfg q false s) (Silent (directWrite py cfg q s))
      fun _ => At (directWrite py cfg q s) := by
  unfold finalizeGithubSync directWrite
  cases sourceType py cfg q.task with
  | none => exact Leads.raise fun _ hr => hr
  | some source =>
    refine Leads.bind (Leads.pure (Q := fun a r => At .unsent r ∧ a = source) fun _ hr => ⟨hr, rfl⟩) fun a => ?_
    refine Leads.assume fun ha => ?_
    subst ha
    by_cases hsource : a = "linear"
    · simp only [if_pos hsource]
      unfold finalizeLinearSync covered
      by_cases hoff : linearRemoteSyncMode py cfg a = "off" ∨ ¬ covers (linearMcpScope py cfg a)
      · simp only [if_pos hoff, decide_eq_true hoff]
        exact Leads.pure fun _ hr => ⟨hr, rfl⟩
      · simp only [if_neg hoff, decide_eq_false hoff]
        exact leads_linearSync _
    · simp only [if_neg hsource]
      unfold covered
      by_cases hoff : githubRemoteSyncMode py cfg a = "off" ∨ ¬ covers (githubMcpScope py cfg a)
      · simp only [if_pos hoff, decide_eq_true hoff]
        exact Leads.pure fun _ hr => ⟨hr, rfl⟩
      · simp only [if_neg hoff, decide_eq_false hoff]
        exact leads_githubSync _ _

/-- Nothing waits. -/
theorem directWrite_ne_pending : directWrite py cfg q s ≠ .pending := by
  unfold directWrite linearWrite
  intro h
  split at h
  · cases h
  · split_ifs at h

end
end BoardSync
