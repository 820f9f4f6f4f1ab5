import Mathlib.Data.List.Infix
import TandemAgents.CoderRun

/-!
# One run

`_run_once_internal` prepares the repository, takes its task in, claims it, and hands it
to the coder backend or to the planning phases. Around all of it stands the wrapper that
turns an exception into a blocked run and gives the lease back.
-/
namespace RunOnce

open KeyedTable PythonText JsonData CoordinationStore Statements Statements.Prog Effects RunStatus RunContext
open LeaseOperations WorkerOperations TaskOperations OperationRuns StoreHistories TaskContract TaskIntake CoderRun

set_option maxRecDepth 20000

/-! ## Remote sync -/

/-- The `github_mcp` or `linear_mcp` section of the configuration. -/
structure McpConfig where
  enabled : Bool := false
  scope : String := ""
  remoteSync : String := ""

/-- `str(value or default).strip().lower()`. -/
def setting (lower : String → String) (value default : String) : String := lower (strip (orElse value default))

/-- `github_mcp_scope` and `linear_mcp_scope`; `own` is the source type of the section. -/
def mcpScope (lower : String → String) (own : String) (cfg : McpConfig) (sourceType : String) : String :=
  if !cfg.enabled then "none"
  else
    let scope := setting lower cfg.scope "none"
    if sourceType ≠ own ∧ scope ≠ "always" then "none" else scope

/-- `github_remote_sync_mode` and `linear_remote_sync_mode`. -/
def remoteSyncMode (lower : String → String) (own : String) (cfg : McpConfig) (sourceType : String) : String :=
  if mcpScope lower own cfg sourceType = "none" then "off"
  else if sourceType ≠ own then "off"
  else setting lower cfg.remoteSync "off"

/-- The check of step 9: remote sync is configured for the source, and its server is
not enabled. -/
def syncRefused (lower : String → String) (own : String) (cfg : McpConfig) (sourceType scope remoteSync : String) :
    Bool :=
  decide (sourceType = own) && decide (setting lower cfg.remoteSync "off" ≠ "off") &&
    ["intake_finalize", "always"].contains (setting lower cfg.scope "none") &&
    (decide (scope = "none") || decide (remoteSync = "off"))

/-! ## What a run is given -/

/-- A change of `ctx.status` that leaves its `coordination` entry alone. -/
structure StatusEdit where
  edit : Status → Status
  keeps : ∀ s, (edit s).coordination = s.coordination

/-- What a phase does to the store and to `ctx.status`. -/
inductive PhaseStep where
  | call (m : Moment)
  | store (m : Moment) (op : Op)
  | touch (t : Touch)
  | edit (e : StatusEdit)
  | write (m : Moment)

/-- How the phases end: with a result of their own, with that of the context, or with an
exception. -/
inductive PhaseEnd where
  | returned (status : Status)
  | makeResult
  | raised (text : String)

inductive Later where
  | coder (c : CoderArgs)
  | phases (steps : List PhaseStep) (finish : PhaseEnd)

inductive Site where
  | engineHealth | resolveRepository | preflight
  | connect | normalizeTask | blackboard
  | registerBlocked | markBlocked | noteBlocked
  | checkout | registerTask | registerWorker | claimTask | markDependency
  | selectCard | claimCard | cardToTask | classifyKind | attachRepo | claimedEvent | saveBoard
  | boardSnapshot | sourceScope | remoteSync | initialStatus
  | mcpStatus | startStatus | startRun | startMark | notes | saveBlackboard | blackboardSnapshot
  | loadFinal | finalRelease
  deriving DecidableEq

/-- The calls of `block_run` a run may make before its phases. -/
inductive BlockSite where
  | intake | claim | sync | crash
  deriving DecidableEq

/-- The inputs of a run. `card` is the task its card on the board becomes, where the
board has cards. -/
structure RunArgs where
  claim : ClaimArgs
  drawn : claim.leaseId.text ≠ ""
  capabilities : String := ""
  documents : Documents := {}
  githubMcp : McpConfig := {}
  linearMcp : McpConfig := {}
  taskSourceType : String := ""
  engineBlocked : Option BlockArgs := none
  preflightBlocked : Option BlockArgs := none
  intakeBlocked : Option (String × String) := none
  hasCards : Bool := false
  card : Option Task := none
  authorizationUrl : String := ""
  reprPhase : Phase → String := fun p => p.name
  call : Site → Moment := fun _ => {}
  blockMoments : BlockSite → BlockMoments := fun _ => {}
  touchStart : TouchMoments := {}
  sync : List PhaseStep := []
  later : Later

namespace RunArgs

def runId (x : RunArgs) : String := x.claim.runId
def ttl (x : RunArgs) : Int := x.claim.leaseTtlSeconds

/-- `ctx.task`, behind step 8. -/
def task (x : RunArgs) : Task :=
  if x.hasCards ∧ x.claim.task.taskId ≠ "" then
    match x.card with
    | some t => { t with source := { t.source with type := orElse t.source.type x.taskSourceType } }
    | none => x.claim.task
  else x.claim.task

/-- `ctx.source_type`. -/
def sourceType (x : RunArgs) : String := orElse x.task.source.type x.taskSourceType

end RunArgs

section
variable (env : Env) (x : RunArgs)

/-! ## Before the claim -/

/-- The phase before intake: a blocked result, or nothing. -/
def prepare : Act (Option Status) := do
  call (x.call .engineHealth)
  match x.engineBlocked with
  | some b => return some (← blockRun x.runId x.documents { b with coordination := false })
  | none =>
    call (x.call .resolveRepository)
    call (x.call .preflight)
    match x.preflightBlocked with
    | some b => return some (← blockRun x.runId x.documents b)
    | none =>
      modify (fun w => { w with registered := true })
      return none

/-- Step 3b of the intake: the task is registered as blocked. -/
def blockIntake (kind message : String) : Act Status := do
  let m := x.call .registerBlocked
  let row ← storeCall m (registerTask m.now x.claim.task x.claim.repo .blocked)
  let key := strip ((row.map (·.key)).getD "")
  if key ≠ "" then
    let n := x.call .markBlocked
    swallow (do
      let _ ← storeCall n (markTaskBlocked n.now key ⟨x.runId, none, none, none⟩ (some message)))
  call (x.call .noteBlocked)
  blockRun x.runId x.documents
    { phase := "task_resolution", kind := kind, message := message, phaseDetail := message,
      moments := x.blockMoments .intake }

/-- Steps 1 to 6 of the intake: a blocked result, or the registered task. -/
def beforeClaim : Act (Status ⊕ Option TaskRow) := do
  call (x.call .connect)
  call (x.call .normalizeTask)
  call (x.call .blackboard)
  match x.intakeBlocked with
  | some (kind, message) => return .inl (← blockIntake x kind message)
  | none =>
    call (x.call .checkout)
    let m := x.call .registerTask
    let row ← storeCall m (registerTask m.now x.claim.task x.claim.repo .queued)
    let n := x.call .registerWorker
    let _ ← storeCall n (registerWorker n.now x.claim.workerId x.claim.hostId x.claim.role "idle" x.capabilities
      none none)
    return .inr row

/-- A claim that is refused. -/
def claimRefused (registered : Option TaskRow) (answer : ClaimResult) : Act Status :=
  match answer with
  | .dependencyBlocked status task => do
    let message := blockedMessage status
    let key := blockedKey task registered
    if key ≠ "" then
      let m := x.call .markDependency
      swallow (do
        let _ ← storeCall m (markTaskBlocked m.now key ⟨x.runId, none, none, none⟩ (some message)))
    blockRun x.runId x.documents
      { phase := "task_resolution", kind := "dependency_blocked", message := message, phaseDetail := message,
        moments := x.blockMoments .claim }
  | _ =>
    blockRun x.runId x.documents
      { phase := "task_resolution", kind := "coordination", message := "Task is already leased by another worker.",
        phaseDetail := "task already has an active lease", moments := x.blockMoments .claim }

/-! ## Behind the claim -/

/-- Step 8: the board card. -/
def claimBoardCard : Act Unit := do
  if x.hasCards ∧ x.claim.task.taskId ≠ "" then
    call (x.call .selectCard)
    if x.card.isSome then
      call (x.call .claimCard)
      call (x.call .cardToTask)
      call (x.call .classifyKind)
      call (x.call .attachRepo)
      call (x.call .claimedEvent)
      call (x.call .saveBoard)
  call (x.call .boardSnapshot)

/-- `ctx.source_scope`. -/
def sourceScope : String :=
  if x.sourceType = "linear" then mcpScope env.lower "linear" x.linearMcp x.sourceType
  else mcpScope env.lower "github_project" x.githubMcp x.sourceType

/-- `ctx.remote_sync`. -/
def remoteSync : String :=
  if x.sourceType = "linear" then remoteSyncMode env.lower "linear" x.linearMcp x.sourceType
  else remoteSyncMode env.lower "github_project" x.githubMcp x.sourceType

/-- Step 9: with what the run is blocked, if its remote sync cannot work. -/
def syncBlocked : Option BlockArgs :=
  if syncRefused env.lower "github_project" x.githubMcp x.sourceType (sourceScope env x) (remoteSync env x) then
    some { phase := "github_sync", kind := "github_mcp_disabled", moments := x.blockMoments .sync,
           message := "GitHub Project remote sync is configured for this ACA task source, but GitHub MCP is not " ++
             "enabled. Refusing to mark the task complete without updating GitHub." }
  else if syncRefused env.lower "linear" x.linearMcp x.sourceType (sourceScope env x) (remoteSync env x) then
    some { phase := "linear_sync", kind := "linear_mcp_disabled", moments := x.blockMoments .sync,
           message := "Linear remote sync is configured for this ACA task source, but Linear MCP is not enabled. " ++
             "Refusing to mark the task complete without updating Linear." }
  else none

/-- The `coordination` entry of step 10. -/
def claimEntry (registered : Option TaskRow) (lease : Option LeaseRow) : Coordination where
  workerId := some x.claim.workerId
  hostId := some x.claim.hostId
  leaseId := lease.map (·.leaseId)
  taskKey := registered.map (·.key)
  leaseExpiresAtMs := lease.map (·.expiresAtMs)

/-- From the claim to the status that names its lease: a blocked result, or nothing. -/
def handOver (registered : Option TaskRow) (lease : Option LeaseRow) : Act (Option Status) := do
  claimBoardCard x
  call (x.call .sourceScope)
  call (x.call .remoteSync)
  match syncBlocked env x with
  | some b => return some (← blockRun x.runId x.documents b)
  | none =>
    call (x.call .initialStatus)
    modify (fun w => { w with status := { initialStatus (x.call .initialStatus).now x.runId x.documents with
      coordination := some (claimEntry x registered lease) } })
    return none

/-- The entry `_init_github_mcp_status` or `_init_linear_mcp_status` adds. -/
def mcpEntry : String × Json :=
  let entries : Dict := [("scope", .str (sourceScope env x)), ("remote_sync", .str (remoteSync env x)),
    ("connected", .null), ("last_action", .str "initialized"), ("warnings", .arr [])]
  if x.sourceType = "linear" then ("linear_mcp", .obj (("server", .str "") :: entries))
  else ("github_mcp", .obj entries)

/-- The rest of the intake. -/
def startRun : Act Unit := do
  modify (fun w => { w with status := { w.status with
    fields := w.status.fields.set (mcpEntry env x).1 (mcpEntry env x).2 } })
  writeStatus (x.call .mcpStatus) (← get).status
  setStatus (x.call .startStatus)
    { phase := some "task_resolution", runStatus := some "running", runStarted := true }
  let m := x.call .startRun
  let _ ← storeCall m (updateRun m.now x.runId
    { status := some "running", phase := some "task_resolution", leaseId := (← get).status.leaseId,
      branchName := x.claim.branchName, started := true })
  let _ ← touchCoordination x.runId (← get).status.leaseId
    { ttl := x.ttl, status := "running", phase := "task_resolution", moments := x.touchStart }
  markActive (x.call .startMark) x.runId "execution started"
  call (x.call .notes)
  call (x.call .saveBlackboard)
  call (x.call .blackboardSnapshot)

/-! ## The phases behind the intake -/

def runStep (runId : String) : PhaseStep → Act Unit
  | .call m => RunContext.call m
  | .store m op => do
    let _ ← storeCall m (op.prog env)
  | .touch t => do
    let _ ← touchCoordination runId (← get).status.leaseId t
  | .edit e => modify (fun w => { w with status := e.edit w.status })
  | .write m => do
    writeStatus m (← get).status

def runSteps (runId : String) : List PhaseStep → Act Unit
  | [] => pure ()
  | step :: steps => do
    runStep env runId step
    runSteps runId steps

/-- The coder backend or the planning loop: the status of the result. -/
def runLater : Act Status := do
  match x.later with
  | .coder c =>
    runCoderBackend env c x.runId x.ttl
    return (← get).status
  | .phases steps finish =>
    runSteps env x.runId steps
    match finish with
    | .returned status => return status
    | .makeResult => return (← get).status
    | .raised text => throw text

/-- What follows a granted claim. -/
def afterClaim (registered : Option TaskRow) (lease : Option LeaseRow) : Act Status := do
  match ← handOver env x registered lease with
  | some status => return status
  | none =>
    startRun env x
    runSteps env x.runId x.sync
    runLater env x

/-- `claim_task`. -/
def claim : Act ClaimResult :=
  storeCall (x.call .claimTask) (claimTask env (x.call .claimTask).now x.claim)

/-- `run_task_intake` and the phases behind it. -/
def runIntake : Act Status := do
  match ← beforeClaim x with
  | .inl status => return status
  | .inr registered =>
    match ← claim env x with
    | .claimed lease _ => afterClaim env x registered lease
    | answer => claimRefused x registered answer

/-- `_run_once_internal_impl`: the status of its result. -/
def runOnceInternalImpl : Act Status := do
  match ← prepare x with
  | some status => return status
  | none => runIntake env x

/-! ## The wrapper -/

/-- `_exception_is_linear_mcp_auth_required`. -/
def exceptionIsLinearMcpAuthRequired (detail : String) : Bool :=
  let normalized := (env.lower detail).toList
  let has := fun (marker : String) => decide (marker.toList <:+: normalized)
  decide (env.lower (strip x.taskSourceType) = "linear") &&
    ((has "500 internal server error" && has "/tool/execute" && has "127.0.0.1") ||
      (["awaiting authorization", "authorization required", "mcp oauth token refresh failed", "invalid_grant",
        "client id mismatch"].any has && (has "linear" || has "mcp" || has "oauth")))

/-- `_crash_blocker_for_exception`. -/
def crashBlocker (phase detail : String) : BlockArgs :=
  if exceptionIsLinearMcpAuthRequired env x detail then
    { phase := phase, kind := "linear_mcp_auth_required", phaseDetail := detail, moments := x.blockMoments .crash,
      message := "Linear MCP authorization is required. Reconnect the Linear MCP server in the Tandem control panel, " ++
        "then rerun this ACA task." ++
        (if x.authorizationUrl = "" then "" else " Authorization URL: " ++ x.authorizationUrl) }
  else
    { phase := phase, kind := "internal_error", phaseDetail := detail, moments := x.blockMoments .crash,
      message := "Unhandled exception: " ++ detail }

/-- `phase_str`: the spelling of the whole `phase` entry. -/
def crashPhase (w : World) : String :=
  if w.registered = true ∧ w.status.phase ≠ {} then x.reprPhase w.status.phase else "unknown"

/-- The result of last resort. -/
def lastResort (detail : String) : Status :=
  { runStatus := "blocked", blocker := { kind := "internal_error", message := detail } }

/-- What the wrapper makes of an exception. -/
def handleCrash (detail : String) : Act Status :=
  tryCatch (do
    let w ← get
    let b := crashBlocker env x (crashPhase x w) detail
    if w.registered then blockContext x.runId b else blockRun x.runId x.documents b)
    (fun _ => pure (lastResort detail))

/-- `_status_payloads_for_final_release`. -/
def finalPayloads (m : Moment) (result : Option Status) (w : World) : List Status :=
  result.toList ++ (if m.fault.isNone then w.statusFile.toList else []) ++ [w.status]

/-- The `finally` block. -/
def finalRelease (crashed : Option String) (result : Option Status) (w : World) : World :=
  match if w.registered then w.status.leaseId else none with
  | none => w
  | some id =>
    let decision := finalLeaseReleaseDecision env.lower (finalPayloads (x.call .loadFinal) result w) crashed
    let m := x.call .finalRelease
    endState (storeCall m (releaseLease m.now id decision.1 (some decision.2)) w)

/-- What the `finally` block finds: the world, the exception and the result it looks at,
and the status of what the wrapper is about to return. -/
structure Ended where
  world : World
  crashed : Option String
  result : Option Status
  returned : Status

/-- The run up to the `finally` block. -/
def runToEnd (w : World) : Ended :=
  match runOnceInternalImpl env x w with
  | .ok status t => ⟨t, none, some status, status⟩
  | .error detail t =>
    match handleCrash env x detail t with
    | .ok status u => ⟨u, some detail, none, status⟩
    | .error _ u => ⟨u, some detail, none, lastResort detail⟩

/-- `_run_once_internal`: the status of what it returns, and the world after it. -/
def runOnceInternal (w : World) : Status × World :=
  let e := runToEnd env x w
  (e.returned, finalRelease env x e.crashed e.result e.world)

end

end RunOnce
