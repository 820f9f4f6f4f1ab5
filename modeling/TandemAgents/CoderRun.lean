import TandemAgents.RunContext

/-!
# The coder backend

A run may hand its task to the engine's coder and wait for it. `execute_coder_run` polls
until the coder is done or the wait is over, `_run_coder_backend` wraps it into the run,
and `apply_coder_result` books what came back: a finished coder ends the run, one that is
still at work leaves the run running for the supervisor.
-/
namespace CoderRun

open KeyedTable PythonText JsonData CoordinationStore Statements Statements.Prog Effects RunStatus RunContext
open LeaseOperations WorkerOperations TaskOperations OperationRuns StoreHistories TaskIntake

set_option maxRecDepth 20000

/-! ## Waiting for the coder -/

/-- What the engine answers about a coder run; a value of another shape is no answer. -/
structure CoderResponse where
  run : Dict := []
  coderRun : Dict := []
  artifacts : List Dict := []

/-- What the engine does while a coder run is executed: the exception of everything up
to its creation, the answer to `execute_all`, and the answers to the polls that start
before the deadline. -/
structure CoderAnswers where
  create : Option String := none
  execute : Except String CoderResponse := .ok {}
  polls : List (Except String CoderResponse) := []
  waitTimeout : Nat := 3600

structure CoderResult where
  coderRun : Dict
  run : Dict
  artifacts : List Dict
  status : String
  phase : String
  lastError : String
  monitorTimeout : Bool

/-- `str(d.get(key) or "").strip().lower()`. -/
def lowered (py : Python) (d : Dict) (key : String) : String := py.lower (strip (py.text (d.get key)))

/-- The statuses at which the wait loop stops. -/
def stopsWaiting (status : String) : Bool := ["completed", "failed", "blocked", "cancelled"].contains status

/-- The polling loop: the last answer, and whether the time ran out. -/
def waitLoop (py : Python) : CoderResponse → List (Except String CoderResponse) → Except String (CoderResponse × Bool)
  | last, [] => .ok (last, true)
  | _, .error text :: _ => .error text
  | _, .ok current :: polls =>
    if stopsWaiting (lowered py current.run "status") then .ok (current, false) else waitLoop py current polls

/-- `execute_coder_run`. -/
def executeCoderRun (py : Python) (a : CoderAnswers) : Except String CoderResult := do
  if let some text := a.create then
    throw text
  let (executed, executeError) := match a.execute with
    | .ok response => (response, "")
    | .error text => ({}, text)
  let (response, timedOut) ← waitLoop py {} a.polls
  let finalRun := if response.run = [] then executed.run else response.run
  let status := lowered py finalRun "status"
  let lastError := orElse (strip (py.text (finalRun.get "last_error"))) executeError
  return {
    coderRun := response.coderRun
    run := finalRun
    artifacts := response.artifacts
    status := status
    phase := lowered py finalRun "phase"
    lastError := if timedOut && !stopsWaiting status then
        "Coder run did not reach a terminal state within " ++ toString a.waitTimeout ++
          "s; Tandem may still be executing it in the background."
      else lastError
    monitorTimeout := timedOut }

/-! ## Booking the result -/

inductive CoderSite where
  | startStatus | startMark | startEvent | loadSpend
  | blockStatus | moveCard | saveBoard | boardSnapshot | blockSummary | finalizeSync | blockRelease | blockEvent
  | recordSpend | saveBlackboard | blackboardSnapshot | completedEvent
  | superviseBlackboard | superviseStatus | superviseSummary | superviseRead | superviseRun | superviseHeartbeat
  | superviseEvent | superviseMark | superviseRelease | superviseFinalize | reload
  deriving DecidableEq

/-- The inputs of the coder backend: whether the task is one the coder supports, the
reason of an exhausted budget, what the engine answers and what the other users of the
store do while the run waits. -/
structure CoderArgs where
  py : Python
  supported : Bool := true
  overBudget : Option String := none
  answers : CoderAnswers
  meanwhile : List Op := []
  call : CoderSite → Moment := fun _ => {}
  touchStart : TouchMoments := {}
  touchBlock : TouchMoments := {}

/-- `_normalize_status`. -/
def normalizeStatus (py : Python) (value : String) : String :=
  let normalized := py.lower (strip value)
  if normalized = "canceled" then "cancelled" else normalized

/-- `status in TERMINAL_CODER_STATUSES`. -/
def isTerminal (status : String) : Bool :=
  ["completed", "failed", "blocked", "cancelled", "canceled"].contains status

/-- `_coder_run_id`. -/
def coderRunId (py : Python) (runId : String) (coderRun : Dict) : String :=
  orElse (strip (py.text (coderRun.get "coder_run_id"))) (orElse (strip (py.text (coderRun.get "coderRunId")))
    (orElse (strip (py.text (coderRun.get "id"))) runId))

/-- The lease id of a run row, where the callers ask whether there is one. -/
def runLease (r : RunRow) : Option Ident := r.leaseId.filter (fun i => decide (i.text ≠ ""))

/-- The supervisor's `_touch_coordination`. -/
def superviseTouch (c : CoderArgs) (runId : String) (ttl : Int) (u : RunUpdate) : Act (Option RunRow) := do
  let existing ← storeCall (c.call .superviseRead) (getRun runId)
  let updated ← storeCall (c.call .superviseRun) (updateRun (c.call .superviseRun).now runId u)
  match (updated.orElse (fun _ => existing)).bind runLease with
  | some id =>
    if u.status = some "running" then
      let _ ← storeCall (c.call .superviseHeartbeat) (heartbeatLease (c.call .superviseHeartbeat).now ttl id)
      return updated
    else
      return updated
  | none => return updated

/-- `_apply_non_terminal`. -/
def applyNonTerminal (c : CoderArgs) (runId : String) (ttl : Int) (r : CoderResult) : Act Unit := do
  let tandemStatus := orElse (normalizeStatus c.py r.status) "running"
  let message := "Tandem coder run \x60" ++ coderRunId c.py runId r.coderRun ++ "\x60 is still \x60" ++ tandemStatus ++ "\x60."
  call (c.call .superviseBlackboard)
  setStatus (c.call .superviseStatus)
    { phase := some "coder_execution", phaseDetail := some message, runStatus := some "running",
      blocker := some { active := false } }
  let _ ← superviseTouch c runId ttl { status := some "running", phase := some "coder_execution" }
  call (c.call .superviseSummary)
  call (c.call .superviseEvent)

/-- `terminal_status`, as the status of the lease. -/
def terminalRelease (tandemStatus : String) : ReleaseStatus :=
  if tandemStatus = "completed" then .completed else if tandemStatus = "cancelled" then .cancelled else .blocked

/-- `_coordination_context`: its keys, from the status first and the run row second. -/
def coordinationContext (s : Status) (run : Option RunRow) : Coordination :=
  let raw := s.coordination.getD {}
  { taskKey := (raw.taskKey.filter (fun k => decide (k ≠ ""))).orElse (fun _ => run.map (·.taskKey))
    leaseId := s.leaseId.orElse (fun _ => run.bind runLease)
    workerId := (raw.workerId.filter (fun i => decide (i.text ≠ ""))).orElse (fun _ => run.map (·.workerId))
    hostId := (raw.hostId.filter (fun i => decide (i.text ≠ ""))).orElse (fun _ => run.map (·.hostId)) }

/-- `value or None`, on an identifier. -/
def present (i : Option Ident) : Option Ident := i.filter (fun i => decide (i.text ≠ ""))

/-- `_apply_terminal`. -/
def applyTerminal (c : CoderArgs) (runId : String) (ttl : Int) (r : CoderResult) : Act Unit := do
  let tandemStatus := normalizeStatus c.py r.status
  let release := terminalRelease tandemStatus
  let phase := if tandemStatus = "completed" then "handoff" else "coder_execution"
  let detail :=
    if tandemStatus = "completed" then "coder workflow completed"
    else orElse r.lastError ("Coder workflow stopped with status \x60" ++ orElse tandemStatus "unknown" ++ "\x60")
  call (c.call .superviseBlackboard)
  setStatus (c.call .superviseStatus)
    { phase := some phase, phaseDetail := some detail, runStatus := some release.text,
      blocker := if tandemStatus = "completed" then some { active := false }
        else some { active := true, kind := "coder", message := detail, ownerRole := "manager" },
      runCompleted := true }
  call (c.call .superviseSummary)
  let run ← superviseTouch c runId ttl
    { status := some release.text, phase := some phase,
      error := if tandemStatus = "completed" then none else some detail, completed := true }
  let context := coordinationContext (← get).status run
  let key := strip (context.taskKey.getD "")
  let me : RunIdentity := ⟨runId, present context.leaseId, present context.workerId, present context.hostId⟩
  if key ≠ "" then
    let m := c.call .superviseMark
    let _ ← storeCall m (if tandemStatus = "completed" then
        markTaskDone m.now key me (some "coder workflow completed")
      else markTaskBlocked m.now key me (some detail))
  if let some id := present context.leaseId then
    let m := c.call .superviseRelease
    let _ ← storeCall m (releaseLease m.now id release (some detail))
  call (c.call .superviseFinalize)
  call (c.call .superviseEvent)

/-- `apply_coder_result`. -/
def applyCoderResult (c : CoderArgs) (runId : String) (ttl : Int) (r : CoderResult) : Act Unit :=
  if isTerminal (normalizeStatus c.py r.status) then applyTerminal c runId ttl r else applyNonTerminal c runId ttl r

/-! ## The backend -/

/-- `coordination_task_context`, where all of it is there. -/
def taskContext (runId : String) (s : Status) : Option (String × RunIdentity × Int) := do
  let c ← s.coordination
  let key ← c.taskKey.filter (fun k => decide (k ≠ ""))
  let leaseId ← present c.leaseId
  let workerId ← present c.workerId
  let hostId ← present c.hostId
  let expires ← c.leaseExpiresAtMs
  return (key, ⟨runId, some leaseId, some workerId, some hostId⟩, expires)

/-- The `mark_task_active` of a run that knows its claim. -/
def markActive (m : Moment) (runId reason : String) : Act Unit := do
  match taskContext runId (← get).status with
  | none => pure ()
  | some (key, me, expires) =>
    let _ ← storeCall m (markTaskActive m.now key me expires (some reason))

/-- `if ctx.lease_id: ctx.coordination.release_lease(...)`. -/
def releaseOwn (m : Moment) (status : ReleaseStatus) (reason : String) : Act Unit := do
  match (← get).status.leaseId with
  | none => pure ()
  | some id =>
    let _ ← storeCall m (releaseLease m.now id status (some reason))

/-- The status of a coder backend that gives up. -/
def gaveUp (detail message : String) : Changes :=
  { phase := some "coder_execution", phaseDetail := some detail, runStatus := some "blocked",
    blocker := some { active := true, kind := "coder", message := message, ownerRole := "manager" },
    runCompleted := true }

/-- The end of a coder backend that gives up: the summary, the remote status, the lease
and the event. -/
def reportGivenUp (c : CoderArgs) (reason : String) : Act Unit := do
  call (c.call .blockSummary)
  call (c.call .finalizeSync)
  releaseOwn (c.call .blockRelease) .blocked reason
  call (c.call .blockEvent)

/-- A coder backend that gives up once it has started. -/
def giveUp (c : CoderArgs) (runId : String) (ttl : Int) (message reason : String) : Act Unit := do
  setStatus (c.call .blockStatus) (gaveUp message message)
  let _ ← touchCoordination runId (← get).status.leaseId
    { ttl := ttl, status := "blocked", phase := "coder_execution", error := some message, completed := true,
      moments := c.touchBlock }
  call (c.call .moveCard)
  call (c.call .saveBoard)
  call (c.call .boardSnapshot)
  reportGivenUp c reason

/-- The start of the coder execution. -/
def startCoder (c : CoderArgs) (runId : String) (ttl : Int) : Act Unit := do
  setStatus (c.call .startStatus)
    { phase := some "coder_execution", phaseRole := some "worker", runStatus := some "running" }
  let _ ← touchCoordination runId (← get).status.leaseId
    { ttl := ttl, status := "running", phase := "coder_execution", ctx := true, moments := c.touchStart }
  markActive (c.call .startMark) runId "coder execution started"
  call (c.call .startEvent)

/-- What happens to the store while the run waits for its coder. -/
def await (env : Env) (c : CoderArgs) : Act Unit :=
  modify (fun w => { w with store := history env w.store c.meanwhile })

/-- The run once its coder has answered. -/
def bookResult (c : CoderArgs) (runId : String) (ttl : Int) (r : CoderResult) : Act Unit := do
  let _ ← storeCall (c.call .recordSpend) (updateRun (c.call .recordSpend).now runId {})
  call (c.call .saveBlackboard)
  call (c.call .blackboardSnapshot)
  call (c.call .completedEvent)
  applyCoderResult c runId ttl r
  reloadStatus (c.call .reload)

/-- `_run_coder_backend`; what it returns is `ctx.make_result()`. -/
def runCoderBackend (env : Env) (c : CoderArgs) (runId : String) (ttl : Int) : Act Unit := do
  if !c.supported then
    setStatus (c.call .blockStatus) (gaveUp "coder backend does not support this task shape"
      "Coder backend only supports GitHub Project tasks backed by a linked issue.")
    reportGivenUp c "coder backend unsupported"
  else
    startCoder c runId ttl
    let _ ← storeCall (c.call .loadSpend) (getRun runId)
    match c.overBudget with
    | some budgetReason =>
      giveUp c runId ttl ("Per-issue budget exhausted before coder execution (" ++ budgetReason ++
        "); escalating to a human instead of spending more.") "budget exhausted"
    | none =>
      await env c
      match executeCoderRun c.py c.answers with
      | .error detail => giveUp c runId ttl detail "coder execution failed"
      | .ok r => bookResult c runId ttl r

end CoderRun
