import TandemAgents.Effects
import TandemAgents.RunStatus
import TandemAgents.TaskIntake

/-!
# What a run works on

The coordination store, the run's status in memory and on disk, and its heartbeat
counters. Every call the run makes meets a moment of the world: what the clock says, and
whether the call raises and how far it came before it did.
-/
namespace RunContext

open KeyedTable PythonText CoordinationStore Statements Statements.Prog Effects RunStatus
open LeaseOperations WorkerOperations TaskOperations OperationRuns StoreHistories TaskIntake

set_option maxRecDepth 20000

/-- An exception: its text, and how much of the call was done when it came. -/
structure Fault where
  text : String
  done : Nat := 0

structure Moment where
  now : Int := 0
  fault : Option Fault := none

/-- `registered` says that the wrapper knows the context, `status` is `ctx.status`, and
`statusFile` is what `status.json` holds. -/
structure World where
  store : Store
  registered : Bool := false
  status : Status := {}
  statusFile : Option Status := none
  misses : Nat := 0
  lost : Bool := false

abbrev Act := EStateM String World

/-! ## Calls -/

/-- A call whose effect nothing here reads. -/
def call (m : Moment) : Act Unit :=
  match m.fault with
  | some f => throw f.text
  | none => pure ()

/-- A call of the coordination store. -/
def storeCall {α : Type} (m : Moment) (p : Sql α) : Act α := fun w =>
  match m.fault with
  | some f => .error f.text { w with store := crash f.done p ⟨w.store, none⟩ }
  | none =>
    match p.run w.store with
    | (some a, s) => .ok a { w with store := s }
    | (none, s) => .error "IntegrityError" { w with store := s }

/-- `write_status`. -/
def writeStatus (m : Moment) (s : Status) : Act Unit := fun w =>
  match m.fault with
  | some f => .error f.text { w with statusFile := if f.done = 0 then w.statusFile else some s }
  | none => .ok () { w with statusFile := some s }

/-- `ctx.status = set_status(ctx.status, ...)`: the dictionary is changed in place, then
written. -/
def setStatus (m : Moment) (c : Changes) : Act Unit := do
  modify (fun w => { w with status := updateStatus m.now c w.status })
  writeStatus m (← get).status

/-- `ctx.status = load_status(...)`. -/
def reloadStatus (m : Moment) : Act Unit := do
  call m
  modify (fun w => { w with status := w.statusFile.getD {} })

/-- `try: ... except Exception: pass`. -/
def swallow (a : Act Unit) : Act Unit := tryCatch a (fun _ => pure ())

/-! ## Run rows -/

/-- The arguments of `update_run`. -/
structure RunUpdate where
  status : Option String := none
  phase : Option String := none
  error : Option String := none
  leaseId : Option Ident := none
  branchName : Option String := none
  started : Bool := false
  completed : Bool := false

def RunUpdate.assign (now : Int) (u : RunUpdate) (r : RunRow) : RunRow :=
  { r with
    updatedAtMs := now
    status := u.status.getD r.status
    phase := u.phase.getD r.phase
    error := u.error.orElse (fun _ => r.error)
    leaseId := u.leaseId.orElse (fun _ => r.leaseId)
    branchName := u.branchName.orElse (fun _ => r.branchName)
    startedAtMs := if u.started then r.startedAtMs.orElse (fun _ => some now) else r.startedAtMs
    completedAtMs := if u.completed then some now else r.completedAtMs }

theorem RunUpdate.assign_runId (now : Int) (u : RunUpdate) (r : RunRow) : (u.assign now r).runId = r.runId := rfl

/-- `update_run`. -/
def updateRun (now : Int) (runId : String) (u : RunUpdate) : Sql (Option RunRow) := do
  match ← getRun runId with
  | none => return none
  | some _ =>
    update (runRows runId) (fun s => s.modifyRun runId (u.assign now) (u.assign_runId now))
    getRun runId

/-! ## Heartbeats of a run -/

def leaseStatusText : LeaseStatus → String
  | .active => "active"
  | .stale => "stale"
  | .completed => "completed"
  | .blocked => "blocked"
  | .failed => "failed"
  | .cancelled => "cancelled"

/-- `_TERMINAL_LEASE_STATUSES`. -/
def isTerminalLease : LeaseStatus → Bool
  | .completed => true
  | .blocked => true
  | .failed => true
  | .cancelled => true
  | _ => false

def coordinationLostThreshold : Nat := 3

/-- The columns a lease row leaves in `status["coordination"]`. -/
def mirrorLease (lease : LeaseRow) (c : Coordination) : Coordination :=
  { c with
    leaseId := some lease.leaseId
    workerId := some lease.workerId
    hostId := some lease.hostId
    taskKey := some lease.taskKey
    leaseExpiresAtMs := some lease.expiresAtMs
    leaseHeartbeatAtMs := some lease.heartbeatAtMs
    leaseStatus := leaseStatusText lease.status }

/-- The moments of one `_touch_coordination`. -/
structure TouchMoments where
  heartbeat : Moment := {}
  lookup : Moment := {}
  mirror : Moment := {}
  lost : Moment := {}
  lostEvent : Moment := {}
  update : Moment := {}

/-- The arguments of `_touch_coordination`; `ctx` says whether it is given the context. -/
structure Touch where
  ttl : Int
  status : String
  phase : String
  error : Option String := none
  completed : Bool := false
  ctx : Bool := false
  moments : TouchMoments := {}

/-- `_sync_status_coordination_from_lease`. -/
def syncStatusCoordination (m : Moment) (lease : LeaseRow) : Act Unit := do
  modify (fun w => { w with status := { w.status with
    coordination := some (mirrorLease lease (w.status.coordination.getD {})) } })
  let w ← get
  swallow (writeStatus m w.status)

/-- `_lookup_coordination_lease`. -/
def lookupLease (m : Moment) (leaseId : Ident) : Act (Option LeaseRow) :=
  tryCatch (storeCall m (getLease leaseId)) (fun _ => pure none)

/-- `_mark_coordination_heartbeat_miss`: what it leaves in `status["coordination"]`. -/
def markMiss (now : Int) (misses : Nat) (leaseId : Ident) (lease : Option LeaseRow) (c : Coordination) : Coordination :=
  let seen := match lease with
    | some row => mirrorLease row c
    | none => { c with leaseId := some leaseId, leaseStatus := "missing" }
  { seen with consecutiveHeartbeatMisses := misses, leaseHeartbeatMissedAtMs := some now }

/-- `_mark_coordination_lost_status`: its message. -/
def lostMessage (leaseId : Ident) (leaseStatus : String) (misses : Nat) : String :=
  "Lost coordination lease " ++ leaseId.text ++ (if leaseStatus = "" then "" else " status=" ++ leaseStatus) ++
    " after " ++ toString misses ++ " consecutive heartbeat misses. Another worker may have reclaimed the task."

/-- A heartbeat that missed: the counters, and after the third miss in a row the run's
own status. The answer says whether the run row was closed here. -/
def heartbeatMissed (runId : String) (t : Touch) (leaseId : Ident) (lease : Option LeaseRow) : Act Bool := do
  modify (fun w => { w with misses := w.misses + 1 })
  modify (fun w => { w with status := { w.status with
    coordination := some (markMiss t.moments.mirror.now w.misses leaseId lease (w.status.coordination.getD {})) } })
  let w ← get
  swallow (writeStatus t.moments.mirror w.status)
  if coordinationLostThreshold ≤ w.misses ∧ w.lost = false then
    let message := lostMessage leaseId (strip ((w.status.coordination.getD {}).leaseStatus)) w.misses
    modify (fun w => { w with lost := true })
    setStatus t.moments.lost
      { phase := some "coordination", phaseDetail := some "lease heartbeat repeatedly missed",
        phaseRole := some "system", runStatus := some "blocked",
        blocker := some { active := true, kind := "coordination_lost", message := message, ownerRole := "system" },
        runCompleted := true }
    swallow (call t.moments.lostEvent)
    let _ ← storeCall t.moments.update (updateRun t.moments.update.now runId
      { status := some "blocked", phase := some "coordination", error := some message, completed := true })
    return true
  else
    return false

/-- The `update_run` at the end of `_touch_coordination`. -/
def touchRun (runId : String) (t : Touch) : Act Unit := do
  let _ ← storeCall t.moments.update (updateRun t.moments.update.now runId
    { status := some t.status, phase := some t.phase, error := t.error, completed := t.completed })

/-- `_touch_coordination`. -/
def touchCoordination (runId : String) (leaseId : Option Ident) (t : Touch) : Act Bool := do
  match leaseId with
  | none =>
    touchRun runId t
    return true
  | some id =>
    match ← storeCall t.moments.heartbeat (heartbeatLease t.moments.heartbeat.now t.ttl id) with
    | some lease =>
      if t.ctx then
        modify (fun w => { w with misses := 0 })
        syncStatusCoordination t.moments.mirror lease
      touchRun runId t
      return true
    | none =>
      let current ← lookupLease t.moments.lookup id
      if current.any (fun l => isTerminalLease l.status) then
        if t.ctx then
          modify (fun w => { w with misses := 0 })
          match current with
          | some l => syncStatusCoordination t.moments.mirror l
          | none => pure ()
        return true
      else
        if t.ctx then
          if ← heartbeatMissed runId t id current then
            return false
        touchRun runId t
        return false

/-! ## Blocking a run -/

/-- The moments of one `block_run`. -/
structure BlockMoments where
  write : Moment := {}
  summary : Moment := {}
  event : Moment := {}
  update : Moment := {}

/-- What `block_run` is told; `coordination` says whether it is given the store. -/
structure BlockArgs where
  phase : String
  kind : String
  message : String
  phaseDetail : String := ""
  coordination : Bool := true
  moments : BlockMoments := {}

def BlockArgs.changes (b : BlockArgs) : Changes :=
  { phase := some b.phase, phaseDetail := some (orElse b.phaseDetail b.message), runStatus := some "blocked",
    blocker := some { active := true, kind := b.kind, message := b.message, ownerRole := "manager" },
    runCompleted := true }

/-- What `block_run` does behind its `set_status`. -/
def reportBlocked (runId : String) (b : BlockArgs) : Act Unit := do
  call b.moments.summary
  call b.moments.event
  if b.coordination then
    swallow (do
      let _ ← storeCall b.moments.update (updateRun b.moments.update.now runId
        { status := some "blocked", phase := some b.phase, error := some b.message, completed := true }))

/-- `block_run` without an existing status: it builds one of its own, and the context
keeps the one it has. -/
def blockRun (runId : String) (d : Documents) (b : BlockArgs) : Act Status := do
  let status := updateStatus b.moments.write.now b.changes (initialStatus b.moments.write.now runId d)
  writeStatus b.moments.write status
  reportBlocked runId b
  return status

/-- `block_run` on the context's status. -/
def blockContext (runId : String) (b : BlockArgs) : Act Status := do
  setStatus b.moments.write b.changes
  reportBlocked runId b
  return (← get).status

end RunContext
