import TandemAgents.Statements
import TandemAgents.CoordinationStore

/-!
# Lease operations

The operations of the leases mixin and the claim-clearing statements they share
with the other mixins, one statement of the source per statement here. `now` is the
clock value the operation reads before it opens its connection.
-/
namespace LeaseOperations

open KeyedTable PythonText TaskContract CoordinationStore Statements Statements.Prog

set_option maxRecDepth 20000

abbrev Sql := Prog Store RowName

/-! ## Rows that statements lock -/

def taskRows (key : String) (s : Store) : List RowName :=
  if (s.tasks.find? key).isSome then [.task key] else []

def workerRows (workerId : Ident) (s : Store) : List RowName :=
  if (s.workers.find? workerId).isSome then [.worker workerId] else []

/-- `WHERE lease_id = ?`; the row is also an entry of the index over active leases. -/
def leaseRows (leaseId : Ident) (s : Store) : List RowName :=
  match s.leases.find? leaseId with
  | none => []
  | some l => [.lease leaseId, .activeLease l.taskKey]

/-- `WHERE lease_id = ? AND status = 'active'`. -/
def activeLeaseRows (leaseId : Ident) (s : Store) : List RowName :=
  if (s.activeLease? leaseId).isSome then leaseRows leaseId s else []

/-- The row count of an `UPDATE ... WHERE lease_id = ? AND status = 'active'`. -/
def activeLeaseCount (leaseId : Ident) (s : Store) : Nat := (s.activeLease? leaseId).toList.length

/-! ## Shared statements -/

def getLease (leaseId : Ident) : Sql (Option LeaseRow) := get (fun s => s.leases.find? leaseId)

def getTask (key : String) : Sql (Option TaskRow) := get (fun s => s.tasks.find? key)

/-- `_clear_task_claim_for_lease_locked`. -/
def clearTaskClaimForLease (key : String) (leaseId : Ident) (now : Int) (state : TaskState)
    (status : String) : Sql Unit :=
  update (taskRows key)
    (fun s => s.modifyTask key (TaskRow.clearClaimForLease leaseId now state status)
      (TaskRow.clearClaimForLease_key leaseId now state status))

/-- `UPDATE workers SET status = ?, current_lease_id = NULL, ... WHERE worker_id = ?`. -/
def releaseWorker (now : Int) (status : String) (workerId : Ident) : Sql Unit :=
  update (workerRows workerId)
    (fun s => s.modifyWorker workerId (WorkerRow.release now status) (WorkerRow.release_workerId now status))

/-- `UPDATE leases SET status = 'stale', ... WHERE lease_id = ?`. -/
def retireLease (now : Int) (reason : String) (leaseId : Ident) : Sql Unit :=
  update (leaseRows leaseId)
    (fun s => s.modifyLease leaseId (LeaseRow.retire now .stale (some reason))
    (LeaseRow.retire_leaseId now .stale (some reason)))

/-! ## Heartbeats -/

/-- The second and third `UPDATE` of a heartbeat, and its final read. -/
def heartbeatTask (now expiresAt : Int) (row : LeaseRow) : Sql (Option LeaseRow) := do
  update (taskRows row.taskKey)
    (fun s => s.modifyTask row.taskKey (TaskRow.extendLease now expiresAt) (TaskRow.extendLease_key now expiresAt))
  update (workerRows row.workerId)
    (fun s => s.modifyWorker row.workerId (WorkerRow.beat now row.leaseId)
    (WorkerRow.beat_workerId now row.leaseId))
  getLease row.leaseId

/-- A heartbeat that found its lease row. -/
def heartbeatFound (now expiresAt : Int) (row : LeaseRow) : Sql (Option LeaseRow) := do
  let count ← updateCount (activeLeaseRows row.leaseId) (activeLeaseCount row.leaseId)
    (fun s => s.modifyLease row.leaseId (LeaseRow.beat now expiresAt) (LeaseRow.beat_leaseId now expiresAt))
  if count = 0 then
    return none
  heartbeatTask now expiresAt row

/-- `heartbeat_lease`. -/
def heartbeatLease (now leaseTtlSeconds : Int) (leaseId : Ident) : Sql (Option LeaseRow) := do
  match ← getLease leaseId with
  | none => return none
  | some row => heartbeatFound now (now + secondsToMs defaultLeaseTtlSeconds leaseTtlSeconds) row

/-! ## Release -/

/-- The statuses the callers of `release_lease` pass. -/
inductive ReleaseStatus where
  | completed | blocked | failed | cancelled | stale
  deriving DecidableEq, Repr

def ReleaseStatus.toLease : ReleaseStatus → LeaseStatus
  | .completed => .completed
  | .blocked => .blocked
  | .failed => .failed
  | .cancelled => .cancelled
  | .stale => .stale

def ReleaseStatus.text : ReleaseStatus → String
  | .completed => "completed"
  | .blocked => "blocked"
  | .failed => "failed"
  | .cancelled => "cancelled"
  | .stale => "stale"

/-- `_task_state_from_lease_status`. -/
def taskStateFromLeaseStatus : ReleaseStatus → TaskState
  | .completed => .done
  | .blocked => .blocked
  | .failed => .blocked
  | .cancelled => .blocked
  | .stale => .stale

/-- `"idle" if status in {"completed", "blocked", "failed"} else status`. -/
def workerStatusAfter : ReleaseStatus → String
  | .cancelled => "cancelled"
  | .stale => "stale"
  | _ => "idle"

theorem LeaseRow.close_toLease_leaseId (now : Int) (status : ReleaseStatus) (reason : Option String) (l : LeaseRow) :
    (l.close now status.toLease reason).leaseId = l.leaseId := LeaseRow.close_leaseId _ _ _ l

/-- `release_lease`: no transaction, so every statement is committed on its own. -/
def releaseLease (now : Int) (leaseId : Ident) (status : ReleaseStatus) (reason : Option String) :
    Sql (Option LeaseRow) := do
  match ← getLease leaseId with
  | none => return none
  | some row =>
    let count ← updateCount (activeLeaseRows leaseId) (activeLeaseCount leaseId)
      (fun s => s.modifyLease leaseId (LeaseRow.close now status.toLease reason)
        (LeaseRow.close_leaseId now status.toLease reason))
    if count = 0 then
      return ← getLease leaseId
    clearTaskClaimForLease row.taskKey leaseId now (taskStateFromLeaseStatus status)
      (taskStateFromLeaseStatus status).text
    releaseWorker now (workerStatusAfter status) row.workerId
    getLease leaseId

/-! ## The expiry sweep -/

/-- `SELECT * FROM leases WHERE status = 'active' AND expires_at_ms <= ?`. -/
def expiredLeases (now : Int) (s : Store) : List LeaseRow :=
  s.leases.select (fun l => decide (l.status = .active ∧ l.expiresAtMs ≤ now))

/-- The body of the sweep's loop. -/
def reapExpiredLease (now : Int) (row : LeaseRow) : Sql Unit := do
  retireLease now "expired" row.leaseId
  clearTaskClaimForLease row.taskKey row.leaseId now .stale "stale"
  releaseWorker now "idle" row.workerId

/-- `_reap_expired_leases_locked`. -/
def reapExpiredLeasesLocked (now : Int) : Sql Unit := do
  let rows ← get (expiredLeases now)
  forEach (reapExpiredLease now) rows

/-- `reap_expired_leases`. -/
def reapExpiredLeases (now : Int) : Sql (List LeaseRow) := do
  beginTransaction
  let rows ← get (expiredLeases now)
  forEach (reapExpiredLease now) rows
  commitTransaction
  return rows

end LeaseOperations
