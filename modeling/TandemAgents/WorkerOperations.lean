import Mathlib.Data.List.Sort
import TandemAgents.LeaseOperations

/-!
# Worker operations

Registration, heartbeats and the two spellings of the stale-worker sweep. A sweep
looks at the workers that hold a lease and were not seen since the cutoff; a lease
of such a worker goes when its own heartbeat is stale too, or when every working
worker of the host is stale.
-/
namespace WorkerOperations

open KeyedTable PythonText TaskContract CoordinationStore Statements Statements.Prog LeaseOperations

set_option maxRecDepth 20000

/-! ## Registration -/

/-- The upsert of `register_worker` keeps the time of the first registration. -/
def WorkerRow.keepCreated (new old : WorkerRow) : WorkerRow := { new with createdAtMs := old.createdAtMs }

@[simp] theorem WorkerRow.keepCreated_workerId (new old : WorkerRow) :
    (WorkerRow.keepCreated new old).workerId = new.workerId := rfl

/-- `register_worker`. -/
def registerWorker (now : Int) (workerId hostId : Ident) (role status capabilities : String)
    (currentRunId : Option String) (currentLeaseId : Option Ident) : Sql WorkerRow := do
  let new : WorkerRow :=
    ⟨workerId, hostId, role, status, capabilities, currentRunId, currentLeaseId, now, now, now⟩
  update (fun _ => [.worker workerId])
    (fun s => s.upsertWorker new (WorkerRow.keepCreated new) (WorkerRow.keepCreated_workerId new))
  return new

/-- The optional arguments of `heartbeat_worker`; `none` leaves a column alone. -/
structure WorkerFields where
  hostId : Option Ident := none
  role : Option String := none
  status : Option String := none
  capabilities : Option String := none
  currentRunId : Option String := none
  currentLeaseId : Option Ident := none

def WorkerFields.assign (now : Int) (f : WorkerFields) (r : WorkerRow) : WorkerRow :=
  { r with
    lastSeenAtMs := now
    updatedAtMs := now
    hostId := f.hostId.getD r.hostId
    role := f.role.getD r.role
    status := f.status.getD r.status
    capabilities := f.capabilities.getD r.capabilities
    currentRunId := f.currentRunId.orElse (fun _ => r.currentRunId)
    currentLeaseId := f.currentLeaseId.orElse (fun _ => r.currentLeaseId) }

@[simp] theorem WorkerFields.assign_workerId (now : Int) (f : WorkerFields) (r : WorkerRow) :
    (f.assign now r).workerId = r.workerId := rfl

def getWorker (workerId : Ident) : Sql (Option WorkerRow) := get (fun s => s.workers.find? workerId)

/-- `heartbeat_worker`. -/
def heartbeatWorker (now : Int) (workerId : Ident) (fields : WorkerFields) : Sql (Option WorkerRow) := do
  match ← getWorker workerId with
  | none => return none
  | some _ =>
    update (workerRows workerId)
      (fun s => s.modifyWorker workerId (fields.assign now) (fields.assign_workerId now))
    getWorker workerId

/-! ## The stale-worker sweep -/

/-- `current_lease_id IS NOT NULL AND last_seen_at_ms <= ?`. -/
def staleWorkers (cutoff : Int) (s : Store) : List WorkerRow :=
  s.workers.select (fun w => w.currentLeaseId.isSome && decide (w.lastSeenAtMs ≤ cutoff))

/-- The keys of `stale_by_host`. -/
def staleHosts (rows : List WorkerRow) : List Ident :=
  ((rows.map (·.hostId)).filter (fun h => decide (h.text ≠ ""))).dedup

/-- `SELECT COUNT(*) FROM workers WHERE host_id = ? AND current_lease_id IS NOT NULL`. -/
def workingCount (host : Ident) (s : Store) : Nat :=
  (s.workers.select (fun w => decide (w.hostId = host) && w.currentLeaseId.isSome)).length

/-- More than one worker of the host holds a lease, and all of them are stale. -/
def hostIsDead (rows : List WorkerRow) (host : Ident) (active : Nat) : Bool :=
  decide (1 < active ∧ active ≤ rows.countP (fun w => decide (w.hostId = host)))

/-- The loop that fills `dead_hosts`. -/
def findDeadHosts (rows : List WorkerRow) : List Ident → Sql (List Ident)
  | [] => return []
  | host :: hosts => do
    let active ← get (workingCount host)
    let rest ← findDeadHosts rows hosts
    return if hostIsDead rows host active then host :: rest else rest

/-- The lease a worker row points at; an empty id is not looked up. -/
def currentLease (row : WorkerRow) : Sql (Option LeaseRow) :=
  match row.currentLeaseId with
  | none => return none
  | some leaseId => if leaseId.text = "" then return none else getLease leaseId

/-- `lease_is_active and lease_owned_by_worker`. -/
def ownsActiveLease (row : WorkerRow) (lease : LeaseRow) : Bool :=
  decide (lease.status = .active ∧ lease.workerId = row.workerId)

/-- `lease_heartbeat_stale or host_is_dead`. -/
def leaseIsStale (cutoff : Int) (dead : List Ident) (row : WorkerRow) (lease : LeaseRow) : Bool :=
  decide (lease.heartbeatAtMs ≤ cutoff) || dead.contains row.hostId

/-- The body of the sweep's loop: the reported worker, and its lease when that was
retired. A worker whose own active lease is healthy is skipped. -/
def reapStaleWorker (now cutoff : Int) (dead : List Ident) (row : WorkerRow) :
    Sql (Option (WorkerRow × Option LeaseRow)) := do
  match (← currentLease row).filter (ownsActiveLease row) with
  | none =>
    releaseWorker now "idle" row.workerId
    return some (row, none)
  | some lease =>
    if leaseIsStale cutoff dead row lease then
      retireLease now "worker stale" lease.leaseId
      clearTaskClaimForLease lease.taskKey lease.leaseId now .stale "stale"
      releaseWorker now "idle" row.workerId
      return some (row, some lease)
    else
      return none

/-- The loop over the stale workers. -/
def reapStaleRows (now cutoff : Int) (dead : List Ident) :
    List WorkerRow → Sql (List (WorkerRow × Option LeaseRow))
  | [] => return []
  | row :: rows => do
    let reported ← reapStaleWorker now cutoff dead row
    let rest ← reapStaleRows now cutoff dead rows
    return reported.toList ++ rest

/-- `_reap_stale_workers_locked`. -/
def reapStaleWorkersLocked (now : Int) (staleAfterSeconds : Int) : Sql Unit := do
  let cutoff := now - secondsToMs defaultWorkerStaleAfterSeconds staleAfterSeconds
  let rows ← get (staleWorkers cutoff)
  let dead ← findDeadHosts rows (staleHosts rows)
  let _ ← reapStaleRows now cutoff dead rows
  return ()

/-- `reap_stale_workers`, which takes the rows in the order of `last_seen_at_ms`. -/
def reapStaleWorkers (now : Int) (staleAfterSeconds : Int) : Sql (List (WorkerRow × Option LeaseRow)) := do
  let cutoff := now - secondsToMs defaultWorkerStaleAfterSeconds staleAfterSeconds
  beginTransaction
  let rows ← get (fun s => (staleWorkers cutoff s).insertionSort (fun a b => a.lastSeenAtMs ≤ b.lastSeenAtMs))
  let dead ← findDeadHosts rows (staleHosts rows)
  let stale ← reapStaleRows now cutoff dead rows
  commitTransaction
  return stale

end WorkerOperations
