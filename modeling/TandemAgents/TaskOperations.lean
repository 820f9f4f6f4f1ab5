import TandemAgents.WorkerOperations

/-!
# Task operations

State transitions, registration, listing and the claim of a task. `claimTask` is a
transaction: the refusals return before its `COMMIT`, so closing the connection
rolls back what the two sweeps did.
-/
namespace TaskOperations

open KeyedTable PythonText TaskContract CoordinationStore Statements Statements.Prog
open LeaseOperations WorkerOperations

set_option maxRecDepth 20000

/-! ## Transitions -/

/-- What `metadata_json` of a task row encodes. -/
structure TaskMetadata where
  task : Task
  repo : Repo
  stateReason : Option String

/-- The optional arguments of `_apply_task_state_locked`. -/
structure Transition where
  status : Option String := none
  leaseExpiresAtMs : Option Int := none
  runId : Option String := none
  leaseId : Option Ident := none
  workerId : Option Ident := none
  hostId : Option Ident := none
  reason : Option String := none
  metadata : Option (Task × Repo) := none
  clearClaim : Bool := false

/-- `{**current_metadata, **metadata}`, with the reason when there is one. -/
def Transition.metadataOf (a : Transition) (row : TaskRow) : TaskMetadata where
  task := (a.metadata.map Prod.fst).getD row.task
  repo := (a.metadata.map Prod.snd).getD row.repo
  stateReason := (a.reason.bind orNone).orElse (fun _ => row.stateReason)

/-- `COALESCE(?, column)`. -/
def coalesce {α : Type} (arg column : Option α) : Option α := arg.orElse (fun _ => column)

/-- The `UPDATE` of `_apply_task_state_locked`. The metadata was read before, from
the row of the same key. -/
def assignState (now : Int) (state : TaskState) (a : Transition) (m : TaskMetadata) (r : TaskRow) :
    TaskRow :=
  if h : (taskKey m.task).1 = r.key then
    { r with
      status := orElse (a.status.getD "") state.text
      state := state
      claimedRunId := coalesce a.runId r.claimedRunId
      claimedLeaseId := coalesce a.leaseId r.claimedLeaseId
      claimedBy := coalesce a.workerId r.claimedBy
      claimedHostId := coalesce a.hostId r.claimedHostId
      leaseExpiresAtMs := a.leaseExpiresAtMs
      updatedAtMs := now
      task := m.task
      repo := m.repo
      stateReason := m.stateReason
      keyed := h }
  else r

@[simp] theorem assignState_key (now : Int) (state : TaskState) (a : Transition) (m : TaskMetadata)
    (r : TaskRow) : (assignState now state a m r).key = r.key := by
  unfold assignState
  split <;> rfl

theorem assignState_metadataOf_key (now : Int) (state : TaskState) (a : Transition) (row r : TaskRow) :
    (assignState now state a (a.metadataOf row) r).key = r.key := assignState_key _ _ _ _ r

/-- Without new metadata the update is that of the row's own task. -/
theorem assignState_own {a : Transition} {row : TaskRow} (ha : a.metadata = none) (now : Int) (state : TaskState) :
    (assignState now state a (a.metadataOf row) row).state = state := by
  have hm : (taskKey (a.metadataOf row).task).1 = row.key := by
    rw [Transition.metadataOf, ha]
    exact row.keyed
  unfold assignState
  rw [dif_pos hm]

/-- `SELECT ... FROM leases WHERE task_key = ? AND status = 'active'`. -/
def activeLeasesOf (key : String) (s : Store) : List LeaseRow :=
  s.leases.select (fun l => decide (l.taskKey = key ∧ l.status = .active))

/-- `UPDATE leases SET status = 'stale', ... WHERE task_key = ? AND status = 'active'`. -/
def retireActiveLeases (key : String) (now : Int) (reason : String) (s : Store) : Store where
  tasks := s.tasks
  runs := s.runs
  workers := s.workers
  leases := s.leases.update (fun l => decide (l.taskKey = key ∧ l.status = .active))
    (LeaseRow.retire now .stale (some reason))
    (LeaseRow.retire_some_leaseId now .stale reason)

/-- The part of `_apply_task_state_locked` behind `clear_claim`. -/
def clearTaskClaim (key : String) (now : Int) (reason : Option String) : Sql Unit := do
  let rows ← get (activeLeasesOf key)
  if rows ≠ [] then
    update (fun s => (activeLeasesOf key s).map (fun l => .lease l.leaseId) ++ [.activeLease key])
      (retireActiveLeases key now (orElse (reason.getD "") "operator cleared task claim"))
    forEach (fun l => update (workerRows l.workerId)
      (fun s => s.modifyWorker l.workerId (WorkerRow.releaseFrom now l.leaseId)
    (WorkerRow.releaseFrom_workerId now l.leaseId))) rows
  update (taskRows key) (fun s => s.modifyTask key (TaskRow.clearClaim now) (TaskRow.clearClaim_key now))

/-- `_apply_task_state_locked`. -/
def applyTaskState (key : String) (state : TaskState) (now : Int) (a : Transition) : Sql Unit := do
  match ← getTask key with
  | none => return ()
  | some row =>
    update (taskRows key)
      (fun s => s.modifyTask key (assignState now state a (a.metadataOf row))
      (assignState_key now state a (a.metadataOf row)))
    if row.state ≠ state then
      update (taskRows key)
        (fun s => s.modifyTask key (TaskRow.touch now) (TaskRow.touch_key now))
    if a.clearClaim then
      clearTaskClaim key now a.reason

/-- `transition_task_state`. -/
def transitionTaskState (now : Int) (key : String) (state : TaskState) (a : Transition) :
    Sql (Option TaskRow) := do
  applyTaskState key state now a
  getTask key

/-- What a run passes about itself to the `mark_task_*` calls. -/
structure RunIdentity where
  runId : String
  leaseId : Option Ident
  workerId : Option Ident
  hostId : Option Ident
  deriving DecidableEq

/-- The shape all `mark_task_*` operations share. -/
def markTask (state : TaskState) (now : Int) (key : String) (me : RunIdentity)
    (leaseExpiresAtMs : Option Int) (reason : Option String) : Sql (Option TaskRow) :=
  transitionTaskState now key state
    { status := some state.text, leaseExpiresAtMs := leaseExpiresAtMs, runId := some me.runId,
      leaseId := me.leaseId, workerId := me.workerId, hostId := me.hostId, reason := reason }

def markTaskClaimed (now : Int) (key : String) (me : RunIdentity) (leaseExpiresAtMs : Int)
    (reason : Option String) : Sql (Option TaskRow) :=
  markTask .claimed now key me (some leaseExpiresAtMs) reason

def markTaskActive (now : Int) (key : String) (me : RunIdentity) (leaseExpiresAtMs : Int)
    (reason : Option String) : Sql (Option TaskRow) :=
  markTask .active now key me (some leaseExpiresAtMs) reason

def markTaskReview (now : Int) (key : String) (me : RunIdentity) (leaseExpiresAtMs : Int)
    (reason : Option String) : Sql (Option TaskRow) :=
  markTask .review now key me (some leaseExpiresAtMs) reason

def markTaskBlocked (now : Int) (key : String) (me : RunIdentity) (reason : Option String) :
    Sql (Option TaskRow) :=
  markTask .blocked now key me none reason

def markTaskDone (now : Int) (key : String) (me : RunIdentity) (reason : Option String) :
    Sql (Option TaskRow) :=
  markTask .done now key me none reason

/-! ## Registration -/

/-- `_clear_reclaimable_task_claim_locked`. -/
def clearReclaimableTaskClaim (key : String) (now : Int) : Sql Unit := do
  match ← getTask key with
  | none => return ()
  | some row =>
    match row.claimedLeaseId with
    | none => return ()
    | some leaseId =>
      if leaseId.text = "" then
        return ()
      let lease ← getLease leaseId
      if lease.any (fun l => decide (l.status = .active)) then
        return ()
      update (taskRows key) (fun s => s.modifyTask key (TaskRow.clearClaim now) (TaskRow.clearClaim_key now))

/-- A row as `register_task` and `claim_task` insert it, before any claim. -/
def newTaskRow (task : Task) (repo : Repo) (state : TaskState) (now : Int) : TaskRow where
  key := (taskKey task).1
  payload := taskPayload task repo
  status := state.text
  state := state
  claimedRunId := none
  claimedLeaseId := none
  claimedBy := none
  claimedHostId := none
  leaseExpiresAtMs := none
  createdAtMs := now
  updatedAtMs := now
  task := task
  repo := repo
  stateReason := none
  keyed := rfl

/-- The upsert of `register_task` leaves the claim columns as they were. -/
def TaskRow.keepClaim (new old : TaskRow) : TaskRow :=
  { new with
    claimedRunId := old.claimedRunId
    claimedLeaseId := old.claimedLeaseId
    claimedBy := old.claimedBy
    claimedHostId := old.claimedHostId
    leaseExpiresAtMs := old.leaseExpiresAtMs
    createdAtMs := old.createdAtMs }

@[simp] theorem TaskRow.keepClaim_key (new old : TaskRow) : (TaskRow.keepClaim new old).key = new.key := rfl
theorem TaskRow.keepClaim_newTaskRow_key (task : Task) (repo : Repo) (state : TaskState) (now : Int) (old : TaskRow) :
    (TaskRow.keepClaim (newTaskRow task repo state now) old).key = (newTaskRow task repo state now).key := rfl

/-- `register_task`. -/
def registerTask (now : Int) (task : Task) (repo : Repo) (status : TaskState) :
    Sql (Option TaskRow) := do
  let key := (taskKey task).1
  update (fun _ => [.task key]) (fun s => s.upsertTask (newTaskRow task repo status now)
    (TaskRow.keepClaim (newTaskRow task repo status now))
    (TaskRow.keepClaim_key (newTaskRow task repo status now)))
  clearReclaimableTaskClaim key now
  getTask key

/-! ## Listing -/

structure TaskFilter where
  state : Option TaskState := none
  status : Option String := none
  sourceType : Option String := none
  repoSlug : Option String := none

def TaskFilter.accepts (f : TaskFilter) (r : TaskRow) : Bool :=
  f.state.all (fun v => decide (r.state = v)) &&
  f.status.all (fun v => decide (r.status = strip v)) &&
  f.sourceType.all (fun v => decide (r.payload.sourceType = strip v)) &&
  f.repoSlug.all (fun v => decide (r.payload.repoSlug = strip v))

/-- `ORDER BY updated_at_ms DESC LIMIT max(1, limit)`. -/
def selectTasks (f : TaskFilter) (limit : Int) (s : Store) : List TaskRow :=
  ((s.tasks.select f.accepts).insertionSort (fun a b => b.updatedAtMs ≤ a.updatedAtMs)).take
    (max 1 limit).toNat

/-- `known_tasks if known_tasks else None`. -/
def knownOrNone (known : List KnownTask) : Option (List KnownTask) :=
  if known.isEmpty then none else some known

/-- `list_tasks`: each row with its dependency status among the rows listed. -/
def listTasks (env : Env) (f : TaskFilter) (limit : Int) :
    Sql (List (TaskRow × DependencyStatus)) := do
  let rows ← get (selectTasks f limit)
  return rows.map (fun row => (row, dependencyStatusForTask env.lower row.task
    (knownOrNone ((rows.filter (fun c => decide (c.key ≠ row.key))).map TaskRow.toKnown))))

/-! ## Claims -/

/-- The keyword arguments of `claim_task`, with the lease id it draws. -/
structure ClaimArgs where
  task : Task
  runId : String
  workerId : Ident
  hostId : Ident
  role : String := "coordinator"
  leaseTtlSeconds : Int := defaultLeaseTtlSeconds
  branchName : Option String := none
  repo : Repo := {}
  leaseId : Ident

def ClaimArgs.key (a : ClaimArgs) : String := (taskKey a.task).1

def ClaimArgs.expiresAt (a : ClaimArgs) (now : Int) : Int :=
  now + secondsToMs defaultLeaseTtlSeconds a.leaseTtlSeconds

inductive ClaimResult where
  | claimed (lease : Option LeaseRow) (task : Option TaskRow)
  | dependencyBlocked (status : DependencyStatus) (task : Option TaskRow)
  | activeLeaseExists (task : Option TaskRow) (lease : LeaseRow)

def ClaimResult.isClaimed : ClaimResult → Bool
  | .claimed _ _ => true
  | _ => false

/-- All other tasks of the store. -/
def knownTasks (key : String) (s : Store) : List KnownTask :=
  (s.tasks.rows.filter (fun r => decide (r.key ≠ key))).map TaskRow.toKnown

/-- `task_key = ? AND status = 'active' AND expires_at_ms > ?`, the latest first. -/
def liveLease (key : String) (now : Int) (s : Store) : Option LeaseRow :=
  ((s.leases.select (fun l => decide (l.taskKey = key ∧ l.status = .active ∧ now < l.expiresAtMs))
    ).insertionSort (fun a b => b.expiresAtMs ≤ a.expiresAtMs)).head?

/-- `_next_attempt_locked`. -/
def nextAttempt (key : String) (s : Store) : Nat :=
  (s.leases.select (fun l => decide (l.taskKey = key))).length + 1

def ClaimArgs.lease (a : ClaimArgs) (now : Int) (attempt : Nat) : LeaseRow where
  leaseId := a.leaseId
  taskKey := a.key
  taskId := (taskPayload a.task a.repo).taskId
  runId := a.runId
  workerId := a.workerId
  hostId := a.hostId
  role := a.role
  status := .active
  attempt := attempt
  acquiredAtMs := now
  heartbeatAtMs := now
  expiresAtMs := a.expiresAt now
  releasedAtMs := none
  releaseReason := none
  task := a.task
  repo := a.repo
  branchName := a.branchName

def ClaimArgs.run (a : ClaimArgs) (now : Int) : RunRow where
  runId := a.runId
  taskKey := a.key
  taskId := (taskPayload a.task a.repo).taskId
  repoSlug := (taskPayload a.task a.repo).repoSlug
  repoPath := (taskPayload a.task a.repo).repoPath
  branchName := a.branchName
  status := "created"
  phase := "bootstrap"
  workerId := a.workerId
  hostId := a.hostId
  leaseId := some a.leaseId
  createdAtMs := now
  updatedAtMs := now
  startedAtMs := none
  completedAtMs := none
  error := none
  task := a.task
  repo := a.repo

def ClaimArgs.taskRow (a : ClaimArgs) (now : Int) : TaskRow :=
  { newTaskRow a.task a.repo .claimed now with
    claimedRunId := some a.runId, claimedLeaseId := some a.leaseId, claimedBy := some a.workerId,
    claimedHostId := some a.hostId, leaseExpiresAtMs := some (a.expiresAt now) }

def ClaimArgs.worker (a : ClaimArgs) (now : Int) : WorkerRow :=
  ⟨a.workerId, a.hostId, a.role, "busy", "{}", some a.runId, some a.leaseId, now, now, now⟩

@[simp] theorem ClaimArgs.lease_leaseId (a : ClaimArgs) (now : Int) (n : Nat) :
    (a.lease now n).leaseId = a.leaseId := rfl
@[simp] theorem ClaimArgs.lease_taskKey (a : ClaimArgs) (now : Int) (n : Nat) :
    (a.lease now n).taskKey = a.key := rfl
@[simp] theorem ClaimArgs.lease_status (a : ClaimArgs) (now : Int) (n : Nat) :
    (a.lease now n).status = .active := rfl
@[simp] theorem ClaimArgs.taskRow_key (a : ClaimArgs) (now : Int) : (a.taskRow now).key = a.key := rfl

@[simp] theorem ClaimArgs.worker_workerId (a : ClaimArgs) (now : Int) :
    (a.worker now).workerId = a.workerId := rfl

/-- The transition that ends the transaction of a claim. -/
def ClaimArgs.transition (a : ClaimArgs) (now : Int) : Transition where
  status := some "claimed"
  leaseExpiresAtMs := some (a.expiresAt now)
  runId := some a.runId
  leaseId := some a.leaseId
  workerId := some a.workerId
  hostId := some a.hostId
  metadata := some (a.task, a.repo)

/-- The columns that the upsert of the run leaves as they were. -/
def ClaimArgs.mergeRun (a : ClaimArgs) (now : Int) (old : RunRow) : RunRow :=
  { a.run now with
    status := old.status
    phase := old.phase
    createdAtMs := old.createdAtMs
    startedAtMs := old.startedAtMs
    completedAtMs := old.completedAtMs
    error := old.error }

def ClaimArgs.mergeTask (a : ClaimArgs) (now : Int) (old : TaskRow) : TaskRow :=
  { a.taskRow now with createdAtMs := old.createdAtMs }

def ClaimArgs.mergeWorker (a : ClaimArgs) (now : Int) (old : WorkerRow) : WorkerRow :=
  { a.worker now with capabilities := old.capabilities, createdAtMs := old.createdAtMs }

section
variable (a : ClaimArgs) (now : Int)

@[simp] theorem ClaimArgs.mergeRun_runId (r : RunRow) : (a.mergeRun now r).runId = (a.run now).runId := rfl
@[simp] theorem ClaimArgs.mergeTask_key (r : TaskRow) : (a.mergeTask now r).key = (a.taskRow now).key := rfl
@[simp] theorem ClaimArgs.mergeWorker_workerId (r : WorkerRow) :
    (a.mergeWorker now r).workerId = (a.worker now).workerId := rfl
end

/-- The four upserts of a claim and its transition. -/
def writeClaim (now : Int) (a : ClaimArgs) (attempt : Nat) : Sql Unit := do
  insertRow (fun _ => [.lease a.leaseId, .activeLease a.key]) (fun s => s.insertLease (a.lease now attempt))
  update (fun _ => [.run a.runId]) (fun s => s.upsertRun (a.run now) (a.mergeRun now) (a.mergeRun_runId now))
  update (fun _ => [.task a.key]) (fun s => s.upsertTask (a.taskRow now) (a.mergeTask now)
      (a.mergeTask_key now))
  update (fun _ => [.worker a.workerId])
    (fun s => s.upsertWorker (a.worker now) (a.mergeWorker now) (a.mergeWorker_workerId now))
  applyTaskState a.key .claimed now (a.transition now)

/-- What a claim does once it holds its locks and has swept. -/
def decideClaim (env : Env) (now : Int) (a : ClaimArgs) : Sql ClaimResult := do
  let taskRow ← getTask a.key
  let known ← get (knownTasks a.key)
  let status := dependencyStatusForTask env.lower a.task (knownOrNone known)
  if status.blocked then
    return .dependencyBlocked status taskRow
  match ← get (liveLease a.key now) with
  | some active =>
    let row ← getTask a.key
    return .activeLeaseExists row active
  | none =>
    let attempt ← get (nextAttempt a.key)
    writeClaim now a attempt
    commitTransaction
    let lease ← getLease a.leaseId
    let row ← getTask a.key
    return .claimed lease row

/-- `_lock_task_key_locked`. -/
def lockTaskKey (env : Env) (key : String) : Sql Unit :=
  match env.backend with
  | .postgres => advisoryLock (env.hashtext key)
  | .sqlite => return ()

/-- `claim_task`. -/
def claimTask (env : Env) (now : Int) (a : ClaimArgs) : Sql ClaimResult := do
  beginTransaction
  lockTaskKey env a.key
  reapExpiredLeasesLocked now
  reapStaleWorkersLocked now defaultWorkerStaleAfterSeconds
  decideClaim env now a

end TaskOperations
