import TandemAgents.KeyedTable
import TandemAgents.TaskContract

/-!
# The coordination store

Rows and tables of the store, the keys and payloads of tasks, and the assignments
that the statements of the operations make. Columns that hold JSON keep the value
they encode. Times are milliseconds.
-/
namespace CoordinationStore

open KeyedTable PythonText TaskContract

set_option maxRecDepth 20000

/-! ## Constants -/

def defaultLeaseTtlSeconds : Int := 300
def defaultWorkerStaleAfterSeconds : Int := 90

/-- `max(1, int(seconds or default)) * 1000`. -/
def secondsToMs (default seconds : Int) : Int := max 1 (if seconds = 0 then default else seconds) * 1000

inductive Backend where
  | sqlite | postgres
  deriving DecidableEq, Repr

/-- What the store takes from its surroundings: the database, Postgres' `hashtext`
and Python's `str.lower`. -/
structure Env where
  backend : Backend
  hashtext : String → Int
  lower : String → String

/-! ## Keys and payloads of tasks -/

/-- `_task_key`: the key and the source reference. -/
def taskKey (task : Task) : String × String :=
  let source := task.source
  let sourceType := orElse (strip source.type) "unknown"
  let taskId := orElse (strip task.taskId) (orElse (strip source.cardId)
    (orElse (strip source.item) (strip source.projectItemId)))
  let slug := slugify (task.title.getD "task")
  let ref :=
    if sourceType = "github_project" then
      let projectItemId := orElse (strip source.projectItemId) (strip source.itemId)
      strip source.owner ++ "/" ++ strip source.project ++ ":" ++
        orElse projectItemId (orElse (strip source.issueNumber) (orElse taskId slug))
    else if sourceType = "linear" then
      let project := orElse (strip source.project) (strip source.projectName)
      let issueId := orElse (strip source.issueId) (strip source.identifier)
      strip source.team ++ "/" ++ orElse project "issues" ++ ":" ++ orElse issueId (orElse taskId slug)
    else if sourceType = "kanban_board" then
      orElse (strip source.boardPath) (strip source.path) ++ ":" ++ orElse taskId slug
    else if sourceType = "local_backlog" then
      strip source.path ++ ":" ++ orElse taskId slug
    else if sourceType = "manual" then
      "manual:" ++ slugify (orElse (strip source.prompt) (task.title.getD "task")) ++ ":" ++
        orElse taskId slug
    else
      sourceType ++ ":" ++ orElse (strip source.sourceName) (orElse taskId slug)
  (sourceType ++ ":" ++ ref, ref)

/-- What `_task_payload` computes besides the key. -/
structure TaskPayload where
  taskId : Option String
  sourceType : String
  sourceRef : String
  title : String
  repoSlug : String
  repoPath : String
  boardPath : String

def taskPayload (task : Task) (repo : Repo) : TaskPayload where
  taskId := orNone (strip task.taskId)
  sourceType := orElse (strip task.source.type) "unknown"
  sourceRef := (taskKey task).2
  title := orElse (strip (task.title.getD "")) "Untitled task"
  repoSlug := orElse (strip task.repo.slug) (strip repo.slug)
  repoPath := orElse (strip task.repo.path) (strip repo.path)
  boardPath := strip task.source.boardPath

/-! ## Rows -/

/-- A row of `tasks`; the last three fields are `metadata_json`. A row is stored
under the key of the task it describes. -/
structure TaskRow where
  key : String
  payload : TaskPayload
  status : String
  state : TaskState
  claimedRunId : Option String
  claimedLeaseId : Option Ident
  claimedBy : Option Ident
  claimedHostId : Option Ident
  leaseExpiresAtMs : Option Int
  createdAtMs : Int
  updatedAtMs : Int
  task : Task
  repo : Repo
  stateReason : Option String
  keyed : (taskKey task).1 = key

structure RunRow where
  runId : String
  taskKey : String
  taskId : Option String
  repoSlug : String
  repoPath : String
  branchName : Option String
  status : String
  phase : String
  workerId : Ident
  hostId : Ident
  leaseId : Option Ident
  createdAtMs : Int
  updatedAtMs : Int
  startedAtMs : Option Int
  completedAtMs : Option Int
  error : Option String
  task : Task
  repo : Repo

structure WorkerRow where
  workerId : Ident
  hostId : Ident
  role : String
  status : String
  capabilities : String
  currentRunId : Option String
  currentLeaseId : Option Ident
  lastSeenAtMs : Int
  createdAtMs : Int
  updatedAtMs : Int
  deriving DecidableEq

inductive LeaseStatus where
  | active | stale | completed | blocked | failed | cancelled
  deriving DecidableEq, Repr

structure LeaseRow where
  leaseId : Ident
  taskKey : String
  taskId : Option String
  runId : String
  workerId : Ident
  hostId : Ident
  role : String
  status : LeaseStatus
  attempt : Nat
  acquiredAtMs : Int
  heartbeatAtMs : Int
  expiresAtMs : Int
  releasedAtMs : Option Int
  releaseReason : Option String
  task : Task
  repo : Repo
  branchName : Option String
  deriving DecidableEq

/-- `row_to_task`, as far as dependencies and the planner read it. -/
def TaskRow.toKnown (r : TaskRow) : KnownTask where
  task := r.task
  taskKey := r.key
  taskId := r.payload.taskId
  sourceType := r.payload.sourceType
  sourceRef := r.payload.sourceRef
  repoSlug := r.payload.repoSlug
  repoPath := r.payload.repoPath
  status := r.status
  state := r.state

structure Store where
  tasks : Table String TaskRow TaskRow.key
  runs : Table String RunRow RunRow.runId
  workers : Table Ident WorkerRow WorkerRow.workerId
  leases : Table Ident LeaseRow LeaseRow.leaseId

def Store.empty : Store := ⟨.empty, .empty, .empty, .empty⟩

/-- The rows a statement can lock. `activeLease` is the entry of a task key in the
partial unique index over active leases. -/
inductive RowName where
  | task (key : String)
  | run (runId : String)
  | worker (workerId : Ident)
  | lease (leaseId : Ident)
  | activeLease (key : String)
  deriving DecidableEq

/-! ## Assignments -/

namespace TaskRow

/-- The assignment of `_clear_task_claim_for_lease_locked`: the claim columns go only
where the row still names the lease. -/
def clearClaimForLease (leaseId : Ident) (now : Int) (state : TaskState) (status : String)
    (r : TaskRow) : TaskRow :=
  if r.claimedLeaseId = some leaseId then
    { r with
      status := status, state := state, updatedAtMs := now, claimedRunId := none,
      claimedLeaseId := none, claimedBy := none, claimedHostId := none, leaseExpiresAtMs := none }
  else { r with status := status, state := state, updatedAtMs := now }

/-- The claim columns set to `NULL`. -/
def clearClaim (now : Int) (r : TaskRow) : TaskRow :=
  { r with
    updatedAtMs := now, claimedRunId := none, claimedLeaseId := none, claimedBy := none,
    claimedHostId := none, leaseExpiresAtMs := none }

/-- The second `UPDATE` of a heartbeat. -/
def extendLease (now expiresAt : Int) (r : TaskRow) : TaskRow :=
  { r with leaseExpiresAtMs := some expiresAt, updatedAtMs := now }

def touch (now : Int) (r : TaskRow) : TaskRow := { r with updatedAtMs := now }

@[simp] theorem clearClaim_key (now : Int) (r : TaskRow) : (r.clearClaim now).key = r.key := rfl
@[simp] theorem extendLease_key (now e : Int) (r : TaskRow) : (r.extendLease now e).key = r.key := rfl
@[simp] theorem touch_key (now : Int) (r : TaskRow) : (r.touch now).key = r.key := rfl
@[simp] theorem touch_state (now : Int) (r : TaskRow) : (r.touch now).state = r.state := rfl
@[simp] theorem clearClaim_state (now : Int) (r : TaskRow) : (r.clearClaim now).state = r.state := rfl
@[simp] theorem extendLease_state (now e : Int) (r : TaskRow) : (r.extendLease now e).state = r.state := rfl

@[simp] theorem clearClaimForLease_key (l : Ident) (now : Int) (st : TaskState) (t : String)
    (r : TaskRow) : (r.clearClaimForLease l now st t).key = r.key := by
  unfold clearClaimForLease
  split <;> rfl

@[simp] theorem clearClaimForLease_state (l : Ident) (now : Int) (st : TaskState) (t : String)
    (r : TaskRow) : (r.clearClaimForLease l now st t).state = st := by
  unfold clearClaimForLease
  split <;> rfl

end TaskRow

namespace WorkerRow

/-- A worker left without work. -/
def release (now : Int) (status : String) (r : WorkerRow) : WorkerRow :=
  { r with status := status, currentLeaseId := none, currentRunId := none, updatedAtMs := now }

/-- A worker idled only where it still works on the lease. -/
def releaseFrom (now : Int) (leaseId : Ident) (r : WorkerRow) : WorkerRow :=
  if r.currentLeaseId = some leaseId then r.release now "idle" else r

/-- The third `UPDATE` of a heartbeat. -/
def beat (now : Int) (leaseId : Ident) (r : WorkerRow) : WorkerRow :=
  { r with lastSeenAtMs := now, updatedAtMs := now, currentLeaseId := some leaseId }

@[simp] theorem release_workerId (now : Int) (status : String) (r : WorkerRow) :
    (r.release now status).workerId = r.workerId := rfl
@[simp] theorem beat_workerId (now : Int) (leaseId : Ident) (r : WorkerRow) :
    (r.beat now leaseId).workerId = r.workerId := rfl
@[simp] theorem releaseFrom_workerId (now : Int) (leaseId : Ident) (r : WorkerRow) :
    (r.releaseFrom now leaseId).workerId = r.workerId := by
  unfold releaseFrom
  split <;> rfl

end WorkerRow

namespace LeaseRow

/-- A lease that stops being active. -/
def retire (now : Int) (status : LeaseStatus) (reason : Option String) (l : LeaseRow) : LeaseRow :=
  { l with status := status, releasedAtMs := some now, releaseReason := reason }

/-- The first `UPDATE` of a heartbeat, guarded by its `WHERE status = 'active'`. -/
def beat (now expiresAt : Int) (l : LeaseRow) : LeaseRow :=
  if l.status = .active then { l with heartbeatAtMs := now, expiresAtMs := expiresAt } else l

/-- The first `UPDATE` of a release, guarded by its `WHERE status = 'active'`. -/
def close (now : Int) (status : LeaseStatus) (reason : Option String) (l : LeaseRow) : LeaseRow :=
  if l.status = .active then l.retire now status reason else l

@[simp] theorem retire_leaseId (now : Int) (status : LeaseStatus) (reason : Option String)
    (l : LeaseRow) : (l.retire now status reason).leaseId = l.leaseId := rfl

@[simp] theorem beat_leaseId (now expiresAt : Int) (l : LeaseRow) :
    (l.beat now expiresAt).leaseId = l.leaseId := by
  unfold beat
  split <;> rfl

@[simp] theorem close_leaseId (now : Int) (status : LeaseStatus) (reason : Option String)
    (l : LeaseRow) : (l.close now status reason).leaseId = l.leaseId := by
  unfold close
  split <;> rfl

theorem retire_some_leaseId (now : Int) (status : LeaseStatus) (reason : String) (l : LeaseRow) :
    (l.retire now status (some reason)).leaseId = l.leaseId := rfl

end LeaseRow

/-! An update for a lease row keeps the key of the row it changes. -/

theorem TaskRow.clearClaimForLease_key_of (l : LeaseRow) (now : Int) (st : TaskState) (t : String) (r : TaskRow) :
    (r.clearClaimForLease l.leaseId now st t).key = r.key := TaskRow.clearClaimForLease_key _ _ _ _ r
theorem WorkerRow.beat_workerId_of (now : Int) (l : LeaseRow) (r : WorkerRow) :
    (r.beat now l.leaseId).workerId = r.workerId := rfl
theorem WorkerRow.releaseFrom_workerId_of (now : Int) (l : LeaseRow) (r : WorkerRow) :
    (r.releaseFrom now l.leaseId).workerId = r.workerId := WorkerRow.releaseFrom_workerId _ _ r

namespace Store

def modifyTask (s : Store) (k : String) (f : TaskRow → TaskRow) (hf : ∀ r, (f r).key = r.key) : Store :=
  { s with tasks := s.tasks.modify k f hf }

def modifyRun (s : Store) (k : String) (f : RunRow → RunRow) (hf : ∀ r, (f r).runId = r.runId) : Store :=
  { s with runs := s.runs.modify k f hf }

def modifyWorker (s : Store) (k : Ident) (f : WorkerRow → WorkerRow)
    (hf : ∀ r, (f r).workerId = r.workerId) : Store :=
  { s with workers := s.workers.modify k f hf }

def modifyLease (s : Store) (k : Ident) (f : LeaseRow → LeaseRow)
    (hf : ∀ r, (f r).leaseId = r.leaseId) : Store :=
  { s with leases := s.leases.modify k f hf }

def upsertTask (s : Store) (new : TaskRow) (merge : TaskRow → TaskRow)
    (hm : ∀ r, (merge r).key = new.key) : Store :=
  { s with tasks := s.tasks.upsert new merge hm }

def upsertRun (s : Store) (new : RunRow) (merge : RunRow → RunRow)
    (hm : ∀ r, (merge r).runId = new.runId) : Store :=
  { s with runs := s.runs.upsert new merge hm }

def upsertWorker (s : Store) (new : WorkerRow) (merge : WorkerRow → WorkerRow)
    (hm : ∀ r, (merge r).workerId = new.workerId) : Store :=
  { s with workers := s.workers.upsert new merge hm }

section
variable (s : Store) (k : String) (i : Ident)

@[simp] theorem modifyTask_runs (f) (hf) : (s.modifyTask k f hf).runs = s.runs := rfl
@[simp] theorem modifyTask_workers (f) (hf) : (s.modifyTask k f hf).workers = s.workers := rfl
@[simp] theorem modifyTask_leases (f) (hf) : (s.modifyTask k f hf).leases = s.leases := rfl
@[simp] theorem modifyTask_tasks (f) (hf) : (s.modifyTask k f hf).tasks = s.tasks.modify k f hf := rfl
@[simp] theorem modifyRun_tasks (f) (hf) : (s.modifyRun k f hf).tasks = s.tasks := rfl
@[simp] theorem modifyRun_workers (f) (hf) : (s.modifyRun k f hf).workers = s.workers := rfl
@[simp] theorem modifyRun_leases (f) (hf) : (s.modifyRun k f hf).leases = s.leases := rfl
@[simp] theorem modifyWorker_tasks (f) (hf) : (s.modifyWorker i f hf).tasks = s.tasks := rfl
@[simp] theorem modifyWorker_leases (f) (hf) : (s.modifyWorker i f hf).leases = s.leases := rfl
@[simp] theorem modifyWorker_workers (f) (hf) :
    (s.modifyWorker i f hf).workers = s.workers.modify i f hf := rfl
@[simp] theorem modifyLease_tasks (f) (hf) : (s.modifyLease i f hf).tasks = s.tasks := rfl
@[simp] theorem modifyLease_workers (f) (hf) : (s.modifyLease i f hf).workers = s.workers := rfl
@[simp] theorem modifyLease_leases (f) (hf) :
    (s.modifyLease i f hf).leases = s.leases.modify i f hf := rfl
@[simp] theorem upsertTask_tasks (n) (m) (hm) : (s.upsertTask n m hm).tasks = s.tasks.upsert n m hm := rfl
@[simp] theorem upsertTask_workers (n) (m) (hm) : (s.upsertTask n m hm).workers = s.workers := rfl
@[simp] theorem upsertTask_leases (n) (m) (hm) : (s.upsertTask n m hm).leases = s.leases := rfl
@[simp] theorem upsertRun_tasks (n) (m) (hm) : (s.upsertRun n m hm).tasks = s.tasks := rfl
@[simp] theorem upsertRun_workers (n) (m) (hm) : (s.upsertRun n m hm).workers = s.workers := rfl
@[simp] theorem upsertRun_leases (n) (m) (hm) : (s.upsertRun n m hm).leases = s.leases := rfl
@[simp] theorem upsertWorker_tasks (n) (m) (hm) : (s.upsertWorker n m hm).tasks = s.tasks := rfl
@[simp] theorem upsertWorker_leases (n) (m) (hm) : (s.upsertWorker n m hm).leases = s.leases := rfl
@[simp] theorem upsertWorker_workers (n) (m) (hm) :
    (s.upsertWorker n m hm).workers = s.workers.upsert n m hm := rfl
end

/-- The active lease of a task key that the unique index would find, other than the
lease with the given id. -/
def otherActive (s : Store) (key : String) (leaseId : Ident) : Option LeaseRow :=
  s.leases.rows.find? (fun l => decide (l.taskKey = key ∧ l.status = .active ∧ l.leaseId ≠ leaseId))

/-- All columns of a lease with the same id are overwritten. -/
def putLease (s : Store) (new : LeaseRow) : Store :=
  { s with leases := s.leases.upsert new (fun _ => new) (fun _ => rfl) }

@[simp] theorem putLease_tasks (s : Store) (new : LeaseRow) : (s.putLease new).tasks = s.tasks := rfl
@[simp] theorem putLease_workers (s : Store) (new : LeaseRow) : (s.putLease new).workers = s.workers := rfl
@[simp] theorem putLease_leases (s : Store) (new : LeaseRow) (k : Ident) :
    (s.putLease new).leases.find? k = if k = new.leaseId then some new else s.leases.find? k :=
  Table.find?_overwrite s.leases new (fun _ => rfl) k

/-- `INSERT INTO leases`: `idx_leases_active_task_key` refuses a second active lease of
the task. -/
def insertLease (s : Store) (new : LeaseRow) : Option Store :=
  match s.otherActive new.taskKey new.leaseId with
  | some _ => none
  | none => some (s.putLease new)

end Store

/-! ## Views of a store -/

/-- The lease with an id, when it is active. -/
def Store.activeLease? (s : Store) (leaseId : Ident) : Option LeaseRow :=
  (s.leases.find? leaseId).filter (fun l => decide (l.status = .active))

/-- No two active leases share a task key. -/
def UniqueActive (s : Store) : Prop :=
  ∀ a b, s.leases.find? a.leaseId = some a → s.leases.find? b.leaseId = some b →
    a.status = .active → b.status = .active → a.taskKey = b.taskKey → a = b

theorem insertLease_isNone {s : Store} {new : LeaseRow} :
    s.insertLease new = none ↔
      ∃ l, s.leases.find? l.leaseId = some l ∧ l.taskKey = new.taskKey ∧ l.status = .active ∧
        l.leaseId ≠ new.leaseId := by
  unfold Store.insertLease Store.otherActive
  cases h : s.leases.rows.find? (fun l =>
      decide (l.taskKey = new.taskKey ∧ l.status = .active ∧ l.leaseId ≠ new.leaseId)) with
  | some l =>
    have hp := List.find?_some h
    simp only [decide_eq_true_eq] at hp
    simp only [true_iff]
    exact ⟨l, Table.mem_rows.mp (List.mem_of_find?_eq_some h), hp.1, hp.2.1, hp.2.2⟩
  | none =>
    simp only [reduceCtorEq, false_iff]
    rintro ⟨l, hl, hk, ha, hne⟩
    have := List.find?_eq_none.mp h l (Table.mem_rows.mpr hl)
    simp [hk, ha, hne] at this

theorem insertLease_eq {s t : Store} {new : LeaseRow} (h : s.insertLease new = some t) :
    t = s.putLease new ∧
      ∀ l, s.leases.find? l.leaseId = some l → l.taskKey = new.taskKey → l.status = .active →
        l.leaseId = new.leaseId := by
  constructor
  · unfold Store.insertLease at h
    split at h
    · cases h
    · exact (Option.some.inj h).symm
  · intro l hl hk ha
    by_contra hne
    have := insertLease_isNone.mpr ⟨l, hl, hk, ha, hne⟩
    rw [h] at this
    cases this

end CoordinationStore
