import TandemAgents.GuardedRuns
import TandemAgents.OperationRuns

/-!
# Operations and the stores they reach

One constructor per store operation. A history is a run of complete operations from
the empty store, each of which may be required to meet a condition on the store it
starts from.
-/
namespace StoreHistories

open KeyedTable PythonText TaskContract CoordinationStore Statements Statements.Prog
open LeaseOperations WorkerOperations TaskOperations OperationRuns GuardedRuns

set_option maxRecDepth 20000

/-- The five `mark_task_*` operations. -/
inductive Mark where
  | claimed | active | review | blocked | done
  deriving DecidableEq, Repr

inductive Op where
  | claimTask (now : Int) (a : ClaimArgs)
  | heartbeatLease (now ttl : Int) (leaseId : Ident)
  | releaseLease (now : Int) (leaseId : Ident) (status : ReleaseStatus) (reason : Option String)
  | reapExpiredLeases (now : Int)
  | reapStaleWorkers (now staleAfterSeconds : Int)
  | registerTask (now : Int) (task : Task) (repo : Repo) (status : TaskState)
  | markTask (mark : Mark) (now : Int) (key : String) (me : RunIdentity) (leaseExpiresAtMs : Int)
      (reason : Option String)
  | operatorMove (now : Int) (key : String) (state : TaskState) (reason : Option String) (clearClaim : Bool)
  | registerWorker (now : Int) (workerId hostId : Ident) (role status capabilities : String)
      (currentRunId : Option String) (currentLeaseId : Option Ident)
  | heartbeatWorker (now : Int) (workerId : Ident) (fields : WorkerFields)

/-- What an operation returns. -/
inductive Outcome where
  | claim (r : ClaimResult)
  | lease (l : Option LeaseRow)
  | task (r : Option TaskRow)
  | leases (ls : List LeaseRow)
  | workers (ws : List (WorkerRow × Option LeaseRow))
  | worker (w : Option WorkerRow)

def markProg (mark : Mark) (now : Int) (key : String) (me : RunIdentity) (leaseExpiresAtMs : Int)
    (reason : Option String) : Sql (Option TaskRow) :=
  match mark with
  | .claimed => markTaskClaimed now key me leaseExpiresAtMs reason
  | .active => markTaskActive now key me leaseExpiresAtMs reason
  | .review => markTaskReview now key me leaseExpiresAtMs reason
  | .blocked => markTaskBlocked now key me reason
  | .done => markTaskDone now key me reason

/-- The operator's transition: no identity, and the claim cleared or not. -/
def operatorTransition (state : TaskState) (reason : Option String) (clearClaim : Bool) : Transition where
  status := some state.text
  reason := reason
  clearClaim := clearClaim

namespace Op

def prog (env : Env) : Op → Sql Outcome
  | .claimTask now a => do return .claim (← TaskOperations.claimTask env now a)
  | .heartbeatLease now ttl leaseId => do return .lease (← LeaseOperations.heartbeatLease now ttl leaseId)
  | .releaseLease now leaseId status reason => do
    return .lease (← LeaseOperations.releaseLease now leaseId status reason)
  | .reapExpiredLeases now => do return .leases (← LeaseOperations.reapExpiredLeases now)
  | .reapStaleWorkers now after => do return .workers (← WorkerOperations.reapStaleWorkers now after)
  | .registerTask now task repo status => do
    return .task (← TaskOperations.registerTask now task repo status)
  | .markTask mark now key me expires reason => do return .task (← markProg mark now key me expires reason)
  | .operatorMove now key state reason clear => do
    return .task (← transitionTaskState now key state (operatorTransition state reason clear))
  | .registerWorker now workerId hostId role status capabilities runId leaseId => do
    return .worker (some (← WorkerOperations.registerWorker now workerId hostId role status capabilities
      runId leaseId))
  | .heartbeatWorker now workerId fields => do
    return .worker (← WorkerOperations.heartbeatWorker now workerId fields)

/-- The clock value an operation works with. -/
def now : Op → Int
  | .claimTask now _ => now
  | .heartbeatLease now _ _ => now
  | .releaseLease now _ _ _ => now
  | .reapExpiredLeases now => now
  | .reapStaleWorkers now _ => now
  | .registerTask now _ _ _ => now
  | .markTask _ now _ _ _ _ => now
  | .operatorMove now _ _ _ _ => now
  | .registerWorker now _ _ _ _ _ _ _ => now
  | .heartbeatWorker now _ _ => now

/-- The store after the operation ran to its end on a connection of its own. -/
def apply (env : Env) (op : Op) (s : Store) : Store := ((op.prog env).run s).2

end Op

/-- Stores reached from the empty one by whole operations, each starting from a store
that meets `P`. -/
abbrev Reachable (env : Env) (P : Store → Op → Prop) : Store → Prop :=
  Reached (fun s op => op.apply env s) P Store.empty

/-- The store after a list of operations. -/
abbrev history (env : Env) (s : Store) (ops : List Op) : Store := after (fun s op => op.apply env s) s ops

/-! ## The store after each operation -/

theorem run_bind_pure {α β : Type} (p : Sql α) (f : α → β) (s : Store) :
    ((p >>= fun a => pure (f a)).run s).2 = (p.run s).2 := by
  simp only [run, go_bind]
  cases p.go ⟨s, none⟩ with
  | mk r c => cases r <;> rfl

section
variable (env : Env) (s : Store)

theorem apply_claimTask (now : Int) (a : ClaimArgs) :
    (Op.claimTask now a).apply env s = ((claimTask env now a).run s).2 := run_bind_pure _ _ s

theorem apply_heartbeatLease (now ttl : Int) (leaseId : Ident) :
    (Op.heartbeatLease now ttl leaseId).apply env s = ((heartbeatLease now ttl leaseId).run s).2 :=
  run_bind_pure _ _ s

theorem apply_releaseLease (now : Int) (leaseId : Ident) (status : ReleaseStatus) (reason : Option String) :
    (Op.releaseLease now leaseId status reason).apply env s =
      ((releaseLease now leaseId status reason).run s).2 := run_bind_pure _ _ s

theorem apply_reapExpiredLeases (now : Int) :
    (Op.reapExpiredLeases now).apply env s = sweepExpired now s := by
  rw [Op.apply, Op.prog, run_bind_pure, run_reapExpiredLeases]

theorem apply_reapStaleWorkers (now after : Int) :
    (Op.reapStaleWorkers now after).apply env s = sweepStaleSorted now after s := by
  rw [Op.apply, Op.prog, run_bind_pure, run_reapStaleWorkers]

theorem apply_registerTask (now : Int) (task : Task) (repo : Repo) (status : TaskState) :
    (Op.registerTask now task repo status).apply env s = registerStore now task repo status s := by
  rw [Op.apply, Op.prog, run_bind_pure, run_registerTask]

theorem apply_operatorMove (now : Int) (key : String) (state : TaskState) (reason : Option String)
    (clear : Bool) : (Op.operatorMove now key state reason clear).apply env s =
      applyStore key state now (operatorTransition state reason clear) s := by
  rw [Op.apply, Op.prog, run_bind_pure, run_transitionTaskState]

/-- The transition behind a mark. -/
def Mark.transition (mark : Mark) (me : RunIdentity) (leaseExpiresAtMs : Int) (reason : Option String) :
    TaskState × Transition :=
  let ids : Transition :=
    { runId := some me.runId, leaseId := me.leaseId, workerId := me.workerId, hostId := me.hostId,
      reason := reason }
  match mark with
  | .claimed => (.claimed, { ids with status := some "claimed", leaseExpiresAtMs := some leaseExpiresAtMs })
  | .active => (.active, { ids with status := some "active", leaseExpiresAtMs := some leaseExpiresAtMs })
  | .review => (.review, { ids with status := some "review", leaseExpiresAtMs := some leaseExpiresAtMs })
  | .blocked => (.blocked, { ids with status := some "blocked" })
  | .done => (.done, { ids with status := some "done" })

theorem apply_markTask (mark : Mark) (now : Int) (key : String) (me : RunIdentity) (expires : Int)
    (reason : Option String) : (Op.markTask mark now key me expires reason).apply env s =
      applyStore key (mark.transition me expires reason).1 now (mark.transition me expires reason).2 s := by
  rw [Op.apply, Op.prog, run_bind_pure]
  cases mark <;> exact run_transitionTaskState _ _ _ _ _

theorem apply_registerWorker (now : Int) (workerId hostId : Ident) (role status capabilities : String)
    (runId : Option String) (leaseId : Option Ident) :
    (Op.registerWorker now workerId hostId role status capabilities runId leaseId).apply env s =
      s.upsertWorker ⟨workerId, hostId, role, status, capabilities, runId, leaseId, now, now, now⟩
        (WorkerRow.keepCreated ⟨workerId, hostId, role, status, capabilities, runId, leaseId, now, now, now⟩)
        (WorkerRow.keepCreated_workerId _) := rfl

theorem apply_heartbeatWorker (now : Int) (workerId : Ident) (fields : WorkerFields) :
    (Op.heartbeatWorker now workerId fields).apply env s =
      if (s.workers.find? workerId).isSome then
        s.modifyWorker workerId (fields.assign now) (fields.assign_workerId now)
      else s := by
  rw [Op.apply, Op.prog, run_bind_pure]
  have hp : (heartbeatWorker now workerId fields).Plain := by
    refine (get_plain _).bind fun w => ?_
    cases w with
    | none => trivial
    | some w => exact (update_plain _ _).bind fun _ => get_plain _
  rw [run_plain hp, heartbeatWorker, getWorker, eff_get_bind]
  cases s.workers.find? workerId <;> rfl

end

/-! ## Two runs of one task -/

/-- A SQLite store; `lower` agrees with Python's on ASCII text. -/
def sqliteEnv : Env := ⟨.sqlite, fun _ => 0, fun s => String.ofList (s.toList.map asciiLower)⟩

/-- A manual task without dependencies. -/
def plainTask (taskId : String) : Task := { taskId := taskId, source := { type := "manual" } }

/-- The claim of a task by the run, worker and host of one letter. -/
def claimBy (letter : String) (task : Task) : ClaimArgs where
  task := task
  runId := "run-" ++ letter
  workerId := Ident.of ("worker-" ++ letter)
  hostId := Ident.of ("host-" ++ letter)
  leaseTtlSeconds := 1
  leaseId := Ident.of ("lease-" ++ letter)

/-- What a run knows about itself after a claim. -/
def ClaimArgs.identity (a : ClaimArgs) : RunIdentity :=
  ⟨a.runId, some a.leaseId, some a.workerId, some a.hostId⟩

end StoreHistories
