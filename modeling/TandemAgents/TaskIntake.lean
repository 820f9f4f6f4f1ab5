import TandemAgents.ReleaseCrash

/-!
# Task intake

The store operations of a run's intake: it registers its task as queued, registers
its worker, claims the task and, when the claim is refused, blocks the run. The
registration is committed before the claim is decided, so a refused run has already
moved the task out of the state its owner gave it.
-/
namespace TaskIntake

open KeyedTable PythonText TaskContract CoordinationStore Statements Statements.Prog
open LeaseOperations WorkerOperations TaskOperations OperationRuns GuardedRuns StoreHistories ReleaseCrash

set_option maxRecDepth 20000

/-- What a run brings to its intake, with the clock value of each operation. -/
structure IntakeArgs where
  claim : ClaimArgs
  capabilities : String
  registerTaskAt : Int
  registerWorkerAt : Int
  claimAt : Int
  markAt : Int
  blockAt : Int

/-- The columns `block_run` sets through `update_run`. -/
def RunRow.block (now : Int) (phase error : String) (r : RunRow) : RunRow :=
  { r with
    updatedAtMs := now, status := "blocked", phase := phase, error := some error,
    completedAtMs := some now }

theorem RunRow.block_runId (now : Int) (phase error : String) (r : RunRow) :
    (RunRow.block now phase error r).runId = r.runId := rfl

def getRun (runId : String) : Sql (Option RunRow) := get (fun s => s.runs.find? runId)

def runRows (runId : String) (s : Store) : List RowName :=
  if (s.runs.find? runId).isSome then [.run runId] else []

/-- The `update_run` of `block_run`. -/
def blockRun (now : Int) (runId phase error : String) : Sql (Option RunRow) := do
  match ← getRun runId with
  | none => return none
  | some _ =>
    update (runRows runId)
      (fun s => s.modifyRun runId (RunRow.block now phase error) (RunRow.block_runId now phase error))
    getRun runId

/-- The message of a dependency block. -/
def blockedMessage (status : DependencyStatus) : String :=
  strip (orElse (status.blockedReason.getD "") "Task dependencies are unresolved.")

/-- The key a dependency-blocked intake marks: that of the claim's task, else the
registered one. -/
def blockedKey (claimed registered : Option TaskRow) : String :=
  strip (orElse ((claimed.map (·.key)).getD "") ((registered.map (·.key)).getD ""))

/-- What the intake does with the answer to its claim. -/
def handleClaim (x : IntakeArgs) (registered : Option TaskRow) (answer : ClaimResult) (s : Store) : Store :=
  match answer with
  | .claimed _ _ => s
  | .dependencyBlocked status task =>
    let key := blockedKey task registered
    let marked :=
      if key = "" then s
      else ((markTaskBlocked x.markAt key ⟨x.claim.runId, none, none, none⟩
        (some (blockedMessage status))).run s).2
    ((blockRun x.blockAt x.claim.runId "task_resolution" (blockedMessage status)).run marked).2
  | .activeLeaseExists _ _ =>
    ((blockRun x.blockAt x.claim.runId "task_resolution" "Task is already leased by another worker.").run s).2

/-- The store after the registration of the task and of the worker. -/
def registered (x : IntakeArgs) (s : Store) : Option (Option TaskRow) × Store :=
  let task := (registerTask x.registerTaskAt x.claim.task x.claim.repo .queued).run s
  (task.1, ((registerWorker x.registerWorkerAt x.claim.workerId x.claim.hostId x.claim.role "idle"
    x.capabilities none none).run task.2).2)

/-- The store operations of an intake: the claim's answer, and the store at the end. An
operation that raises ends the intake. -/
def intake (env : Env) (x : IntakeArgs) (s : Store) : Option ClaimResult × Store :=
  let claim := (claimTask env x.claimAt x.claim).run (registered x s).2
  match claim.1 with
  | none => (none, claim.2)
  | some answer => (some answer, handleClaim x ((registered x s).1.getD none) answer claim.2)

/-- The row of a task as before, and still counted as active by the planner. -/
def Undisturbed (key : String) (s t : Store) : Prop :=
  ∃ r r', s.tasks.find? key = some r ∧ t.tasks.find? key = some r' ∧
    r'.status = r.status ∧ r'.state = r.state ∧ r'.claimedRunId = r.claimedRunId ∧
    r'.claimedLeaseId = r.claimedLeaseId ∧ r'.claimedBy = r.claimedBy ∧
    r'.claimedHostId = r.claimedHostId ∧ r'.leaseExpiresAtMs = r.leaseExpiresAtMs ∧
    r'.state.isActive = true

/-! ## A refused claim -/

/-- A refused claim leaves the store as it was. -/
theorem run_claimTask_refused {env : Env} {now : Int} {a : ClaimArgs} {s t : Store} {answer : ClaimResult}
    (h : (claimTask env now a).run s = (some answer, t)) (hr : answer.isClaimed = false) : t = s := by
  rcases run_claimTask_cases env now a s with ⟨-, hrun⟩ | ⟨l, -, -, hrun⟩ | ⟨-, -, -, hrun⟩ | ⟨u, -, -, -, hrun⟩ <;>
    rw [hrun] at h
  · exact (congrArg Prod.snd h).symm
  · exact (congrArg Prod.snd h).symm
  · cases h
  · obtain rfl := Option.some.inj (congrArg Prod.fst h)
    cases hr

theorem blockRun_plain (now : Int) (runId phase error : String) : (blockRun now runId phase error).Plain := by
  refine (get_plain _).bind fun r => ?_
  cases r with
  | none => trivial
  | some r => exact (update_plain _ _).bind fun _ => get_plain _

/-- Blocking a run touches the runs only. -/
theorem run_blockRun_tasks (now : Int) (runId phase error : String) (s : Store) :
    ((blockRun now runId phase error).run s).2.tasks = s.tasks := by
  rw [run_plain (blockRun_plain now runId phase error), blockRun, getRun, eff_get_bind]
  cases s.runs.find? runId <;> rfl

/-! ## What a refused intake leaves behind -/

/-- After a registration as queued the row is queued. -/
theorem registerStore_state (now : Int) (task : Task) (repo : Repo) (s : Store) :
    ∃ r, (registerStore now task repo .queued s).tasks.find? (taskKey task).1 = some r ∧ r.state = .queued := by
  have hrow : ∃ r, (s.upsertTask (newTaskRow task repo .queued now) (TaskRow.keepClaim (newTaskRow task repo .queued now))
      (TaskRow.keepClaim_key _)).tasks.find? (taskKey task).1 = some r ∧ r.state = .queued := by
    have hkey : (taskKey task).1 = (newTaskRow task repo .queued now).key := rfl
    rw [Store.upsertTask_tasks, Table.find?_upsert, if_pos hkey]
    refine ⟨_, rfl, ?_⟩
    cases s.tasks.find? (taskKey task).1 <;> rfl
  obtain ⟨r, hr, hs⟩ := hrow
  unfold registerStore reclaimStore
  rw [hr]
  dsimp only
  split
  · exact ⟨r, hr, hs⟩
  · split
    · exact ⟨r, hr, hs⟩
    · refine ⟨r.clearClaim now, ?_, hs⟩
      rw [Store.modifyTask_tasks, Table.find?_modify, if_pos rfl, hr]
      rfl

/-- A transition leaves its state in the row it finds, and other rows alone. -/
theorem touchStore_state {key k : String} {state : TaskState} {now : Int} {a : Transition} {row : TaskRow}
    {s : Store} (hrow : s.tasks.find? key = some row) (ha : a.metadata = none) {r : TaskRow}
    (hr : s.tasks.find? k = some r) :
    ∃ r', (touchStore key state now a row s).tasks.find? k = some r' ∧
      (r'.state = state ∨ r'.state = r.state) := by
  by_cases hk : k = key
  · subst hk
    obtain rfl := Option.some.inj (hrow.symm.trans hr)
    unfold touchStore
    split
    · refine ⟨(assignState now state a (a.metadataOf row) row).touch now, ?_, Or.inl ?_⟩
      · simp only [Store.modifyTask_tasks, Table.find?_modify, if_true, hr, Option.map_some]
      · rw [TaskRow.touch_state, assignState_own ha]
    · refine ⟨assignState now state a (a.metadataOf row) row, ?_, Or.inl (assignState_own ha now state)⟩
      simp only [Store.modifyTask_tasks, Table.find?_modify, if_true, hr, Option.map_some]
  · exact ⟨r, by rw [touchStore_tasks_other _ _ _ _ _ _ hk, hr], Or.inr rfl⟩

/-- A dependency block moves the row it hits to blocked. -/
theorem run_markTaskBlocked_state (now : Int) (key k : String) (me : RunIdentity) (reason : Option String)
    (s : Store) {r : TaskRow} (hr : s.tasks.find? k = some r) :
    ∃ r', ((markTaskBlocked now key me reason).run s).2.tasks.find? k = some r' ∧
      (r'.state = .blocked ∨ r'.state = r.state) := by
  unfold markTaskBlocked markTask
  rw [run_transitionTaskState, applyStore]
  cases hrow : s.tasks.find? key with
  | none => exact ⟨r, hr, Or.inr rfl⟩
  | some row => exact touchStore_state hrow rfl hr

/-- After a refused intake the task is queued or blocked. -/
theorem intake_refused_state {env : Env} {x : IntakeArgs} {s : Store} {answer : ClaimResult}
    (h : (intake env x s).1 = some answer) (hr : answer.isClaimed = false) :
    ∃ r, (intake env x s).2.tasks.find? x.claim.key = some r ∧ (r.state = .queued ∨ r.state = .blocked) := by
  obtain ⟨r, hrow, hq⟩ : ∃ r, (registered x s).2.tasks.find? x.claim.key = some r ∧ r.state = .queued := by
    have := registerStore_state x.registerTaskAt x.claim.task x.claim.repo s
    rw [← run_registerTask] at this
    exact this
  unfold intake at h ⊢
  dsimp only at h ⊢
  cases hc : (claimTask env x.claimAt x.claim).run (registered x s).2 with
  | mk res t =>
    rw [hc] at h
    cases res with
    | none => cases h
    | some answer' =>
      obtain rfl : answer' = answer := Option.some.inj h
      obtain rfl := run_claimTask_refused hc hr
      cases answer' with
      | claimed l row => cases hr
      | activeLeaseExists row l =>
        refine ⟨r, ?_, Or.inl hq⟩
        simp only [handleClaim, run_blockRun_tasks, hrow]
      | dependencyBlocked status row =>
        simp only [handleClaim, run_blockRun_tasks]
        split
        · exact ⟨r, hrow, Or.inl hq⟩
        · obtain ⟨r', hr', hs⟩ := run_markTaskBlocked_state x.markAt
            (blockedKey row ((registered x s).1.getD none)) x.claim.key ⟨x.claim.runId, none, none, none⟩
            (some (blockedMessage status)) (registered x s).2 hrow
          exact ⟨r', hr', hs.elim Or.inr (fun he => Or.inl (he.trans hq))⟩

theorem not_undisturbed {key : String} {s t : Store} {r : TaskRow} (hr : t.tasks.find? key = some r)
    (hs : r.state = .queued ∨ r.state = .blocked) : ¬ Undisturbed key s t := by
  rintro ⟨_, r', _, hr', _, _, _, _, _, _, _, hact⟩
  obtain rfl := Option.some.inj (hr.symm.trans hr')
  rcases hs with hs | hs <;> rw [hs] at hact <;> cases hact

/-- Whatever the store, an intake whose claim is refused leaves a row that the planner
no longer counts as active. -/
theorem refused_intake_disturbs (env : Env) (x : IntakeArgs) (s : Store) (answer : ClaimResult)
    (h : (intake env x s).1 = some answer) (hr : answer.isClaimed = false) :
    ¬ Undisturbed x.claim.key s (intake env x s).2 := by
  obtain ⟨r, hrow, hs⟩ := intake_refused_state h hr
  exact not_undisturbed hrow hs

/-- A second run at 200 for the task claimed at 0 until 1000. -/
def secondRun : IntakeArgs where
  claim := claimBy "b" (plainTask "T1")
  capabilities := "{}"
  registerTaskAt := 200
  registerWorkerAt := 200
  claimAt := 200
  markAt := 200
  blockAt := 200

/-- The first run marked its task active. -/
def ownedStore : Store :=
  (Op.markTask .active 100 (claimBy "a" (plainTask "T1")).key (ClaimArgs.identity (claimBy "a" (plainTask "T1")))
    1000 none).apply sqliteEnv claimedStore

/-- The answer the second run gets. -/
def secondAnswer : ClaimResult :=
  .activeLeaseExists ((registered secondRun ownedStore).2.tasks.find? secondRun.claim.key)
    ((claimBy "a" (plainTask "T1")).lease 0 1)

theorem secondRun_refused : (intake sqliteEnv secondRun ownedStore).1 = some secondAnswer := by
  have hb : (claimDependencies sqliteEnv 200 secondRun.claim (registered secondRun ownedStore).2).blocked = false := by
    decide +kernel
  have hl : liveLease secondRun.claim.key 200 (sweptStore 200 (registered secondRun ownedStore).2) =
      some ((claimBy "a" (plainTask "T1")).lease 0 1) := by decide +kernel
  have hs : sweptStore 200 (registered secondRun ownedStore).2 = (registered secondRun ownedStore).2 := by
    rfl
  have h := run_claimTask_live hb hl
  rw [hs] at h
  unfold intake
  dsimp only
  rw [show secondRun.claimAt = 200 from rfl, h]
  rfl

/-- The refused second run puts the owner's task back into the queue. -/
theorem secondRun_disturbs :
    Reachable sqliteEnv (fun _ _ => True) ownedStore ∧
      ownedStore.activeLease? (Ident.of "lease-a") = some ((claimBy "a" (plainTask "T1")).lease 0 1) ∧
      (intake sqliteEnv secondRun ownedStore).1 = some secondAnswer ∧
      ¬ Undisturbed secondRun.claim.key ownedStore (intake sqliteEnv secondRun ownedStore).2 := by
  refine ⟨.step _ (.step _ .init trivial) trivial, by decide +kernel, secondRun_refused, ?_⟩
  obtain ⟨r, hrow, hs⟩ := intake_refused_state secondRun_refused rfl
  exact not_undisturbed hrow hs

theorem secondRun_instance : ¬ Undisturbed secondRun.claim.key ownedStore (intake sqliteEnv secondRun ownedStore).2 :=
  refused_intake_disturbs sqliteEnv secondRun ownedStore secondAnswer secondRun_refused rfl

end TaskIntake
