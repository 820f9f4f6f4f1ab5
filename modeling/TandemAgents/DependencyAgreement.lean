import TandemAgents.DependencyGate
import TandemAgents.Scheduler

/-!
# The planner and the claim on dependencies

The planner resolves the dependencies of a queued task among the queued tasks, none
of which is done, and the claim among all tasks. So the planner holds back every task
with a declared dependency as soon as a second task is queued, and no such task
otherwise.
-/
namespace DependencyAgreement

open KeyedTable PythonText TaskContract CoordinationStore Statements Statements.Prog
open LeaseOperations WorkerOperations TaskOperations OperationRuns GuardedRuns StoreHistories ReleaseCrash DependencyGate
open Scheduler

set_option maxRecDepth 20000

/-- The plan reports a task as blocked by its dependencies. -/
def Plan.reportsDependencies (key : String) (p : Plan) : Bool :=
  p.blocked.any (fun e => decide (e.taskKey = key ∧ e.reason = .dependencyBlocked))

/-- The claim is refused for its dependencies. -/
def ClaimResult.refusedForDependencies : ClaimResult → Bool
  | .dependencyBlocked _ _ => true
  | _ => false

/-! ## The loops block for other reasons -/

theorem refuse_reason {cap : Capacity} {l : Ledger} {project : String} {t : Listed} {e : Blocked}
    (h : refuse cap l project t = some e) : e.reason ≠ .dependencyBlocked := by
  unfold refuse loopEntry at h
  dsimp only at h
  split_ifs at h <;> obtain rfl := Option.some.inj h <;> exact fun hr => by cases hr

theorem capacityReason_ne {cfg : Config} {x : Services} {active : List Listed} {n : Nat} {r : BlockReason}
    (h : capacityReason cfg x active n = some r) : r ≠ .dependencyBlocked := by
  unfold capacityReason at h
  split_ifs at h <;> obtain rfl := Option.some.inj h <;> exact fun hr => by cases hr

theorem mem_admissionPass {cap : Capacity} {entry : String → Listed → Admitted} {e : Blocked}
    (he : e.reason = .dependencyBlocked) (projects : List String) (s : Loop) :
    e ∈ (admissionPass cap entry projects s).2.blocked ↔ e ∈ s.blocked := by
  induction projects generalizing s with
  | nil => rfl
  | cons project projects ih =>
    rw [admissionPass]
    cases s.head? project with
    | none => exact ih s
    | some candidate =>
      cases hr : refuse cap s.ledger project candidate with
      | some refusal =>
        have hne : e ≠ refusal := fun heq => refuse_reason hr (heq ▸ he)
        simp only [hr, ih, Loop.block, List.mem_append, List.mem_singleton, hne, or_false]
      | none =>
        simp only [hr]
        split
        · rfl
        · exact ih _

theorem mem_admissionLoop {cap : Capacity} {entry : String → Listed → Admitted} {e : Blocked}
    (he : e.reason = .dependencyBlocked) (projects : List String) (fuel : Nat) (s : Loop) :
    e ∈ (admissionLoop cap entry projects fuel s).blocked ↔ e ∈ s.blocked := by
  induction fuel generalizing s with
  | zero => rfl
  | succ fuel ih =>
    rw [admissionLoop]
    dsimp only
    split_ifs
    · rw [ih, mem_admissionPass he]
    · exact mem_admissionPass he projects s
    · rfl

/-- The dependency entries of a plan are those of its gating loop. -/
theorem reportsDependencies_iff {lower : String → String} {cfg : Config} {x : Services}
    {projectKeys : List String} {limit : Option Int} {queued all : List Listed} {key : String} :
    Plan.reportsDependencies key (planOf lower cfg x projectKeys limit queued all) = true ↔
      ∃ e ∈ gateBlocked lower cfg x
          ((queued.filter (fun t => inProjects projectKeys t.task)).take (requestedLimit cfg limit).toNat),
        e.taskKey = key ∧ e.reason = .dependencyBlocked := by
  unfold Plan.reportsDependencies planOf
  simp only [List.any_eq_true, decide_eq_true_eq, List.mem_append]
  refine exists_congr fun e => ?_
  constructor
  · rintro ⟨hmem | hmem, hk, hr⟩
    · exact ⟨(mem_admissionLoop hr _ _ _).mp hmem, hk, hr⟩
    · cases hc : capacityReason cfg x (all.filter (fun t => t.task.state.isActive)) (loopEnd lower cfg x
          ((queued.filter (fun t => inProjects projectKeys t.task)).take (requestedLimit cfg limit).toNat)
          (all.filter (fun t => t.task.state.isActive))).admitted.length with
      | none => simp [hc] at hmem
      | some r =>
        simp only [hc, Option.map_some, Option.getD_some, List.mem_map] at hmem
        obtain ⟨t, -, rfl⟩ := hmem
        exact absurd hr (capacityReason_ne hc)
  · rintro ⟨hmem, hk, hr⟩
    exact ⟨Or.inl ((mem_admissionLoop hr _ _ _).mpr hmem), hk, hr⟩

/-! ## What the gate reports -/

/-- A queued task comes to the planner's look at its dependencies. -/
def ReachesDependencies (lower : String → String) (cfg : Config) (x : Services) (projectKeys : List String)
    (t : KnownTask) : Prop :=
  inProjects projectKeys t = true ∧ withheldByTriage cfg x t = false ∧ withheldByLinear lower x t = none

theorem gateTask_dependencyBlocked {lower : String → String} {cfg : Config} {x : Services} {t : Listed} {e : Blocked}
    (h : gateTask lower cfg x t = some e) :
    e.taskKey = t.task.taskKey ∧ (e.reason = .dependencyBlocked ↔
      withheldByTriage cfg x t.task = false ∧ withheldByLinear lower x t.task = none ∧
        t.dependencyStatus.blocked = true) := by
  unfold gateTask gateEntry at h
  cases ht : withheldByTriage cfg x t.task with
  | true =>
    rw [ht, if_pos rfl] at h
    obtain rfl := Option.some.inj h
    simp
  | false =>
    cases hl : withheldByLinear lower x t.task with
    | some b =>
      simp only [ht, hl, Bool.false_eq_true, if_false] at h
      obtain rfl := Option.some.inj h
      simp
    | none =>
      simp only [ht, hl, Bool.false_eq_true, if_false] at h
      split_ifs at h with hd hc
      · obtain rfl := Option.some.inj h
        simp [hd]
      · obtain rfl := Option.some.inj h
        simp [hd]

theorem gateTask_isSome {lower : String → String} {cfg : Config} {x : Services} {t : Listed}
    (ht : withheldByTriage cfg x t.task = false) (hl : withheldByLinear lower x t.task = none)
    (hd : t.dependencyStatus.blocked = true) : ∃ e, gateTask lower cfg x t = some e := by
  unfold gateTask
  simp only [ht, hl, hd, Bool.false_eq_true, if_false, if_true]
  exact ⟨_, rfl⟩

/-! ## What the planner reads -/

/-- The answer of `list_tasks`. -/
def listedRows (env : Env) (f : TaskFilter) (limit : Int) (s : Store) : List (TaskRow × DependencyStatus) :=
  (selectTasks f limit s).map (fun row => (row, dependencyStatusForTask env.lower row.task
    (knownOrNone (((selectTasks f limit s).filter (fun c => decide (c.key ≠ row.key))).map TaskRow.toKnown))))

theorem run_planTaskAdmissions (env : Env) (cfg : Config) (x : Services) (limit : Option Int)
    (projectKeys : List String) (s : Store) :
    (planTaskAdmissions env cfg x limit projectKeys).run s =
      (some (planOf env.lower cfg x projectKeys limit
        (listed (listedRows env { state := some .queued } (fetchLimit cfg limit projectKeys) s))
        (listed (listedRows env {} (fetchLimit cfg limit projectKeys) s))), s) := rfl

/-- With room for every row the queued rows are all listed. -/
theorem mem_selectQueued {limit : Int} {s : Store} {r : TaskRow} (h : (s.tasks.rows.length : Int) ≤ limit) :
    r ∈ selectTasks { state := some .queued } limit s ↔ s.tasks.find? r.key = some r ∧ r.state = .queued := by
  unfold selectTasks
  rw [List.take_of_length_le]
  · rw [(List.perm_insertionSort _ _).mem_iff, Table.mem_select]
    simp [TaskFilter.accepts]
  · rw [List.length_insertionSort]
    refine (List.length_filter_le _ _).trans ?_
    omega

theorem requestedLimit_le_fetchLimit (cfg : Config) (limit : Option Int) (projectKeys : List String) :
    requestedLimit cfg limit ≤ fetchLimit cfg limit projectKeys := by
  unfold fetchLimit
  split
  · exact le_rfl
  · exact le_max_left _ _

/-- Another queued task. -/
def OtherQueued (key : String) (s : Store) : Prop :=
  ∃ r ∈ s.tasks.rows, r.key ≠ key ∧ r.state = .queued

/-- Among queued tasks every declared dependency is unresolved. -/
theorem listed_blocked (env : Env) {limit : Int} {s : Store} {r : TaskRow}
    (h : (s.tasks.rows.length : Int) ≤ limit) :
    (dependencyStatusForTask env.lower r.task (knownOrNone
        (((selectTasks { state := some .queued } limit s).filter
          (fun c => decide (c.key ≠ r.key))).map TaskRow.toKnown))).blocked = true ↔
      declaredDependencies r.task ≠ [] ∧ OtherQueued r.key s := by
  set known := ((selectTasks { state := some .queued } limit s).filter
    (fun c => decide (c.key ≠ r.key))).map TaskRow.toKnown with hknown
  have hmem : ∀ c, c ∈ known ↔ ∃ q, s.tasks.find? q.key = some q ∧ q.state = .queued ∧ q.key ≠ r.key ∧
      q.toKnown = c := by
    intro c
    simp [hknown, mem_selectQueued h, and_assoc]
  have hother : known ≠ [] ↔ OtherQueued r.key s := by
    constructor
    · intro hne
      obtain ⟨c, hc⟩ := List.exists_mem_of_ne_nil _ hne
      obtain ⟨q, hq, hs, hk, -⟩ := (hmem c).mp hc
      exact ⟨q, Table.mem_rows.mpr hq, hk, hs⟩
    · rintro ⟨q, hq, hk, hs⟩
      exact List.ne_nil_of_mem ((hmem q.toKnown).mpr ⟨q, Table.mem_rows.mp hq, hs, hk, rfl⟩)
  rw [← hother]
  unfold knownOrNone
  by_cases hnil : known = []
  · simp [hnil]
  · simp only [List.isEmpty_iff, hnil, if_false, dependencyStatus_blocked, ne_eq, not_false_eq_true, and_true]
    -- a queued task is not done, so only a task without dependencies has them all
    constructor
    · intro hnot hdecl
      exact hnot (fun d hd => by rw [hdecl] at hd; cases hd)
    · intro hne hall
      obtain ⟨d, hd⟩ := List.exists_mem_of_ne_nil _ hne
      obtain ⟨c, hc, -, hdone⟩ := hall d hd
      obtain ⟨q, -, hs, -, rfl⟩ := (hmem c).mp hc
      have hq : q.toKnown.state = .queued := hs
      rw [hq] at hdone
      cases hdone

/-! ## Both sides on one store -/

/-- The planner reports a queued task exactly when it comes to look at the declared
dependencies of the task and a second task is queued. -/
theorem planner_reports_iff {env : Env} {cfg : Config} {x : Services} {limit : Option Int}
    {projectKeys : List String} {s : Store} {key : String} {r : TaskRow} (hrow : s.tasks.find? key = some r)
    (hq : r.state = .queued) (hlimit : (s.tasks.rows.length : Int) ≤ requestedLimit cfg limit) :
    ((planTaskAdmissions env cfg x limit projectKeys).run s).1.any (Plan.reportsDependencies key) = true ↔
      ReachesDependencies env.lower cfg x projectKeys r.toKnown ∧ declaredDependencies r.task ≠ [] ∧
        OtherQueued key s := by
  have hfetch := hlimit.trans (requestedLimit_le_fetchLimit cfg limit projectKeys)
  obtain ⟨hkey, -⟩ := Table.find?_some hrow
  subst hkey
  rw [run_planTaskAdmissions, Option.any_some, reportsDependencies_iff, List.take_of_length_le]
  · simp only [gateBlocked, List.mem_filterMap, List.mem_filter, listed, listedRows, List.mem_map,
      exists_exists_and_eq_and, mem_selectQueued hfetch]
    constructor
    · rintro ⟨e, ⟨t, ⟨⟨q, ⟨hqf, hqs⟩, rfl⟩, hin⟩, hgate⟩, hk, hr⟩
      obtain ⟨hek, her⟩ := gateTask_dependencyBlocked hgate
      obtain ⟨ht, hl, hb⟩ := her.mp hr
      have hqk : q.key = r.key := hek.symm.trans hk
      obtain rfl : q = r := by
        rw [hqk, hrow] at hqf
        exact (Option.some.inj hqf).symm
      exact ⟨⟨hin, ht, hl⟩, (listed_blocked env hfetch).mp hb⟩
    · rintro ⟨⟨hin, ht, hl⟩, hb⟩
      have hb' := (listed_blocked env hfetch).mpr hb
      obtain ⟨e, he⟩ := gateTask_isSome (t := ⟨r.toKnown, _⟩) ht hl hb'
      obtain ⟨hek, her⟩ := gateTask_dependencyBlocked he
      exact ⟨e, ⟨_, ⟨⟨r, ⟨hrow, hq⟩, rfl⟩, hin⟩, he⟩, hek, her.mpr ⟨ht, hl, hb'⟩⟩
  · refine (List.length_filter_le _ _).trans ?_
    simp only [listed, listedRows, List.length_map, selectTasks]
    refine (List.length_take_le' _ _).trans ?_
    rw [List.length_insertionSort]
    refine (List.length_filter_le _ _).trans ?_
    omega

theorem claim_refused_iff {env : Env} {now : Int} {a : ClaimArgs} {s : Store} :
    ((claimTask env now a).run s).1.any ClaimResult.refusedForDependencies = true ↔
      knownTasks a.key s ≠ [] ∧ ¬ DependenciesDone env.lower a.task (knownTasks a.key (sweptStore now s)) := by
  rw [← claimDependencies_blocked]
  rcases run_claimTask_cases env now a s with ⟨hb, hrun⟩ | ⟨l, hb, -, hrun⟩ | ⟨hb, -, -, hrun⟩ | ⟨t, hb, -, -, hrun⟩
  all_goals simp [hrun, hb, ClaimResult.refusedForDependencies]

theorem OtherQueued.knownTasks_ne {key : String} {s : Store} (h : OtherQueued key s) : knownTasks key s ≠ [] := by
  obtain ⟨r, hr, hk, -⟩ := h
  exact List.ne_nil_of_mem (mem_knownTasks.mpr ⟨r, Table.mem_rows.mp hr, hk, rfl⟩)

/-- On one store the planner and the claim agree about a queued task exactly when the
task declares no dependency, or the planner looks at its dependencies with a second
task queued and not all of them are done, or the planner does not and there is no
other task or all of them are. -/
theorem planner_claim_agree_iff (env : Env) (cfg : Config) (x : Services) (limit : Option Int)
    (projectKeys : List String) (now : Int) (a : ClaimArgs) (s : Store) (r : TaskRow)
    (hrow : s.tasks.find? a.key = some r) (hq : r.state = .queued) (htask : a.task = r.task)
    (hlimit : (s.tasks.rows.length : Int) ≤ requestedLimit cfg limit) :
    (((planTaskAdmissions env cfg x limit projectKeys).run s).1.any (Plan.reportsDependencies a.key) = true ↔
        ((claimTask env now a).run s).1.any ClaimResult.refusedForDependencies = true) ↔
      declaredDependencies r.task = [] ∨
        (ReachesDependencies env.lower cfg x projectKeys r.toKnown ∧ OtherQueued a.key s ∧
          ¬ DependenciesDone env.lower r.task (knownTasks a.key (sweptStore now s))) ∨
        (¬ (ReachesDependencies env.lower cfg x projectKeys r.toKnown ∧ OtherQueued a.key s) ∧
          (knownTasks a.key s = [] ∨ DependenciesDone env.lower r.task (knownTasks a.key (sweptStore now s)))) := by
  rw [planner_reports_iff hrow hq hlimit, claim_refused_iff, htask]
  by_cases hd : declaredDependencies r.task = []
  · have hdone : DependenciesDone env.lower r.task (knownTasks a.key (sweptStore now s)) := by
      intro d hmem
      rw [hd] at hmem
      cases hmem
    simp [hd, hdone]
  · by_cases hp : ReachesDependencies env.lower cfg x projectKeys r.toKnown ∧ OtherQueued a.key s
    · have hk := hp.2.knownTasks_ne
      obtain ⟨hreach, hother⟩ := hp
      simp only [hd, hreach, hother, hk]
      tauto
    · tauto

/-! ## Two stores on which they differ -/

def plainConfig : Config where
  policy := "round_robin"
  maxActiveTasks := 8
  maxConcurrentWorkerRuns := 0
  maxActiveTasksPerProject := 4
  maxActiveTasksPerRepo := 4
  queueDepthLimit := 100
  triageEnabled := false
  triageEnforce := false

def plainServices : Services where
  triageTask := fun _ => ⟨.accepted, none, ""⟩
  linearMcpStatusBlocker := none
  activeCoderRuns := []
  taskExecutionBackend := fun _ => "tandem"

/-- `T0` is claimed and the task that waits for it is queued. -/
def runningStore : Store := history sqliteEnv Store.empty
  [.claimTask 0 (claimBy "a" (plainTask "T0")), .registerTask 100 waitingTask {} .queued]

/-- `T0` is done, the task that waits for it is queued, and so is a third task. -/
def finishedStore : Store := history sqliteEnv runningStore
  [.releaseLease 200 (Ident.of "lease-a") .completed none, .registerTask 300 (plainTask "T3") {} .queued]

/-- The planner holds a task back whose dependency is done, and lets through a task
whose dependency is running; the claim does the opposite. -/
theorem planner_claim_disagree :
    (Reachable sqliteEnv (fun _ _ => True) finishedStore ∧
      (finishedStore.tasks.find? (claimBy "b" waitingTask).key).any (fun r => decide (r.state = .queued)) = true ∧
      DependenciesDone sqliteEnv.lower waitingTask (knownTasks (claimBy "b" waitingTask).key finishedStore) ∧
      ((planTaskAdmissions sqliteEnv plainConfig plainServices none []).run finishedStore).1.any
        (Plan.reportsDependencies (claimBy "b" waitingTask).key) = true ∧
      ((claimTask sqliteEnv 400 (claimBy "b" waitingTask)).run finishedStore).1.any
        ClaimResult.isClaimed = true) ∧
    (Reachable sqliteEnv (fun _ _ => True) runningStore ∧
      ((planTaskAdmissions sqliteEnv plainConfig plainServices none []).run runningStore).1.any
        (fun p => p.admitted.any (fun e => decide (e.taskKey = (claimBy "b" waitingTask).key))) = true ∧
      ((claimTask sqliteEnv 400 (claimBy "b" waitingTask)).run runningStore).1.any
        ClaimResult.refusedForDependencies = true) := by
  have hrun : Reachable sqliteEnv (fun _ _ => True) runningStore :=
    Reached.init.after _ ⟨trivial, trivial, trivial⟩
  refine ⟨⟨hrun.after _ ⟨trivial, trivial, trivial⟩, ?_, ?_, ?_, ?_⟩, hrun, ?_, ?_⟩ <;> decide +kernel

/-- The store that holds one queued task, the one that waits. -/
def loneStore : Store := (Op.registerTask 0 waitingTask {} .queued).apply sqliteEnv Store.empty

theorem loneStore_queued : (loneStore.tasks.find? (claimBy "b" waitingTask).key).any (fun r =>
    decide (r.state = .queued ∧ r.task = waitingTask)) = true := by decide +kernel

theorem loneStore_agree :
    ((planTaskAdmissions sqliteEnv plainConfig plainServices none []).run loneStore).1.any
        (Plan.reportsDependencies (claimBy "b" waitingTask).key) = true ↔
      ((claimTask sqliteEnv 400 (claimBy "b" waitingTask)).run loneStore).1.any
        ClaimResult.refusedForDependencies = true := by
  obtain ⟨r, hr, hp⟩ := (Option.any_eq_true _ _).mp loneStore_queued
  obtain ⟨hq, ht⟩ := of_decide_eq_true hp
  refine (planner_claim_agree_iff sqliteEnv plainConfig plainServices none [] 400 (claimBy "b" waitingTask)
    loneStore r hr hq ht.symm (by decide +kernel)).mpr (Or.inr (Or.inr ⟨?_, Or.inl rfl⟩))
  rintro ⟨-, q, hmem, hk, -⟩
  have hall : ∀ q ∈ loneStore.tasks.rows, q.key = (claimBy "b" waitingTask).key := by decide +kernel
  exact hk (hall q hmem)

end DependencyAgreement
