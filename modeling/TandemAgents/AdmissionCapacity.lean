import TandemAgents.AdmissionIsolation
import TandemAgents.AdmissionFairness

/-!
# Active tasks that the planner does not fetch

The planner counts the active tasks among the most recently updated rows it fetches. An
older active row is not counted, so that as soon as some queued task can be admitted
next to the rows fetched, a configuration exists under which the plan exceeds the total
capacity.
-/
namespace AdmissionCapacity

open KeyedTable PythonText TaskContract CoordinationStore Statements Statements.Prog
open TaskOperations GuardedRuns StoreHistories Scheduler AdmissionLoop AdmissionIsolation AdmissionFairness DependencyAgreement

set_option maxRecDepth 20000

/-- A plan measured against all active tasks of the store. -/
structure Measured (cfg : Config) (s : Store) (p : Plan) : Prop where
  total : ((activeTasks s).length + p.admitted.length : Int) ≤ max (max 1 cfg.maxActiveTasks) (activeTasks s).length
  apart : ∀ u ∈ activeTasks s, ∀ t ∈ admittedTasks p.admitted, Apart u t

/-- Every active row is among those fetched. -/
def AllActiveFetched (limit : Int) (s : Store) : Prop :=
  ∀ r ∈ s.tasks.rows, r.state.isActive = true → r ∈ selectTasks {} limit s

/-- No configuration of triage and capacities keeps the task from being admitted next to
the active ones. -/
def Admissible (lower : String → String) (x : Services) (active : List Listed) (t : Listed) : Prop :=
  withheldByLinear lower x t.task = none ∧ t.dependencyStatus.blocked = false ∧ coderRunActive x t.task = false ∧
    ∀ u ∈ active.map (·.task), Apart u t.task

/-! ## What the loop admits -/

section
variable {lower : String → String} {cfg : Config} {x : Services} {queued active : List Listed}

theorem gateTask_none {t : Listed} : gateTask lower cfg x t = none ↔ withheldByTriage cfg x t.task = false ∧
    withheldByLinear lower x t.task = none ∧ t.dependencyStatus.blocked = false ∧ coderRunActive x t.task = false := by
  unfold gateTask
  cases ht : withheldByTriage cfg x t.task with
  | true => simp
  | false =>
    cases hl : withheldByLinear lower x t.task with
    | some b => simp
    | none =>
      cases hd : t.dependencyStatus.blocked with
      | true => simp
      | false =>
        cases hc : coderRunActive x t.task with
        | true => simp
        | false => simp

theorem mem_candidates {t : Listed} : t ∈ candidates lower cfg x queued ↔ t ∈ queued ∧ gateTask lower cfg x t = none := by
  simp [candidates]

/-- What is admitted was let through by the gate. -/
theorem admitted_candidates {e : Admitted} (he : e ∈ (loopEnd lower cfg x queued active).admitted) :
    e.task ∈ candidates lower cfg x queued := by
  have hinv : (∀ t ∈ (loopEnd lower cfg x queued active).left, t ∈ candidates lower cfg x queued) ∧
      ∀ e ∈ (loopEnd lower cfg x queued active).admitted, e.task ∈ candidates lower cfg x queued := by
    refine loopEnd_invariant (I := fun s => (∀ t ∈ s.left, t ∈ candidates lower cfg x queued) ∧
      ∀ e ∈ s.admitted, e.task ∈ candidates lower cfg x queued) ?_ ?_ ?_
    · constructor
      · exact fun t ht => (groupedQueue_tasks lower cfg x queued).mem_iff.mp ht
      · exact fun e he => by cases he
    · intro s project t e hI ht _
      have hperm := left_popleft ht
      rw [Loop.block_left, Loop.block_admitted]
      exact ⟨fun u hu => hI.1 u (hperm.mem_iff.mpr (List.mem_cons_of_mem t hu)), hI.2⟩
    · intro s project t hI ht _ _
      have hperm := left_popleft ht
      rw [Loop.admit_left, Loop.admit_admitted, admittedEntry_projectKey]
      constructor
      · exact fun u hu => hI.1 u (hperm.mem_iff.mpr (List.mem_cons_of_mem t hu))
      · intro e he
        obtain he | he := List.mem_append.mp he
        · exact hI.2 e he
        · rw [List.mem_singleton.mp he, admittedEntry_task]
          exact hI.1 t (hperm.mem_iff.mpr List.mem_cons_self)
  exact hinv.2 e he

/-- Where nothing is admitted although there is room, every candidate was refused next
to the active tasks. -/
theorem refused_of_none (hnone : (loopEnd lower cfg x queued active).admitted = [])
    (hroom : 0 < (capacity cfg x active).maxTotal) {t : Listed} (ht : t ∈ candidates lower cfg x queued) :
    ∃ e, refuse (capacity cfg x active) (tally (active.map (·.task))) (taskProjectKey t.task) t = some e := by
  have hinv : Sorted (loopEnd lower cfg x queued active).grouped ∧
      ((loopEnd lower cfg x queued active).admitted = [] →
        (loopEnd lower cfg x queued active).ledger = tally (active.map (·.task)) ∧
        ∀ t ∈ candidates lower cfg x queued, t ∈ (loopEnd lower cfg x queued active).left ∨
          ∃ e, refuse (capacity cfg x active) (tally (active.map (·.task))) (taskProjectKey t.task) t = some e) := by
    refine loopEnd_invariant (I := fun s => Sorted s.grouped ∧ (s.admitted = [] →
      s.ledger = tally (active.map (·.task)) ∧ ∀ t ∈ candidates lower cfg x queued, t ∈ s.left ∨
        ∃ e, refuse (capacity cfg x active) (tally (active.map (·.task))) (taskProjectKey t.task) t = some e)) ?_ ?_ ?_
    · refine ⟨groupedQueue_sorted lower cfg x queued, fun _ => ⟨tally_ofActive active, fun t ht => .inl ?_⟩⟩
      exact (groupedQueue_tasks lower cfg x queued).mem_iff.mpr ht
    · intro s project t e hI ht he
      refine ⟨hI.1.popleft project, fun hadm => ?_⟩
      obtain ⟨hledger, hall⟩ := hI.2 hadm
      refine ⟨hledger, fun u hu => ?_⟩
      obtain hleft | href := hall u hu
      · obtain rfl | hrest := List.mem_cons.mp ((left_popleft ht).mem_iff.mp hleft)
        · right
          rw [hledger, ← hI.1.head ht] at he
          exact ⟨e, he⟩
        · exact .inl hrest
      · exact .inr href
    · intro s project t hI ht _ _
      refine ⟨hI.1.popleft project, fun hadm => ?_⟩
      rw [Loop.admit_admitted] at hadm
      exact absurd hadm (by simp)
  have hleft : (loopEnd lower cfg x queued active).left = [] := by
    refine left_of_not_pending (Bool.eq_false_iff.mpr fun hpending => ?_)
    refine loop_terminates.1 ⟨?_, hpending⟩
    rw [hnone]
    exact hroom
  obtain hmem | href := (hinv.2 hnone).2 t ht
  · rw [hleft] at hmem
    cases hmem
  · exact href

end

/-! ## What the planner fetches -/

section
variable (env : Env) (cfg : Config) (limit : Option Int) (projectKeys : List String) (s : Store)

def fetchedQueue : List Listed :=
  plannedQueue cfg projectKeys limit (listed (listedRows env { state := some .queued } (fetchLimit cfg limit projectKeys) s))

def fetchedActive : List Listed := plannedActive (listed (listedRows env {} (fetchLimit cfg limit projectKeys) s))

end

theorem subperm_active (limit : Int) (s : Store) : ((selectTasks {} limit s).filter (fun r => r.state.isActive)).Subperm
    (s.tasks.rows.filter (fun r => r.state.isActive)) := by
  rw [selectTasks_all]
  have hsub := (List.take_sublist (max 1 limit).toNat
    (s.tasks.rows.insertionSort (fun a b => b.updatedAtMs ≤ a.updatedAtMs))).filter (fun r => r.state.isActive)
  exact hsub.subperm.trans ((List.perm_insertionSort _ _).filter _).subperm

/-- All active rows are fetched exactly when none of them is missing from the count. -/
theorem allActiveFetched_iff (limit : Int) (s : Store) : AllActiveFetched limit s ↔
    ((selectTasks {} limit s).filter (fun r => r.state.isActive)).Perm
      (s.tasks.rows.filter (fun r => r.state.isActive)) := by
  constructor
  · intro h
    have hnodup : (s.tasks.rows.filter (fun r => r.state.isActive)).Nodup := s.tasks.nodup.of_map.filter _
    have hsub : (s.tasks.rows.filter (fun r => r.state.isActive)).Subperm
        ((selectTasks {} limit s).filter (fun r => r.state.isActive)) := by
      refine List.subperm_of_subset hnodup fun r hr => ?_
      obtain ⟨hmem, hact⟩ := List.mem_filter.mp hr
      exact List.mem_filter.mpr ⟨h r hmem hact, hact⟩
    exact (subperm_active limit s).antisymm hsub
  · intro h r hr hact
    have hmem := h.mem_iff.mpr (List.mem_filter.mpr ⟨hr, hact⟩)
    exact (List.mem_filter.mp hmem).1

theorem length_of_missing {limit : Int} {s : Store} (h : ¬ AllActiveFetched limit s) :
    ((selectTasks {} limit s).filter (fun r => r.state.isActive)).length < (activeTasks s).length := by
  have hlen : (activeTasks s).length = (s.tasks.rows.filter (fun r => r.state.isActive)).length := List.length_map _
  refine not_le.mp fun hle => h ?_
  rw [allActiveFetched_iff]
  exact (subperm_active limit s).perm_of_length_le (hlen ▸ hle)

/-! ## The condition -/

/-- Triage is off, and one more task fits than there are active ones. -/
def oneMore (depth : Int) (active : Nat) : Config where
  policy := "round_robin"
  maxActiveTasks := active + 1
  maxConcurrentWorkerRuns := 0
  maxActiveTasksPerProject := active + 1
  maxActiveTasksPerRepo := active + 1
  queueDepthLimit := depth
  triageEnabled := false
  triageEnforce := false

theorem oneMore_capacity (x : Services) (depth : Int) (active : List Listed) :
    (capacity (oneMore depth active.length) x active).maxTotal = 1 := by
  have hworkers : ¬ 0 < maxWorkerRuns (oneMore depth active.length) := fun h => by cases h
  have htotal : maxActiveTotal (oneMore depth active.length) = max 1 (active.length + 1 : Int) := rfl
  have hslots : remainingActiveSlots (oneMore depth active.length) active = 1 := by
    rw [remainingActiveSlots, htotal]
    omega
  rw [capacity, remainingWorkerSlots, if_neg hworkers, min_self, hslots]

/-- An admissible task is not refused next to the active ones. -/
theorem oneMore_refuse {x : Services} {depth : Int} {active : List Listed} {project : String} {t : Listed}
    (h : ∀ u ∈ active.map (·.task), Apart u t.task) :
    refuse (capacity (oneMore depth active.length) x active) (tally (active.map (·.task))) project t = none := by
  have hlen : (active.map (·.task)).length = active.length := List.length_map _
  rw [refuse_none_iff]
  refine ⟨?_, ?_, h⟩
  · have hle := List.countP_le_length (p := fun u => decide (taskProjectKey u = project)) (l := active.map (·.task))
    have hcap : (capacity (oneMore depth active.length) x active).maxPerProject = max 1 (active.length + 1 : Int) := rfl
    rw [hcap]
    omega
  · have hle := List.countP_le_length (p := fun u => decide (taskRepoKey u = taskRepoKey t.task))
      (l := active.map (·.task))
    have hcap : (capacity (oneMore depth active.length) x active).maxPerRepo = max 1 (active.length + 1 : Int) := rfl
    rw [hcap]
    omega

/-- Where some queued task is admissible, one is admitted. -/
theorem oneMore_admits {lower : String → String} {x : Services} (depth : Int) {queued active : List Listed} {t : Listed}
    (ht : t ∈ queued) (hadm : Admissible lower x active t) :
    (loopEnd lower (oneMore depth active.length) x queued active).admitted.length ≠ 0 := by
  intro hzero
  obtain ⟨hl, hd, hc, hapart⟩ := hadm
  have hgate : gateTask lower (oneMore depth active.length) x t = none := gateTask_none.mpr ⟨rfl, hl, hd, hc⟩
  have hroom : 0 < (capacity (oneMore depth active.length) x active).maxTotal := by
    rw [oneMore_capacity]
    exact Int.one_pos
  obtain ⟨e, he⟩ := refused_of_none (List.eq_nil_of_length_eq_zero hzero) hroom (mem_candidates.mpr ⟨ht, hgate⟩)
  rw [oneMore_refuse hapart] at he
  cases he

/-- Without an admissible task nothing is admitted. -/
theorem admitted_nil {lower : String → String} {cfg : Config} {x : Services} {queued active : List Listed}
    (h : ∀ t ∈ queued, ¬ Admissible lower x active t) : (loopEnd lower cfg x queued active).admitted = [] := by
  refine List.eq_nil_iff_forall_not_mem.mpr fun e he => ?_
  obtain ⟨hmem, hgate⟩ := mem_candidates.mp (admitted_candidates he)
  obtain ⟨-, hl, hd, hc⟩ := gateTask_none.mp hgate
  have hothers := (loopEnd_safe lower cfg x queued active).others
  exact h e.task hmem ⟨hl, hd, hc, fun u hu => hothers u hu e.task.task (List.mem_map_of_mem he)⟩

section
variable {env : Env} {cfg : Config} {x : Services} {limit : Option Int} {projectKeys : List String} {s : Store}

theorem requestedLimit_congr {c : Config} (h : c.queueDepthLimit = cfg.queueDepthLimit) :
    requestedLimit c limit = requestedLimit cfg limit := by
  rw [requestedLimit, requestedLimit, h]

theorem fetchLimit_congr {c : Config} (h : c.queueDepthLimit = cfg.queueDepthLimit) :
    fetchLimit c limit projectKeys = fetchLimit cfg limit projectKeys := by
  rw [fetchLimit, fetchLimit, requestedLimit_congr h, h]

variable (env cfg x limit projectKeys s) in
/-- What a plan admits, from what it fetches. -/
theorem run_admitted {c : Config} (h : c.queueDepthLimit = cfg.queueDepthLimit) :
    ∃ p, (planTaskAdmissions env c x limit projectKeys).run s = (some p, s) ∧ p.admitted =
      (loopEnd env.lower c x (fetchedQueue env cfg limit projectKeys s)
        (fetchedActive env cfg limit projectKeys s)).admitted := by
  refine ⟨_, run_planTaskAdmissions env c x limit projectKeys s, ?_⟩
  rw [planOf_admitted, fetchLimit_congr h, plannedQueue, requestedLimit_congr h]
  rfl

variable (env cfg limit projectKeys s) in
theorem fetchedActive_tasks : (fetchedActive env cfg limit projectKeys s).map (·.task) =
    ((selectTasks {} (fetchLimit cfg limit projectKeys) s).filter (fun r => r.state.isActive)).map TaskRow.toKnown :=
  listed_active_eq env _ s

/-- With every active row fetched, the plan is measured against them all. -/
theorem measured_of_fetched (hall : AllActiveFetched (fetchLimit cfg limit projectKeys) s) {c : Config} {p : Plan}
    (hp : p.admitted = (loopEnd env.lower c x (fetchedQueue env cfg limit projectKeys s)
      (fetchedActive env cfg limit projectKeys s)).admitted) : Measured c s p := by
  have hsafe := loopEnd_safe env.lower c x (fetchedQueue env cfg limit projectKeys s)
    (fetchedActive env cfg limit projectKeys s)
  have hperm : ((fetchedActive env cfg limit projectKeys s).map (·.task)).Perm (activeTasks s) := by
    rw [fetchedActive_tasks]
    exact ((allActiveFetched_iff _ s).mp hall).map _
  have hlen := hperm.length_eq
  rw [List.length_map] at hlen
  have hcap := maxTotal_le c x (fetchedActive env cfg limit projectKeys s)
  constructor
  · rw [hp, ← hlen]
    obtain hnil | hle := hsafe.total
    · rw [hnil, List.length_nil]
      omega
    · omega
  · rw [hp]
    exact fun u hu => hsafe.others u (hperm.mem_iff.mpr hu)

theorem measured_of_none {p : Plan} (hnone : p.admitted = []) : Measured cfg s p := by
  constructor
  · rw [hnone, List.length_nil]
    omega
  · rw [hnone]
    exact fun u _ t ht => by cases ht

end

/-- For a store, a limit and a depth of the queue: under every configuration of that depth
the plan is measured against all active tasks of the store, exactly when every active
row is among those fetched or none of the queued tasks fetched is admissible next to the
active tasks fetched. -/
theorem measured_iff (env : Env) (cfg : Config) (x : Services) (limit : Option Int) (projectKeys : List String)
    (s : Store) :
    (∀ c : Config, c.queueDepthLimit = cfg.queueDepthLimit →
      ∃ p, (planTaskAdmissions env c x limit projectKeys).run s = (some p, s) ∧ Measured c s p) ↔
    AllActiveFetched (fetchLimit cfg limit projectKeys) s ∨
      ∀ t ∈ fetchedQueue env cfg limit projectKeys s,
        ¬ Admissible env.lower x (fetchedActive env cfg limit projectKeys s) t := by
  constructor
  · intro h
    by_contra hnot
    obtain ⟨hmissing, hsome⟩ := not_or.mp hnot
    obtain ⟨t, ht, hadm⟩ : ∃ t ∈ fetchedQueue env cfg limit projectKeys s,
        Admissible env.lower x (fetchedActive env cfg limit projectKeys s) t := by
      by_contra hno
      exact hsome fun t ht hadm => hno ⟨t, ht, hadm⟩
    -- one task more than the active ones fetched fits, and is one too many for the store
    obtain ⟨p, hrun, hmeasured⟩ :=
      h (oneMore cfg.queueDepthLimit (fetchedActive env cfg limit projectKeys s).length) rfl
    obtain ⟨q, hrun', hq⟩ := run_admitted env cfg x limit projectKeys s
      (c := oneMore cfg.queueDepthLimit (fetchedActive env cfg limit projectKeys s).length) rfl
    obtain rfl : p = q := by
      rw [hrun] at hrun'
      exact Option.some.inj (Prod.mk.inj hrun').1
    have hone := oneMore_admits cfg.queueDepthLimit ht hadm
    rw [← hq] at hone
    have hless := length_of_missing hmissing
    have hlen := congrArg List.length (fetchedActive_tasks env cfg limit projectKeys s)
    rw [List.length_map, List.length_map] at hlen
    have htotal := hmeasured.total
    have hcap : (oneMore cfg.queueDepthLimit (fetchedActive env cfg limit projectKeys s).length).maxActiveTasks =
      (fetchedActive env cfg limit projectKeys s).length + 1 := rfl
    rw [hcap] at htotal
    omega
  · intro h c hc
    obtain ⟨p, hrun, hp⟩ := run_admitted env cfg x limit projectKeys s hc
    refine ⟨p, hrun, ?_⟩
    obtain hall | hnone := h
    · exact measured_of_fetched hall hp
    · refine measured_of_none ?_
      rw [hp]
      exact admitted_nil hnone

/-! ## An old task -/

/-- A task of the repository `acme/app` that names no files. -/
def repoTask (taskId : String) : Task := { plainTask taskId with repo := { slug := "acme/app" } }

/-- `T0` is claimed, and a task of its repository is queued later. -/
def oldTaskStore : Store := history sqliteEnv Store.empty
  [.claimTask 0 (claimBy "a" (repoTask "T0")), .registerTask 100 (repoTask "T1") {} .queued]

def singleConfig : Config := { plainConfig with maxActiveTasks := 1 }

/-- The newest row is the queued one. It is admitted although the older task holds its
repository and the one place there is. -/
theorem old_task_exceeds : Reachable sqliteEnv (fun _ _ => True) oldTaskStore ∧
    ((planTaskAdmissions sqliteEnv singleConfig plainServices (some 1) []).run oldTaskStore).1.any (fun p =>
      decide (p.admitted.length = 1 ∧ ∃ u ∈ activeTasks oldTaskStore, ∃ t ∈ admittedTasks p.admitted, ¬ Apart u t)) =
        true ∧
    ¬ ∃ p, (planTaskAdmissions sqliteEnv singleConfig plainServices (some 1) []).run oldTaskStore =
      (some p, oldTaskStore) ∧ Measured singleConfig oldTaskStore p := by
  have hplan : ((planTaskAdmissions sqliteEnv singleConfig plainServices (some 1) []).run oldTaskStore).1.any (fun p =>
      decide (p.admitted.length = 1 ∧ ∃ u ∈ activeTasks oldTaskStore, ∃ t ∈ admittedTasks p.admitted, ¬ Apart u t)) =
        true := by decide +kernel
  refine ⟨Reached.init.after _ ⟨trivial, trivial, trivial⟩, hplan, ?_⟩
  rintro ⟨p, hrun, hmeasured⟩
  rw [hrun, Option.any_some, decide_eq_true_eq] at hplan
  obtain ⟨-, u, hu, t, ht, hnot⟩ := hplan
  exact hnot (hmeasured.apart u hu t ht)

/-- The plan exceeds the total capacity too. -/
example : ((planTaskAdmissions sqliteEnv singleConfig plainServices (some 1) []).run oldTaskStore).1.any (fun p =>
    decide (max singleConfig.maxActiveTasks (activeTasks oldTaskStore).length <
      (activeTasks oldTaskStore).length + p.admitted.length)) = true := by decide +kernel

end AdmissionCapacity
