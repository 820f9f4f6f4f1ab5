import TandemAgents.ReleaseCrash

/-!
# The dependency gate of a claim

A claim resolves its dependencies among the other rows of the store, as its two
sweeps leave them. The sweeps add no row and finish no task, so a claim that resolved
them could have done so before. With no other row there is nothing to resolve among,
and the gate is left open.
-/
namespace DependencyGate

open KeyedTable PythonText TaskContract CoordinationStore Statements Statements.Prog
open LeaseOperations WorkerOperations TaskOperations OperationRuns GuardedRuns StoreHistories HealthyLeases ReleaseCrash

set_option maxRecDepth 20000

/-! ## What the sweeps do to the rows of tasks -/

/-- Two rows of one task, of which the second is done only if the first was. -/
structure SameTask (r r' : TaskRow) : Prop where
  key : r'.key = r.key
  payload : r'.payload = r.payload
  task : r'.task = r.task
  done : r'.state = .done → r.state = .done

theorem SameTask.refl (r : TaskRow) : SameTask r r := ⟨rfl, rfl, rfl, id⟩

theorem SameTask.trans {r r' r'' : TaskRow} (h : SameTask r r') (k : SameTask r' r'') : SameTask r r'' :=
  ⟨k.key.trans h.key, k.payload.trans h.payload, k.task.trans h.task, h.done ∘ k.done⟩

theorem SameTask.clearClaimForLease (leaseId : Ident) (now : Int) (r : TaskRow) :
    SameTask r (r.clearClaimForLease leaseId now .stale "stale") := by
  unfold TaskRow.clearClaimForLease
  split <;> exact ⟨rfl, rfl, rfl, fun h => by cases h⟩

/-- The names of a task do not depend on how far it is. -/
theorem SameTask.tokens {r r' : TaskRow} (h : SameTask r r') (lower : String → String) :
    taskReferenceTokens lower r'.toKnown = taskReferenceTokens lower r.toKnown := by
  simp only [taskReferenceTokens, rawTokens, TaskRow.toKnown, h.key, h.payload, h.task]

theorem SameTask.names {r r' : TaskRow} (h : SameTask r r') {lower : String → String} {d : String}
    (hn : DependencyNames lower d r'.toKnown) : DependencyNames lower d r.toKnown := by
  unfold DependencyNames at hn ⊢
  rwa [h.tokens] at hn

/-- The same tasks in both stores, and no more of them done. -/
structure SameTasks (s t : Store) : Prop where
  after : ∀ k r, s.tasks.find? k = some r → ∃ r', t.tasks.find? k = some r'
  before : ∀ k r', t.tasks.find? k = some r' → ∃ r, s.tasks.find? k = some r ∧ SameTask r r'

theorem SameTasks.refl (s : Store) : SameTasks s s :=
  ⟨fun _ r h => ⟨r, h⟩, fun _ r h => ⟨r, h, .refl r⟩⟩

theorem SameTasks.trans {s t u : Store} (h : SameTasks s t) (k : SameTasks t u) : SameTasks s u where
  after i r hr := by
    obtain ⟨r', hr'⟩ := h.after i r hr
    exact k.after i r' hr'
  before i r'' hr := by
    obtain ⟨r', hr', h'⟩ := k.before i r'' hr
    obtain ⟨r, hr, h''⟩ := h.before i r' hr'
    exact ⟨r, hr, h''.trans h'⟩

theorem sameTasks_retireStep (now : Int) (reason : String) (l : LeaseRow) (w : Ident) (s : Store) :
    SameTasks s (retireStep now reason l w s) where
  after k r hr := by
    by_cases hk : k = l.taskKey
    · exact ⟨r.clearClaimForLease l.leaseId now .stale "stale", by simp [retireStep, ← hk, hr]⟩
    · exact ⟨r, by rw [retireStep_tasks _ _ _ _ _ hk, hr]⟩
  before k r' hr := by
    by_cases hk : k = l.taskKey
    · simp only [retireStep, Store.modifyWorker_tasks, Store.modifyTask_tasks, Store.modifyLease_tasks,
        Table.find?_modify, if_pos hk] at hr
      obtain ⟨r, hold, rfl⟩ := Option.map_eq_some_iff.mp hr
      exact ⟨r, hold, .clearClaimForLease l.leaseId now r⟩
    · rw [retireStep_tasks _ _ _ _ _ hk] at hr
      exact ⟨r', hr, .refl r'⟩

theorem sameTasks_sweepLeases (now : Int) (rows : List LeaseRow) (s : Store) :
    SameTasks s (sweepLeases now rows s) := by
  induction rows generalizing s with
  | nil => exact .refl s
  | cons l rows ih => exact (sameTasks_retireStep now "expired" l l.workerId s).trans (ih _)

theorem sameTasks_staleRound (now cutoff : Int) (dead : List Ident) (row : WorkerRow) (s : Store) :
    SameTasks s (staleRound now cutoff dead row s).2 := by
  unfold staleRound
  split
  · exact ⟨fun _ r h => ⟨r, h⟩, fun _ r h => ⟨r, h, .refl r⟩⟩
  · split
    · exact sameTasks_retireStep _ _ _ _ _
    · exact .refl s

theorem sameTasks_sweepWorkers (now cutoff : Int) (dead : List Ident) (rows : List WorkerRow) (s : Store) :
    SameTasks s (sweepWorkers now cutoff dead rows s) := by
  induction rows generalizing s with
  | nil => exact .refl s
  | cons row rows ih => exact (sameTasks_staleRound now cutoff dead row s).trans (ih _)

theorem sameTasks_sweptStore (now : Int) (s : Store) : SameTasks s (sweptStore now s) :=
  (sameTasks_sweepLeases now _ s).trans (sameTasks_sweepWorkers now _ _ _ _)

/-! ## The other tasks of a store -/

theorem mem_knownTasks {key : String} {s : Store} {c : KnownTask} :
    c ∈ knownTasks key s ↔ ∃ r, s.tasks.find? r.key = some r ∧ r.key ≠ key ∧ r.toKnown = c := by
  simp [knownTasks, Table.mem_rows, and_assoc]

/-- A store with the same tasks has other tasks exactly when this one does. -/
theorem SameTasks.knownTasks_eq_nil {s t : Store} (h : SameTasks s t) (key : String) :
    knownTasks key t = [] ↔ knownTasks key s = [] := by
  constructor
  · intro ht
    refine List.eq_nil_iff_forall_not_mem.mpr fun c hc => ?_
    obtain ⟨r, hr, hk, -⟩ := mem_knownTasks.mp hc
    obtain ⟨r', hr'⟩ := h.after _ r hr
    have hkey := Table.find?_key hr'
    have hmem : r'.toKnown ∈ knownTasks key t := mem_knownTasks.mpr ⟨r', hkey ▸ hr', hkey ▸ hk, rfl⟩
    rw [ht] at hmem
    cases hmem
  · intro hs
    refine List.eq_nil_iff_forall_not_mem.mpr fun c hc => ?_
    obtain ⟨r', hr', hk, -⟩ := mem_knownTasks.mp hc
    obtain ⟨r, hr, hsame⟩ := h.before _ r' hr'
    have hmem : r.toKnown ∈ knownTasks key s :=
      mem_knownTasks.mpr ⟨r, hsame.key ▸ hr, hsame.key ▸ hk, rfl⟩
    rw [hs] at hmem
    cases hmem

/-- Dependencies that are done after the sweeps were done before. -/
theorem SameTasks.dependenciesDone {s t : Store} (h : SameTasks s t) {lower : String → String} {task : Task}
    {key : String} (hd : DependenciesDone lower task (knownTasks key t)) :
    DependenciesDone lower task (knownTasks key s) := by
  intro d hdecl
  obtain ⟨c, hc, hn, hdone⟩ := hd d hdecl
  obtain ⟨r', hr', hk, rfl⟩ := mem_knownTasks.mp hc
  obtain ⟨r, hr, hsame⟩ := h.before _ r' hr'
  exact ⟨r.toKnown, mem_knownTasks.mpr ⟨r, hsame.key ▸ hr, hsame.key ▸ hk, rfl⟩, hsame.names hn,
    hsame.done hdone⟩

/-- What a claim concludes from its dependency status. -/
theorem claimDependencies_blocked {env : Env} {now : Int} {a : ClaimArgs} {s : Store} :
    (claimDependencies env now a s).blocked = true ↔
      knownTasks a.key s ≠ [] ∧ ¬ DependenciesDone env.lower a.task (knownTasks a.key (sweptStore now s)) := by
  have hnil := (sameTasks_sweptStore now s).knownTasks_eq_nil a.key
  unfold claimDependencies knownOrNone
  by_cases h : knownTasks a.key (sweptStore now s) = []
  · simp [h, hnil.mp h]
  · simp only [List.isEmpty_iff, h, if_false, dependencyStatus_blocked, ne_eq, hnil.not.mp h,
      not_false_eq_true, true_and]

theorem not_dependenciesDone_nil {lower : String → String} {task : Task} (h : declaredDependencies task ≠ []) :
    ¬ DependenciesDone lower task [] := by
  intro hd
  obtain ⟨d, hmem⟩ := List.exists_mem_of_ne_nil _ h
  obtain ⟨c, hc, -⟩ := hd d hmem
  cases hc

/-! ## When a claim is granted -/

theorem sweepLeases_inactive (now : Int) (rows : List LeaseRow) (s : Store) {l : LeaseRow} (hl : l ∈ rows) :
    (sweepLeases now rows s).activeLease? l.leaseId = none := by
  induction rows generalizing s with
  | nil => cases hl
  | cons r rows ih =>
    rcases List.mem_cons.mp hl with rfl | hmem
    · cases hact : (sweepLeases now (l :: rows) s).activeLease? l.leaseId with
      | none => rfl
      | some x =>
        -- what is active at the end was active, and the same, after the first round
        obtain ⟨hx, ha⟩ := activeLease?_eq_some.mp hact
        have hid := Table.find?_key hx
        have hold := (shrinks_sweepLeases now rows (retireStep now "expired" l l.workerId s)).leases x
          (hid ▸ hx) ha
        simp only [hid, retireStep, Store.modifyWorker_leases, Store.modifyTask_leases,
          Store.modifyLease_leases, Table.find?_modify, if_true] at hold
        obtain ⟨y, -, rfl⟩ := Option.map_eq_some_iff.mp hold
        cases ha
    · exact ih _ hmem

/-- After the sweeps no active lease is expired. -/
theorem sweptStore_unexpired {now : Int} {s : Store} {l : LeaseRow}
    (hl : (sweptStore now s).leases.find? l.leaseId = some l) (ha : l.status = .active) :
    now < l.expiresAtMs := by
  have hmid := (shrinks_sweepWorkers now _ _ _ (sweepExpired now s)).leases l hl ha
  have hold := (shrinks_sweepLeases now _ s).leases l hmid ha
  by_contra hexp
  have hmem : l ∈ expiredLeases now s := by
    simp only [expiredLeases, Table.mem_select, decide_eq_true_eq]
    exact ⟨hold, ha, by omega⟩
  have hnone : (sweepExpired now s).activeLease? l.leaseId = none := sweepLeases_inactive now _ s hmem
  rw [activeLease?_eq_some.mpr ⟨hmid, ha⟩] at hnone
  cases hnone

theorem liveLease_eq_none {key : String} {now : Int} {s : Store} :
    liveLease key now s = none ↔
      ∀ l ∈ s.leases.rows, l.taskKey = key → l.status = .active → l.expiresAtMs ≤ now := by
  unfold liveLease
  rw [List.head?_eq_none_iff, ← List.length_eq_zero_iff, List.length_insertionSort, List.length_eq_zero_iff]
  simp [Table.select, List.filter_eq_nil_iff]

/-- The check behind the sweeps misses no active lease of the task. -/
theorem liveLease_sweptStore {key : String} {now : Int} {s : Store} :
    liveLease key now (sweptStore now s) = none ↔ ¬ HasActiveLease (sweptStore now s) key := by
  rw [liveLease_eq_none]
  constructor
  · rintro h ⟨l, hl, ha, hk⟩
    exact absurd (h l hl hk ha) (by have := sweptStore_unexpired (Table.mem_rows.mp hl) ha; omega)
  · intro h l hl hk ha
    exact absurd ⟨l, hl, ha, hk⟩ h

/-- A claim is granted when no dependency blocks it and no active lease of the task is
left by the sweeps. -/
theorem claimTask_isClaimed {env : Env} {now : Int} {a : ClaimArgs} {s : Store} :
    ((claimTask env now a).run s).1.any ClaimResult.isClaimed = true ↔
      (claimDependencies env now a s).blocked = false ∧ ¬ HasActiveLease (sweptStore now s) a.key := by
  rw [← liveLease_sweptStore]
  rcases run_claimTask_cases env now a s with ⟨hb, hrun⟩ | ⟨l, hb, hl, hrun⟩ | ⟨hb, hl, hi, -⟩ | ⟨t, hb, hl, -, hrun⟩
  · simp [hrun, hb, ClaimResult.isClaimed]
  · simp [hrun, hl, ClaimResult.isClaimed]
  · -- the index cannot refuse what the check let through
    obtain ⟨l, hf, hk, ha, -⟩ := insertLease_isNone.mp hi
    exact absurd ⟨l, Table.mem_rows.mpr hf, ha, hk⟩ (liveLease_sweptStore.mp hl)
  · simp [hrun, hb, hl, ClaimResult.isClaimed]

/-- A claim of a task with declared dependencies is granted only with all of them done
exactly when the store holds another task, or the task has an active lease that both
sweeps leave in place. -/
theorem claimed_dependencies_done_iff (env : Env) (now : Int) (a : ClaimArgs) (s : Store)
    (hd : declaredDependencies a.task ≠ []) :
    (((claimTask env now a).run s).1.any ClaimResult.isClaimed = true →
        DependenciesDone env.lower a.task (knownTasks a.key s)) ↔
      knownTasks a.key s ≠ [] ∨ HasActiveLease (sweptStore now s) a.key := by
  rw [claimTask_isClaimed]
  by_cases hk : knownTasks a.key s = []
  · have hopen : (claimDependencies env now a s).blocked = false := by
      rw [← Bool.not_eq_true, claimDependencies_blocked]
      exact fun h => h.1 hk
    simp only [hopen, true_and, hk, not_dependenciesDone_nil hd, ne_eq, not_true_eq_false, false_or]
    tauto
  · simp only [ne_eq, hk, not_false_eq_true, true_or, iff_true]
    rintro ⟨hopen, -⟩
    rw [← Bool.not_eq_true, claimDependencies_blocked] at hopen
    refine (sameTasks_sweptStore now s).dependenciesDone ?_
    by_contra hnot
    exact hopen ⟨hk, hnot⟩

/-- A task that waits for `T0`. -/
def waitingTask : Task := { plainTask "T2" with dependencies := ["T0"] }

/-- On the empty store the claim of a task that waits for another is granted. -/
theorem emptyStore_grants_waiting :
    declaredDependencies waitingTask ≠ [] ∧
      ((claimTask sqliteEnv 0 (claimBy "a" waitingTask)).run Store.empty).1.any ClaimResult.isClaimed = true ∧
      ¬ DependenciesDone sqliteEnv.lower waitingTask (knownTasks (claimBy "a" waitingTask).key Store.empty) := by
  refine ⟨by decide, by decide +kernel, by decide +kernel⟩

/-- With another row in the store the gate looks at the dependencies and refuses. -/
theorem secondRow_gates_waiting :
    ((claimTask sqliteEnv 10 (claimBy "b" waitingTask)).run claimedStore).1.any ClaimResult.isClaimed = false ∧
      ¬ DependenciesDone sqliteEnv.lower waitingTask (knownTasks (claimBy "b" waitingTask).key claimedStore) := by
  have hnot : ¬ DependenciesDone sqliteEnv.lower waitingTask (knownTasks (claimBy "b" waitingTask).key claimedStore) := by
    decide +kernel
  have hrow : knownTasks (claimBy "b" waitingTask).key claimedStore ≠ [] := by
    intro h
    have hlen := congrArg List.length h
    revert hlen
    decide +kernel
  refine ⟨Bool.eq_false_iff.mpr fun hclaimed => hnot ?_, hnot⟩
  exact (claimed_dependencies_done_iff sqliteEnv 10 (claimBy "b" waitingTask) claimedStore (by decide)).mpr (.inl hrow) hclaimed

end DependencyGate
