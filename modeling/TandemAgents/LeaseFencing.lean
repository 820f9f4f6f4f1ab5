import TandemAgents.StoreHistories

/-!
# Lease fencing

The claim columns of a task row are supposed to name the owner of its active lease.
Every operation preserves this except the `mark_task_*` calls, which write the
identity of their caller without looking at the lease. They preserve it exactly when
the caller is the owner.
-/
namespace LeaseFencing

open KeyedTable PythonText TaskContract CoordinationStore Statements Statements.Prog
open LeaseOperations WorkerOperations TaskOperations OperationRuns GuardedRuns StoreHistories

set_option maxRecDepth 20000

/-- The claim columns of a row are those of a lease. -/
def ClaimOf (l : LeaseRow) (r : TaskRow) : Prop :=
  r.claimedLeaseId = some l.leaseId ∧ r.claimedRunId = some l.runId ∧
    r.claimedBy = some l.workerId ∧ r.claimedHostId = some l.hostId

/-- The row of a task with an active lease names that lease and its owner. -/
def Fenced (s : Store) : Prop :=
  ∀ l, s.leases.find? l.leaseId = some l → l.status = .active →
    ∃ r, s.tasks.find? l.taskKey = some r ∧ ClaimOf l r

/-- The identity a run passes is that of a lease. A blocked or done mark may pass
`None`, which leaves the column alone. -/
def IdentityOf (me : RunIdentity) (l : LeaseRow) : Prop :=
  me.runId = l.runId ∧ (∀ i ∈ me.leaseId, i = l.leaseId) ∧ (∀ i ∈ me.workerId, i = l.workerId) ∧
    ∀ i ∈ me.hostId, i = l.hostId

instance (me : RunIdentity) (l : LeaseRow) : Decidable (IdentityOf me l) := by
  unfold IdentityOf; infer_instance

/-- Whoever marks a task with an active lease is the owner of that lease. -/
def MarksOwnLease (s : Store) : Op → Prop
  | .markTask _ _ key me _ _ => ∀ l ∈ s.leases.rows, l.status = .active → l.taskKey = key → IdentityOf me l
  | _ => True

instance : (s : Store) → (op : Op) → Decidable (MarksOwnLease s op) := fun s op => by
  cases op <;> unfold MarksOwnLease <;> infer_instance

theorem Fenced.congr {s t : Store} (h : Fenced s) (ht : t.tasks = s.tasks)
    (hl : ∀ k, t.leases.find? k = s.leases.find? k) : Fenced t := by
  intro l hf ha
  rw [hl] at hf
  rw [ht]
  exact h l hf ha

theorem fenced_empty : Fenced Store.empty := by
  intro l hl
  simp [Store.empty] at hl

/-- Ending a lease and clearing the claim that names it. -/
theorem Fenced.end_lease {s : Store} (h : Fenced s) (x : Ident) (g : LeaseRow → LeaseRow)
    (hid : ∀ r, (g r).leaseId = r.leaseId) (hg : ∀ r, (g r).status ≠ .active) (k : String) (now : Int)
    (st : TaskState) (text : String) :
    Fenced ((s.modifyLease x g hid).modifyTask k (TaskRow.clearClaimForLease x now st text)
      (TaskRow.clearClaimForLease_key x now st text)) := by
  intro l hl ha
  simp only [Store.modifyTask_leases, Store.modifyLease_leases, Table.find?_modify] at hl
  split at hl
  · obtain ⟨r, -, rfl⟩ := Option.map_eq_some_iff.mp hl
    exact absurd ha (hg r)
  · rename_i hx
    obtain ⟨r, hr, hc⟩ := h l hl ha
    have hne : r.claimedLeaseId ≠ some x := by
      rw [hc.1]
      exact fun he => hx (Option.some.inj he)
    simp only [Store.modifyTask_tasks, Store.modifyLease_tasks, Table.find?_modify]
    by_cases hk : l.taskKey = k
    · refine ⟨_, by rw [if_pos hk, hr]; rfl, ?_⟩
      simpa [TaskRow.clearClaimForLease, hne, ClaimOf] using hc
    · exact ⟨r, by rw [if_neg hk, hr], hc⟩

theorem Fenced.retireStep {s : Store} (h : Fenced s) (now : Int) (reason : String) (l : LeaseRow)
    (w : Ident) : Fenced (retireStep now reason l w s) :=
  (h.end_lease l.leaseId (LeaseRow.retire now .stale (some reason))
    (LeaseRow.retire_leaseId now .stale (some reason))
    (fun _ => by simp [LeaseRow.retire]) l.taskKey now .stale "stale").congr rfl (fun _ => rfl)

theorem Fenced.sweepExpired {s : Store} (h : Fenced s) (now : Int) : Fenced (sweepExpired now s) := by
  have key : ∀ (rows : List LeaseRow) (s : Store), Fenced s → Fenced (sweepLeases now rows s) := by
    intro rows
    induction rows with
    | nil => exact fun s h => h
    | cons l rows ih => exact fun s h => ih _ (h.retireStep now "expired" l l.workerId)
  exact key _ s h

theorem Fenced.staleRound {s : Store} (h : Fenced s) (now cutoff : Int) (dead : List Ident)
    (row : WorkerRow) : Fenced (staleRound now cutoff dead row s).2 := by
  unfold OperationRuns.staleRound
  split
  · exact h.congr rfl (fun _ => rfl)
  · split
    · exact h.retireStep now "worker stale" _ row.workerId
    · exact h

theorem Fenced.sweepWorkers {s : Store} (h : Fenced s) (now cutoff : Int) (dead : List Ident)
    (rows : List WorkerRow) : Fenced (sweepWorkers now cutoff dead rows s) := by
  induction rows generalizing s with
  | nil => exact h
  | cons row rows ih => exact ih (h.staleRound now cutoff dead row)

theorem Fenced.beatStore {s : Store} (h : Fenced s) (now expiresAt : Int) (row : LeaseRow) :
    Fenced (beatStore now expiresAt row s) := by
  intro l hl ha
  simp only [OperationRuns.beatStore, Store.modifyWorker_leases, Store.modifyTask_leases,
    Store.modifyLease_leases, Table.find?_modify] at hl
  -- the lease before the beat has the same owner
  obtain ⟨l₀, hl₀, ha₀, ho⟩ : ∃ l₀, s.leases.find? l₀.leaseId = some l₀ ∧ l₀.status = .active ∧
      l.leaseId = l₀.leaseId ∧ l.taskKey = l₀.taskKey ∧ l.runId = l₀.runId ∧ l.workerId = l₀.workerId ∧
      l.hostId = l₀.hostId := by
    split at hl
    · rename_i hx
      obtain ⟨l₀, hf, rfl⟩ := Option.map_eq_some_iff.mp hl
      have hid : l₀.leaseId = row.leaseId := (Table.find?_key hf).trans hx
      by_cases hs : l₀.status = .active
      · exact ⟨l₀, by rw [hid, ← hx]; exact hf, hs, by simp [LeaseRow.beat, hs]⟩
      · simp [LeaseRow.beat, hs] at ha
    · exact ⟨l, hl, ha, rfl, rfl, rfl, rfl, rfl⟩
  obtain ⟨hi, hk, hr, hw, hh⟩ := ho
  obtain ⟨r, hf, hc⟩ := h l₀ hl₀ ha₀
  simp only [ClaimOf, hi, hk, hr, hw, hh, OperationRuns.beatStore, Store.modifyWorker_tasks,
    Store.modifyTask_tasks, Store.modifyLease_tasks, Table.find?_modify]
  by_cases hkey : l₀.taskKey = row.taskKey
  · rw [if_pos hkey, hf]
    exact ⟨_, rfl, hc⟩
  · rw [if_neg hkey, hf]
    exact ⟨r, rfl, hc⟩

theorem Fenced.releaseStore {s : Store} (h : Fenced s) (now : Int) (status : ReleaseStatus)
    (reason : Option String) (row : LeaseRow) : Fenced (releaseStore now status reason row s) := by
  refine (h.end_lease row.leaseId (LeaseRow.close now status.toLease reason)
    (LeaseRow.close_leaseId now status.toLease reason) ?_ row.taskKey now
    (taskStateFromLeaseStatus status) (taskStateFromLeaseStatus status).text).congr rfl (fun _ => rfl)
  intro l
  by_cases ha : l.status = .active
  · cases status <;> simp [LeaseRow.close, ha, LeaseRow.retire, ReleaseStatus.toLease]
  · simp [LeaseRow.close, ha]

/-! ## Transitions and registration -/

/-- An update of one task row that keeps the columns of the lease's owner. -/
theorem Fenced.modifyTask {s : Store} (h : Fenced s) (k : String) (f : TaskRow → TaskRow)
    (hf : ∀ r, (f r).key = r.key)
    (hc : ∀ l r, s.leases.find? l.leaseId = some l → l.status = .active → l.taskKey = k →
      s.tasks.find? k = some r → ClaimOf l r → ClaimOf l (f r)) : Fenced (s.modifyTask k f hf) := by
  intro l hl ha
  obtain ⟨r, hr, hcl⟩ := h l hl ha
  simp only [Store.modifyTask_tasks, Table.find?_modify]
  by_cases hk : l.taskKey = k
  · refine ⟨f r, by rw [if_pos hk, hr]; rfl, hc l r hl ha hk (hk ▸ hr) hcl⟩
  · exact ⟨r, by rw [if_neg hk, hr], hcl⟩

theorem coalesce_eq {α : Type} {arg column : Option α} {v : α} (ha : ∀ i ∈ arg, i = v)
    (hc : column = some v) : coalesce arg column = some v := by
  cases arg with
  | none => exact hc
  | some i => exact congrArg some (ha i rfl)

/-- The ids of a transition agree with a lease wherever they are given. -/
def TransitionOf (a : Transition) (l : LeaseRow) : Prop :=
  (∀ i ∈ a.runId, i = l.runId) ∧ (∀ i ∈ a.leaseId, i = l.leaseId) ∧ (∀ i ∈ a.workerId, i = l.workerId) ∧
    ∀ i ∈ a.hostId, i = l.hostId

theorem ClaimOf.assignState {l : LeaseRow} {r : TaskRow} (h : ClaimOf l r) {a : Transition}
    (ha : TransitionOf a l) (now : Int) (state : TaskState) (m : TaskMetadata) :
    ClaimOf l (assignState now state a m r) := by
  unfold TaskOperations.assignState
  split
  · exact ⟨coalesce_eq ha.2.1 h.1, coalesce_eq ha.1 h.2.1, coalesce_eq ha.2.2.1 h.2.2.1,
      coalesce_eq ha.2.2.2 h.2.2.2⟩
  · exact h

theorem Fenced.touchStore {s : Store} (h : Fenced s) (key : String) (state : TaskState) (now : Int)
    (a : Transition) (row : TaskRow)
    (ha : ∀ l, s.leases.find? l.leaseId = some l → l.status = .active → l.taskKey = key →
      TransitionOf a l) : Fenced (touchStore key state now a row s) := by
  have h₁ := h.modifyTask key (TaskOperations.assignState now state a (a.metadataOf row))
    (assignState_key now state a (a.metadataOf row))
    (fun l r hl hs hk _ hc => hc.assignState (ha l hl hs hk) now state _)
  unfold OperationRuns.touchStore
  split
  · exact h₁.modifyTask key (TaskRow.touch now) (TaskRow.touch_key now) (fun l r _ _ _ _ hc => hc)
  · exact h₁

/-- Clearing a claim leaves no active lease of the task and touches no other task. -/
theorem Fenced.applyStore {s : Store} (h : Fenced s) (key : String) (state : TaskState) (now : Int)
    (a : Transition)
    (ha : a.clearClaim = true ∨ ∀ l, s.leases.find? l.leaseId = some l → l.status = .active →
      l.taskKey = key → TransitionOf a l) : Fenced (applyStore key state now a s) := by
  unfold OperationRuns.applyStore
  cases hr : s.tasks.find? key with
  | none => exact h
  | some row =>
    by_cases hc : a.clearClaim = true
    · simp only [hc, if_true]
      intro l hl hs
      rw [clearClaimStore, Store.modifyTask_leases, retireClaims_leases, touchStore_leases] at hl
      obtain ⟨l₀, hl₀, he⟩ := Option.map_eq_some_iff.mp hl
      split at he
      · subst he
        cases hs
      · rename_i hnot
        subst he
        have hk : l₀.taskKey ≠ key := fun hk => hnot ⟨hk, hs⟩
        obtain ⟨r, hf, hcl⟩ := h l₀ hl₀ hs
        refine ⟨r, ?_, hcl⟩
        rw [clearClaimStore, Store.modifyTask_tasks, Table.find?_modify, if_neg hk, retireClaims_tasks,
          touchStore_tasks_other _ _ _ _ _ _ hk, hf]
    · simp only [hc, Bool.false_eq_true, if_false]
      exact h.touchStore key state now a row (ha.resolve_left hc)

theorem Fenced.reclaimStore {s : Store} (h : Fenced s) (key : String) (now : Int) :
    Fenced (reclaimStore key now s) := by
  unfold OperationRuns.reclaimStore
  split
  · exact h
  · rename_i row hrow
    split
    · exact h
    · rename_i leaseId hid
      split
      · exact h
      · rename_i hfree
        -- the row names a lease that is not active, so the task has no active lease
        refine h.modifyTask key (TaskRow.clearClaim now) (TaskRow.clearClaim_key now) ?_
        intro l r hl hs hk hr hc
        exfalso
        have he : some leaseId = some l.leaseId := by
          rw [← hid, ← hc.1]
          exact congrArg _ (Option.some.inj (hrow.symm.trans hr))
        refine hfree (Or.inr ?_)
        rw [Option.some.inj he, hl]
        simp [hs]

theorem ClaimOf.keepClaim {l : LeaseRow} {r : TaskRow} (h : ClaimOf l r) (new : TaskRow) :
    ClaimOf l (TaskRow.keepClaim new r) := ⟨h.1, h.2.1, h.2.2.1, h.2.2.2⟩

theorem Fenced.registerStore {s : Store} (h : Fenced s) (now : Int) (task : Task) (repo : Repo)
    (status : TaskState) : Fenced (registerStore now task repo status s) := by
  refine Fenced.reclaimStore ?_ _ now
  intro l hl hs
  obtain ⟨r, hr, hc⟩ := h l hl hs
  simp only [Store.upsertTask_tasks, Table.find?_upsert]
  by_cases hk : l.taskKey = (newTaskRow task repo status now).key
  · rw [if_pos hk, hr]
    exact ⟨_, rfl, hc.keepClaim _⟩
  · rw [if_neg hk, hr]
    exact ⟨r, rfl, hc⟩

/-! ## Claims -/

/-- The task row a claim upserts names the lease it inserts. -/
theorem claimOf_taskRow (a : ClaimArgs) (now : Int) (attempt : Nat) (old : Option TaskRow) :
    ClaimOf (a.lease now attempt) ((old.map (a.mergeTask now)).getD (a.taskRow now)) := by
  cases old <;> exact ⟨rfl, rfl, rfl, rfl⟩

/-- A claim that commits hands the task to the new lease. -/
theorem Fenced.claimStore {s t : Store} (h : Fenced s) (now : Int) (a : ClaimArgs) (attempt : Nat)
    (hi : s.insertLease (a.lease now attempt) = some t) : Fenced (claimStore now a t) := by
  obtain ⟨rfl, hfree⟩ := insertLease_eq hi
  refine Fenced.applyStore ?_ a.key .claimed now (a.transition now) (Or.inr ?_)
  · intro l hl hs
    simp only [Store.upsertWorker_leases, Store.upsertTask_leases, Store.upsertRun_leases,
      Store.putLease_leases] at hl
    simp only [Store.upsertWorker_tasks, Store.upsertTask_tasks, Store.upsertRun_tasks,
      Store.putLease_tasks, Table.find?_upsert]
    split at hl
    · obtain rfl := Option.some.inj hl
      simp only [ClaimArgs.lease_taskKey, ClaimArgs.taskRow_key, if_true]
      exact ⟨_, rfl, claimOf_taskRow a now attempt _⟩
    · rename_i hne
      have hk : l.taskKey ≠ (a.taskRow now).key := fun hk => hne (hfree l hl hk hs)
      rw [if_neg hk]
      exact h l hl hs
  · intro l hl hs hk
    simp only [Store.upsertWorker_leases, Store.upsertTask_leases, Store.upsertRun_leases,
      Store.putLease_leases] at hl
    split at hl
    · obtain rfl := Option.some.inj hl
      simp [TransitionOf, ClaimArgs.transition, ClaimArgs.lease]
    · rename_i hne
      exact absurd (hfree l hl hk hs) hne

theorem Fenced.claimTask {s : Store} (h : Fenced s) (env : Env) (now : Int) (a : ClaimArgs) :
    Fenced ((claimTask env now a).run s).2 := by
  rcases run_claimTask_cases env now a s with ⟨-, hrun⟩ | ⟨l, -, -, hrun⟩ | ⟨-, -, -, hrun⟩ | ⟨t, -, -, hi, hrun⟩ <;>
    rw [hrun]
  · exact h
  · exact h
  · exact h
  · exact Fenced.claimStore ((h.sweepExpired now).sweepWorkers now _ _ _) now a _ hi

/-! ## Whole histories -/

theorem Mark.transitionOf {me : RunIdentity} {l : LeaseRow} (h : IdentityOf me l) (mark : Mark)
    (expires : Int) (reason : Option String) : TransitionOf (mark.transition me expires reason).2 l := by
  have hrun : ∀ i ∈ some me.runId, i = l.runId := fun i hi => by
    rw [← Option.some.inj hi, h.1]
  cases mark <;> exact ⟨hrun, h.2.1, h.2.2.1, h.2.2.2⟩

/-- No complete operation breaks the fence, provided marks come from the owner. -/
theorem Fenced.apply {env : Env} {s : Store} (h : Fenced s) (op : Op) (hop : MarksOwnLease s op) :
    Fenced (op.apply env s) := by
  cases op with
  | claimTask now a => rw [apply_claimTask]; exact h.claimTask env now a
  | heartbeatLease now ttl leaseId =>
    rw [apply_heartbeatLease]
    rcases run_heartbeatLease now ttl leaseId s with ⟨row, -, -, he⟩ | ⟨-, ht, -, hl⟩
    · rw [he]; exact h.beatStore now _ row
    · exact h.congr ht hl
  | releaseLease now leaseId status reason =>
    rw [apply_releaseLease]
    rcases run_releaseLease now leaseId status reason s with ⟨row, -, -, he⟩ | ⟨-, ht, -, hl⟩
    · rw [he]; exact h.releaseStore now status reason row
    · exact h.congr ht hl
  | reapExpiredLeases now => rw [apply_reapExpiredLeases]; exact h.sweepExpired now
  | reapStaleWorkers now after => rw [apply_reapStaleWorkers]; exact h.sweepWorkers now _ _ _
  | registerTask now task repo status => rw [apply_registerTask]; exact h.registerStore now task repo status
  | markTask mark now key me expires reason =>
    rw [apply_markTask]
    exact h.applyStore key _ now _ (Or.inr fun l hl hs hk => Mark.transitionOf (hop l (Table.mem_rows.mpr hl) hs hk) mark expires reason)
  | operatorMove now key state reason clear =>
    rw [apply_operatorMove]
    exact h.applyStore key state now _ (Or.inr fun l _ _ _ => by simp [TransitionOf, operatorTransition])
  | registerWorker now workerId hostId role status capabilities runId leaseId =>
    rw [apply_registerWorker]
    exact h.congr rfl (fun _ => rfl)
  | heartbeatWorker now workerId fields =>
    rw [apply_heartbeatWorker]
    split
    · exact h.congr rfl (fun _ => rfl)
    · exact h

/-- In a history whose marks all come from the owner of the task's active lease,
every store reached is fenced. -/
theorem reachable_fenced {env : Env} {s : Store} (h : Reachable env MarksOwnLease s) : Fenced s :=
  h.invariant fenced_empty (fun _ op ih hop => ih.apply op hop)

/-- A run that owns its task to the end, next to a sweep and a second claim. -/
def ownedHistory : List Op :=
  [.claimTask 0 (claimBy "a" (plainTask "T1")), .heartbeatLease 500 1 (Ident.of "lease-a"),
    .markTask .active 600 (claimBy "a" (plainTask "T1")).key (ClaimArgs.identity (claimBy "a" (plainTask "T1")))
      1500 none,
    .claimTask 700 (claimBy "b" (plainTask "T2")), .reapExpiredLeases 1600]

theorem ownedHistory_fenced : Fenced (history sqliteEnv Store.empty ownedHistory) :=
  reachable_fenced (Reached.init.after ownedHistory (by decide +kernel))

/-- A run whose lease expired marks its task done after another run has claimed it. -/
def lateMarkHistory : List Op :=
  [.claimTask 0 (claimBy "a" (plainTask "T1")), .reapExpiredLeases 1000,
    .claimTask 1000 (claimBy "b" (plainTask "T1")),
    .markTask .done 1500 (claimBy "a" (plainTask "T1")).key (ClaimArgs.identity (claimBy "a" (plainTask "T1")))
      0 none]

/-- The lease is not active, or its task row names it. -/
def fencedAt (s : Store) (leaseId : Ident) : Bool :=
  (s.activeLease? leaseId).all (fun l => (s.tasks.find? l.taskKey).any (fun r =>
    decide (r.claimedLeaseId = some l.leaseId)))

theorem Fenced.fencedAt {s : Store} (h : Fenced s) (leaseId : Ident) : fencedAt s leaseId = true := by
  unfold LeaseFencing.fencedAt
  cases hl : s.activeLease? leaseId with
  | none => rfl
  | some l =>
    obtain ⟨hf, ha⟩ := activeLease?_eq_some.mp hl
    obtain ⟨r, hr, hc⟩ := h l (by rw [Table.find?_key hf]; exact hf) ha
    simp [hr, hc.1]

/-- The late mark puts the old lease back into the row of the new owner's task. -/
theorem lateMark_breaks_fence :
    Reachable sqliteEnv (fun _ _ => True) (history sqliteEnv Store.empty lateMarkHistory) ∧
      ¬ Fenced (history sqliteEnv Store.empty lateMarkHistory) := by
  refine ⟨Reached.init.after lateMarkHistory (by decide +kernel), fun h => ?_⟩
  have hb : fencedAt (history sqliteEnv Store.empty lateMarkHistory) (Ident.of "lease-b") = false := by
    decide +kernel
  rw [h.fencedAt] at hb
  cases hb

end LeaseFencing
