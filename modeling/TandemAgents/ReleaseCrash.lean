import TandemAgents.HealthyLeases

/-!
# A release that stops half way

`release_lease` commits each of its statements on its own. If the process stops after
the lease is closed and before the task row is, the task still counts as running and
no lease is left for a sweep to start from.
-/
namespace ReleaseCrash

open KeyedTable PythonText TaskContract CoordinationStore Statements Statements.Prog
open LeaseOperations WorkerOperations TaskOperations OperationRuns GuardedRuns StoreHistories HealthyLeases

set_option maxRecDepth 20000

/-- An active lease of a task key. -/
def HasActiveLease (s : Store) (key : String) : Prop :=
  ∃ l ∈ s.leases.rows, l.status = .active ∧ l.taskKey = key

/-- Every task in a running state has an active lease. -/
def NoOrphan (s : Store) : Prop :=
  ∀ r ∈ s.tasks.rows, r.state.isActive = true → HasActiveLease s r.key

instance (s : Store) (key : String) : Decidable (HasActiveLease s key) := by
  unfold HasActiveLease; infer_instance

instance (s : Store) : Decidable (NoOrphan s) := by unfold NoOrphan; infer_instance

/-- No running task is left without an active lease, at once or after one run of both
sweeps at a late enough time. -/
def Recovers (env : Env) (s : Store) : Prop :=
  NoOrphan s ∨ ∃ late after, ∀ now, late ≤ now →
    NoOrphan ((Op.reapStaleWorkers now after).apply env ((Op.reapExpiredLeases now).apply env s))

/-- A running task without an active lease. -/
def Orphaned (s : Store) (key : String) : Prop :=
  (∃ r, s.tasks.find? key = some r ∧ r.state.isActive = true) ∧ ¬ HasActiveLease s key

theorem noOrphan_iff {s : Store} : NoOrphan s ↔ ∀ key, ¬ Orphaned s key := by
  constructor
  · rintro h key ⟨⟨r, hr, hs⟩, hn⟩
    obtain ⟨hk, hm⟩ := Table.find?_some hr
    exact hn (hk ▸ h r hm hs)
  · intro h r hm hs
    by_contra hn
    exact h r.key ⟨⟨r, Table.mem_rows.mp hm, hs⟩, hn⟩

/-! ## No sweep repairs an orphan -/

theorem Orphaned.of_shrinks {s t : Store} {key : String} (h : Orphaned s key) (hs : Shrinks s t)
    (ht : t.tasks.find? key = s.tasks.find? key) : Orphaned t key := by
  refine ⟨by rw [ht]; exact h.1, ?_⟩
  rintro ⟨l, hl, ha, hk⟩
  exact h.2 ⟨l, Table.mem_rows.mpr (hs.leases l (Table.mem_rows.mp hl) ha), ha, hk⟩

theorem retireStep_tasks (now : Int) (reason : String) (l : LeaseRow) (w : Ident) (s : Store) {key : String}
    (hk : key ≠ l.taskKey) : (retireStep now reason l w s).tasks.find? key = s.tasks.find? key := by
  simp [retireStep, hk]

theorem Orphaned.sweepLeases {s : Store} {key : String} (h : Orphaned s key) (now : Int)
    (rows : List LeaseRow) (hrows : ∀ l ∈ rows, l.taskKey ≠ key) : Orphaned (sweepLeases now rows s) key := by
  induction rows generalizing s with
  | nil => exact h
  | cons l rows ih =>
    refine ih (h.of_shrinks (shrinks_retireStep now "expired" l l.workerId s) ?_)
      (fun x hx => hrows x (List.mem_cons_of_mem _ hx))
    exact retireStep_tasks _ _ _ _ _ (fun he => hrows l List.mem_cons_self he.symm)

theorem Orphaned.sweepExpired {s : Store} {key : String} (h : Orphaned s key) (now : Int) :
    Orphaned (sweepExpired now s) key := by
  refine h.sweepLeases now _ ?_
  intro l hl hk
  simp only [expiredLeases, Table.mem_select, decide_eq_true_eq] at hl
  exact h.2 ⟨l, Table.mem_rows.mpr hl.1, hl.2.1, hk⟩

theorem Orphaned.staleRound {s : Store} {key : String} (h : Orphaned s key) (now cutoff : Int)
    (dead : List Ident) (row : WorkerRow) : Orphaned (staleRound now cutoff dead row s).2 key := by
  refine h.of_shrinks (shrinks_staleRound now cutoff dead row s) ?_
  unfold OperationRuns.staleRound
  split
  · rfl
  · rename_i l hf
    split
    · refine retireStep_tasks _ _ _ _ _ (fun hk => ?_)
      obtain ⟨hfind, ha, -⟩ := ownedLease_find hf
      exact h.2 ⟨l, Table.mem_rows.mpr hfind, ha, hk.symm⟩
    · rfl

theorem Orphaned.sweepWorkers {s : Store} {key : String} (h : Orphaned s key) (now cutoff : Int)
    (dead : List Ident) (rows : List WorkerRow) : Orphaned (sweepWorkers now cutoff dead rows s) key := by
  induction rows generalizing s with
  | nil => exact h
  | cons row rows ih => exact ih (h.staleRound now cutoff dead row)

/-- Both sweeps start from active leases, so they find nothing to do for an orphan. -/
theorem recovers_iff {env : Env} {s : Store} : Recovers env s ↔ NoOrphan s := by
  constructor
  · rintro (h | ⟨late, after, h⟩)
    · exact h
    · rw [noOrphan_iff]
      intro key ho
      refine noOrphan_iff.mp (h late le_rfl) key ?_
      rw [apply_reapStaleWorkers, apply_reapExpiredLeases]
      exact (ho.sweepExpired late).sweepWorkers late _ _ _
  · exact Or.inl

/-! ## The prefixes of a release -/

/-- The committed store when the process stops after `n` statements of a release: the
`SELECT`, the three `UPDATE`s and the final `SELECT`. -/
def releasePrefix (now : Int) (leaseId : Ident) (status : ReleaseStatus) (reason : Option String) (n : Nat)
    (s : Store) : Store := crash n (releaseLease now leaseId status reason) ⟨s, none⟩

/-- The first update of a release. -/
def closeLease (now : Int) (leaseId : Ident) (status : ReleaseStatus) (reason : Option String) (s : Store) :
    Store :=
  s.modifyLease leaseId (LeaseRow.close now status.toLease reason)
    (LeaseRow.close_toLease_leaseId now status reason)

/-- The second update of a release. -/
def closeTask (now : Int) (leaseId : Ident) (status : ReleaseStatus) (key : String) (s : Store) : Store :=
  s.modifyTask key (TaskRow.clearClaimForLease leaseId now (taskStateFromLeaseStatus status)
    (taskStateFromLeaseStatus status).text) (TaskRow.clearClaimForLease_key _ _ _ _)

/-- The prefixes of a release of an active lease commit nothing, the closed lease, or
the closed lease and task. -/
theorem releasePrefix_active (now : Int) {leaseId : Ident} (status : ReleaseStatus) (reason : Option String)
    {s : Store} {l : LeaseRow} (hl : s.activeLease? leaseId = some l) (n : Nat) :
    (n ≤ 1 ∧ releasePrefix now leaseId status reason n s = s) ∨
    (n = 2 ∧ releasePrefix now leaseId status reason n s = closeLease now leaseId status reason s) ∨
    (3 ≤ n ∧ (releasePrefix now leaseId status reason n s).tasks =
        (closeTask now leaseId status l.taskKey (closeLease now leaseId status reason s)).tasks ∧
      (releasePrefix now leaseId status reason n s).leases = (closeLease now leaseId status reason s).leases) := by
  obtain ⟨hf, ha⟩ := activeLease?_eq_some.mp hl
  have hc : activeLeaseCount leaseId s ≠ 0 := activeLeaseCount_ne_zero hl
  unfold releasePrefix releaseLease getLease
  match n with
  | 0 => exact Or.inl ⟨by omega, rfl⟩
  | 1 => exact Or.inl ⟨by omega, rfl⟩
  | 2 =>
    refine Or.inr (Or.inl ⟨rfl, ?_⟩)
    simp only [crash_get_bind, Conn.view, Option.getD_none, hf, crash_updateCount_bind, crash_zero]
    rfl
  | 3 =>
    refine Or.inr (Or.inr ⟨by omega, ?_⟩)
    simp only [crash_get_bind, Conn.view, Option.getD_none, hf, crash_updateCount_bind, hc, if_false,
      clearTaskClaimForLease, crash_update_bind, crash_zero]
    exact ⟨rfl, rfl⟩
  | m + 4 =>
    refine Or.inr (Or.inr ⟨by omega, ?_⟩)
    simp only [crash_get_bind, Conn.view, Option.getD_none, hf, crash_updateCount_bind, hc, if_false,
      clearTaskClaimForLease, crash_update_bind, releaseWorker, crash_get]
    constructor <;> rfl

/-- A release of a lease that is not active commits no change. -/
theorem releasePrefix_idle (now : Int) {leaseId : Ident} (status : ReleaseStatus) (reason : Option String)
    {s : Store} (h : s.activeLease? leaseId = none) (n : Nat) :
    (releasePrefix now leaseId status reason n s).tasks = s.tasks ∧
      ∀ k, (releasePrefix now leaseId status reason n s).leases.find? k = s.leases.find? k := by
  have hc : activeLeaseCount leaseId s = 0 := activeLeaseCount_eq_zero.mpr h
  unfold releasePrefix releaseLease getLease
  match n with
  | 0 => exact ⟨rfl, fun _ => rfl⟩
  | 1 => exact ⟨rfl, fun _ => rfl⟩
  | m + 2 =>
    cases hf : s.leases.find? leaseId with
    | none =>
      simp only [crash_get_bind, Conn.view, Option.getD_none, hf, pure_def, crash_ret, implies_true, and_self]
    | some l =>
      have ha : l.status ≠ .active := by
        intro ha
        rw [activeLease?_eq_some.mpr ⟨hf, ha⟩] at h
        cases h
      simp only [crash_get_bind, Conn.view, Option.getD_none, hf, crash_updateCount_bind, hc, if_true,
        crash_get]
      refine ⟨rfl, fun k => ?_⟩
      simp only [Conn.put, Store.modifyLease_leases, Table.find?_modify]
      split
      · rename_i hk
        simp [hk, hf, LeaseRow.close, ha]
      · rfl

/-! ## When a stopped release recovers -/

theorem shrinks_closeLease (now : Int) (leaseId : Ident) (status : ReleaseStatus) (reason : Option String)
    (s : Store) : Shrinks s (closeLease now leaseId status reason s) := by
  refine shrinks_modifyLease s _ _ _ ?_
  intro l
  by_cases ha : l.status = .active
  · cases status <;> simp [LeaseRow.close, ha, LeaseRow.retire, ReleaseStatus.toLease]
  · simp [LeaseRow.close, ha]

/-- What is left active once a lease is closed. -/
theorem hasActiveLease_closeLease (now : Int) (leaseId : Ident) (status : ReleaseStatus)
    (reason : Option String) {s : Store} {key : String} :
    HasActiveLease (closeLease now leaseId status reason s) key ↔
      ∃ o ∈ s.leases.rows, o.status = .active ∧ o.taskKey = key ∧ o.leaseId ≠ leaseId := by
  constructor
  · rintro ⟨o, ho, ha, hk⟩
    have hf := Table.mem_rows.mp ho
    refine ⟨o, Table.mem_rows.mpr ((shrinks_closeLease now leaseId status reason s).leases o hf ha), ha, hk, ?_⟩
    intro hid
    simp only [closeLease, Store.modifyLease_leases, Table.find?_modify, hid, if_true] at hf
    obtain ⟨r, -, rfl⟩ := Option.map_eq_some_iff.mp hf
    by_cases hr : r.status = .active
    · cases status <;> simp [LeaseRow.close, hr, LeaseRow.retire, ReleaseStatus.toLease] at ha
    · simp [LeaseRow.close, hr] at ha
  · rintro ⟨o, ho, ha, hk, hid⟩
    refine ⟨o, Table.mem_rows.mpr ?_, ha, hk⟩
    simp [closeLease, hid, Table.mem_rows.mp ho]

theorem noOrphan_congr {s t : Store} (ht : t.tasks = s.tasks)
    (hl : ∀ k, t.leases.find? k = s.leases.find? k) : NoOrphan t ↔ NoOrphan s := by
  have hhas : ∀ key, HasActiveLease t key ↔ HasActiveLease s key := by
    intro key
    simp only [HasActiveLease, Table.mem_rows, hl]
  simp only [NoOrphan, ht, hhas]

/-- Between the two updates: the task needs another active lease. -/
theorem noOrphan_closeLease {now : Int} {leaseId : Ident} {status : ReleaseStatus} {reason : Option String}
    {s : Store} {l : LeaseRow} (hl : s.activeLease? leaseId = some l) :
    NoOrphan (closeLease now leaseId status reason s) ↔
      NoOrphan s ∧ ¬ ((∃ r, s.tasks.find? l.taskKey = some r ∧ r.state.isActive = true) ∧
        ∀ o ∈ s.leases.rows, o.status = .active → o.taskKey = l.taskKey → o.leaseId = leaseId) := by
  obtain ⟨hf, ha⟩ := activeLease?_eq_some.mp hl
  constructor
  · intro h
    refine ⟨fun r hr hs => ?_, ?_⟩
    · obtain ⟨o, ho, hoa, hok, -⟩ := (hasActiveLease_closeLease _ _ _ _).mp (h r hr hs)
      exact ⟨o, ho, hoa, hok⟩
    · rintro ⟨⟨r, hr, hs⟩, hunique⟩
      obtain ⟨hk, hm⟩ := Table.find?_some hr
      obtain ⟨o, ho, hoa, hok, hne⟩ := (hasActiveLease_closeLease _ _ _ _).mp (h r hm hs)
      exact hne (hunique o ho hoa (hok.trans hk))
  · rintro ⟨h, hnot⟩ r hr hs
    refine (hasActiveLease_closeLease _ _ _ _).mpr ?_
    obtain ⟨o, ho, hoa, hok⟩ := h r hr hs
    by_cases hid : o.leaseId = leaseId
    · -- the lease being closed was the task's: another one has to be there
      obtain rfl : o = l := by
        have ho' := Table.mem_rows.mp ho
        rw [hid, hf] at ho'
        exact (Option.some.inj ho').symm
      by_contra hno
      refine hnot ⟨⟨r, hok ▸ Table.mem_rows.mp hr, hs⟩, fun x hx hxa hxk => ?_⟩
      by_contra hxid
      exact hno ⟨x, hx, hxa, hxk.trans hok, hxid⟩
    · exact ⟨o, ho, hoa, hok, hid⟩

theorem not_isActive_afterRelease (status : ReleaseStatus) :
    (taskStateFromLeaseStatus status).isActive = false := by
  cases status <;> rfl

/-- Behind the second update: the task is closed with its lease. -/
theorem noOrphan_closeTask {now : Int} {leaseId : Ident} {status : ReleaseStatus} {reason : Option String}
    {s t : Store} {l : LeaseRow} (hl : s.activeLease? leaseId = some l)
    (htasks : t.tasks = (closeTask now leaseId status l.taskKey (closeLease now leaseId status reason s)).tasks)
    (hleases : t.leases = (closeLease now leaseId status reason s).leases) : NoOrphan t ↔ NoOrphan s := by
  obtain ⟨hf, ha⟩ := activeLease?_eq_some.mp hl
  have hhas : ∀ key, HasActiveLease t key ↔
      ∃ o ∈ s.leases.rows, o.status = .active ∧ o.taskKey = key ∧ o.leaseId ≠ leaseId := by
    intro key
    rw [← hasActiveLease_closeLease now leaseId status reason]
    simp only [HasActiveLease, hleases]
  have htask : ∀ key, t.tasks.find? key = if key = l.taskKey then
      (s.tasks.find? key).map (TaskRow.clearClaimForLease leaseId now (taskStateFromLeaseStatus status)
        (taskStateFromLeaseStatus status).text) else s.tasks.find? key := by
    intro key
    simp [htasks, closeTask, closeLease]
  constructor
  · intro h r hr hs
    by_cases hk : r.key = l.taskKey
    · exact ⟨l, Table.mem_rows.mpr (by rw [Table.find?_key hf]; exact hf), ha, hk.symm⟩
    · have hrt : t.tasks.find? r.key = some r := by
        rw [htask, if_neg hk]
        exact Table.mem_rows.mp hr
      obtain ⟨o, ho, hoa, hok, -⟩ := (hhas r.key).mp (h r (Table.mem_rows.mpr hrt) hs)
      exact ⟨o, ho, hoa, hok⟩
  · intro h r hr hs
    have hrt := Table.mem_rows.mp hr
    rw [htask] at hrt
    split at hrt
    · obtain ⟨x, -, rfl⟩ := Option.map_eq_some_iff.mp hrt
      rw [TaskRow.clearClaimForLease_state, not_isActive_afterRelease] at hs
      cases hs
    · rename_i hk
      obtain ⟨o, ho, hoa, hok⟩ := h r (Table.mem_rows.mpr hrt) hs
      refine (hhas r.key).mpr ⟨o, ho, hoa, hok, fun hid => hk ?_⟩
      have ho' := Table.mem_rows.mp ho
      rw [hid, hf] at ho'
      rw [← hok, ← Option.some.inj ho']

/-- A release that stopped after `n` statements leaves nothing to repair exactly when
there was nothing to repair before and it did not stop between closing an active
lease and closing its running task. -/
theorem releasePrefix_recovers_iff (env : Env) (now : Int) (leaseId : Ident) (status : ReleaseStatus)
    (reason : Option String) (n : Nat) (s : Store) :
    Recovers env (releasePrefix now leaseId status reason n s) ↔
      NoOrphan s ∧ ¬ (n = 2 ∧ ∃ l, s.activeLease? leaseId = some l ∧
        (∃ r, s.tasks.find? l.taskKey = some r ∧ r.state.isActive = true) ∧
        ∀ o ∈ s.leases.rows, o.status = .active → o.taskKey = l.taskKey → o.leaseId = leaseId) := by
  rw [recovers_iff]
  cases hl : s.activeLease? leaseId with
  | none =>
    obtain ⟨ht, hf⟩ := releasePrefix_idle now status reason hl n
    simp [noOrphan_congr ht hf]
  | some l =>
    rcases releasePrefix_active now status reason hl n with
      ⟨hn, he⟩ | ⟨rfl, he⟩ | ⟨hn, ht, hle⟩
    · have hn2 : n ≠ 2 := by omega
      simp [he, hn2]
    · rw [he, noOrphan_closeLease hl]
      simp
    · have hn2 : n ≠ 2 := by omega
      simp [noOrphan_closeTask hl ht hle, hn2]

/-- The store after one claim. -/
def claimedStore : Store := (Op.claimTask 0 (claimBy "a" (plainTask "T1"))).apply sqliteEnv Store.empty

/-- A release of that claim which stops after its first update leaves a task that no
later sweep repairs. -/
theorem stopped_release_orphans :
    Reachable sqliteEnv (fun _ _ => True) claimedStore ∧
      ¬ Recovers sqliteEnv (releasePrefix 500 (Ident.of "lease-a") .completed none 2 claimedStore) :=
  ⟨.step _ .init trivial, by rw [recovers_iff]; decide +kernel⟩

end ReleaseCrash
