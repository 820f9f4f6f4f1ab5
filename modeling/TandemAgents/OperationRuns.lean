import TandemAgents.TaskOperations

/-!
# What the operations do when they run alone

Each operation is run on a connection of its own, from the first statement to the
last. The statements of a sweep fold into one store transformer per lease or worker,
and a claim either leaves the store as it was or commits its upserts.
-/
namespace OperationRuns

open KeyedTable PythonText TaskContract CoordinationStore Statements Statements.Prog
open LeaseOperations WorkerOperations TaskOperations

set_option maxRecDepth 20000

/-! ## The expiry sweep -/

/-- The three statements that end a lease in a sweep. -/
def retireStep (now : Int) (reason : String) (l : LeaseRow) (workerId : Ident) (s : Store) : Store :=
  ((s.modifyLease l.leaseId (LeaseRow.retire now .stale (some reason))
    (LeaseRow.retire_some_leaseId now .stale reason)).modifyTask
    l.taskKey (TaskRow.clearClaimForLease l.leaseId now .stale "stale")
    (TaskRow.clearClaimForLease_key_of l now .stale "stale")).modifyWorker
    workerId (WorkerRow.release now "idle") (WorkerRow.release_workerId now "idle")

/-- The store after the loop of the expiry sweep. -/
def sweepLeases (now : Int) (rows : List LeaseRow) (s : Store) : Store :=
  rows.foldl (fun s l => retireStep now "expired" l l.workerId s) s

def sweepExpired (now : Int) (s : Store) : Store := sweepLeases now (expiredLeases now s) s

theorem update_plain (rows : Store → List RowName) (f : Store → Store) :
    (update rows f : Sql Unit).Plain := fun _ => trivial

theorem updateCount_plain (rows : Store → List RowName) (n : Store → Nat) (f : Store → Store) :
    (updateCount rows n f : Sql Nat).Plain := fun _ => trivial

theorem get_plain {α : Type} (q : Store → α) : (get q : Sql α).Plain := fun _ => trivial

theorem reapExpiredLease_plain (now : Int) (l : LeaseRow) : (reapExpiredLease now l).Plain :=
  (update_plain _ _).bind fun _ => (update_plain _ _).bind fun _ => update_plain _ _

theorem eff_reapExpiredRows (now : Int) (rows : List LeaseRow) (s : Store) :
    (forEach (reapExpiredLease now) rows).eff s = (some (), sweepLeases now rows s) :=
  eff_forEach _ (fun l s => retireStep now "expired" l l.workerId s) (fun _ _ => rfl) rows s

theorem eff_reapExpiredLeasesLocked (now : Int) (s : Store) :
    (reapExpiredLeasesLocked now).eff s = (some (), sweepExpired now s) :=
  eff_reapExpiredRows now (expiredLeases now s) s

theorem reapExpiredLeasesLocked_plain (now : Int) : (reapExpiredLeasesLocked now).Plain :=
  (get_plain _).bind fun rows => Plain.forEach (reapExpiredLease_plain now) rows

theorem run_reapExpiredLeases (now : Int) (s : Store) :
    (reapExpiredLeases now).run s = (some (expiredLeases now s), sweepExpired now s) := by
  let body : Sql (List LeaseRow) := do
    let rows ← get (expiredLeases now)
    forEach (reapExpiredLease now) rows
    return rows
  have hp : body.Plain := (get_plain _).bind fun rows =>
    (Plain.forEach (reapExpiredLease_plain now) rows).bind fun _ => trivial
  have he : body.eff s = (some (expiredLeases now s), sweepExpired now s) := by
    change (forEach (reapExpiredLease now) (expiredLeases now s) >>= fun _ => ret (expiredLeases now s)).eff s = _
    rw [eff_bind, eff_reapExpiredRows]
    rfl
  have h := run_transaction hp (g := fun rows => ret rows) (fun _ => trivial) he
  simp only [body, bind_assoc, ret_bind, pure_def] at h
  exact h

/-! ## The stale-worker sweep -/

/-- The lease a worker row points at, in a store. -/
def currentLeaseOf (row : WorkerRow) (s : Store) : Option LeaseRow :=
  row.currentLeaseId.bind (fun leaseId => if leaseId.text = "" then none else s.leases.find? leaseId)

/-- The lease a stale worker owns is in the store, active, and its own. -/
theorem ownedLease_find {row : WorkerRow} {s : Store} {l : LeaseRow}
    (h : (currentLeaseOf row s).filter (ownsActiveLease row) = some l) :
    s.leases.find? l.leaseId = some l ∧ l.status = .active ∧ l.workerId = row.workerId := by
  obtain ⟨hcur, hown⟩ := Option.filter_eq_some_iff.mp h
  obtain ⟨ha, hw⟩ : l.status = .active ∧ l.workerId = row.workerId := by simpa [ownsActiveLease] using hown
  unfold currentLeaseOf at hcur
  obtain ⟨i, -, hget⟩ := Option.bind_eq_some_iff.mp hcur
  split at hget
  · cases hget
  · refine ⟨?_, ha, hw⟩
    rw [Table.find?_key hget]
    exact hget

/-- One round of the sweep's loop: what it reports, and the store after it. -/
def staleRound (now cutoff : Int) (dead : List Ident) (row : WorkerRow) (s : Store) :
    Option (WorkerRow × Option LeaseRow) × Store :=
  match (currentLeaseOf row s).filter (ownsActiveLease row) with
  | none => (some (row, none), s.modifyWorker row.workerId (WorkerRow.release now "idle") (WorkerRow.release_workerId now "idle"))
  | some l =>
    if leaseIsStale cutoff dead row l then
      (some (row, some l), retireStep now "worker stale" l row.workerId s)
    else (none, s)

def sweepWorkers (now cutoff : Int) (dead : List Ident) (rows : List WorkerRow) (s : Store) : Store :=
  rows.foldl (fun s row => (staleRound now cutoff dead row s).2) s

/-- What the sweep reports. -/
def reportWorkers (now cutoff : Int) (dead : List Ident) :
    List WorkerRow → Store → List (WorkerRow × Option LeaseRow)
  | [], _ => []
  | row :: rows, s =>
    (staleRound now cutoff dead row s).1.toList ++
      reportWorkers now cutoff dead rows (staleRound now cutoff dead row s).2

/-- `dead_hosts`. -/
def deadHosts (rows : List WorkerRow) (s : Store) : List Ident :=
  (staleHosts rows).filter (fun h => hostIsDead rows h (workingCount h s))

def sweepStale (now staleAfterSeconds : Int) (s : Store) : Store :=
  let cutoff := now - secondsToMs defaultWorkerStaleAfterSeconds staleAfterSeconds
  sweepWorkers now cutoff (deadHosts (staleWorkers cutoff s) s) (staleWorkers cutoff s) s

/-- The rows of the separate sweep, in the order of `last_seen_at_ms`. -/
def sortedStaleWorkers (cutoff : Int) (s : Store) : List WorkerRow :=
  (staleWorkers cutoff s).insertionSort (fun a b => a.lastSeenAtMs ≤ b.lastSeenAtMs)

def sweepStaleSorted (now staleAfterSeconds : Int) (s : Store) : Store :=
  let cutoff := now - secondsToMs defaultWorkerStaleAfterSeconds staleAfterSeconds
  sweepWorkers now cutoff (deadHosts (sortedStaleWorkers cutoff s) s) (sortedStaleWorkers cutoff s) s

theorem eff_findDeadHosts (rows : List WorkerRow) (hosts : List Ident) (s : Store) :
    (findDeadHosts rows hosts).eff s =
      (some (hosts.filter (fun h => hostIsDead rows h (workingCount h s))), s) := by
  induction hosts with
  | nil => rfl
  | cons h hs ih =>
    rw [findDeadHosts, eff_get_bind, eff_bind, ih]
    by_cases hd : hostIsDead rows h (workingCount h s) <;> simp [hd]

theorem findDeadHosts_plain (rows : List WorkerRow) (hosts : List Ident) :
    (findDeadHosts rows hosts).Plain := by
  induction hosts with
  | nil => trivial
  | cons h hs ih => exact (get_plain _).bind fun _ => ih.bind fun _ => trivial

theorem eff_currentLease (row : WorkerRow) (s : Store) :
    (currentLease row).eff s = (some (currentLeaseOf row s), s) := by
  unfold currentLease currentLeaseOf
  cases row.currentLeaseId with
  | none => rfl
  | some id =>
    by_cases h : id.text = "" <;> simp [h, getLease]

theorem currentLease_plain (row : WorkerRow) : (currentLease row).Plain := by
  unfold currentLease
  cases row.currentLeaseId with
  | none => trivial
  | some id =>
    by_cases h : id.text = ""
    · simp only [h, if_true]; trivial
    · simp only [h, if_false]; exact get_plain _

theorem eff_reapStaleWorker (now cutoff : Int) (dead : List Ident) (row : WorkerRow) (s : Store) :
    (reapStaleWorker now cutoff dead row).eff s =
      (some (staleRound now cutoff dead row s).1, (staleRound now cutoff dead row s).2) := by
  unfold reapStaleWorker staleRound
  rw [eff_bind, eff_currentLease]
  cases h : (currentLeaseOf row s).filter (ownsActiveLease row) with
  | none => simp only [h]; rfl
  | some l =>
    by_cases hs : leaseIsStale cutoff dead row l
    · simp only [h, hs, if_true]; rfl
    · simp only [h, hs, Bool.false_eq_true, if_false]; rfl

theorem reapStaleWorker_plain (now cutoff : Int) (dead : List Ident) (row : WorkerRow) :
    (reapStaleWorker now cutoff dead row).Plain := by
  unfold reapStaleWorker
  refine (currentLease_plain row).bind fun lease => ?_
  cases lease.filter (ownsActiveLease row) with
  | none => exact (update_plain _ _).bind fun _ => trivial
  | some l =>
    by_cases hs : leaseIsStale cutoff dead row l
    · simp only [hs, if_true]
      exact (update_plain _ _).bind fun _ => (update_plain _ _).bind fun _ =>
        (update_plain _ _).bind fun _ => trivial
    · simp only [hs, Bool.false_eq_true, if_false]
      trivial

theorem eff_reapStaleRows (now cutoff : Int) (dead : List Ident) (rows : List WorkerRow) (s : Store) :
    (reapStaleRows now cutoff dead rows).eff s =
      (some (reportWorkers now cutoff dead rows s), sweepWorkers now cutoff dead rows s) := by
  induction rows generalizing s with
  | nil => rfl
  | cons row rows ih =>
    rw [reapStaleRows, eff_bind, eff_reapStaleWorker]
    simp only [eff_bind, ih]
    rfl

theorem reapStaleRows_plain (now cutoff : Int) (dead : List Ident) (rows : List WorkerRow) :
    (reapStaleRows now cutoff dead rows).Plain := by
  induction rows with
  | nil => trivial
  | cons row rows ih =>
    exact (reapStaleWorker_plain now cutoff dead row).bind fun _ => ih.bind fun _ => trivial

theorem eff_reapStaleWorkersLocked (now staleAfterSeconds : Int) (s : Store) :
    (reapStaleWorkersLocked now staleAfterSeconds).eff s = (some (), sweepStale now staleAfterSeconds s) := by
  unfold reapStaleWorkersLocked
  simp only [eff_bind, eff_findDeadHosts, eff_reapStaleRows]
  rfl

theorem reapStaleWorkersLocked_plain (now staleAfterSeconds : Int) :
    (reapStaleWorkersLocked now staleAfterSeconds).Plain :=
  (get_plain _).bind fun rows => (findDeadHosts_plain rows _).bind fun dead =>
    (reapStaleRows_plain now _ dead rows).bind fun _ => trivial

theorem run_reapStaleWorkers (now staleAfterSeconds : Int) (s : Store) :
    ((reapStaleWorkers now staleAfterSeconds).run s).2 = sweepStaleSorted now staleAfterSeconds s := by
  let cutoff := now - secondsToMs defaultWorkerStaleAfterSeconds staleAfterSeconds
  let body : Sql (List (WorkerRow × Option LeaseRow)) := do
    let rows ← get (sortedStaleWorkers cutoff)
    let dead ← findDeadHosts rows (staleHosts rows)
    reapStaleRows now cutoff dead rows
  have hp : body.Plain := (get_plain _).bind fun rows => (findDeadHosts_plain rows _).bind fun dead =>
    reapStaleRows_plain now _ dead rows
  have he : body.eff s = (some (reportWorkers now cutoff (deadHosts (sortedStaleWorkers cutoff s) s)
      (sortedStaleWorkers cutoff s) s), sweepStaleSorted now staleAfterSeconds s) := by
    simp only [body, eff_bind, eff_findDeadHosts, eff_reapStaleRows]
    rfl
  have h := run_transaction hp (g := fun stale => ret stale) (fun _ => trivial) he
  simp only [body, bind_assoc] at h
  exact congrArg Prod.snd h

/-! ## Heartbeats and releases -/

/-- The three statements of a heartbeat that found its lease active. -/
def beatStore (now expiresAt : Int) (row : LeaseRow) (s : Store) : Store :=
  ((s.modifyLease row.leaseId (LeaseRow.beat now expiresAt) (LeaseRow.beat_leaseId now expiresAt)).modifyTask row.taskKey
    (TaskRow.extendLease now expiresAt) (TaskRow.extendLease_key now expiresAt)).modifyWorker row.workerId
    (WorkerRow.beat now row.leaseId)
    (WorkerRow.beat_workerId_of now row)

/-- The three statements of a release that found its lease active. -/
def releaseStore (now : Int) (status : ReleaseStatus) (reason : Option String) (row : LeaseRow)
    (s : Store) : Store :=
  ((s.modifyLease row.leaseId (LeaseRow.close now status.toLease reason)
    (LeaseRow.close_toLease_leaseId now status reason)).modifyTask row.taskKey
    (TaskRow.clearClaimForLease row.leaseId now (taskStateFromLeaseStatus status)
      (taskStateFromLeaseStatus status).text) (TaskRow.clearClaimForLease_key _ _ _ _)).modifyWorker row.workerId
    (WorkerRow.release now (workerStatusAfter status)) (WorkerRow.release_workerId now _)

theorem activeLeaseCount_eq_zero {leaseId : Ident} {s : Store} :
    activeLeaseCount leaseId s = 0 ↔ s.activeLease? leaseId = none := by
  unfold activeLeaseCount
  cases s.activeLease? leaseId <;> simp

theorem activeLeaseCount_ne_zero {leaseId : Ident} {s : Store} {l : LeaseRow} (h : s.activeLease? leaseId = some l) :
    activeLeaseCount leaseId s ≠ 0 := by
  intro h0
  rw [activeLeaseCount_eq_zero.mp h0] at h
  cases h

theorem activeLease?_eq_some {leaseId : Ident} {s : Store} {l : LeaseRow} :
    s.activeLease? leaseId = some l ↔ s.leases.find? leaseId = some l ∧ l.status = .active := by
  simp [Store.activeLease?, Option.filter_eq_some_iff]

theorem heartbeatTask_plain (now expiresAt : Int) (row : LeaseRow) : (heartbeatTask now expiresAt row).Plain :=
  (update_plain _ _).bind fun _ => (update_plain _ _).bind fun _ => get_plain _

theorem heartbeatLease_plain (now ttl : Int) (leaseId : Ident) : (heartbeatLease now ttl leaseId).Plain := by
  refine (get_plain _).bind fun row? => ?_
  cases row? with
  | none => trivial
  | some row =>
    refine (updateCount_plain _ _ _).bind fun count => ?_
    by_cases h : count = 0
    · simp only [h, if_true]; trivial
    · simp only [h, if_false]; exact heartbeatTask_plain _ _ _

theorem releaseLease_plain (now : Int) (leaseId : Ident) (status : ReleaseStatus) (reason : Option String) :
    (releaseLease now leaseId status reason).Plain := by
  refine (get_plain _).bind fun row? => ?_
  cases row? with
  | none => trivial
  | some row =>
    refine (updateCount_plain _ _ _).bind fun count => ?_
    by_cases h : count = 0
    · simp only [h, if_true]
      exact get_plain _
    · simp only [h, if_false]
      exact (update_plain _ _).bind fun _ => (update_plain _ _).bind fun _ => get_plain _

/-- A heartbeat changes nothing unless its lease is active. -/
theorem run_heartbeatLease (now ttl : Int) (leaseId : Ident) (s : Store) :
    (∃ row, s.leases.find? leaseId = some row ∧ row.status = .active ∧
      ((heartbeatLease now ttl leaseId).run s).2 =
        beatStore now (now + secondsToMs defaultLeaseTtlSeconds ttl) row s) ∨
    (s.activeLease? leaseId = none ∧
      ((heartbeatLease now ttl leaseId).run s).2.tasks = s.tasks ∧
      ((heartbeatLease now ttl leaseId).run s).2.workers = s.workers ∧
      ∀ k, ((heartbeatLease now ttl leaseId).run s).2.leases.find? k = s.leases.find? k) := by
  rw [run_plain (heartbeatLease_plain now ttl leaseId)]
  cases hrow : s.leases.find? leaseId with
  | none =>
    right
    simp [heartbeatLease, getLease, hrow, Store.activeLease?]
  | some row =>
    have hid : row.leaseId = leaseId := Table.find?_key hrow
    by_cases ha : row.status = .active
    · left
      refine ⟨row, rfl, ha, ?_⟩
      have hact : s.activeLease? row.leaseId = some row :=
        activeLease?_eq_some.mpr ⟨by rw [hid]; exact hrow, ha⟩
      have hc : activeLeaseCount row.leaseId s ≠ 0 := activeLeaseCount_ne_zero hact
      simp only [heartbeatLease, getLease, eff_get_bind, hrow, heartbeatFound, eff_updateCount_bind, hc,
        if_false]
      rfl
    · right
      have hnone : s.activeLease? row.leaseId = none := by
        simp [Store.activeLease?, hid, hrow, ha]
      have hc : activeLeaseCount row.leaseId s = 0 := activeLeaseCount_eq_zero.mpr hnone
      have heff : ((heartbeatLease now ttl leaseId).eff s).2 = s.modifyLease row.leaseId
          (LeaseRow.beat now (now + secondsToMs defaultLeaseTtlSeconds ttl)) (LeaseRow.beat_leaseId _ _) := by
        simp only [heartbeatLease, getLease, eff_get_bind, hrow, heartbeatFound, eff_updateCount_bind, hc,
          if_true]
        rfl
      rw [heff]
      refine ⟨by rw [← hid]; exact hnone, rfl, rfl, ?_⟩
      intro k
      simp only [Store.modifyLease_leases, Table.find?_modify, hid]
      split
      · rename_i hk
        simp [hk, hrow, LeaseRow.beat, ha]
      · rfl

/-- A release changes nothing unless its lease is active. -/
theorem run_releaseLease (now : Int) (leaseId : Ident) (status : ReleaseStatus) (reason : Option String)
    (s : Store) :
    (∃ row, s.leases.find? leaseId = some row ∧ row.status = .active ∧
      ((releaseLease now leaseId status reason).run s).2 = releaseStore now status reason row s) ∨
    (s.activeLease? leaseId = none ∧
      ((releaseLease now leaseId status reason).run s).2.tasks = s.tasks ∧
      ((releaseLease now leaseId status reason).run s).2.workers = s.workers ∧
      ∀ k, ((releaseLease now leaseId status reason).run s).2.leases.find? k = s.leases.find? k) := by
  rw [run_plain (releaseLease_plain now leaseId status reason)]
  cases hrow : s.leases.find? leaseId with
  | none =>
    right
    simp [releaseLease, getLease, hrow, Store.activeLease?]
  | some row =>
    have hid : row.leaseId = leaseId := Table.find?_key hrow
    by_cases ha : row.status = .active
    · left
      refine ⟨row, rfl, ha, ?_⟩
      have hact : s.activeLease? leaseId = some row := activeLease?_eq_some.mpr ⟨hrow, ha⟩
      have hc : activeLeaseCount leaseId s ≠ 0 := activeLeaseCount_ne_zero hact
      simp only [releaseLease, getLease, eff_get_bind, hrow, eff_updateCount_bind, hc, if_false]
      subst hid
      rfl
    · right
      have hnone : s.activeLease? leaseId = none := by
        simp [Store.activeLease?, hrow, ha]
      have hc : activeLeaseCount leaseId s = 0 := activeLeaseCount_eq_zero.mpr hnone
      have heff : ((releaseLease now leaseId status reason).eff s).2 = s.modifyLease leaseId
          (LeaseRow.close now status.toLease reason)
            (LeaseRow.close_leaseId now status.toLease reason) := by
        simp only [releaseLease, getLease, eff_get_bind, hrow, eff_updateCount_bind, hc, if_true]
        rfl
      rw [heff]
      refine ⟨hnone, rfl, rfl, ?_⟩
      intro k
      simp only [Store.modifyLease_leases, Table.find?_modify]
      split
      · rename_i hk
        simp [hk, hrow, LeaseRow.close, ha]
      · rfl

/-! ## Transitions and registration -/

/-- The workers of the leases a cleared claim retires. -/
def idleWorkers (now : Int) (rows : List LeaseRow) (s : Store) : Store :=
  rows.foldl (fun s l => s.modifyWorker l.workerId (WorkerRow.releaseFrom now l.leaseId)
    (WorkerRow.releaseFrom_workerId_of now l)) s

/-- The leases and workers after the `clear_claim` part of a transition. -/
def retireClaims (key : String) (now : Int) (reason : Option String) (s : Store) : Store :=
  if activeLeasesOf key s ≠ [] then
    idleWorkers now (activeLeasesOf key s)
      (retireActiveLeases key now (orElse (reason.getD "") "operator cleared task claim") s)
  else s

/-- The store after the `clear_claim` part of a transition. -/
def clearClaimStore (key : String) (now : Int) (reason : Option String) (s : Store) : Store :=
  (retireClaims key now reason s).modifyTask key (TaskRow.clearClaim now) (TaskRow.clearClaim_key now)

@[simp] theorem idleWorkers_leases (now : Int) (rows : List LeaseRow) (s : Store) :
    (idleWorkers now rows s).leases = s.leases := by
  induction rows generalizing s with
  | nil => rfl
  | cons l rows ih => exact ih _

@[simp] theorem idleWorkers_tasks (now : Int) (rows : List LeaseRow) (s : Store) :
    (idleWorkers now rows s).tasks = s.tasks := by
  induction rows generalizing s with
  | nil => rfl
  | cons l rows ih => exact ih _

theorem retireClaims_tasks (key : String) (now : Int) (reason : Option String) (s : Store) :
    (retireClaims key now reason s).tasks = s.tasks := by
  unfold retireClaims
  split
  · simp [retireActiveLeases]
  · rfl

/-- Clearing a claim retires every active lease of the task and no other lease. -/
theorem retireClaims_leases (key : String) (now : Int) (reason : Option String) (s : Store) (k : Ident) :
    (retireClaims key now reason s).leases.find? k = (s.leases.find? k).map (fun l =>
      if l.taskKey = key ∧ l.status = .active then
        l.retire now .stale (some (orElse (reason.getD "") "operator cleared task claim"))
      else l) := by
  unfold retireClaims
  split
  · simp [retireActiveLeases]
  · rename_i h
    cases hf : s.leases.find? k with
    | none => rfl
    | some l =>
      have hnot : ¬ (l.taskKey = key ∧ l.status = .active) := by
        intro hl
        refine h (List.ne_nil_of_mem (a := l) ?_)
        simp only [activeLeasesOf, Table.mem_select, decide_eq_true_eq]
        exact ⟨by rw [Table.find?_key hf]; exact hf, hl⟩
      simp [hnot]

/-- The two updates of a transition before a claim is cleared. -/
def touchStore (key : String) (state : TaskState) (now : Int) (a : Transition) (row : TaskRow)
    (s : Store) : Store :=
  if row.state ≠ state then
    (s.modifyTask key (assignState now state a (a.metadataOf row))
      (assignState_metadataOf_key now state a row)).modifyTask key
      (TaskRow.touch now) (TaskRow.touch_key now)
  else s.modifyTask key (assignState now state a (a.metadataOf row))
      (assignState_metadataOf_key now state a row)

/-- The store after `_apply_task_state_locked`. -/
def applyStore (key : String) (state : TaskState) (now : Int) (a : Transition) (s : Store) : Store :=
  match s.tasks.find? key with
  | none => s
  | some row =>
    if a.clearClaim then clearClaimStore key now a.reason (touchStore key state now a row s)
    else touchStore key state now a row s

@[simp] theorem touchStore_leases (key : String) (state : TaskState) (now : Int) (a : Transition)
    (row : TaskRow) (s : Store) : (touchStore key state now a row s).leases = s.leases := by
  unfold touchStore
  split <;> rfl

@[simp] theorem touchStore_workers (key : String) (state : TaskState) (now : Int) (a : Transition)
    (row : TaskRow) (s : Store) : (touchStore key state now a row s).workers = s.workers := by
  unfold touchStore
  split <;> rfl

theorem touchStore_tasks_other (key : String) (state : TaskState) (now : Int) (a : Transition)
    (row : TaskRow) (s : Store) {k : String} (hk : k ≠ key) :
    (touchStore key state now a row s).tasks.find? k = s.tasks.find? k := by
  unfold touchStore
  split <;> simp [hk]

/-- The store after `_clear_reclaimable_task_claim_locked`. -/
def reclaimStore (key : String) (now : Int) (s : Store) : Store :=
  match s.tasks.find? key with
  | none => s
  | some row =>
    match row.claimedLeaseId with
    | none => s
    | some leaseId =>
      if leaseId.text = "" ∨ (s.leases.find? leaseId).any (fun l => decide (l.status = .active)) then s
      else s.modifyTask key (TaskRow.clearClaim now) (TaskRow.clearClaim_key now)

/-- The store after `register_task`. -/
def registerStore (now : Int) (task : Task) (repo : Repo) (status : TaskState) (s : Store) : Store :=
  reclaimStore (taskKey task).1 now (s.upsertTask (newTaskRow task repo status now)
    (TaskRow.keepClaim (newTaskRow task repo status now))
    (TaskRow.keepClaim_newTaskRow_key task repo status now))

theorem eff_clearTaskClaim (key : String) (now : Int) (reason : Option String) (s : Store) :
    (clearTaskClaim key now reason).eff s = (some (), clearClaimStore key now reason s) := by
  unfold clearTaskClaim clearClaimStore retireClaims
  rw [eff_get_bind]
  by_cases h : activeLeasesOf key s ≠ []
  · simp only [h, ne_eq, not_false_eq_true, if_true, eff_bind, eff_update]
    rw [eff_forEach _ (fun l s => s.modifyWorker l.workerId (WorkerRow.releaseFrom now l.leaseId)
    (WorkerRow.releaseFrom_workerId now l.leaseId))
      (fun _ _ => rfl)]
    rfl
  · simp only [h, if_false]
    rfl

theorem clearTaskClaim_plain (key : String) (now : Int) (reason : Option String) :
    (clearTaskClaim key now reason).Plain := by
  refine (get_plain _).bind fun rows => ?_
  by_cases h : rows ≠ []
  · simp only [h, ne_eq, not_false_eq_true, if_true]
    exact (update_plain _ _).bind fun _ => (Plain.forEach (fun _ => update_plain _ _) _).bind fun _ =>
      update_plain _ _
  · simp only [h, if_false]
    exact update_plain _ _

theorem eff_applyTaskState (key : String) (state : TaskState) (now : Int) (a : Transition) (s : Store) :
    (applyTaskState key state now a).eff s = (some (), applyStore key state now a s) := by
  unfold applyTaskState applyStore getTask
  rw [eff_get_bind]
  cases s.tasks.find? key with
  | none => rfl
  | some row =>
    by_cases h : row.state ≠ state <;> by_cases hc : a.clearClaim <;>
      simp [touchStore, h, hc, eff_bind, eff_clearTaskClaim]

theorem applyTaskState_plain (key : String) (state : TaskState) (now : Int) (a : Transition) :
    (applyTaskState key state now a).Plain := by
  refine (get_plain _).bind fun row? => ?_
  cases row? with
  | none => trivial
  | some row =>
    refine (update_plain _ _).bind fun _ => ?_
    by_cases h : row.state ≠ state <;> by_cases hc : a.clearClaim
    · simp only [h, hc, ne_eq, not_false_eq_true, if_true]
      exact (update_plain _ _).bind fun _ => clearTaskClaim_plain _ _ _
    · simp only [h, hc, ne_eq, not_false_eq_true, Bool.false_eq_true, if_true, if_false]
      exact (update_plain _ _).bind fun _ => trivial
    · simp only [h, hc, if_true, if_false]
      exact clearTaskClaim_plain _ _ _
    · simp only [h, hc, Bool.false_eq_true, if_false]
      trivial

theorem run_transitionTaskState (now : Int) (key : String) (state : TaskState) (a : Transition) (s : Store) :
    ((transitionTaskState now key state a).run s).2 = applyStore key state now a s := by
  have hp : (transitionTaskState now key state a).Plain :=
    (applyTaskState_plain key state now a).bind fun _ => get_plain _
  rw [run_plain hp, transitionTaskState, eff_bind, eff_applyTaskState]
  rfl

theorem eff_clearReclaimableTaskClaim (key : String) (now : Int) (s : Store) :
    (clearReclaimableTaskClaim key now).eff s = (some (), reclaimStore key now s) := by
  unfold clearReclaimableTaskClaim reclaimStore getTask
  rw [eff_get_bind]
  cases s.tasks.find? key with
  | none => rfl
  | some row =>
    cases hl : row.claimedLeaseId with
    | none => simp [hl]
    | some leaseId =>
      by_cases ht : leaseId.text = ""
      · simp [hl, ht]
      · by_cases ha : (s.leases.find? leaseId).any (fun l => decide (l.status = .active)) <;>
          simp [hl, ht, ha, getLease]

theorem clearReclaimableTaskClaim_plain (key : String) (now : Int) :
    (clearReclaimableTaskClaim key now).Plain := by
  refine (get_plain _).bind fun row? => ?_
  cases row? with
  | none => trivial
  | some row =>
    cases hl : row.claimedLeaseId with
    | none => simp only [hl]; trivial
    | some leaseId =>
      by_cases ht : leaseId.text = ""
      · simp only [hl, ht, if_true]; trivial
      · simp only [hl, ht, if_false]
        refine (get_plain _).bind fun lease => ?_
        by_cases ha : lease.any (fun l => decide (l.status = .active))
        · simp only [ha, if_true]; trivial
        · simp only [ha, if_false]; exact update_plain _ _

theorem run_registerTask (now : Int) (task : Task) (repo : Repo) (status : TaskState) (s : Store) :
    ((registerTask now task repo status).run s).2 = registerStore now task repo status s := by
  have hp : (registerTask now task repo status).Plain := (update_plain _ _).bind fun _ =>
    (clearReclaimableTaskClaim_plain _ _).bind fun _ => get_plain _
  rw [run_plain hp, registerTask, eff_update_bind, eff_bind, eff_clearReclaimableTaskClaim]
  rfl

/-! ## Claims -/

/-- The upserts of a claim behind the one of the lease, and its transition. -/
def claimStore (now : Int) (a : ClaimArgs) (s : Store) : Store :=
  applyStore a.key .claimed now (a.transition now)
    (((s.upsertRun (a.run now) (a.mergeRun now) (a.mergeRun_runId now)).upsertTask (a.taskRow now) (a.mergeTask now)
      (a.mergeTask_key now)).upsertWorker (a.worker now) (a.mergeWorker now) (a.mergeWorker_workerId now))

theorem eff_writeClaim (now : Int) (a : ClaimArgs) (attempt : Nat) (s : Store) :
    (writeClaim now a attempt).eff s = match s.insertLease (a.lease now attempt) with
      | none => (none, s)
      | some t => (some (), claimStore now a t) := by
  unfold writeClaim insertRow
  rw [exec_bind, eff_exec]
  cases h : s.insertLease (a.lease now attempt) with
  | none => rfl
  | some t => exact eff_applyTaskState _ _ _ _ _

theorem writeClaim_plain (now : Int) (a : ClaimArgs) (attempt : Nat) : (writeClaim now a attempt).Plain :=
  Plain.bind (p := insertRow _ _) (fun _ => trivial) fun _ => (update_plain _ _).bind fun _ =>
    (update_plain _ _).bind fun _ => (update_plain _ _).bind fun _ => applyTaskState_plain _ _ _ _

theorem lockTaskKey_eff (env : Env) (key : String) (s : Store) :
    (lockTaskKey env key).eff s = (some (), s) := by
  unfold lockTaskKey
  cases env.backend <;> rfl

theorem lockTaskKey_plain (env : Env) (key : String) : (lockTaskKey env key).Plain := by
  unfold lockTaskKey
  cases env.backend <;> trivial

/-- What a claim sees after its two sweeps. -/
def sweptStore (now : Int) (s : Store) : Store :=
  sweepStale now defaultWorkerStaleAfterSeconds (sweepExpired now s)

/-- The dependency status a claim computes. -/
def claimDependencies (env : Env) (now : Int) (a : ClaimArgs) (s : Store) : DependencyStatus :=
  dependencyStatusForTask env.lower a.task (knownOrNone (knownTasks a.key (sweptStore now s)))

theorem run_claimTask (env : Env) (now : Int) (a : ClaimArgs) (s : Store) :
    (claimTask env now a).run s =
      (((decideClaim env now a).go ⟨s, some (sweptStore now s)⟩).1,
        ((decideClaim env now a).go ⟨s, some (sweptStore now s)⟩).2.db) := by
  have hgo : (claimTask env now a).go ⟨s, none⟩ = (decideClaim env now a).go ⟨s, some (sweptStore now s)⟩ := by
    unfold claimTask
    rw [beginTransaction_bind, go_beginTx, go_plain_bind (lockTaskKey_plain env a.key) _ (lockTaskKey_eff env a.key _),
      go_plain_bind (reapExpiredLeasesLocked_plain now) _ (eff_reapExpiredLeasesLocked now _),
      go_plain_bind (reapStaleWorkersLocked_plain now _) _ (eff_reapStaleWorkersLocked now _ _)]
    rfl
  rw [run, hgo]

/-- A claim that meets an unmet dependency leaves the store as it was. -/
theorem run_claimTask_blocked {env : Env} {now : Int} {a : ClaimArgs} {s : Store}
    (h : (claimDependencies env now a s).blocked = true) :
    (claimTask env now a).run s = (some (.dependencyBlocked (claimDependencies env now a s)
      ((sweptStore now s).tasks.find? a.key)), s) := by
  unfold claimDependencies at h
  rw [run_claimTask]
  simp only [decideClaim, getTask, go_get_bind, Conn.view, Option.getD_some, h, if_true]
  rfl

/-- A claim that meets an unexpired lease leaves the store as it was. -/
theorem run_claimTask_live {env : Env} {now : Int} {a : ClaimArgs} {s : Store} {l : LeaseRow}
    (h : (claimDependencies env now a s).blocked = false)
    (hl : liveLease a.key now (sweptStore now s) = some l) :
    (claimTask env now a).run s = (some (.activeLeaseExists ((sweptStore now s).tasks.find? a.key) l), s) := by
  unfold claimDependencies at h
  rw [run_claimTask]
  simp only [decideClaim, getTask, go_get_bind, Conn.view, Option.getD_some, h, Bool.false_eq_true, if_false, hl]
  rfl

/-- Otherwise the claim commits its upserts, unless the index refuses the lease. -/
theorem run_claimTask_write {env : Env} {now : Int} {a : ClaimArgs} {s : Store}
    (h : (claimDependencies env now a s).blocked = false)
    (hl : liveLease a.key now (sweptStore now s) = none) :
    (claimTask env now a).run s =
      match (sweptStore now s).insertLease (a.lease now (nextAttempt a.key (sweptStore now s))) with
      | none => (none, s)
      | some t => (some (.claimed ((claimStore now a t).leases.find? a.leaseId)
          ((claimStore now a t).tasks.find? a.key)), claimStore now a t) := by
  unfold claimDependencies at h
  rw [run_claimTask]
  simp only [decideClaim, getTask, getLease, go_get_bind, Conn.view, Option.getD_some, h, Bool.false_eq_true,
    if_false, hl]
  rw [go_bind, go_plain _ (writeClaim_plain now a _)]
  simp only [Conn.view, Option.getD_some, eff_writeClaim]
  cases hi : (sweptStore now s).insertLease (a.lease now (nextAttempt a.key (sweptStore now s))) <;> rfl

/-- All a claim can come to: dependencies block it, it meets an unexpired lease, the index
refuses its lease, or it is written. -/
theorem run_claimTask_cases (env : Env) (now : Int) (a : ClaimArgs) (s : Store) :
    ((claimDependencies env now a s).blocked = true ∧ (claimTask env now a).run s =
      (some (.dependencyBlocked (claimDependencies env now a s) ((sweptStore now s).tasks.find? a.key)), s)) ∨
    (∃ l, (claimDependencies env now a s).blocked = false ∧ liveLease a.key now (sweptStore now s) = some l ∧
      (claimTask env now a).run s = (some (.activeLeaseExists ((sweptStore now s).tasks.find? a.key) l), s)) ∨
    ((claimDependencies env now a s).blocked = false ∧ liveLease a.key now (sweptStore now s) = none ∧
      (sweptStore now s).insertLease (a.lease now (nextAttempt a.key (sweptStore now s))) = none ∧
      (claimTask env now a).run s = (none, s)) ∨
    (∃ t, (claimDependencies env now a s).blocked = false ∧ liveLease a.key now (sweptStore now s) = none ∧
      (sweptStore now s).insertLease (a.lease now (nextAttempt a.key (sweptStore now s))) = some t ∧
      (claimTask env now a).run s = (some (.claimed ((claimStore now a t).leases.find? a.leaseId)
        ((claimStore now a t).tasks.find? a.key)), claimStore now a t)) := by
  cases hb : (claimDependencies env now a s).blocked with
  | true => exact .inl ⟨rfl, run_claimTask_blocked hb⟩
  | false =>
    cases hl : liveLease a.key now (sweptStore now s) with
    | some l => exact .inr (.inl ⟨l, rfl, rfl, run_claimTask_live hb hl⟩)
    | none =>
      have hrun := run_claimTask_write hb hl
      cases hi : (sweptStore now s).insertLease (a.lease now (nextAttempt a.key (sweptStore now s))) with
      | none =>
        rw [hi] at hrun
        exact .inr (.inr (.inl ⟨rfl, rfl, rfl, hrun⟩))
      | some t =>
        rw [hi] at hrun
        exact .inr (.inr (.inr ⟨t, rfl, rfl, rfl, hrun⟩))

end OperationRuns
