import TandemAgents.StoreHistories

/-!
# Healthy leases survive the sweeps

With a clock that never goes back, the worker that owns an active lease was last seen
no earlier than the lease's heartbeat. So a stale worker owns stale leases only, and
the dead-host branch of the sweep cannot reach a lease whose heartbeat is fresh.
-/
namespace HealthyLeases

open KeyedTable PythonText TaskContract CoordinationStore Statements Statements.Prog
open LeaseOperations WorkerOperations TaskOperations OperationRuns GuardedRuns StoreHistories

set_option maxRecDepth 20000

/-- Complete operations whose clock values never decrease. -/
inductive ClockedHistory (env : Env) : Int → Store → Prop where
  | init (t : Int) : ClockedHistory env t Store.empty
  | step {t : Int} {s : Store} (op : Op) : ClockedHistory env t s → t ≤ op.now →
      ClockedHistory env op.now (op.apply env s)

/-- What the sweeps rely on at time `t`. -/
structure Healthy (t : Int) (s : Store) : Prop where
  beaten : ∀ l, s.leases.find? l.leaseId = some l → l.status = .active → l.heartbeatAtMs ≤ t
  seen : ∀ w, s.workers.find? w.workerId = some w → w.lastSeenAtMs ≤ t
  owner : ∀ l w, s.leases.find? l.leaseId = some l → l.status = .active →
    s.workers.find? l.workerId = some w → l.heartbeatAtMs ≤ w.lastSeenAtMs

/-- No lease becomes active or changes while active, and no worker appears or is
seen anew. -/
structure Shrinks (s t : Store) : Prop where
  leases : ∀ l, t.leases.find? l.leaseId = some l → l.status = .active → s.leases.find? l.leaseId = some l
  workers : ∀ k w, t.workers.find? k = some w → ∃ v, s.workers.find? k = some v ∧ v.lastSeenAtMs = w.lastSeenAtMs

theorem Shrinks.refl (s : Store) : Shrinks s s := ⟨fun _ h _ => h, fun _ w h => ⟨w, h, rfl⟩⟩

theorem Shrinks.trans {s t u : Store} (h : Shrinks s t) (k : Shrinks t u) : Shrinks s u where
  leases l hl ha := h.leases l (k.leases l hl ha) ha
  workers i w hw := by
    obtain ⟨v, hv, he⟩ := k.workers i w hw
    obtain ⟨x, hx, hxe⟩ := h.workers i v hv
    exact ⟨x, hx, hxe.trans he⟩

theorem Shrinks.of_eq {s t : Store} (hl : ∀ k, t.leases.find? k = s.leases.find? k)
    (hw : ∀ k, t.workers.find? k = s.workers.find? k) : Shrinks s t :=
  ⟨fun l h _ => by rw [← hl]; exact h, fun k w h => ⟨w, by rw [← hw]; exact h, rfl⟩⟩

theorem Healthy.shrink {t t' : Int} {s s' : Store} (h : Healthy t s) (hs : Shrinks s s') (ht : t ≤ t') :
    Healthy t' s' where
  beaten l hl ha := (h.beaten l (hs.leases l hl ha) ha).trans ht
  seen w hw := by
    obtain ⟨v, hv, he⟩ := hs.workers _ w hw
    rw [← Table.find?_key hv] at hv
    exact he ▸ (h.seen v hv).trans ht
  owner l w hl ha hw := by
    obtain ⟨v, hv, he⟩ := hs.workers _ w hw
    exact he ▸ h.owner l v (hs.leases l hl ha) ha hv

theorem healthy_empty (t : Int) : Healthy t Store.empty where
  beaten l h := by simp [Store.empty] at h
  seen w h := by simp [Store.empty] at h
  owner l w h := by simp [Store.empty] at h

/-! ## Operations that only end leases -/

theorem shrinks_modifyTask (s : Store) (k : String) (f : TaskRow → TaskRow) (hf : ∀ r, (f r).key = r.key) :
    Shrinks s (s.modifyTask k f hf) := .of_eq (fun _ => rfl) (fun _ => rfl)

theorem shrinks_modifyLease (s : Store) (k : Ident) (f : LeaseRow → LeaseRow)
    (hf : ∀ l, (f l).leaseId = l.leaseId) (hs : ∀ l, (f l).status ≠ .active) :
    Shrinks s (s.modifyLease k f hf) where
  leases l hl ha := by
    simp only [Store.modifyLease_leases, Table.find?_modify] at hl
    split at hl
    · obtain ⟨r, -, rfl⟩ := Option.map_eq_some_iff.mp hl
      exact absurd ha (hs r)
    · exact hl
  workers i w hw := ⟨w, hw, rfl⟩

theorem shrinks_modifyWorker (s : Store) (k : Ident) (f : WorkerRow → WorkerRow)
    (hf : ∀ w, (f w).workerId = w.workerId) (hs : ∀ w, (f w).lastSeenAtMs = w.lastSeenAtMs) :
    Shrinks s (s.modifyWorker k f hf) where
  leases l hl _ := hl
  workers i w hw := by
    simp only [Store.modifyWorker_workers, Table.find?_modify] at hw
    split at hw
    · obtain ⟨v, hv, rfl⟩ := Option.map_eq_some_iff.mp hw
      exact ⟨v, hv, (hs v).symm⟩
    · exact ⟨w, hw, rfl⟩

theorem shrinks_retireStep (now : Int) (reason : String) (l : LeaseRow) (w : Ident) (s : Store) :
    Shrinks s (retireStep now reason l w s) :=
  ((shrinks_modifyLease s _ _ _ (fun _ => by simp [LeaseRow.retire])).trans
    (shrinks_modifyTask _ _ _ _)).trans (shrinks_modifyWorker _ _ _ _ (fun _ => rfl))

theorem shrinks_sweepLeases (now : Int) (rows : List LeaseRow) (s : Store) :
    Shrinks s (sweepLeases now rows s) := by
  induction rows generalizing s with
  | nil => exact .refl s
  | cons l rows ih => exact (shrinks_retireStep now "expired" l l.workerId s).trans (ih _)

theorem shrinks_staleRound (now cutoff : Int) (dead : List Ident) (row : WorkerRow) (s : Store) :
    Shrinks s (staleRound now cutoff dead row s).2 := by
  unfold staleRound
  split
  · exact shrinks_modifyWorker _ _ _ _ (fun _ => rfl)
  · split
    · exact shrinks_retireStep _ _ _ _ _
    · exact .refl s

theorem shrinks_sweepWorkers (now cutoff : Int) (dead : List Ident) (rows : List WorkerRow) (s : Store) :
    Shrinks s (sweepWorkers now cutoff dead rows s) := by
  induction rows generalizing s with
  | nil => exact .refl s
  | cons row rows ih => exact (shrinks_staleRound now cutoff dead row s).trans (ih _)

theorem shrinks_sweptStore (now : Int) (s : Store) : Shrinks s (sweptStore now s) :=
  (shrinks_sweepLeases now _ s).trans (shrinks_sweepWorkers now _ _ _ _)

theorem shrinks_releaseStore (now : Int) (status : ReleaseStatus) (reason : Option String) (row : LeaseRow)
    (s : Store) : Shrinks s (releaseStore now status reason row s) := by
  refine ((shrinks_modifyLease s _ _ _ ?_).trans (shrinks_modifyTask _ _ _ _)).trans
    (shrinks_modifyWorker _ _ _ _ (fun _ => rfl))
  intro l
  by_cases ha : l.status = .active
  · cases status <;> simp [LeaseRow.close, ha, LeaseRow.retire, ReleaseStatus.toLease]
  · simp [LeaseRow.close, ha]

theorem shrinks_idleWorkers (now : Int) (rows : List LeaseRow) (s : Store) :
    Shrinks s (idleWorkers now rows s) := by
  induction rows generalizing s with
  | nil => exact .refl s
  | cons l rows ih =>
    refine (shrinks_modifyWorker s _ _ _ ?_).trans (ih _)
    intro w
    unfold WorkerRow.releaseFrom
    split <;> rfl

theorem shrinks_retireActiveLeases (key : String) (now : Int) (reason : String) (s : Store) :
    Shrinks s (retireActiveLeases key now reason s) where
  leases l hl ha := by
    simp only [retireActiveLeases, Table.find?_update, decide_eq_true_eq] at hl
    obtain ⟨r, hr, he⟩ := Option.map_eq_some_iff.mp hl
    split at he
    · rw [← he] at ha
      cases ha
    · rw [← he]
      rw [← he] at hr
      exact hr
  workers i w hw := ⟨w, hw, rfl⟩

theorem shrinks_retireClaims (key : String) (now : Int) (reason : Option String) (s : Store) :
    Shrinks s (retireClaims key now reason s) := by
  unfold retireClaims
  split
  · exact (shrinks_retireActiveLeases key now _ s).trans (shrinks_idleWorkers now _ _)
  · exact .refl s

theorem shrinks_applyStore (key : String) (state : TaskState) (now : Int) (a : Transition) (s : Store) :
    Shrinks s (applyStore key state now a s) := by
  unfold applyStore
  split
  · exact .refl s
  · rename_i row _
    have htouch : Shrinks s (touchStore key state now a row s) := .of_eq (fun _ => by simp) (fun _ => by simp)
    split
    · exact htouch.trans ((shrinks_retireClaims key now a.reason _).trans (shrinks_modifyTask _ _ _ _))
    · exact htouch

theorem shrinks_registerStore (now : Int) (task : Task) (repo : Repo) (status : TaskState) (s : Store) :
    Shrinks s (registerStore now task repo status s) := by
  refine Shrinks.trans (t := s.upsertTask (newTaskRow task repo status now)
    (TaskRow.keepClaim (newTaskRow task repo status now)) (TaskRow.keepClaim_key _))
    (.of_eq (fun _ => rfl) (fun _ => rfl)) ?_
  unfold registerStore reclaimStore
  split
  · exact .refl _
  · split
    · exact .refl _
    · split
      · exact .refl _
      · exact shrinks_modifyTask _ _ _ _

/-! ## Operations that see a worker -/

/-- A worker seen at `now`, with nothing else changed. -/
theorem Healthy.seeWorker {t now : Int} {s s' : Store} (h : Healthy t s) (ht : t ≤ now) (k : Ident)
    (hl : ∀ i, s'.leases.find? i = s.leases.find? i)
    (hk : ∀ w, s'.workers.find? k = some w → w.lastSeenAtMs = now)
    (hw : ∀ i, i ≠ k → s'.workers.find? i = s.workers.find? i) : Healthy now s' where
  beaten l hf ha := (h.beaten l (by rw [← hl]; exact hf) ha).trans ht
  seen w hf := by
    by_cases hi : w.workerId = k
    · exact (hk w (hi ▸ hf)).le
    · exact (h.seen w (by rw [← hw _ hi]; exact hf)).trans ht
  owner l w hf ha hv := by
    by_cases hi : l.workerId = k
    · rw [hk w (hi ▸ hv)]
      exact (h.beaten l (by rw [← hl]; exact hf) ha).trans ht
    · exact h.owner l w (by rw [← hl]; exact hf) ha (by rw [← hw _ hi]; exact hv)

/-- A lease that beats at `now`, together with its worker. -/
theorem Healthy.beat {t now : Int} {s s' : Store} (h : Healthy t s) (ht : t ≤ now) (k : Ident)
    (hl : ∀ l, s'.leases.find? l.leaseId = some l → l.status = .active →
      s.leases.find? l.leaseId = some l ∨ (l.heartbeatAtMs = now ∧ l.workerId = k))
    (hk : ∀ w, s'.workers.find? k = some w → w.lastSeenAtMs = now)
    (hw : ∀ i, i ≠ k → s'.workers.find? i = s.workers.find? i) : Healthy now s' where
  beaten l hf ha := by
    rcases hl l hf ha with hold | ⟨hb, -⟩
    · exact (h.beaten l hold ha).trans ht
    · exact hb.le
  seen w hf := by
    by_cases hi : w.workerId = k
    · exact (hk w (hi ▸ hf)).le
    · exact (h.seen w (by rw [← hw _ hi]; exact hf)).trans ht
  owner l w hf ha hv := by
    rcases hl l hf ha with hold | ⟨hb, hi⟩
    · by_cases hi : l.workerId = k
      · rw [hk w (hi ▸ hv)]
        exact (h.beaten l hold ha).trans ht
      · exact h.owner l w hold ha (by rw [← hw _ hi]; exact hv)
    · rw [hb, hk w (hi ▸ hv)]

theorem Healthy.beatStore {t now : Int} {s : Store} (h : Healthy t s) (ht : t ≤ now) (expiresAt : Int)
    {row : LeaseRow} (hr : s.leases.find? row.leaseId = some row) :
    Healthy now (beatStore now expiresAt row s) := by
  refine h.beat ht row.workerId ?_ ?_ ?_
  · intro l hl ha
    simp only [OperationRuns.beatStore, Store.modifyWorker_leases, Store.modifyTask_leases,
      Store.modifyLease_leases, Table.find?_modify] at hl
    split at hl
    · rename_i hi
      right
      rw [hi, hr, Option.map_some] at hl
      have he := Option.some.inj hl
      by_cases hs : row.status = .active
      · rw [← he]
        simp [LeaseRow.beat, hs]
      · rw [← he] at ha
        simp [LeaseRow.beat, hs] at ha
    · exact Or.inl hl
  · intro w hw
    simp only [OperationRuns.beatStore, Store.modifyWorker_workers, Store.modifyTask_workers,
      Store.modifyLease_workers, Table.find?_modify, if_true] at hw
    obtain ⟨v, -, rfl⟩ := Option.map_eq_some_iff.mp hw
    rfl
  · intro i hi
    simp [OperationRuns.beatStore, hi]

theorem lastSeen_claim (a : ClaimArgs) (now : Int) (old : Option WorkerRow) :
    ((old.map (a.mergeWorker now)).getD (a.worker now)).lastSeenAtMs = now := by
  cases old <;> rfl

theorem Healthy.claimTask {t now : Int} {s : Store} (h : Healthy t s) (ht : t ≤ now) (env : Env)
    (a : ClaimArgs) : Healthy now ((claimTask env now a).run s).2 := by
  rcases run_claimTask_cases env now a s with ⟨-, hrun⟩ | ⟨l, -, -, hrun⟩ | ⟨-, -, -, hrun⟩ | ⟨u, -, -, hi, hrun⟩ <;>
    rw [hrun]
  · exact h.shrink (.refl s) ht
  · exact h.shrink (.refl s) ht
  · exact h.shrink (.refl s) ht
  · obtain ⟨rfl, -⟩ := insertLease_eq hi
    refine Healthy.shrink (t := now) ?_ (shrinks_applyStore _ _ _ _ _) le_rfl
    have hswept := h.shrink (shrinks_sweptStore now s) ht
    refine hswept.beat le_rfl a.workerId ?_ ?_ ?_
    · intro l hf ha
      simp only [Store.upsertWorker_leases, Store.upsertTask_leases, Store.upsertRun_leases,
        Store.putLease_leases] at hf
      split at hf
      · obtain rfl := Option.some.inj hf
        exact Or.inr ⟨rfl, rfl⟩
      · exact Or.inl hf
    · intro w hw
      simp only [Store.upsertWorker_workers, Table.find?_upsert, ClaimArgs.worker_workerId,
        if_true] at hw
      rw [← Option.some.inj hw, lastSeen_claim]
    · intro i hi
      simp [hi]

/-- The invariant after one operation. -/
theorem Healthy.apply {env : Env} {t : Int} {s : Store} (h : Healthy t s) (op : Op) (ht : t ≤ op.now) :
    Healthy op.now (op.apply env s) := by
  cases op with
  | claimTask now a => rw [apply_claimTask]; exact h.claimTask ht env a
  | heartbeatLease now ttl leaseId =>
    rw [apply_heartbeatLease]
    rcases run_heartbeatLease now ttl leaseId s with ⟨row, hrow, -, he⟩ | ⟨-, -, hw, hl⟩
    · rw [he]
      exact h.beatStore ht _ (by rw [Table.find?_key hrow]; exact hrow)
    · exact h.shrink (.of_eq hl (fun k => by rw [hw])) ht
  | releaseLease now leaseId status reason =>
    rw [apply_releaseLease]
    rcases run_releaseLease now leaseId status reason s with ⟨row, -, -, he⟩ | ⟨-, -, hw, hl⟩
    · rw [he]
      exact h.shrink (shrinks_releaseStore _ _ _ _ _) ht
    · exact h.shrink (.of_eq hl (fun k => by rw [hw])) ht
  | reapExpiredLeases now => rw [apply_reapExpiredLeases]; exact h.shrink (shrinks_sweepLeases _ _ _) ht
  | reapStaleWorkers now after =>
    rw [apply_reapStaleWorkers]; exact h.shrink (shrinks_sweepWorkers _ _ _ _ _) ht
  | registerTask now task repo status =>
    rw [apply_registerTask]; exact h.shrink (shrinks_registerStore _ _ _ _ _) ht
  | markTask mark now key me expires reason =>
    rw [apply_markTask]; exact h.shrink (shrinks_applyStore _ _ _ _ _) ht
  | operatorMove now key state reason clear =>
    rw [apply_operatorMove]; exact h.shrink (shrinks_applyStore _ _ _ _ _) ht
  | registerWorker now workerId hostId role status capabilities runId leaseId =>
    rw [apply_registerWorker]
    refine h.seeWorker ht workerId (fun _ => rfl) ?_ ?_
    · intro w hw
      rw [Store.upsertWorker_workers, Table.find?_upsert, if_pos rfl] at hw
      rw [← Option.some.inj hw]
      cases s.workers.find? workerId <;> rfl
    · intro i hi
      rw [Store.upsertWorker_workers, Table.find?_upsert, if_neg hi]
  | heartbeatWorker now workerId fields =>
    rw [apply_heartbeatWorker]
    split
    · refine h.seeWorker ht workerId (fun _ => rfl) ?_ ?_
      · intro w hw
        rw [Store.modifyWorker_workers, Table.find?_modify, if_pos rfl] at hw
        obtain ⟨v, -, rfl⟩ := Option.map_eq_some_iff.mp hw
        rfl
      · intro i hi
        rw [Store.modifyWorker_workers, Table.find?_modify, if_neg hi]
    · exact h.shrink (.refl s) ht

theorem ClockedHistory.healthy {env : Env} {t : Int} {s : Store} (h : ClockedHistory env t s) :
    Healthy t s := by
  induction h with
  | init t => exact healthy_empty t
  | step op _ ht ih => exact ih.apply op ht

/-! ## What the sweeps retire -/

theorem activeLease?_retireStep (now : Int) (reason : String) (l : LeaseRow) (w : Ident) (s : Store)
    {i : Ident} (hi : i ≠ l.leaseId) : (retireStep now reason l w s).activeLease? i = s.activeLease? i := by
  simp [retireStep, Store.activeLease?, hi]

/-- A lease the expiry sweep retires is among the rows it read. -/
theorem sweepLeases_retires (now : Int) (rows : List LeaseRow) (s : Store) {l : LeaseRow}
    (hl : s.activeLease? l.leaseId = some l)
    (hr : (sweepLeases now rows s).activeLease? l.leaseId = none) : ∃ r ∈ rows, r.leaseId = l.leaseId := by
  induction rows generalizing s with
  | nil =>
    rw [show sweepLeases now [] s = s from rfl, hl] at hr
    cases hr
  | cons r rows ih =>
    by_cases hi : l.leaseId = r.leaseId
    · exact ⟨r, List.mem_cons_self, hi.symm⟩
    · obtain ⟨x, hx, he⟩ := ih (retireStep now "expired" r r.workerId s)
        (by rw [activeLease?_retireStep _ _ _ _ _ hi]; exact hl) hr
      exact ⟨x, List.mem_cons_of_mem _ hx, he⟩

theorem sweepExpired_retires (now : Int) (s : Store) {l : LeaseRow} (hl : s.activeLease? l.leaseId = some l)
    (hr : (sweepExpired now s).activeLease? l.leaseId = none) : l.expiresAtMs ≤ now := by
  obtain ⟨r, hmem, hid⟩ := sweepLeases_retires now _ s hl hr
  simp only [expiredLeases, Table.mem_select, decide_eq_true_eq] at hmem
  rw [hid] at hmem
  obtain rfl : l = r := Option.some.inj ((activeLease?_eq_some.mp hl).1.symm.trans hmem.1)
  exact hmem.2.2

/-- One round of the stale-worker sweep retires at most the stale lease of its worker. -/
theorem staleRound_retires (now cutoff : Int) (dead : List Ident) (row : WorkerRow) (s : Store)
    {l : LeaseRow} (hl : s.activeLease? l.leaseId = some l)
    (hr : (staleRound now cutoff dead row s).2.activeLease? l.leaseId ≠ some l) :
    l.workerId = row.workerId := by
  unfold staleRound at hr
  split at hr
  · exact absurd hl hr
  · rename_i r hf
    split at hr
    · by_cases hi : l.leaseId = r.leaseId
      · obtain ⟨hrow, -, hw⟩ := ownedLease_find hf
        obtain rfl : l = r := Option.some.inj ((activeLease?_eq_some.mp hl).1.symm.trans (hi ▸ hrow))
        exact hw
      · exact absurd (by rw [activeLease?_retireStep _ _ _ _ _ hi]; exact hl) hr
    · exact absurd hl hr

/-- A lease the stale-worker sweep retires belongs to one of the workers it read. -/
theorem sweepWorkers_retires (now cutoff : Int) (dead : List Ident) (rows : List WorkerRow) (s : Store)
    {l : LeaseRow} (hl : s.activeLease? l.leaseId = some l)
    (hr : (sweepWorkers now cutoff dead rows s).activeLease? l.leaseId = none) :
    ∃ row ∈ rows, l.workerId = row.workerId := by
  induction rows generalizing s with
  | nil =>
    rw [show sweepWorkers now cutoff dead [] s = s from rfl, hl] at hr
    cases hr
  | cons row rows ih =>
    by_cases hkeep : (staleRound now cutoff dead row s).2.activeLease? l.leaseId = some l
    · obtain ⟨x, hx, he⟩ := ih _ hkeep hr
      exact ⟨x, List.mem_cons_of_mem _ hx, he⟩
    · exact ⟨row, List.mem_cons_self, staleRound_retires now cutoff dead row s hl hkeep⟩

theorem mem_staleWorkers {cutoff : Int} {s : Store} {w : WorkerRow} (h : w ∈ staleWorkers cutoff s) :
    s.workers.find? w.workerId = some w ∧ w.lastSeenAtMs ≤ cutoff := by
  simp only [staleWorkers, Table.mem_select, Bool.and_eq_true, decide_eq_true_eq] at h
  exact ⟨h.1, h.2.2⟩

/-- In a healthy store every lease the stale-worker sweep retires is stale itself. -/
theorem Healthy.sweepWorkers_retires {t : Int} {s : Store} (h : Healthy t s) (now cutoff : Int)
    (dead : List Ident) (rows : List WorkerRow) (hrows : ∀ w ∈ rows, w ∈ staleWorkers cutoff s)
    {l : LeaseRow} (hl : s.activeLease? l.leaseId = some l)
    (hr : (sweepWorkers now cutoff dead rows s).activeLease? l.leaseId = none) :
    l.heartbeatAtMs ≤ cutoff := by
  obtain ⟨row, hmem, hw⟩ := HealthyLeases.sweepWorkers_retires now cutoff dead rows s hl hr
  obtain ⟨hf, hseen⟩ := mem_staleWorkers (hrows row hmem)
  obtain ⟨hrow, ha⟩ := activeLease?_eq_some.mp hl
  exact (h.owner l row hrow ha (hw ▸ hf)).trans hseen

/-- A lease active before and not retired is active with the same row after. -/
theorem Shrinks.activeLease? {s t : Store} (h : Shrinks s t) {l : LeaseRow}
    (hl : s.activeLease? l.leaseId = some l) (ht : t.activeLease? l.leaseId ≠ none) :
    t.activeLease? l.leaseId = some l := by
  obtain ⟨r, hr⟩ := Option.ne_none_iff_exists'.mp ht
  obtain ⟨hf, ha⟩ := activeLease?_eq_some.mp hr
  have hid : r.leaseId = l.leaseId := Table.find?_key hf
  have hold := h.leases r (by rw [hid]; exact hf) ha
  rw [hid, (activeLease?_eq_some.mp hl).1] at hold
  rw [hr, Option.some.inj hold]

/-- After any history of complete operations with a clock that never goes back: a
stale-worker sweep retires only leases with a stale heartbeat, an expiry sweep only
expired leases, and a lease past neither limit comes out of every sweep unchanged,
the sweeps inside a claim included. -/
theorem healthy_leases_survive {env : Env} {t : Int} {s : Store} (h : ClockedHistory env t s) {now : Int}
    (after : Int) {l : LeaseRow} (hl : s.activeLease? l.leaseId = some l) :
    (((Op.reapStaleWorkers now after).apply env s).activeLease? l.leaseId = none →
        l.heartbeatAtMs ≤ now - secondsToMs defaultWorkerStaleAfterSeconds after) ∧
      (((Op.reapExpiredLeases now).apply env s).activeLease? l.leaseId = none → l.expiresAtMs ≤ now) ∧
      (now - secondsToMs defaultWorkerStaleAfterSeconds after < l.heartbeatAtMs → now < l.expiresAtMs →
        ((Op.reapStaleWorkers now after).apply env s).activeLease? l.leaseId = some l ∧
        ((Op.reapExpiredLeases now).apply env s).activeLease? l.leaseId = some l) ∧
      (now - secondsToMs defaultWorkerStaleAfterSeconds defaultWorkerStaleAfterSeconds < l.heartbeatAtMs →
        now < l.expiresAtMs → (sweptStore now s).activeLease? l.leaseId = some l) := by
  have hstale : ((Op.reapStaleWorkers now after).apply env s).activeLease? l.leaseId = none →
      l.heartbeatAtMs ≤ now - secondsToMs defaultWorkerStaleAfterSeconds after := by
    rw [apply_reapStaleWorkers]
    exact h.healthy.sweepWorkers_retires now _ _ _
      (fun w hw => (List.perm_insertionSort _ _).mem_iff.mp hw) hl
  have hexp : ((Op.reapExpiredLeases now).apply env s).activeLease? l.leaseId = none → l.expiresAtMs ≤ now := by
    rw [apply_reapExpiredLeases]
    exact sweepExpired_retires now s hl
  refine ⟨hstale, hexp, fun hb he => ⟨?_, ?_⟩, fun hb he => ?_⟩
  · refine Shrinks.activeLease? ?_ hl (fun hn => absurd (hstale hn) (by omega))
    rw [apply_reapStaleWorkers]
    exact shrinks_sweepWorkers _ _ _ _ _
  · refine Shrinks.activeLease? ?_ hl (fun hn => absurd (hexp hn) (by omega))
    rw [apply_reapExpiredLeases]
    exact shrinks_sweepLeases _ _ _
  · have hmid : (sweepExpired now s).activeLease? l.leaseId = some l :=
      (shrinks_sweepLeases now _ s).activeLease? hl (fun hn => absurd (sweepExpired_retires now s hl hn) (by omega))
    have hm : Healthy t (sweepExpired now s) := h.healthy.shrink (shrinks_sweepLeases now _ s) le_rfl
    refine (shrinks_sweepWorkers now _ _ _ _).activeLease? hmid (fun hn => ?_)
    exact absurd (hm.sweepWorkers_retires now _ _ _ (fun w hw => hw) hmid hn) (by omega)

/-- A claim at 0 with a heartbeat at 500, both for a second, and the sweeps at 1400. -/
theorem beaten_lease_survives :
    let claimed := (Op.claimTask 0 (claimBy "a" (plainTask "T1"))).apply sqliteEnv Store.empty
    let beaten := (Op.heartbeatLease 500 1 (Ident.of "lease-a")).apply sqliteEnv claimed
    ∃ l, beaten.activeLease? (Ident.of "lease-a") = some l ∧
      ((Op.reapStaleWorkers 1400 1).apply sqliteEnv beaten).activeLease? (Ident.of "lease-a") = some l ∧
      ((Op.reapExpiredLeases 1400).apply sqliteEnv beaten).activeLease? (Ident.of "lease-a") = some l :=
  ⟨{ (claimBy "a" (plainTask "T1")).lease 0 1 with heartbeatAtMs := 500, expiresAtMs := 1500 },
    by decide +kernel,
    (healthy_leases_survive
      (((ClockedHistory.init 0).step (.claimTask 0 (claimBy "a" (plainTask "T1"))) (by decide)).step
        (.heartbeatLease 500 1 (Ident.of "lease-a")) (by decide)) 1
      (l := { (claimBy "a" (plainTask "T1")).lease 0 1 with heartbeatAtMs := 500, expiresAtMs := 1500 })
      (by decide +kernel)).2.2.1 (by decide) (by decide)⟩

end HealthyLeases
