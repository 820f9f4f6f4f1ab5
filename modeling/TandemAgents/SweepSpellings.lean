import Mathlib.Data.List.Dedup
import TandemAgents.HealthyLeases
import TandemAgents.LeaseRelease

/-!
# The two spellings of a sweep

Each sweep is written twice, once for the reaper and once for the inside of a claim. The
rows of one query are independent of each other, so the spellings leave the same tables
in whatever order the rows come. They are called with different thresholds: the claim's
is a constant, the reaper's three configured heartbeats.
-/
namespace SweepSpellings

open KeyedTable PythonText TaskContract CoordinationStore Statements Statements.Prog
open LeaseOperations WorkerOperations TaskOperations OperationRuns GuardedRuns StoreHistories HealthyLeases

set_option maxRecDepth 20000

/-! ## Updates that commute -/

theorem table_eq {κ ρ : Type} {key : ρ → κ} {t u : Table κ ρ key} (h : t.rows = u.rows) : t = u := by
  cases t
  cases u
  cases h
  rfl

theorem modify_comm {κ ρ : Type} [DecidableEq κ] {key : ρ → κ} (t : Table κ ρ key) (k k' : κ) {f g : ρ → ρ}
    (hf : ∀ r, key (f r) = key r) (hg : ∀ r, key (g r) = key r) (h : ∀ r, g (f r) = f (g r)) :
    (t.modify k f hf).modify k' g hg = (t.modify k' g hg).modify k f hf := by
  apply table_eq
  simp only [Table.modify, Table.update, List.map_map]
  refine List.map_congr_left fun r _ => ?_
  by_cases hk : key r = k <;> by_cases hk' : key r = k' <;> simp_all

theorem clearClaimForLease_comm (i j : Ident) (now : Int) (state : TaskState) (status : String) (r : TaskRow) :
    (r.clearClaimForLease i now state status).clearClaimForLease j now state status =
      (r.clearClaimForLease j now state status).clearClaimForLease i now state status := by
  by_cases hi : r.claimedLeaseId = some i <;> by_cases hj : r.claimedLeaseId = some j <;>
    simp_all [TaskRow.clearClaimForLease]

/-- An idled worker, as the sweeps leave it. -/
def idleWorker (now : Int) (workerId : Ident) (s : Store) : Store :=
  s.modifyWorker workerId (WorkerRow.release now "idle") (WorkerRow.release_workerId now "idle")

theorem idleWorker_comm (now : Int) (w v : Ident) (s : Store) :
    idleWorker now w (idleWorker now v s) = idleWorker now v (idleWorker now w s) := by
  simp only [idleWorker, Store.modifyWorker, Store.mk.injEq, true_and, and_true]
  exact modify_comm _ v w _ _ fun _ => rfl

theorem retireStep_comm (now : Int) (reason : String) (l m : LeaseRow) (w v : Ident) (s : Store) :
    retireStep now reason l w (retireStep now reason m v s) = retireStep now reason m v (retireStep now reason l w s) := by
  simp only [retireStep, Store.modifyWorker, Store.modifyTask, Store.modifyLease, Store.mk.injEq, true_and]
  refine ⟨?_, ?_, ?_⟩
  · exact modify_comm _ _ _ _ _ fun r => clearClaimForLease_comm _ _ now .stale "stale" r
  · exact modify_comm _ v w _ _ fun _ => rfl
  · exact modify_comm _ _ _ _ _ fun _ => rfl

theorem idleWorker_retireStep (now : Int) (reason : String) (l : LeaseRow) (w v : Ident) (s : Store) :
    idleWorker now v (retireStep now reason l w s) = retireStep now reason l w (idleWorker now v s) := by
  simp only [idleWorker, retireStep, Store.modifyWorker, Store.modifyTask, Store.modifyLease, Store.mk.injEq,
    true_and, and_true]
  exact modify_comm _ w v _ _ fun _ => rfl

/-! ## The expiry sweep in any order -/

theorem sweepLeases_perm {rows rows' : List LeaseRow} (h : rows.Perm rows') (now : Int) (s : Store) :
    sweepLeases now rows s = sweepLeases now rows' s :=
  h.foldl_eq' (fun l _ m _ s => (retireStep_comm now "expired" l m l.workerId m.workerId s).symm) s

/-! ## The stale-worker sweep in any order -/

/-- The active lease a row's worker owns, in a store. -/
def ownedLease (row : WorkerRow) (s : Store) : Option LeaseRow := (currentLeaseOf row s).filter (ownsActiveLease row)

/-- What a round does once it has looked at the lease. -/
def roundStore (now cutoff : Int) (dead : List Ident) (row : WorkerRow) (owned : Option LeaseRow) (s : Store) : Store :=
  match owned with
  | none => idleWorker now row.workerId s
  | some l => if leaseIsStale cutoff dead row l then retireStep now "worker stale" l row.workerId s else s

theorem staleRound_eq (now cutoff : Int) (dead : List Ident) (row : WorkerRow) (s : Store) :
    (staleRound now cutoff dead row s).2 = roundStore now cutoff dead row (ownedLease row s) s := by
  unfold staleRound roundStore ownedLease
  cases (currentLeaseOf row s).filter (ownsActiveLease row) with
  | none => rfl
  | some l =>
    simp only
    split <;> rfl

theorem roundStore_comm (now cutoff : Int) (dead : List Ident) (row row' : WorkerRow) (o o' : Option LeaseRow)
    (s : Store) : roundStore now cutoff dead row o (roundStore now cutoff dead row' o' s) =
      roundStore now cutoff dead row' o' (roundStore now cutoff dead row o s) := by
  cases o with
  | none =>
    cases o' with
    | none => exact idleWorker_comm now _ _ s
    | some m =>
      simp only [roundStore]
      split
      · exact idleWorker_retireStep now _ m _ _ s
      · rfl
  | some l =>
    cases o' with
    | none =>
      simp only [roundStore]
      split
      · exact (idleWorker_retireStep now _ l _ _ s).symm
      · rfl
    | some m =>
      simp only [roundStore]
      split <;> split
      · exact retireStep_comm now _ l m _ _ s
      · rfl
      · rfl
      · rfl

/-- Only the lease of its own worker is looked at, and no other round ends that one. -/
theorem ownedLease_round (now cutoff : Int) (dead : List Ident) {row row' : WorkerRow} (s : Store)
    (hne : row.workerId ≠ row'.workerId) :
    ownedLease row (roundStore now cutoff dead row' (ownedLease row' s) s) = ownedLease row s := by
  cases ho : ownedLease row' s with
  | none => rfl
  | some l =>
    simp only [roundStore]
    split
    · obtain ⟨hfind, -, hworker⟩ := ownedLease_find ho
      unfold ownedLease currentLeaseOf
      cases hcur : row.currentLeaseId with
      | none => rfl
      | some i =>
        simp only [Option.bind_some]
        by_cases hi : i.text = ""
        · simp [hi]
        · simp only [hi, if_false, retireStep, Store.modifyWorker_leases, Store.modifyTask_leases,
            Store.modifyLease_leases, Table.find?_modify]
          by_cases hl : i = l.leaseId
          · -- the lease is the other worker's before the round and behind it
            subst hl
            have hother : ¬ l.workerId = row.workerId := fun h => hne (h.symm.trans hworker)
            simp [hfind, Option.filter_some, ownsActiveLease, LeaseRow.retire, hother]
          · simp [hl]
    · rfl

theorem staleRound_comm (now cutoff : Int) (dead : List Ident) {row row' : WorkerRow} (s : Store)
    (hne : row.workerId ≠ row'.workerId) :
    (staleRound now cutoff dead row (staleRound now cutoff dead row' s).2).2 =
      (staleRound now cutoff dead row' (staleRound now cutoff dead row s).2).2 := by
  simp only [staleRound_eq, ownedLease_round now cutoff dead s hne, ownedLease_round now cutoff dead s hne.symm]
  exact roundStore_comm now cutoff dead row row' _ _ s

theorem sweepWorkers_perm {rows rows' : List WorkerRow} (h : rows.Perm rows')
    (hkey : ∀ w ∈ rows, ∀ v ∈ rows, w.workerId = v.workerId → w = v) (now cutoff : Int) (dead : List Ident) (s : Store) :
    sweepWorkers now cutoff dead rows s = sweepWorkers now cutoff dead rows' s := by
  refine h.foldl_eq' (fun w hw v hv s => ?_) s
  by_cases he : w.workerId = v.workerId
  · rw [hkey w hw v hv he]
  · exact (staleRound_comm now cutoff dead s he).symm

/-! ## Dead hosts in any order -/

theorem mem_staleHosts {rows : List WorkerRow} {h : Ident} :
    h ∈ staleHosts rows ↔ h.text ≠ "" ∧ ∃ w ∈ rows, w.hostId = h := by
  simp only [staleHosts, List.mem_dedup, List.mem_filter, List.mem_map, decide_eq_true_eq]
  exact and_comm

theorem mem_deadHosts {rows : List WorkerRow} {s : Store} {h : Ident} : h ∈ deadHosts rows s ↔
    (h.text ≠ "" ∧ ∃ w ∈ rows, w.hostId = h) ∧ 1 < workingCount h s ∧
      workingCount h s ≤ rows.countP (fun w => decide (w.hostId = h)) := by
  simp only [deadHosts, List.mem_filter, mem_staleHosts, hostIsDead, decide_eq_true_eq]

theorem deadHosts_perm {rows rows' : List WorkerRow} (h : rows.Perm rows') (s : Store) (host : Ident) :
    host ∈ deadHosts rows s ↔ host ∈ deadHosts rows' s := by
  simp only [mem_deadHosts, h.mem_iff, h.countP_eq]

theorem leaseIsStale_iff {cutoff : Int} {dead : List Ident} {row : WorkerRow} {l : LeaseRow} :
    leaseIsStale cutoff dead row l = true ↔ l.heartbeatAtMs ≤ cutoff ∨ row.hostId ∈ dead := by
  simp [leaseIsStale]

/-- The dead hosts are looked up only. -/
theorem sweepWorkers_dead {dead dead' : List Ident} (h : ∀ host, host ∈ dead ↔ host ∈ dead') (now cutoff : Int)
    (rows : List WorkerRow) (s : Store) : sweepWorkers now cutoff dead rows s = sweepWorkers now cutoff dead' rows s := by
  have hround : ∀ (row : WorkerRow) (s : Store),
      (staleRound now cutoff dead row s).2 = (staleRound now cutoff dead' row s).2 := by
    intro row s
    have hstale : leaseIsStale cutoff dead row = leaseIsStale cutoff dead' row := by
      funext l
      rw [Bool.eq_iff_iff, leaseIsStale_iff, leaseIsStale_iff, h]
    simp only [staleRound_eq, roundStore, hstale]
  simp only [sweepWorkers, hround]

/-- Rows of one table have different keys. -/
theorem staleWorkers_inj {cutoff : Int} {s : Store} {rows : List WorkerRow} (h : rows.Perm (staleWorkers cutoff s)) :
    ∀ w ∈ rows, ∀ v ∈ rows, w.workerId = v.workerId → w = v := by
  intro w hw v hv he
  have hw' := (mem_staleWorkers (h.mem_iff.mp hw)).1
  have hv' := (mem_staleWorkers (h.mem_iff.mp hv)).1
  rw [he, hv'] at hw'
  exact (Option.some.inj hw').symm

theorem sweepStale_order {cutoff : Int} {s : Store} {rows rows' : List WorkerRow}
    (h : rows.Perm (staleWorkers cutoff s)) (h' : rows'.Perm (staleWorkers cutoff s)) (now : Int) :
    sweepWorkers now cutoff (deadHosts rows s) rows s = sweepWorkers now cutoff (deadHosts rows' s) rows' s := by
  have hperm : rows.Perm rows' := h.trans h'.symm
  rw [sweepWorkers_dead (deadHosts_perm hperm s)]
  exact sweepWorkers_perm hperm (staleWorkers_inj h) now cutoff _ s

/-! ## The spellings, for rows in any order -/

/-- `now - max(1, int(stale_after_seconds or default)) * 1000`. -/
def staleCutoff (now staleAfterSeconds : Int) : Int := now - secondsToMs defaultWorkerStaleAfterSeconds staleAfterSeconds

/-- `reap_stale_workers`, for the rows as its query returns them. -/
def reapStaleWorkersFrom (query : Store → List WorkerRow) (now staleAfterSeconds : Int) :
    Sql (List (WorkerRow × Option LeaseRow)) := do
  beginTransaction
  let rows ← get query
  let dead ← findDeadHosts rows (staleHosts rows)
  let stale ← reapStaleRows now (staleCutoff now staleAfterSeconds) dead rows
  commitTransaction
  return stale

/-- `_reap_stale_workers_locked`, for the rows as its query returns them. -/
def reapStaleWorkersLockedFrom (query : Store → List WorkerRow) (now staleAfterSeconds : Int) : Sql Unit := do
  let rows ← get query
  let dead ← findDeadHosts rows (staleHosts rows)
  let _ ← reapStaleRows now (staleCutoff now staleAfterSeconds) dead rows
  return ()

/-- `reap_expired_leases`, for the rows as its query returns them. -/
def reapExpiredLeasesFrom (query : Store → List LeaseRow) (now : Int) : Sql (List LeaseRow) := do
  beginTransaction
  let rows ← get query
  forEach (reapExpiredLease now) rows
  commitTransaction
  return rows

/-- `_reap_expired_leases_locked`, for the rows as its query returns them. -/
def reapExpiredLeasesLockedFrom (query : Store → List LeaseRow) (now : Int) : Sql Unit := do
  let rows ← get query
  forEach (reapExpiredLease now) rows

theorem run_reapStaleWorkersFrom (query : Store → List WorkerRow) (now after : Int) (s : Store) :
    ((reapStaleWorkersFrom query now after).run s).2 =
      sweepWorkers now (staleCutoff now after) (deadHosts (query s) s) (query s) s := by
  let body : Sql (List (WorkerRow × Option LeaseRow)) := do
    let rows ← get query
    let dead ← findDeadHosts rows (staleHosts rows)
    reapStaleRows now (staleCutoff now after) dead rows
  have hp : body.Plain := (get_plain _).bind fun rows => (findDeadHosts_plain rows _).bind fun dead =>
    reapStaleRows_plain now _ dead rows
  have he : body.eff s = (some (reportWorkers now (staleCutoff now after) (deadHosts (query s) s) (query s) s),
      sweepWorkers now (staleCutoff now after) (deadHosts (query s) s) (query s) s) := by
    simp only [body, eff_bind, eff_get, eff_findDeadHosts, eff_reapStaleRows]
    rfl
  have h := run_transaction hp (g := fun stale => ret stale) (fun _ => trivial) he
  simp only [body, bind_assoc] at h
  exact congrArg Prod.snd h

theorem run_reapStaleWorkersLockedFrom (query : Store → List WorkerRow) (now after : Int) (s : Store) :
    ((reapStaleWorkersLockedFrom query now after).run s).2 =
      sweepWorkers now (staleCutoff now after) (deadHosts (query s) s) (query s) s := by
  have hp : (reapStaleWorkersLockedFrom query now after).Plain :=
    (get_plain _).bind fun rows => (findDeadHosts_plain rows _).bind fun dead =>
      (reapStaleRows_plain now _ dead rows).bind fun _ => trivial
  rw [run_plain hp, reapStaleWorkersLockedFrom]
  simp only [eff_bind, eff_get, eff_findDeadHosts, eff_reapStaleRows]
  rfl

theorem run_reapExpiredLeasesFrom (query : Store → List LeaseRow) (now : Int) (s : Store) :
    ((reapExpiredLeasesFrom query now).run s).2 = sweepLeases now (query s) s := by
  let body : Sql (List LeaseRow) := do
    let rows ← get query
    forEach (reapExpiredLease now) rows
    return rows
  have hp : body.Plain := (get_plain _).bind fun rows =>
    (Plain.forEach (reapExpiredLease_plain now) rows).bind fun _ => trivial
  have he : body.eff s = (some (query s), sweepLeases now (query s) s) := by
    simp only [body, eff_bind, eff_get, eff_reapExpiredRows]
    rfl
  have h := run_transaction hp (g := fun rows => ret rows) (fun _ => trivial) he
  simp only [body, bind_assoc] at h
  exact congrArg Prod.snd h

theorem run_reapExpiredLeasesLockedFrom (query : Store → List LeaseRow) (now : Int) (s : Store) :
    ((reapExpiredLeasesLockedFrom query now).run s).2 = sweepLeases now (query s) s := by
  have hp : (reapExpiredLeasesLockedFrom query now).Plain :=
    (get_plain _).bind fun rows => Plain.forEach (reapExpiredLease_plain now) rows
  rw [run_plain hp, reapExpiredLeasesLockedFrom, eff_get_bind, eff_reapExpiredRows]

/-- A query for the stale workers, in any order. -/
def StaleQuery (now after : Int) (query : Store → List WorkerRow) : Prop :=
  ∀ s, (query s).Perm (staleWorkers (staleCutoff now after) s)

/-- A query for the expired leases, in any order. -/
def ExpiredQuery (now : Int) (query : Store → List LeaseRow) : Prop := ∀ s, (query s).Perm (expiredLeases now s)

theorem staleWorkers_spelled (now after : Int) {query locked : Store → List WorkerRow} (hq : StaleQuery now after query)
    (hl : StaleQuery now after locked) (s : Store) :
    ((reapStaleWorkersFrom query now after).run s).2 = ((reapStaleWorkersLockedFrom locked now after).run s).2 := by
  rw [run_reapStaleWorkersFrom, run_reapStaleWorkersLockedFrom]
  exact sweepStale_order (hq s) (hl s) now

theorem expiredLeases_spelled (now : Int) {query locked : Store → List LeaseRow} (hq : ExpiredQuery now query)
    (hl : ExpiredQuery now locked) (s : Store) :
    ((reapExpiredLeasesFrom query now).run s).2 = ((reapExpiredLeasesLockedFrom locked now).run s).2 := by
  rw [run_reapExpiredLeasesFrom, run_reapExpiredLeasesLockedFrom]
  exact sweepLeases_perm ((hq s).trans (hl s).symm) now s

/-! ## The leases a sweep of stale workers retires -/

/-- The lease is active before and no longer behind. -/
def Retires (s t : Store) (l : LeaseRow) : Prop :=
  s.activeLease? l.leaseId = some l ∧ t.activeLease? l.leaseId = none

theorem mem_expiredLeases {now : Int} {s : Store} {l : LeaseRow} :
    l ∈ expiredLeases now s ↔ s.activeLease? l.leaseId = some l ∧ l.expiresAtMs ≤ now := by
  simp only [expiredLeases, Table.mem_select, decide_eq_true_eq, activeLease?_eq_some, and_assoc]

theorem ownedLease_eq_some {row : WorkerRow} {s : Store} {l : LeaseRow} : ownedLease row s = some l ↔
    row.currentLeaseId = some l.leaseId ∧ l.leaseId.text ≠ "" ∧ s.activeLease? l.leaseId = some l ∧
      l.workerId = row.workerId := by
  constructor
  · intro h
    obtain ⟨hfind, ha, hworker⟩ := ownedLease_find h
    obtain ⟨hcur, -⟩ := Option.filter_eq_some_iff.mp h
    unfold currentLeaseOf at hcur
    obtain ⟨i, hi, hget⟩ := Option.bind_eq_some_iff.mp hcur
    split at hget
    · cases hget
    · rename_i htext
      obtain rfl : l.leaseId = i := Table.find?_key hget
      exact ⟨hi, htext, activeLease?_eq_some.mpr ⟨hfind, ha⟩, hworker⟩
  · rintro ⟨hcur, htext, hl, hworker⟩
    obtain ⟨hfind, ha⟩ := activeLease?_eq_some.mp hl
    simp [ownedLease, currentLeaseOf, hcur, htext, hfind, ownsActiveLease, ha, hworker]

/-- A row of the sweep that takes the lease with it. -/
def Takes (cutoff : Int) (dead : List Ident) (l : LeaseRow) (s : Store) (row : WorkerRow) : Prop :=
  ownedLease row s = some l ∧ leaseIsStale cutoff dead row l = true

theorem staleRound_takes (now : Int) {cutoff : Int} {dead : List Ident} {row : WorkerRow} {s : Store} {l : LeaseRow}
    (h : Takes cutoff dead l s row) : (staleRound now cutoff dead row s).2.activeLease? l.leaseId = none := by
  obtain ⟨howned, hstale⟩ := h
  obtain ⟨hfind, -, -⟩ := ownedLease_find howned
  rw [staleRound_eq, howned, roundStore, if_pos hstale]
  simp [retireStep, Store.activeLease?, hfind, LeaseRow.retire]

theorem staleRound_spares (now : Int) {cutoff : Int} {dead : List Ident} {row : WorkerRow} {s : Store} {l : LeaseRow}
    (hl : s.activeLease? l.leaseId = some l) (h : ¬ Takes cutoff dead l s row) :
    (staleRound now cutoff dead row s).2.activeLease? l.leaseId = some l := by
  rw [staleRound_eq]
  cases ho : ownedLease row s with
  | none => exact hl
  | some m =>
    simp only [roundStore]
    split
    · rename_i hstale
      by_cases hi : l.leaseId = m.leaseId
      · obtain ⟨-, -, hm, -⟩ := ownedLease_eq_some.mp ho
        rw [hi, hm] at hl
        cases hl
        exact absurd ⟨ho, hstale⟩ h
      · rw [activeLease?_retireStep _ _ _ _ _ hi, hl]
    · exact hl

/-- A lease that is not active stays so. -/
theorem activeLease?_gone {s t : Store} (h : Shrinks s t) {i : Ident} (hs : s.activeLease? i = none) :
    t.activeLease? i = none := by
  by_contra hne
  obtain ⟨m, hm⟩ := Option.ne_none_iff_exists'.mp hne
  obtain ⟨hf, ha⟩ := activeLease?_eq_some.mp hm
  obtain rfl : m.leaseId = i := Table.find?_key hf
  rw [activeLease?_eq_some.mpr ⟨h.leases m hf ha, ha⟩] at hs
  cases hs

theorem sweepWorkers_retires_iff (now cutoff : Int) (dead : List Ident) (rows : List WorkerRow) (s : Store)
    {l : LeaseRow} (hl : s.activeLease? l.leaseId = some l) :
    (sweepWorkers now cutoff dead rows s).activeLease? l.leaseId = none ↔ ∃ row ∈ rows, Takes cutoff dead l s row := by
  induction rows generalizing s with
  | nil =>
    change s.activeLease? l.leaseId = none ↔ _
    simp [hl]
  | cons row rows ih =>
    by_cases ht : Takes cutoff dead l s row
    · have hgone := staleRound_takes now ht
      have hrest : (sweepWorkers now cutoff dead (row :: rows) s).activeLease? l.leaseId = none :=
        activeLease?_gone (shrinks_sweepWorkers now cutoff dead rows _) hgone
      simp [hrest, ht]
    · have hkept := staleRound_spares now hl ht
      have hsame : ∀ x, Takes cutoff dead l (staleRound now cutoff dead row s).2 x ↔ Takes cutoff dead l s x := by
        intro x
        simp only [Takes, ownedLease_eq_some, hkept, hl]
      have hfold := ih _ hkept
      simp only [hsame] at hfold
      rw [List.exists_mem_cons_iff, or_iff_right ht]
      exact hfold

/-! ## The two thresholds -/

theorem staleWorkers_mono {cutoff cutoff' : Int} (h : cutoff ≤ cutoff') (s : Store) :
    (staleWorkers cutoff s).Sublist (staleWorkers cutoff' s) := by
  refine List.monotone_filter_right _ fun w hw => ?_
  simp only [Bool.and_eq_true, decide_eq_true_eq] at hw ⊢
  exact ⟨hw.1, hw.2.trans h⟩

theorem deadHosts_mono {rows rows' : List WorkerRow} (h : rows.Sublist rows') (s : Store) {host : Ident}
    (hd : host ∈ deadHosts rows s) : host ∈ deadHosts rows' s := by
  rw [mem_deadHosts] at hd ⊢
  obtain ⟨⟨htext, w, hw, hhost⟩, hmany, hall⟩ := hd
  exact ⟨⟨htext, w, h.subset hw, hhost⟩, hmany, hall.trans (h.countP_le)⟩

/-- A later cutoff retires at least what an earlier one does. -/
theorem sweepStale_mono {now after after' : Int} (h : staleCutoff now after ≤ staleCutoff now after') {s : Store}
    {l : LeaseRow} (hr : Retires s (sweepStale now after s) l) : Retires s (sweepStale now after' s) l := by
  obtain ⟨hl, hgone⟩ := hr
  refine ⟨hl, (sweepWorkers_retires_iff now _ _ _ s hl).mpr ?_⟩
  obtain ⟨row, hrow, howned, hstale⟩ := (sweepWorkers_retires_iff now _ _ _ s hl).mp hgone
  have hsub := staleWorkers_mono h s
  refine ⟨row, hsub.subset hrow, howned, ?_⟩
  rw [leaseIsStale_iff] at hstale ⊢
  rcases hstale with hbeat | hdead
  · exact .inl (hbeat.trans h)
  · exact .inr (deadHosts_mono hsub s hdead)

/-- `coordination_worker_stale_interval`, for the configured `heartbeat_interval_seconds`. -/
def coordinationWorkerStaleInterval (heartbeatIntervalSeconds : Int) : Int :=
  let heartbeat := max 1 (if heartbeatIntervalSeconds = 0 then 1 else heartbeatIntervalSeconds)
  max 1 (heartbeat * 3)

/-- `coordination_reaper_tick`, both sweeps at one time. -/
def coordinationReaperTick (env : Env) (heartbeatIntervalSeconds now : Int) (s : Store) : Store :=
  (Op.reapStaleWorkers now (coordinationWorkerStaleInterval heartbeatIntervalSeconds)).apply env
    ((Op.reapExpiredLeases now).apply env s)

theorem staleCutoff_periodic (now h : Int) :
    staleCutoff now (coordinationWorkerStaleInterval h) = now - 3000 * max 1 h := by
  simp only [staleCutoff, coordinationWorkerStaleInterval, secondsToMs]
  split <;> split <;> omega

theorem staleCutoff_embedded (now : Int) : staleCutoff now defaultWorkerStaleAfterSeconds = now - 90000 := rfl

theorem coordinationReaperTick_eq (env : Env) (h now : Int) (s : Store) :
    coordinationReaperTick env h now s = sweepStale now (coordinationWorkerStaleInterval h) (sweepExpired now s) := by
  rw [coordinationReaperTick, apply_reapExpiredLeases, apply_reapStaleWorkers]
  exact sweepStale_order (List.perm_insertionSort _ _) (List.Perm.refl _) now

/-- What a claim retires its two sweeps retire: the lease it writes is active. -/
theorem claimTask_retires {env : Env} {now : Int} {a : ClaimArgs} {s : Store} {l : LeaseRow}
    (h : Retires s ((Op.claimTask now a).apply env s) l) : Retires s (sweptStore now s) l := by
  obtain ⟨hl, hgone⟩ := h
  refine ⟨hl, ?_⟩
  rw [apply_claimTask] at hgone
  rcases run_claimTask_cases env now a s with ⟨-, hrun⟩ | ⟨m, -, -, hrun⟩ | ⟨-, -, -, hrun⟩ | ⟨t, -, -, hi, hrun⟩
  · rw [hrun, hl] at hgone
    cases hgone
  · rw [hrun, hl] at hgone
    cases hgone
  · rw [hrun, hl] at hgone
    cases hgone
  · obtain ⟨rfl, -⟩ := insertLease_eq hi
    rw [hrun] at hgone
    simp only [Store.activeLease?, LeaseRelease.claimStore_leases, Store.putLease_leases] at hgone ⊢
    split at hgone
    · simp at hgone
    · exact hgone

/-- Below a threshold of ninety seconds the reaper retires whatever a claim does. -/
theorem tick_retires {env : Env} {h now : Int} {s : Store} {l : LeaseRow} (hh : 3 * max 1 h ≤ 90)
    (hr : Retires s (sweptStore now s) l) : Retires s (coordinationReaperTick env h now s) l := by
  obtain ⟨hl, hgone⟩ := hr
  refine ⟨hl, ?_⟩
  rw [coordinationReaperTick_eq]
  cases hmid : (sweepExpired now s).activeLease? l.leaseId with
  | none => exact activeLease?_gone (shrinks_sweepWorkers now _ _ _ _) hmid
  | some m =>
    obtain rfl : m = l := by
      have hne : (sweepExpired now s).activeLease? l.leaseId ≠ none := by simp [hmid]
      have hkept := (shrinks_sweepLeases now (expiredLeases now s) s).activeLease? hl hne
      exact Option.some.inj (hmid.symm.trans hkept)
    refine (sweepStale_mono ?_ ⟨hmid, hgone⟩).2
    rw [staleCutoff_periodic, staleCutoff_embedded]
    omega

/-! ## A lease only the claim retires -/

/-- A task claimed at time 0 for five minutes, its worker silent from then on. -/
def silentStore : Store :=
  (Op.claimTask 0 { claimBy "a" (plainTask "T1") with leaseTtlSeconds := 300 }).apply sqliteEnv Store.empty

/-- Another worker claims another task after a minute and a half. -/
def laterClaim : ClaimArgs := { claimBy "b" (plainTask "T2") with leaseTtlSeconds := 300 }

def silentLease : LeaseRow := { claimBy "a" (plainTask "T1") with leaseTtlSeconds := 300 }.lease 0 1

theorem laterClaim_retires : Retires silentStore ((Op.claimTask 90000 laterClaim).apply sqliteEnv silentStore) silentLease := by
  unfold Retires
  decide +kernel

theorem tick_spares {h : Int} (hh : 90 < 3 * max 1 h) :
    (coordinationReaperTick sqliteEnv h 90000 silentStore).activeLease? silentLease.leaseId = some silentLease := by
  have hkept : (sweepExpired 90000 silentStore).activeLease? silentLease.leaseId = some silentLease := by decide +kernel
  have hseen : (sweepExpired 90000 silentStore).workers.rows.all (fun w => decide (0 ≤ w.lastSeenAtMs)) = true := by
    decide +kernel
  have hnone : staleWorkers (staleCutoff 90000 (coordinationWorkerStaleInterval h)) (sweepExpired 90000 silentStore) = [] := by
    rw [staleCutoff_periodic]
    refine List.filter_eq_nil_iff.mpr fun w hw => ?_
    have := of_decide_eq_true (List.all_eq_true.mp hseen w hw)
    simp only [Bool.and_eq_true, decide_eq_true_eq]
    omega
  rw [coordinationReaperTick_eq]
  change (sweepWorkers _ _ (deadHosts (staleWorkers (staleCutoff _ _) _) _) (staleWorkers (staleCutoff _ _) _) _).activeLease?
    _ = _
  rw [hnone]
  exact hkept

/-! ## Agreement -/

/-- For rows in any order the two spellings of either sweep leave the same store. -/
def SpellingsAgree : Prop :=
  (∀ (now after : Int) (query locked : Store → List WorkerRow), StaleQuery now after query → StaleQuery now after locked →
    ∀ s, ((reapStaleWorkersFrom query now after).run s).2 = ((reapStaleWorkersLockedFrom locked now after).run s).2) ∧
  ∀ (now : Int) (query locked : Store → List LeaseRow), ExpiredQuery now query → ExpiredQuery now locked →
    ∀ s, ((reapExpiredLeasesFrom query now).run s).2 = ((reapExpiredLeasesLockedFrom locked now).run s).2

/-- A claim retires only leases that the reaper would retire at the same time. -/
def ClaimRetiresLess (heartbeatIntervalSeconds : Int) : Prop :=
  ∀ (env : Env) (now : Int) (a : ClaimArgs) (s : Store) (l : LeaseRow),
    Retires s ((Op.claimTask now a).apply env s) l → Retires s (coordinationReaperTick env heartbeatIntervalSeconds now s) l

/-- The spellings agree, and the claim's sweeps go no further than the reaper's up to a
configured heartbeat of thirty seconds, where three heartbeats are the claim's constant. -/
theorem sweeps_agree_iff (heartbeatIntervalSeconds : Int) :
    SpellingsAgree ∧ ClaimRetiresLess heartbeatIntervalSeconds ↔ heartbeatIntervalSeconds ≤ 30 := by
  constructor
  · rintro ⟨-, hclaim⟩
    by_contra hlarge
    have hgone := (hclaim sqliteEnv 90000 laterClaim silentStore silentLease laterClaim_retires).2
    rw [tick_spares (by omega)] at hgone
    cases hgone
  · intro h
    refine ⟨⟨?_, ?_⟩, ?_⟩
    · intro now after query locked hq hl s
      exact staleWorkers_spelled now after hq hl s
    · intro now query locked hq hl s
      exact expiredLeases_spelled now hq hl s
    · intro env now a s l hr
      exact tick_retires (by omega) (claimTask_retires hr)

/-- With a heartbeat of a minute the reaper waits three minutes, the claim one and a half. -/
theorem minute_heartbeat_diverges : ¬ (SpellingsAgree ∧ ClaimRetiresLess 60) := by
  rintro ⟨-, hclaim⟩
  have hgone := (hclaim sqliteEnv 90000 laterClaim silentStore silentLease laterClaim_retires).2
  rw [tick_spares (by decide)] at hgone
  cases hgone

end SweepSpellings
