import TandemAgents.DependencyGate
import TandemAgents.SweepSpellings

/-!
# The worker rows an ended lease touches

Five statements set a worker idle when its lease ends. One of them looks at the lease the
row points at, one at the lease's worker first; the release and the expiry sweep name the
row by the worker id of the lease only, and a worker that has moved on loses its row.
-/
namespace LeaseWorkers

open KeyedTable PythonText TaskContract CoordinationStore Statements Statements.Prog
open LeaseOperations WorkerOperations TaskOperations OperationRuns GuardedRuns StoreHistories HealthyLeases
open SweepSpellings

set_option maxRecDepth 20000

/-! ## The operations that end leases -/

inductive Ending where
  | release (now : Int) (leaseId : Ident) (status : ReleaseStatus) (reason : Option String)
  | reapExpired (now : Int)
  | reapStale (now staleAfterSeconds : Int)
  | clearClaim (now : Int) (key : String) (state : TaskState) (a : Transition)

/-- The store behind `release_lease`, a sweep, or `transition_task_state` with `clear_claim`. -/
def Ending.after : Ending → Store → Store
  | .release now leaseId status reason, s => ((releaseLease now leaseId status reason).run s).2
  | .reapExpired now, s => ((reapExpiredLeases now).run s).2
  | .reapStale now staleAfterSeconds, s => ((reapStaleWorkers now staleAfterSeconds).run s).2
  | .clearClaim now key state a, s => ((transitionTaskState now key state { a with clearClaim := true }).run s).2

/-- The row points at a lease that was ended. -/
def Ended (s t : Store) (w : WorkerRow) : Prop := ∃ l, Retires s t l ∧ w.currentLeaseId = some l.leaseId

def Idled (w : WorkerRow) : Prop := w.status = "idle" ∧ w.currentLeaseId = none ∧ w.currentRunId = none

/-- The stale-worker sweep also idles silent workers that own no active lease; no lease is
ended for such a row. -/
def Ending.idlesAlone : Ending → Store → Ident → Prop
  | .reapStale _ _, s, k => ∃ w, s.workers.find? k = some w ∧ ownedLease w s = none
  | _, _, _ => False

/-- A worker row changes only for a lease of its own that was ended, and is idle then. -/
def Ending.TouchesOwn (e : Ending) (s : Store) : Prop :=
  ∀ k, (e.after s).workers.find? k ≠ s.workers.find? k → ¬ e.idlesAlone s k →
    ∃ w w', s.workers.find? k = some w ∧ (e.after s).workers.find? k = some w' ∧ Ended s (e.after s) w ∧ Idled w'

/-! ## Workers behind an operation -/

/-- Some rows of the table are released, the others are left alone. -/
def Releases (now : Int) (status : String) (p : Ident → WorkerRow → Bool) (s t : Store) : Prop :=
  ∀ k, t.workers.find? k = (s.workers.find? k).map (fun w => if p k w then w.release now status else w)

theorem Releases.touchesOwn_iff {e : Ending} {now : Int} {status : String} {p : Ident → WorkerRow → Bool} {s : Store}
    (h : Releases now status p s (e.after s)) : e.TouchesOwn s ↔
      ∀ k w, s.workers.find? k = some w → p k w = true → w.release now status ≠ w → ¬ e.idlesAlone s k →
        Ended s (e.after s) w ∧ status = "idle" := by
  constructor
  · intro ht k w hw hp hne halone
    have hafter : (e.after s).workers.find? k = some (w.release now status) := by simp [h k, hw, hp]
    have hchange : (e.after s).workers.find? k ≠ s.workers.find? k := by
      rw [hafter, hw]
      exact fun he => hne (Option.some.inj he)
    obtain ⟨v, v', hv, hv', hended, hidle⟩ := ht k hchange halone
    rw [hw] at hv
    rw [hafter] at hv'
    cases hv
    cases hv'
    exact ⟨hended, hidle.1⟩
  · intro hall k hchange halone
    have hk := h k
    cases hw : s.workers.find? k with
    | none =>
      rw [hw] at hk hchange
      exact absurd hk hchange
    | some w =>
      simp only [hw, Option.map_some] at hk hchange
      by_cases hp : p k w = true
      · rw [if_pos hp] at hk
        have hne : w.release now status ≠ w := fun he => hchange (by rw [hk, he])
        obtain ⟨hended, rfl⟩ := hall k w hw hp hne halone
        exact ⟨w, _, rfl, hk, hended, rfl, rfl, rfl⟩
      · rw [if_neg hp] at hk
        exact absurd hk hchange

theorem releases_sweepLeases (now : Int) (rows : List LeaseRow) (s : Store) :
    Releases now "idle" (fun k _ => rows.any (fun l => decide (l.workerId = k))) s (sweepLeases now rows s) := by
  intro k
  induction rows generalizing s with
  | nil => simp [sweepLeases]
  | cons l rows ih =>
    have hstep : (retireStep now "expired" l l.workerId s).workers.find? k =
        (s.workers.find? k).map (fun w => if l.workerId = k then w.release now "idle" else w) := by
      simp only [retireStep, Store.modifyWorker_workers, Table.find?_modify]
      by_cases hk : k = l.workerId
      · simp [hk, Store.modifyTask, Store.modifyLease]
      · simp [hk, Ne.symm hk, Store.modifyTask, Store.modifyLease]
    have hfold : (sweepLeases now (l :: rows) s).workers.find? k = _ := ih (retireStep now "expired" l l.workerId s)
    rw [hfold, hstep]
    cases s.workers.find? k with
    | none => rfl
    | some w => by_cases hk : l.workerId = k <;> simp [hk, WorkerRow.release]

theorem releases_idleWorkers (now : Int) (rows : List LeaseRow) (s : Store) :
    Releases now "idle" (fun k w => rows.any (fun l => decide (l.workerId = k ∧ w.currentLeaseId = some l.leaseId))) s
      (idleWorkers now rows s) := by
  intro k
  induction rows generalizing s with
  | nil => simp [idleWorkers]
  | cons l rows ih =>
    have hfold : (idleWorkers now (l :: rows) s).workers.find? k = _ :=
      ih (s.modifyWorker l.workerId (WorkerRow.releaseFrom now l.leaseId) (WorkerRow.releaseFrom_workerId_of now l))
    rw [hfold, Store.modifyWorker_workers, Table.find?_modify]
    cases s.workers.find? k with
    | none => simp
    | some w =>
      by_cases hk : k = l.workerId
      · by_cases hcur : w.currentLeaseId = some l.leaseId <;> simp [hk, hcur, WorkerRow.releaseFrom, WorkerRow.release]
      · simp [hk, Ne.symm hk]

/-- The round of a stale row idles its worker. -/
def roundIdles (cutoff : Int) (dead : List Ident) (s : Store) (row : WorkerRow) : Bool :=
  match ownedLease row s with
  | none => true
  | some l => leaseIsStale cutoff dead row l

theorem staleRound_workers (now cutoff : Int) (dead : List Ident) (row : WorkerRow) (s : Store) (k : Ident) :
    (staleRound now cutoff dead row s).2.workers.find? k = (s.workers.find? k).map (fun w =>
      if row.workerId = k ∧ roundIdles cutoff dead s row = true then w.release now "idle" else w) := by
  rw [staleRound_eq, roundIdles]
  cases ownedLease row s with
  | none =>
    simp only [roundStore, idleWorker, Store.modifyWorker_workers, Table.find?_modify, and_true, eq_comm (a := k)]
    by_cases hk : row.workerId = k <;> simp [hk]
  | some l =>
    by_cases hstale : leaseIsStale cutoff dead row l = true
    · simp only [roundStore, hstale, if_true, retireStep, Store.modifyWorker_workers, Table.find?_modify, and_true,
        eq_comm (a := k)]
      by_cases hk : row.workerId = k <;> simp [hk, Store.modifyTask, Store.modifyLease]
    · simp [roundStore, hstale]

theorem releases_sweepWorkers (now cutoff : Int) (dead : List Ident) {rows : List WorkerRow} (s : Store)
    (hrows : (rows.map (·.workerId)).Nodup) :
    Releases now "idle" (fun k _ => rows.any (fun row => decide (row.workerId = k) && roundIdles cutoff dead s row)) s
      (sweepWorkers now cutoff dead rows s) := by
  intro k
  induction rows generalizing s with
  | nil => simp [sweepWorkers]
  | cons row rows ih =>
    simp only [List.map_cons, List.nodup_cons] at hrows
    obtain ⟨hnot, hrest⟩ := hrows
    have hsame : rows.any (fun x => decide (x.workerId = k) && roundIdles cutoff dead (staleRound now cutoff dead row s).2 x) =
        rows.any (fun x => decide (x.workerId = k) && roundIdles cutoff dead s x) := by
      rw [Bool.eq_iff_iff, List.any_eq_true, List.any_eq_true]
      refine exists_congr fun x => and_congr_right fun hx => ?_
      have hne : x.workerId ≠ row.workerId := fun he => hnot (he ▸ List.mem_map_of_mem hx)
      rw [roundIdles, roundIdles, staleRound_eq, ownedLease_round now cutoff dead s hne]
    have hfold : (sweepWorkers now cutoff dead (row :: rows) s).workers.find? k = _ := ih (staleRound now cutoff dead row s).2 hrest
    simp only [hfold, staleRound_workers, hsame]
    cases s.workers.find? k with
    | none => rfl
    | some w =>
      by_cases hk : row.workerId = k <;> by_cases hidle : roundIdles cutoff dead s row = true <;>
        simp [hk, hidle, WorkerRow.release]

/-! ## Leases an operation ends -/

theorem retires_releaseStore {now : Int} {status : ReleaseStatus} {reason : Option String} {s : Store} {l m : LeaseRow}
    (hl : s.activeLease? l.leaseId = some l) : Retires s (releaseStore now status reason l s) m ↔ m = l := by
  have hafter : ∀ i, (releaseStore now status reason l s).activeLease? i =
      if i = l.leaseId then none else s.activeLease? i := by
    intro i
    obtain ⟨hf, ha⟩ := activeLease?_eq_some.mp hl
    simp only [releaseStore, Store.activeLease?, Store.modifyWorker_leases, Store.modifyTask_leases,
      Store.modifyLease_leases, Table.find?_modify]
    by_cases hi : i = l.leaseId
    · subst hi
      cases status <;> simp [hf, LeaseRow.close, ha, LeaseRow.retire, ReleaseStatus.toLease]
    · simp [hi]
  rw [Retires, hafter]
  constructor
  · rintro ⟨hm, hgone⟩
    by_cases hi : m.leaseId = l.leaseId
    · rw [hi, hl] at hm
      exact (Option.some.inj hm).symm
    · rw [if_neg hi, hm] at hgone
      cases hgone
  · rintro rfl
    exact ⟨hl, if_pos rfl⟩

theorem retires_sweepExpired {now : Int} {s : Store} {l : LeaseRow} :
    Retires s (sweepExpired now s) l ↔ l ∈ expiredLeases now s := by
  constructor
  · rintro ⟨hl, hgone⟩
    exact mem_expiredLeases.mpr ⟨hl, sweepExpired_retires now s hl hgone⟩
  · intro hl
    exact ⟨(mem_expiredLeases.mp hl).1, DependencyGate.sweepLeases_inactive now _ s hl⟩

theorem retires_applyStore {now : Int} {key : String} {state : TaskState} {a : Transition} {s : Store} {row : TaskRow}
    (hrow : s.tasks.find? key = some row) (hclear : a.clearClaim = true) {l : LeaseRow} (hl : l ∈ activeLeasesOf key s) :
    Retires s (applyStore key state now a s) l := by
  simp only [activeLeasesOf, Table.mem_select, decide_eq_true_eq] at hl
  obtain ⟨hf, hkey, ha⟩ := hl
  refine ⟨activeLease?_eq_some.mpr ⟨hf, ha⟩, ?_⟩
  simp [applyStore, hrow, hclear, clearClaimStore, Store.activeLease?, retireClaims_leases, hf, hkey, ha, LeaseRow.retire]

theorem releases_applyStore (now : Int) {key : String} (state : TaskState) {a : Transition} {s : Store} {row : TaskRow}
    (hrow : s.tasks.find? key = some row) (hclear : a.clearClaim = true) :
    Releases now "idle" (fun k w => (activeLeasesOf key s).any (fun l =>
      decide (l.workerId = k ∧ w.currentLeaseId = some l.leaseId))) s (applyStore key state now a s) := by
  intro k
  have hsame : activeLeasesOf key (touchStore key state now a row s) = activeLeasesOf key s := by simp [activeLeasesOf]
  simp only [applyStore, hrow, hclear, if_true, clearClaimStore, Store.modifyTask_workers, retireClaims, hsame]
  split
  · rw [releases_idleWorkers]
    simp [retireActiveLeases]
  · rename_i hnil
    simp [not_not.mp hnil]

theorem sortedStaleWorkers_perm (cutoff : Int) (s : Store) : (sortedStaleWorkers cutoff s).Perm (staleWorkers cutoff s) :=
  List.perm_insertionSort _ _

theorem sortedStaleWorkers_nodup (cutoff : Int) (s : Store) : ((sortedStaleWorkers cutoff s).map (·.workerId)).Nodup :=
  ((sortedStaleWorkers_perm cutoff s).map _).nodup_iff.mpr (s.workers.nodup.sublist (List.filter_sublist.map _))

/-! ## Each operation -/

/-- Where the code touches no other row: a released lease whose worker still points at it, with
one of the three statuses that idle it; expired leases whose workers each point at one of
them. A row that already is as the release leaves it does not count. -/
def Ending.Fits : Ending → Store → Prop
  | .release now leaseId status _, s => ∀ l w, s.activeLease? leaseId = some l → s.workers.find? l.workerId = some w →
      w.release now (workerStatusAfter status) ≠ w → w.currentLeaseId = some leaseId ∧ workerStatusAfter status = "idle"
  | .reapExpired now, s => ∀ l ∈ expiredLeases now s, ∀ w, s.workers.find? l.workerId = some w →
      w.release now "idle" ≠ w → ∃ m ∈ expiredLeases now s, w.currentLeaseId = some m.leaseId
  | .reapStale _ _, _ => True
  | .clearClaim _ _ _ _, _ => True

theorem Ending.touchesOwn_of_same {e : Ending} {s : Store} (h : (e.after s).workers = s.workers) : e.TouchesOwn s :=
  fun k hchange => absurd (by rw [h]) hchange

theorem touchesOwn_release (now : Int) (leaseId : Ident) (status : ReleaseStatus) (reason : Option String) (s : Store) :
    (Ending.release now leaseId status reason).TouchesOwn s ↔ (Ending.release now leaseId status reason).Fits s := by
  rcases run_releaseLease now leaseId status reason s with ⟨row, hrow, ha, he⟩ | ⟨hnone, -, hworkers, -⟩
  · obtain rfl := Table.find?_key hrow
    have hl : s.activeLease? row.leaseId = some row := activeLease?_eq_some.mpr ⟨hrow, ha⟩
    have hafter : (Ending.release now row.leaseId status reason).after s = releaseStore now status reason row s := he
    have hrel : Releases now (workerStatusAfter status) (fun k _ => decide (k = row.workerId)) s
        ((Ending.release now row.leaseId status reason).after s) := by
      intro k
      rw [hafter]
      by_cases hk : k = row.workerId <;> simp [releaseStore, hk]
    rw [hrel.touchesOwn_iff]
    simp only [Ended, hafter, retires_releaseStore hl, exists_eq_left, decide_eq_true_eq, Ending.Fits, hl,
      Option.some.injEq, Ending.idlesAlone, not_false_iff, true_implies]
    constructor
    · rintro h l w rfl hw hne
      exact h _ w hw rfl hne
    · rintro h k w hw rfl hne
      exact h row w rfl hw hne
  · refine iff_of_true (Ending.touchesOwn_of_same hworkers) ?_
    intro l w hl
    rw [hnone] at hl
    cases hl

theorem touchesOwn_reapExpired (now : Int) (s : Store) :
    (Ending.reapExpired now).TouchesOwn s ↔ (Ending.reapExpired now).Fits s := by
  have hafter : (Ending.reapExpired now).after s = sweepExpired now s := by rw [Ending.after, run_reapExpiredLeases]
  have hrel := releases_sweepLeases now (expiredLeases now s) s
  rw [← sweepExpired, ← hafter] at hrel
  rw [hrel.touchesOwn_iff]
  simp only [Ended, hafter, retires_sweepExpired, List.any_eq_true, decide_eq_true_eq, Ending.Fits, and_true,
    Ending.idlesAlone, not_false_iff, true_implies]
  constructor
  · intro h l hl w hw hne
    exact h l.workerId w hw ⟨l, hl, rfl⟩ hne
  · rintro h k w hw ⟨l, hl, rfl⟩ hne
    exact h l hl w hw hne

theorem touchesOwn_reapStale (now after : Int) (s : Store) : (Ending.reapStale now after).TouchesOwn s := by
  have hafter : (Ending.reapStale now after).after s = sweepWorkers now (staleCutoff now after)
      (deadHosts (sortedStaleWorkers (staleCutoff now after) s) s) (sortedStaleWorkers (staleCutoff now after) s) s :=
    run_reapStaleWorkers now after s
  have hrel := releases_sweepWorkers now (staleCutoff now after)
    (deadHosts (sortedStaleWorkers (staleCutoff now after) s) s) s (sortedStaleWorkers_nodup (staleCutoff now after) s)
  rw [← hafter] at hrel
  rw [hrel.touchesOwn_iff]
  intro k w hw hp _ halone
  obtain ⟨row, hrow, hround⟩ := List.any_eq_true.mp hp
  obtain ⟨hk, hidles⟩ := Bool.and_eq_true_iff.mp hround
  obtain rfl := of_decide_eq_true hk
  have hfind := (mem_staleWorkers ((sortedStaleWorkers_perm _ s).mem_iff.mp hrow)).1
  obtain rfl : row = w := Option.some.inj (hfind.symm.trans hw)
  cases ho : ownedLease row s with
  | none => exact absurd ⟨row, hw, ho⟩ halone
  | some l =>
    obtain ⟨hcur, -, hl, -⟩ := ownedLease_eq_some.mp ho
    rw [roundIdles, ho] at hidles
    refine ⟨⟨l, ⟨hl, ?_⟩, hcur⟩, rfl⟩
    rw [hafter]
    exact (sweepWorkers_retires_iff now _ _ _ s hl).mpr ⟨row, hrow, ho, hidles⟩

theorem touchesOwn_clearClaim (now : Int) (key : String) (state : TaskState) (a : Transition) (s : Store) :
    (Ending.clearClaim now key state a).TouchesOwn s := by
  have hafter : (Ending.clearClaim now key state a).after s = applyStore key state now { a with clearClaim := true } s := by
    rw [Ending.after, run_transitionTaskState]
  cases hrow : s.tasks.find? key with
  | none =>
    refine Ending.touchesOwn_of_same ?_
    simp [hafter, applyStore, hrow]
  | some row =>
    have hrel := releases_applyStore now state (a := { a with clearClaim := true }) hrow rfl
    rw [← hafter] at hrel
    rw [hrel.touchesOwn_iff]
    intro k w _ hp _ _
    obtain ⟨l, hl, hworker⟩ := List.any_eq_true.mp hp
    refine ⟨⟨l, ?_, (of_decide_eq_true hworker).2⟩, rfl⟩
    rw [hafter]
    exact retires_applyStore hrow rfl hl

/-- The stale-worker sweep and a cleared claim touch the rows of the leases they end only. The
release and the expiry sweep do so exactly for workers that did not move on. -/
theorem ending_touches_own_iff (e : Ending) (s : Store) : e.TouchesOwn s ↔ e.Fits s := by
  cases e with
  | release now leaseId status reason => exact touchesOwn_release now leaseId status reason s
  | reapExpired now => exact touchesOwn_reapExpired now s
  | reapStale now after => exact iff_of_true (touchesOwn_reapStale now after s) trivial
  | clearClaim now key state a => exact iff_of_true (touchesOwn_clearClaim now key state a s) trivial

/-! ## A worker that moved on -/

/-- The same worker claims a second task while its first lease is open. -/
def movedStore : Store :=
  (Op.claimTask 100 { claimBy "a" (plainTask "T2") with runId := "run-b", leaseId := Ident.of "lease-b" }).apply sqliteEnv
    ((Op.claimTask 0 (claimBy "a" (plainTask "T1"))).apply sqliteEnv Store.empty)

/-- The release of the first lease takes the worker from the second, and a cancelled lease
leaves its worker cancelled. -/
theorem moved_worker_loses_row :
    ¬ (Ending.release 500 (Ident.of "lease-a") .completed none).TouchesOwn movedStore ∧
      ¬ (Ending.release 500 (Ident.of "lease-b") .cancelled none).TouchesOwn movedStore := by
  constructor
  · intro h
    obtain ⟨w, _, hw, -, ⟨l, ⟨-, hgone⟩, hcur⟩, -⟩ := h (Ident.of "worker-a") (by decide +kernel) id
    have hnow : (movedStore.workers.find? (Ident.of "worker-a")).bind (·.currentLeaseId) = some (Ident.of "lease-b") := by
      decide +kernel
    rw [hw, Option.bind_some, hcur] at hnow
    rw [Option.some.inj hnow] at hgone
    exact absurd hgone (by decide +kernel)
  · intro h
    obtain ⟨_, w', -, hw', -, hidle, -⟩ := h (Ident.of "worker-a") (by decide +kernel) id
    have hstatus : ((Ending.release 500 (Ident.of "lease-b") .cancelled none).after movedStore |>.workers.find?
        (Ident.of "worker-a")).map (·.status) = some "cancelled" := by decide +kernel
    rw [hw', Option.map_some, hidle] at hstatus
    exact absurd hstatus (by decide)

end LeaseWorkers
