import TandemAgents.ReleaseCrash
import TandemAgents.SweepSpellings

/-!
# Finished work and the sweeps

A sweep overwrites the state of the task behind every lease it ends, done or not, and the
ownership view ranks a stale lease before a done task. Finished work stays finished as long
as no lease of it is still active when a sweep comes, and no task is marked done behind a
lease that is stale already.
-/
namespace FinishedWork

open KeyedTable PythonText TaskContract CoordinationStore Statements Statements.Prog
open LeaseOperations WorkerOperations TaskOperations OperationRuns GuardedRuns StoreHistories HealthyLeases
open ReleaseCrash SweepSpellings

set_option maxRecDepth 20000

/-! ## Ownership -/

/-- `_normalize_task_state` of a lease's status; a missing lease has the empty one. -/
def leaseState : Option LeaseRow → TaskState
  | none => .queued
  | some l => match l.status with
    | .active => .active
    | .stale => .stale
    | .blocked => .blocked
    | .completed => .queued
    | .failed => .queued
    | .cancelled => .queued

inductive OwnershipState where
  | owned | reclaimable
  | task (state : TaskState)
  deriving DecidableEq, Repr

/-- The chain of conditions behind `ownership_state`. -/
def ownershipState (task lease : TaskState) : OwnershipState :=
  if lease = .active ∧ task.isActive = true then .owned
  else if lease = .stale ∨ task = .stale then .reclaimable
  else .task task

/-- What `task_ownership` returns. -/
structure TaskOwnership where
  taskKey : String
  task : TaskRow
  lease : Option LeaseRow
  run : Option RunRow
  worker : Option WorkerRow
  taskState : TaskState
  leaseState : TaskState
  ownershipState : OwnershipState
  isCurrent : Bool
  reclaimable : Bool
  blockedReason : Option String

/-- The lease that `claimed_lease_id` names; an empty id is not looked up. -/
def namedLease (row : TaskRow) (s : Store) : Option LeaseRow :=
  row.claimedLeaseId.bind (fun leaseId => if leaseId.text = "" then none else s.leases.find? leaseId)

/-- A lease of the task that none of its leases was acquired after. -/
def IsLatest (key : String) (s : Store) (l : LeaseRow) : Prop :=
  (s.leases.find? l.leaseId = some l ∧ l.taskKey = key) ∧
    ∀ m, s.leases.find? m.leaseId = some m → m.taskKey = key → m.acquiredAtMs ≤ l.acquiredAtMs

/-- An answer to `WHERE task_key = ? ORDER BY acquired_at_ms DESC LIMIT 1`; which of several
leases of one millisecond it is is left open. -/
structure LatestQuery (latest : String → Store → Option LeaseRow) : Prop where
  found : ∀ key s l, latest key s = some l → IsLatest key s l
  missing : ∀ key s, latest key s = none → ∀ l, s.leases.find? l.leaseId = some l → l.taskKey ≠ key

/-- The query, with the leases of one millisecond in the order of the table. -/
def latestLease (key : String) (s : Store) : Option LeaseRow :=
  ((s.leases.select (fun l => decide (l.taskKey = key))).insertionSort (fun a b => b.acquiredAtMs ≤ a.acquiredAtMs)).head?

theorem mem_ofTask {key : String} {s : Store} {l : LeaseRow} :
    l ∈ s.leases.select (fun l => decide (l.taskKey = key)) ↔ s.leases.find? l.leaseId = some l ∧ l.taskKey = key := by
  simp only [Table.mem_select, decide_eq_true_eq]

theorem latestLease_query : LatestQuery latestLease where
  found key s l hl := by
    let rows := s.leases.select (fun l => decide (l.taskKey = key))
    have hperm := List.perm_insertionSort (fun a b : LeaseRow => b.acquiredAtMs ≤ a.acquiredAtMs) rows
    have hsorted := List.pairwise_insertionSort (fun a b : LeaseRow => b.acquiredAtMs ≤ a.acquiredAtMs) rows
    obtain ⟨rest, hrest⟩ : ∃ rest, rows.insertionSort (fun a b => b.acquiredAtMs ≤ a.acquiredAtMs) = l :: rest := by
      cases hc : rows.insertionSort (fun a b => b.acquiredAtMs ≤ a.acquiredAtMs) with
      | nil =>
        rw [latestLease, hc] at hl
        cases hl
      | cons x rest =>
        rw [latestLease, hc] at hl
        exact ⟨rest, by rw [Option.some.inj hl]⟩
    rw [hrest] at hperm hsorted
    refine ⟨mem_ofTask.mp (hperm.mem_iff.mp List.mem_cons_self), fun m hm hkey => ?_⟩
    rcases List.mem_cons.mp (hperm.mem_iff.mpr (mem_ofTask.mpr ⟨hm, hkey⟩)) with rfl | hmem
    · exact le_rfl
    · exact List.rel_of_pairwise_cons hsorted hmem
  missing key s hnone l hl hkey := by
    have hmem := (List.perm_insertionSort (fun a b : LeaseRow => b.acquiredAtMs ≤ a.acquiredAtMs) _).mem_iff.mpr
      (mem_ofTask.mpr ⟨hl, hkey⟩)
    rw [latestLease, List.head?_eq_none_iff] at hnone
    rw [hnone] at hmem
    cases hmem

/-- `task_ownership`. -/
def taskOwnership (latest : String → Store → Option LeaseRow) (key : String) (s : Store) : Option TaskOwnership := do
  let task ← s.tasks.find? key
  let lease := (namedLease task s).orElse (fun _ => latest key s)
  let runId := strip (orElse (task.claimedRunId.getD "") ((lease.map (·.runId)).getD ""))
  let run := if runId = "" then none else s.runs.find? runId
  let workerId := ((lease.map (·.workerId)).filter (fun w => decide (w.text ≠ ""))).orElse (fun _ => task.claimedBy)
  let worker := workerId.bind (fun w => if w.text = "" then none else s.workers.find? w)
  let reason := orElse (strip (task.stateReason.getD "")) (strip ((lease.bind (·.releaseReason)).getD ""))
  let state := ownershipState task.state (leaseState lease)
  return {
    taskKey := key
    task := task
    lease := lease
    run := run
    worker := worker
    taskState := task.state
    leaseState := leaseState lease
    ownershipState := state
    isCurrent := lease.any (fun l => decide (l.status = .active))
    reclaimable := decide (state = .reclaimable)
    blockedReason := orNone reason }

/-- What the ownership view can find for a task row. -/
def LooksUp (s : Store) (row : TaskRow) (l : LeaseRow) : Prop :=
  namedLease row s = some l ∨ namedLease row s = none ∧ IsLatest row.key s l

/-- A done task of the store. -/
def Finished (s : Store) (row : TaskRow) : Prop := s.tasks.find? row.key = some row ∧ row.state = .done

/-- No done task has a stale lease to be looked up. -/
def Settled (s : Store) : Prop := ∀ row, Finished s row → ∀ l, LooksUp s row l → l.status ≠ .stale

theorem leaseState_stale {l : LeaseRow} : leaseState (some l) = .stale ↔ l.status = .stale := by
  cases h : l.status <;> simp [leaseState, h]

/-- In a settled store no done task is reported as reclaimable. -/
theorem Settled.not_reclaimable {s : Store} (h : Settled s) {latest : String → Store → Option LeaseRow}
    (hlatest : LatestQuery latest) {key : String} {o : TaskOwnership} (ho : taskOwnership latest key s = some o)
    (hdone : o.taskState = .done) : o.reclaimable = false := by
  unfold taskOwnership at ho
  obtain ⟨row, hrow, hrest⟩ := Option.bind_eq_some_iff.mp ho
  obtain rfl := Option.some.inj hrest
  obtain rfl : row.key = key := Table.find?_key hrow
  simp only [decide_eq_false_iff_not]
  simp only at hdone
  cases hl : (namedLease row s).orElse (fun _ => latest row.key s) with
  | none => simp [ownershipState, leaseState, hdone]
  | some l =>
    have hlook : LooksUp s row l := by
      cases hn : namedLease row s with
      | some m =>
        rw [hn] at hl
        exact .inl (hn.trans hl)
      | none =>
        rw [hn] at hl
        exact .inr ⟨hn, hlatest.found _ _ _ hl⟩
    have hstale := h row ⟨hrow, hdone⟩ l hlook
    simp [ownershipState, leaseState_stale, hstale, hdone, TaskState.isActive]

/-! ## Leases that keep their task and time -/

/-- The lease rows keep their keys, tasks and times, and only those of `R` become stale. -/
structure Restatus (R : Ident → Prop) (s t : Store) : Prop where
  kept : ∀ k, t.leases.find? k = none → s.leases.find? k = none
  back : ∀ l', t.leases.find? l'.leaseId = some l' → ∃ l, s.leases.find? l'.leaseId = some l ∧
    l.taskKey = l'.taskKey ∧ l.acquiredAtMs = l'.acquiredAtMs ∧ (l'.status = .stale → l.status = .stale ∨ R l'.leaseId)

theorem Restatus.of_eq {R : Ident → Prop} {s t : Store} (h : ∀ k, t.leases.find? k = s.leases.find? k) : Restatus R s t where
  kept k hk := by rw [← h, hk]
  back l' hl' := ⟨l', by rw [← h, hl'], rfl, rfl, .inl⟩

theorem Restatus.trans {R : Ident → Prop} {s t u : Store} (h : Restatus R s t) (k : Restatus R t u) : Restatus R s u where
  kept i hi := h.kept i (k.kept i hi)
  back l'' hl'' := by
    obtain ⟨l', hl', htask', htime', hstale'⟩ := k.back l'' hl''
    have hid : l'.leaseId = l''.leaseId := Table.find?_key hl'
    rw [← hid] at hl'
    obtain ⟨l, hl, htask, htime, hstale⟩ := h.back l' hl'
    rw [hid] at hl hstale
    refine ⟨l, hl, htask.trans htask', htime.trans htime', fun hs => ?_⟩
    rcases hstale' hs with hold | hnew
    · exact hstale hold
    · exact .inr hnew

theorem Restatus.mono {R Q : Ident → Prop} {s t : Store} (h : Restatus R s t) (hRQ : ∀ i, R i → Q i) : Restatus Q s t where
  kept := h.kept
  back l' hl' := by
    obtain ⟨l, hl, htask, htime, hstale⟩ := h.back l' hl'
    exact ⟨l, hl, htask, htime, fun hs => (hstale hs).imp_right (hRQ _)⟩

theorem Restatus.modifyLease {R : Ident → Prop} (s : Store) (k : Ident) (f : LeaseRow → LeaseRow)
    (hf : ∀ l, (f l).leaseId = l.leaseId) (htask : ∀ l, (f l).taskKey = l.taskKey)
    (htime : ∀ l, (f l).acquiredAtMs = l.acquiredAtMs) (hstale : ∀ l, (f l).status = .stale → l.status = .stale ∨ R k) :
    Restatus R s (s.modifyLease k f hf) where
  kept i hi := by
    simp only [Store.modifyLease_leases, Table.find?_modify] at hi
    split at hi
    · simpa using hi
    · exact hi
  back l' hl' := by
    simp only [Store.modifyLease_leases, Table.find?_modify] at hl'
    split at hl'
    · rename_i hk
      obtain ⟨l, hl, rfl⟩ := Option.map_eq_some_iff.mp hl'
      exact ⟨l, hl, (htask l).symm, (htime l).symm, fun hs => (hstale l hs).imp_right (hk ▸ ·)⟩
    · exact ⟨l', hl', rfl, rfl, .inl⟩

/-- What is looked up behind the operation was looked up before, as it was then. -/
theorem LooksUp.back {R : Ident → Prop} {s t : Store} (h : Restatus R s t) {row : TaskRow} {l' : LeaseRow}
    (hl : LooksUp t row l') : ∃ l, LooksUp s row l ∧ l.leaseId = l'.leaseId ∧ (l'.status = .stale → l.status = .stale ∨ R l'.leaseId) := by
  have hempty : namedLease row t = none → namedLease row s = none := by
    intro hn
    unfold namedLease at hn ⊢
    cases hc : row.claimedLeaseId with
    | none => rfl
    | some i =>
      simp only [hc, Option.bind_some] at hn ⊢
      split at hn
      · rename_i htext
        rw [if_pos htext]
      · rename_i htext
        rw [if_neg htext]
        exact h.kept i hn
  rcases hl with hnamed | ⟨hnone, ⟨hfind, htask⟩, hmax⟩
  · unfold namedLease at hnamed
    obtain ⟨i, hi, hget⟩ := Option.bind_eq_some_iff.mp hnamed
    split at hget
    · cases hget
    · rename_i htext
      obtain rfl := Table.find?_key hget
      obtain ⟨l, hl, -, -, hstale⟩ := h.back l' hget
      refine ⟨l, .inl ?_, Table.find?_key hl, hstale⟩
      simp [namedLease, hi, htext, hl]
  · obtain ⟨l, hl, htask', htime, hstale⟩ := h.back l' hfind
    have hid : l.leaseId = l'.leaseId := Table.find?_key hl
    refine ⟨l, .inr ⟨hempty hnone, ⟨by rw [hid, hl], htask'.trans htask⟩, ?_⟩, hid, hstale⟩
    intro m hm hkey
    cases hm' : t.leases.find? m.leaseId with
    | none =>
      rw [h.kept _ hm'] at hm
      cases hm
    | some m' =>
      have hmid : m'.leaseId = m.leaseId := Table.find?_key hm'
      obtain ⟨x, hx, hxtask, hxtime, -⟩ := h.back m' (by rw [hmid, hm'])
      rw [hmid, hm] at hx
      cases hx
      rw [hxtime, htime]
      exact hmax m' (by rw [hmid, hm']) (hxtask ▸ hkey)

theorem LooksUp.found {s : Store} {row : TaskRow} {l : LeaseRow} (h : LooksUp s row l) : s.leases.find? l.leaseId = some l := by
  rcases h with hnamed | ⟨-, ⟨hfind, -⟩, -⟩
  · unfold namedLease at hnamed
    obtain ⟨i, -, hget⟩ := Option.bind_eq_some_iff.mp hnamed
    split at hget
    · cases hget
    · rw [Table.find?_key hget, hget]
  · exact hfind

/-- Rows that name the same lease look up the same. -/
theorem LooksUp.congr {s : Store} {row row' : TaskRow} {l : LeaseRow} (h : LooksUp s row l)
    (hclaim : row'.claimedLeaseId = row.claimedLeaseId) (hkey : row'.key = row.key) : LooksUp s row' l := by
  have hnamed : namedLease row' s = namedLease row s := by rw [namedLease, hclaim, namedLease]
  rw [LooksUp, hnamed, hkey]
  exact h

/-! ## Sweeps -/

/-- A sweep that ends leases of `R` and overwrites their tasks. -/
structure Swept (R : LeaseRow → Prop) (s t : Store) : Prop where
  leases : Restatus (fun i => ∃ l, R l ∧ l.leaseId = i) s t
  tasks : ∀ key, t.tasks.find? key = s.tasks.find? key ∨
    (∃ l, R l ∧ l.taskKey = key) ∧ ∀ r, t.tasks.find? key = some r → r.state = .stale

theorem Swept.refl {R : LeaseRow → Prop} (s : Store) : Swept R s s := ⟨.of_eq fun _ => rfl, fun _ => .inl rfl⟩

theorem Swept.mono {R Q : LeaseRow → Prop} {s t : Store} (h : Swept R s t) (hRQ : ∀ l, R l → Q l) : Swept Q s t where
  leases := h.leases.mono fun _ ⟨l, hl, hi⟩ => ⟨l, hRQ l hl, hi⟩
  tasks key := (h.tasks key).imp_right fun ⟨⟨l, hl, hk⟩, hstale⟩ => ⟨⟨l, hRQ l hl, hk⟩, hstale⟩

theorem Swept.trans {R : LeaseRow → Prop} {s t u : Store} (h : Swept R s t) (k : Swept R t u) : Swept R s u where
  leases := h.leases.trans k.leases
  tasks key := by
    rcases k.tasks key with hsame | hhit
    · rw [hsame]
      exact h.tasks key
    · exact .inr hhit

theorem swept_retireStep (now : Int) (reason : String) (l : LeaseRow) (w : Ident) (s : Store) :
    Swept (· = l) s (retireStep now reason l w s) where
  leases := by
    have hlease : Restatus (fun i => ∃ m, m = l ∧ m.leaseId = i) s _ :=
      Restatus.modifyLease s l.leaseId (LeaseRow.retire now .stale (some reason)) (LeaseRow.retire_some_leaseId now .stale reason)
        (fun _ => rfl) (fun _ => rfl) (fun _ _ => .inr ⟨l, rfl, rfl⟩)
    exact hlease.trans (.of_eq fun _ => rfl)
  tasks key := by
    by_cases hk : key = l.taskKey
    · refine .inr ⟨⟨l, rfl, hk.symm⟩, fun r hr => ?_⟩
      simp only [retireStep, Store.modifyWorker_tasks, Store.modifyTask_tasks, Table.find?_modify, hk, if_true] at hr
      obtain ⟨old, -, rfl⟩ := Option.map_eq_some_iff.mp hr
      exact TaskRow.clearClaimForLease_state _ _ _ _ old
    · exact .inl (retireStep_tasks now reason l w s hk)

theorem swept_sweepLeases (now : Int) (rows : List LeaseRow) (s : Store) : Swept (· ∈ rows) s (sweepLeases now rows s) := by
  induction rows generalizing s with
  | nil => exact .refl s
  | cons l rows ih =>
    have hfirst := (swept_retireStep now "expired" l l.workerId s).mono (Q := (· ∈ l :: rows)) (by simp)
    exact hfirst.trans ((ih _).mono fun m hm => List.mem_cons_of_mem l hm)

theorem swept_staleRound (now cutoff : Int) (dead : List Ident) (row : WorkerRow) (s : Store) :
    Swept (fun l => Takes cutoff dead l s row) s (staleRound now cutoff dead row s).2 := by
  rw [staleRound_eq]
  cases ho : ownedLease row s with
  | none => exact ⟨.of_eq fun _ => rfl, fun _ => .inl rfl⟩
  | some l =>
    simp only [roundStore]
    split
    · rename_i hstale
      exact (swept_retireStep now "worker stale" l row.workerId s).mono fun m hm => hm ▸ ⟨ho, hstale⟩
    · exact .refl s

/-- What a later round takes was there to be taken from the start. -/
theorem takes_before {cutoff : Int} {dead : List Ident} {l : LeaseRow} {s t : Store} {row : WorkerRow} (hs : Shrinks s t)
    (h : Takes cutoff dead l t row) : Takes cutoff dead l s row := by
  obtain ⟨howned, hstale⟩ := h
  obtain ⟨hcur, htext, hl, hworker⟩ := ownedLease_eq_some.mp howned
  obtain ⟨hf, ha⟩ := activeLease?_eq_some.mp hl
  exact ⟨ownedLease_eq_some.mpr ⟨hcur, htext, activeLease?_eq_some.mpr ⟨hs.leases l hf ha, ha⟩, hworker⟩, hstale⟩

theorem swept_sweepWorkers (now cutoff : Int) (dead : List Ident) (rows : List WorkerRow) (s : Store) :
    Swept (fun l => ∃ row ∈ rows, Takes cutoff dead l s row) s (sweepWorkers now cutoff dead rows s) := by
  induction rows generalizing s with
  | nil => exact .refl s
  | cons row rows ih =>
    have hfirst := (swept_staleRound now cutoff dead row s).mono
      (Q := fun l => ∃ x ∈ row :: rows, Takes cutoff dead l s x) fun l hl => ⟨row, List.mem_cons_self, hl⟩
    refine hfirst.trans ((ih _).mono ?_)
    rintro l ⟨x, hx, htakes⟩
    exact ⟨x, List.mem_cons_of_mem row hx, takes_before (shrinks_staleRound now cutoff dead row s) htakes⟩

/-- The lease belongs to finished work: a done task is its task, or looks it up. -/
def OfFinished (s : Store) (l : LeaseRow) : Prop := ∃ row, Finished s row ∧ (row.key = l.taskKey ∨ LooksUp s row l)

theorem Settled.sweep {R : LeaseRow → Prop} {s t : Store} (h : Settled s) (hs : Swept R s t)
    (hfound : ∀ l, R l → s.leases.find? l.leaseId = some l) (hspare : ∀ l, R l → ¬ OfFinished s l) :
    Settled t ∧ ∀ row, Finished s row → t.tasks.find? row.key = some row := by
  have hkeeps : ∀ row, Finished s row → t.tasks.find? row.key = some row := by
    intro row hrow
    rcases hs.tasks row.key with hsame | ⟨⟨l, hl, hk⟩, -⟩
    · rw [hsame]
      exact hrow.1
    · exact absurd ⟨row, hrow, .inl hk.symm⟩ (hspare l hl)
  refine ⟨?_, hkeeps⟩
  intro row ⟨hrow, hdone⟩ l' hlook hstale'
  rcases hs.tasks row.key with hsame | ⟨-, hstale⟩
  · have hold : Finished s row := ⟨hsame ▸ hrow, hdone⟩
    obtain ⟨l, hl, hid, hback⟩ := hlook.back hs.leases
    rcases hback hstale' with hs' | ⟨m, hm, hmid⟩
    · exact h row hold l hl hs'
    · have hsameLease : m = l := by
        have hm' := hfound m hm
        rw [hmid, ← hid, hl.found] at hm'
        exact (Option.some.inj hm').symm
      subst hsameLease
      exact hspare m hm ⟨row, hold, .inr hl⟩
  · rw [hstale row hrow] at hdone
    cases hdone

/-! ## Writes to one task -/

/-- The row of the key meets `Q` afterwards; the other rows are as they were. -/
structure Rewrites (key : String) (Q : TaskRow → Prop) (s t : Store) : Prop where
  own : ∀ r, t.tasks.find? key = some r → Q r
  others : ∀ k, k ≠ key → t.tasks.find? k = s.tasks.find? k

theorem Settled.rewrite {R : Ident → Prop} (key : String) {Q : TaskRow → Prop} {s t : Store} (h : Settled s)
    (hl : Restatus R s t) (hw : Rewrites key Q s t)
    (hother : ∀ row, Finished s row → row.key ≠ key → ∀ l, LooksUp s row l → ¬ R l.leaseId)
    (hown : ∀ r, r.key = key → Q r → r.state = .done → ∀ l, LooksUp s r l → l.status ≠ .stale ∧ ¬ R l.leaseId) :
    Settled t := by
  intro row ⟨hrow, hdone⟩ l' hlook hstale'
  obtain ⟨l, hold, hid, hback⟩ := hlook.back hl
  by_cases hk : row.key = key
  · obtain ⟨hfresh, hkept⟩ := hown row hk (hw.own row (hk ▸ hrow)) hdone l hold
    rcases hback hstale' with hs | hr
    · exact hfresh hs
    · exact hkept (hid ▸ hr)
  · have hfin : Finished s row := ⟨by rw [← hw.others _ hk, hrow], hdone⟩
    rcases hback hstale' with hs | hr
    · exact h row hfin l hold hs
    · exact hother row hfin hk l hold (hid ▸ hr)

/-- An operation on other tables. -/
theorem Settled.same {s t : Store} (h : Settled s) (ht : ∀ k, t.tasks.find? k = s.tasks.find? k)
    (hl : ∀ k, t.leases.find? k = s.leases.find? k) : Settled t := by
  intro row ⟨hrow, hdone⟩ l' hlook hstale'
  obtain ⟨l, hold, -, hback⟩ := hlook.back (R := fun _ => False) (.of_eq hl)
  exact h row ⟨ht _ ▸ hrow, hdone⟩ l hold ((hback hstale').resolve_right id)

/-! ## Transitions -/

/-- No stale lease is looked up for the row. -/
def Unstale (s : Store) (row : TaskRow) : Prop := ∀ l, LooksUp s row l → l.status ≠ .stale

/-- The row a transition leaves, as far as its lease goes. -/
def nameLease (leaseId : Option Ident) (row : TaskRow) : TaskRow :=
  { row with claimedLeaseId := coalesce leaseId row.claimedLeaseId }

theorem assignState_claim {a : Transition} {row : TaskRow} (hm : a.metadata = none) (now : Int) (state : TaskState) :
    (assignState now state a (a.metadataOf row) row).claimedLeaseId = coalesce a.leaseId row.claimedLeaseId := by
  have hkey : (taskKey (a.metadataOf row).task).1 = row.key := by
    rw [Transition.metadataOf, hm]
    exact row.keyed
  unfold assignState
  rw [dif_pos hkey]

theorem rewrites_assign {key : String} (state : TaskState) (now : Int) {a : Transition} {s : Store} {row : TaskRow}
    (hrow : s.tasks.find? key = some row) (hm : a.metadata = none) :
    Rewrites key (fun r => r.state = state ∧ r.claimedLeaseId = coalesce a.leaseId row.claimedLeaseId) s
      (s.modifyTask key (assignState now state a (a.metadataOf row)) (assignState_metadataOf_key now state a row)) where
  own r hr := by
    simp only [Store.modifyTask_tasks, Table.find?_modify, if_true, hrow, Option.map_some, Option.some.injEq] at hr
    subst hr
    exact ⟨assignState_own hm now state, assignState_claim hm now state⟩
  others k hk := by simp [hk]

theorem Rewrites.touch {key : String} {state : TaskState} {now : Int} {claim : Option Ident} {s t : Store}
    (h : Rewrites key (fun r => r.state = state ∧ r.claimedLeaseId = claim) s t) :
    Rewrites key (fun r => r.state = state ∧ r.claimedLeaseId = claim) s
      (t.modifyTask key (TaskRow.touch now) (TaskRow.touch_key now)) where
  own r hr := by
    simp only [Store.modifyTask_tasks, Table.find?_modify, if_true] at hr
    obtain ⟨old, hold, rfl⟩ := Option.map_eq_some_iff.mp hr
    exact h.own old hold
  others k hk := by simpa [hk] using h.others k hk

theorem rewrites_touchStore {key : String} {state : TaskState} {now : Int} {a : Transition} {s : Store} {row : TaskRow}
    (hrow : s.tasks.find? key = some row) (hm : a.metadata = none) :
    Rewrites key (fun r => r.state = state ∧ r.claimedLeaseId = coalesce a.leaseId row.claimedLeaseId) s
      (touchStore key state now a row s) := by
  unfold touchStore
  split
  · exact (rewrites_assign state now hrow hm).touch
  · exact rewrites_assign state now hrow hm

theorem LooksUp.named {s : Store} {row r : TaskRow} {leaseId : Option Ident} {l : LeaseRow} (h : LooksUp s r l)
    (hkey : r.key = row.key) (hclaim : r.claimedLeaseId = coalesce leaseId row.claimedLeaseId) :
    LooksUp s (nameLease leaseId row) l := h.congr hclaim.symm hkey.symm

theorem Settled.transition {key : String} {state : TaskState} {leaseId : Option Ident} {s t : Store} {row : TaskRow}
    (h : Settled s) (hrow : s.tasks.find? key = some row) (hleases : ∀ k, t.leases.find? k = s.leases.find? k)
    (hw : Rewrites key (fun r => r.state = state ∧ r.claimedLeaseId = coalesce leaseId row.claimedLeaseId) s t)
    (hdone : state = .done → Unstale s (nameLease leaseId row)) : Settled t := by
  refine h.rewrite _ (R := fun _ => False) (.of_eq hleases) hw (fun _ _ _ _ _ => id) ?_
  rintro r hkey ⟨rfl, hclaim⟩ hst l hl
  exact ⟨hdone hst l (hl.named (hkey.trans (Table.find?_key hrow).symm) hclaim), id⟩

/-- A transition that keeps the claim, to done only where nothing stale is looked up. -/
theorem Settled.applyStore {key : String} {state : TaskState} {now : Int} {a : Transition} {s : Store} (h : Settled s)
    (hm : a.metadata = none) (hclear : a.clearClaim = false)
    (hdone : state = .done → ∀ row, s.tasks.find? key = some row → Unstale s (nameLease a.leaseId row)) :
    Settled (applyStore key state now a s) := by
  cases hrow : s.tasks.find? key with
  | none => simpa only [OperationRuns.applyStore, hrow] using h
  | some row =>
    simp only [OperationRuns.applyStore, hrow, hclear, Bool.false_eq_true, if_false]
    exact h.transition hrow (fun _ => by simp) (rewrites_touchStore hrow hm) (fun hst => hdone hst row hrow)

/-- The condition on a transition that clears the claim: the active leases it ends are looked
up by no other done task, and a task that becomes done has no other kind of latest lease. -/
def ClearsCarefully (key : String) (state : TaskState) (s : Store) : Prop :=
  (s.tasks.find? key).isSome = true →
    (∀ row, Finished s row → row.key ≠ key → ∀ l ∈ activeLeasesOf key s, ¬ LooksUp s row l) ∧
      (state = .done → ∀ l, IsLatest key s l → l.status ≠ .stale ∧ l.status ≠ .active)

theorem Settled.clearStore {key : String} {state : TaskState} {now : Int} {a : Transition} {s : Store} (h : Settled s)
    (hm : a.metadata = none) (hclear : a.clearClaim = true) (hc : ClearsCarefully key state s) :
    Settled (OperationRuns.applyStore key state now a s) := by
  cases hrow : s.tasks.find? key with
  | none => simpa only [OperationRuns.applyStore, hrow] using h
  | some row =>
    obtain ⟨hothers, hlatest⟩ := hc (by simp [hrow])
    simp only [OperationRuns.applyStore, hrow, hclear, if_true, clearClaimStore]
    have hleases : ∀ k, (retireClaims key now a.reason (touchStore key state now a row s)).leases.find? k =
        (s.leases.find? k).map _ := fun k => by rw [retireClaims_leases, touchStore_leases]
    refine h.rewrite key (R := fun i => ∃ l ∈ activeLeasesOf key s, l.leaseId = i)
      (Q := fun r => r.state = state ∧ r.claimedLeaseId = none) ⟨?_, ?_⟩ ⟨?_, ?_⟩ ?_ ?_
    · intro k hk
      rw [Store.modifyTask_leases, hleases] at hk
      simpa using hk
    · intro l' hl'
      rw [Store.modifyTask_leases, hleases] at hl'
      obtain ⟨l, hl, rfl⟩ := Option.map_eq_some_iff.mp hl'
      refine ⟨l, hl, ?_⟩
      split
      · rename_i hact
        refine ⟨rfl, rfl, fun _ => .inr ⟨l, ?_, rfl⟩⟩
        simp only [activeLeasesOf, Table.mem_select, decide_eq_true_eq]
        exact ⟨by rw [Table.find?_key hl]; exact hl, hact⟩
      · exact ⟨rfl, rfl, .inl⟩
    · intro r hr
      simp only [Store.modifyTask_tasks, Table.find?_modify, if_true, retireClaims_tasks] at hr
      obtain ⟨old, hold, rfl⟩ := Option.map_eq_some_iff.mp hr
      exact ⟨((rewrites_touchStore hrow hm).own old hold).1, rfl⟩
    · intro k hk
      simp only [Store.modifyTask_tasks, Table.find?_modify, hk, if_false, retireClaims_tasks]
      exact touchStore_tasks_other key state now a row s hk
    · rintro r hr hk l hl ⟨m, hm, hid⟩
      have hm' := hm
      simp only [activeLeasesOf, Table.mem_select, decide_eq_true_eq] at hm'
      rw [hid, hl.found] at hm'
      obtain rfl := Option.some.inj hm'.1
      exact hothers r hr hk l hm hl
    · rintro r rfl ⟨rfl, hnone⟩ hdone l hl
      have hlast : IsLatest r.key s l := by
        rcases hl with hnamed | ⟨-, hlast⟩
        · simp [namedLease, hnone] at hnamed
        · exact hlast
      obtain ⟨hstale, hact⟩ := hlatest hdone l hlast
      refine ⟨hstale, ?_⟩
      rintro ⟨m, hm, hid⟩
      simp only [activeLeasesOf, Table.mem_select, decide_eq_true_eq] at hm
      rw [hid, hl.found] at hm
      obtain rfl := Option.some.inj hm.1
      exact hact hm.2.2

/-! ## Releases -/

/-- The row a release leaves, as far as its lease goes. -/
def dropLease (leaseId : Ident) (row : TaskRow) : TaskRow :=
  { row with claimedLeaseId := if row.claimedLeaseId = some leaseId then none else row.claimedLeaseId }

theorem clearClaimForLease_claim (leaseId : Ident) (now : Int) (state : TaskState) (status : String) (row : TaskRow) :
    (row.clearClaimForLease leaseId now state status).claimedLeaseId = (dropLease leaseId row).claimedLeaseId := by
  unfold TaskRow.clearClaimForLease dropLease
  split <;> rfl

/-- The condition on a release of an active lease, by how far it gets: a lease released as stale
is looked up by no done task that stays done, and a completed one leaves its task another
lease to look up only if that is not stale. -/
def ReleasesCarefully (leaseId : Ident) (status : ReleaseStatus) (closed booked : Bool) (s : Store) : Prop :=
  ∀ l, s.activeLease? leaseId = some l →
    (closed = true → status = .stale → ∀ row, Finished s row → (booked = true → row.key ≠ l.taskKey) → ¬ LooksUp s row l) ∧
      (booked = true → status = .completed → ∀ row, s.tasks.find? l.taskKey = some row → Unstale s (dropLease leaseId row))

theorem restatus_closeLease (now : Int) (leaseId : Ident) (status : ReleaseStatus) (reason : Option String) (s : Store) :
    Restatus (fun i => status = .stale ∧ i = leaseId) s (closeLease now leaseId status reason s) := by
  refine Restatus.modifyLease s leaseId _ _ ?_ ?_ ?_ <;> intro l
  · unfold LeaseRow.close
    split <;> rfl
  · unfold LeaseRow.close
    split <;> rfl
  · intro hs
    unfold LeaseRow.close at hs
    split at hs
    · refine .inr ⟨?_, rfl⟩
      cases status <;> simp_all [LeaseRow.retire, ReleaseStatus.toLease]
    · exact .inl hs

theorem lookedUp_active {s : Store} {row : TaskRow} {l m : LeaseRow} {leaseId : Ident} (hl : s.activeLease? leaseId = some l)
    (hm : LooksUp s row m) (hid : m.leaseId = leaseId) : m = l := by
  obtain ⟨hf, -⟩ := activeLease?_eq_some.mp hl
  have hfound := hm.found
  rw [hid, hf] at hfound
  exact (Option.some.inj hfound).symm

theorem Settled.close {s : Store} (h : Settled s) (now : Int) {leaseId : Ident} {status : ReleaseStatus}
    {l : LeaseRow} (hl : s.activeLease? leaseId = some l) (reason : Option String)
    (hc : ReleasesCarefully leaseId status true false s) : Settled (closeLease now leaseId status reason s) := by
  have hspare : ∀ row, Finished s row → ∀ m, LooksUp s row m → ¬ (status = .stale ∧ m.leaseId = leaseId) := by
    rintro row hrow m hm ⟨hst, hid⟩
    obtain rfl := lookedUp_active hl hm hid
    exact (hc m hl).1 rfl hst row hrow (by simp) hm
  refine h.rewrite l.taskKey (Q := fun r => s.tasks.find? l.taskKey = some r)
    (restatus_closeLease now leaseId status reason s) ⟨fun r hr => hr, fun _ _ => rfl⟩ (fun row hrow _ => hspare row hrow) ?_
  intro r hk hr hdone m hm
  have hfin : Finished s r := ⟨hk ▸ hr, hdone⟩
  exact ⟨h r hfin m hm, hspare r hfin m hm⟩

theorem Settled.release {s t : Store} (h : Settled s) (now : Int) {leaseId : Ident} {status : ReleaseStatus}
    {l : LeaseRow} (hl : s.activeLease? leaseId = some l) (reason : Option String)
    (hc : ReleasesCarefully leaseId status true true s)
    (ht : t.tasks = (closeTask now leaseId status l.taskKey (closeLease now leaseId status reason s)).tasks)
    (hleases : ∀ k, t.leases.find? k = (closeLease now leaseId status reason s).leases.find? k) : Settled t := by
  obtain ⟨hstale, hcompleted⟩ := hc l hl
  refine h.rewrite l.taskKey (Q := fun r => r.state = taskStateFromLeaseStatus status ∧
      ∃ row, s.tasks.find? l.taskKey = some row ∧ r.claimedLeaseId = (dropLease leaseId row).claimedLeaseId)
    ((restatus_closeLease now leaseId status reason s).trans (.of_eq hleases)) ⟨?_, ?_⟩ ?_ ?_
  · intro r hr
    simp only [ht, closeTask, closeLease, Store.modifyTask_tasks, Store.modifyLease_tasks, Table.find?_modify, if_true] at hr
    obtain ⟨row, hrow, rfl⟩ := Option.map_eq_some_iff.mp hr
    exact ⟨TaskRow.clearClaimForLease_state _ _ _ _ row, row, hrow, clearClaimForLease_claim _ _ _ _ row⟩
  · intro k hk
    simp [ht, closeTask, closeLease, hk]
  · rintro row hrow hk m hm ⟨hst, hid⟩
    obtain rfl := lookedUp_active hl hm hid
    exact hstale rfl hst row hrow (fun _ => hk) hm
  · rintro r hk ⟨hstate, row, hrow, hclaim⟩ hdone m hm
    have hst : status = .completed := by
      rw [hstate] at hdone
      cases status <;> simp [taskStateFromLeaseStatus] at hdone ⊢
    have hrowKey : row.key = l.taskKey := Table.find?_key hrow
    refine ⟨hcompleted rfl hst row hrow m (hm.congr hclaim.symm ?_), ?_⟩
    · exact hrowKey.trans hk.symm
    · rintro ⟨hs, -⟩
      rw [hst] at hs
      cases hs

/-! ## Registration -/

/-- The condition on registering a task as done: its row keeps an active lease, or no latest
lease of the task is stale. -/
def RegistersCarefully (key : String) (s : Store) : Prop :=
  (∃ old l, s.tasks.find? key = some old ∧ namedLease old s = some l ∧ l.status = .active) ∨
    ∀ l, IsLatest key s l → l.status ≠ .stale

theorem reclaimStore_row {key : String} {now : Int} {s : Store} {row r : TaskRow} (hrow : s.tasks.find? key = some row)
    (hr : (reclaimStore key now s).tasks.find? key = some r) : r.state = row.state ∧
      ((∃ l, namedLease row s = some l ∧ l.status = .active ∧ r.claimedLeaseId = row.claimedLeaseId) ∨
        namedLease r s = none ∧ ¬ ∃ l, namedLease row s = some l ∧ l.status = .active) := by
  rw [reclaimStore, hrow] at hr
  cases hclaim : row.claimedLeaseId with
  | none =>
    simp only [hclaim, hrow, Option.some.injEq] at hr
    subst hr
    exact ⟨rfl, .inr (by simp [namedLease, hclaim])⟩
  | some i =>
    simp only [hclaim] at hr
    have hnamed : namedLease row s = if i.text = "" then none else s.leases.find? i := by rw [namedLease, hclaim]; rfl
    split at hr
    · rename_i hkeep
      obtain rfl : row = r := Option.some.inj (hrow.symm.trans hr)
      refine ⟨rfl, ?_⟩
      rw [hnamed]
      by_cases htext : i.text = ""
      · exact .inr (by simp [htext])
      · rw [if_neg htext]
        cases hl : s.leases.find? i with
        | none => exact absurd (hkeep.resolve_left htext) (by simp [hl])
        | some l =>
          have ha : l.status = .active := by simpa [hl] using hkeep.resolve_left htext
          exact .inl ⟨l, rfl, ha, hclaim⟩
    · rename_i hdrop
      rw [not_or] at hdrop
      simp only [Store.modifyTask_tasks, Table.find?_modify, if_true, hrow, Option.map_some, Option.some.injEq] at hr
      subst hr
      refine ⟨rfl, .inr ⟨rfl, ?_⟩⟩
      rw [hnamed, if_neg hdrop.1]
      rintro ⟨l, hl, ha⟩
      exact hdrop.2 (by simp [hl, ha])

/-- The row behind the upsert of `register_task`. -/
def registeredRow (now : Int) (task : Task) (repo : Repo) (status : TaskState) (s : Store) : TaskRow :=
  ((s.tasks.find? (taskKey task).1).map (TaskRow.keepClaim (newTaskRow task repo status now))).getD
    (newTaskRow task repo status now)

theorem registeredRow_spec (now : Int) (task : Task) (repo : Repo) (status : TaskState) (s : Store) :
    (registeredRow now task repo status s).state = status ∧ (registeredRow now task repo status s).claimedLeaseId =
      (s.tasks.find? (taskKey task).1).bind (·.claimedLeaseId) := by
  unfold registeredRow
  cases s.tasks.find? (taskKey task).1 with
  | none => exact ⟨rfl, rfl⟩
  | some old => exact ⟨rfl, rfl⟩

/-- A registered row keeps an active lease and names no other one. -/
theorem registerStore_row (now : Int) (task : Task) (repo : Repo) (status : TaskState) (s : Store) {r : TaskRow}
    (hr : (registerStore now task repo status s).tasks.find? (taskKey task).1 = some r) :
    r.state = status ∧ ((∃ old l, s.tasks.find? (taskKey task).1 = some old ∧ namedLease old s = some l ∧
      l.status = .active ∧ r.claimedLeaseId = old.claimedLeaseId) ∨
      namedLease r s = none ∧ ¬ ∃ old l, s.tasks.find? (taskKey task).1 = some old ∧ namedLease old s = some l ∧
        l.status = .active) := by
  have hkey : (taskKey task).1 = (newTaskRow task repo status now).key := rfl
  have hrow : (s.upsertTask (newTaskRow task repo status now) (TaskRow.keepClaim (newTaskRow task repo status now))
      (TaskRow.keepClaim_newTaskRow_key task repo status now)).tasks.find? (taskKey task).1 =
        some (registeredRow now task repo status s) := by
    rw [Store.upsertTask_tasks, Table.find?_upsert, if_pos hkey, registeredRow]
  obtain ⟨hstate, hnamed⟩ := reclaimStore_row hrow hr
  obtain ⟨hstate', hclaim'⟩ := registeredRow_spec now task repo status s
  refine ⟨hstate.trans hstate', ?_⟩
  have hsame : ∀ l, namedLease (registeredRow now task repo status s) s = some l ↔
      ∃ old, s.tasks.find? (taskKey task).1 = some old ∧ namedLease old s = some l := by
    intro l
    rw [namedLease, hclaim']
    cases s.tasks.find? (taskKey task).1 with
    | none => simp
    | some old => simp [namedLease]
  rcases hnamed with ⟨l, hl, ha, hclaim⟩ | ⟨hnone, hno⟩
  · obtain ⟨old, hold, hnamed⟩ := (hsame l).mp hl
    rw [hold] at hclaim'
    exact .inl ⟨old, l, hold, hnamed, ha, hclaim.trans hclaim'⟩
  · refine .inr ⟨hnone, ?_⟩
    rintro ⟨old, l, hold, hnamed, ha⟩
    exact hno ⟨l, (hsame l).mpr ⟨old, hold, hnamed⟩, ha⟩

theorem registerStore_leases (now : Int) (task : Task) (repo : Repo) (status : TaskState) (s : Store) :
    (registerStore now task repo status s).leases = s.leases := by
  unfold registerStore reclaimStore
  split
  · rfl
  · split
    · rfl
    · split <;> rfl

theorem registerStore_others (now : Int) (task : Task) (repo : Repo) (status : TaskState) (s : Store) {k : String}
    (hk : k ≠ (taskKey task).1) : (registerStore now task repo status s).tasks.find? k = s.tasks.find? k := by
  have hkey : ¬ k = (newTaskRow task repo status now).key := hk
  unfold registerStore reclaimStore
  split
  · simp [hkey]
  · split
    · simp [hkey]
    · split <;> simp [hk, hkey]

theorem Settled.register {s : Store} (h : Settled s) (now : Int) (task : Task) (repo : Repo) {status : TaskState}
    (hc : status = .done → RegistersCarefully (taskKey task).1 s) : Settled (registerStore now task repo status s) := by
  refine h.rewrite _ (R := fun _ => False) (.of_eq fun k => by rw [registerStore_leases])
    ⟨fun r hr => registerStore_row now task repo status s hr, fun k hk => registerStore_others now task repo status s hk⟩
    (fun _ _ _ _ _ => id) ?_
  rintro r hkey ⟨rfl, hrow⟩ hdone m hm
  refine ⟨?_, id⟩
  rcases hrow with ⟨old, l, hold, hl, ha, hclaim⟩ | ⟨hnone, hno⟩
  · have hnamed : namedLease r s = some l := by rw [namedLease, hclaim]; exact hl
    rcases hm with hm | ⟨hm, -⟩
    · rw [hnamed] at hm
      obtain rfl := Option.some.inj hm
      rw [ha]
      simp
    · rw [hnamed] at hm
      cases hm
  · rcases hc hdone with hactive | hlatest
    · exact absurd hactive hno
    · rcases hm with hm | ⟨-, hm⟩
      · rw [hnone] at hm
        cases hm
      · exact hlatest m (hkey ▸ hm)

/-! ## Heartbeats and claims -/

theorem Settled.beat {s : Store} (h : Settled s) (now expiresAt : Int) (l : LeaseRow) : Settled (beatStore now expiresAt l s) := by
  have hlease : Restatus (fun _ => False) s (s.modifyLease l.leaseId (LeaseRow.beat now expiresAt)
      (LeaseRow.beat_leaseId now expiresAt)) := by
    refine Restatus.modifyLease s l.leaseId _ _ ?_ ?_ ?_ <;> intro x
    · unfold LeaseRow.beat
      split <;> rfl
    · unfold LeaseRow.beat
      split <;> rfl
    · intro hs
      unfold LeaseRow.beat at hs
      split at hs <;> exact .inl hs
  refine h.rewrite l.taskKey (Q := fun r => ∃ row, s.tasks.find? l.taskKey = some row ∧ r.state = row.state ∧
      r.claimedLeaseId = row.claimedLeaseId) (hlease.trans (.of_eq fun _ => rfl)) ⟨?_, ?_⟩ (fun _ _ _ _ _ => id) ?_
  · intro r hr
    simp only [beatStore, Store.modifyWorker_tasks, Store.modifyTask_tasks, Store.modifyLease_tasks, Table.find?_modify,
      if_true] at hr
    obtain ⟨row, hrow, rfl⟩ := Option.map_eq_some_iff.mp hr
    exact ⟨row, hrow, rfl, rfl⟩
  · intro k hk
    simp [beatStore, hk]
  · rintro r hkey ⟨row, hrow, hstate, hclaim⟩ hdone m hm
    have hrowKey : row.key = l.taskKey := Table.find?_key hrow
    have hfin : Finished s row := ⟨hrowKey.symm ▸ hrow, hstate ▸ hdone⟩
    exact ⟨h row hfin m (hm.congr hclaim.symm (hrowKey.trans hkey.symm)), id⟩

/-- A lease written under an id that is new, or its own task's, is all that other tasks see. -/
theorem LooksUp.written {s t : Store} {row : TaskRow} {new l : LeaseRow} (h : LooksUp t row l)
    (ht : ∀ k, t.leases.find? k = if k = new.leaseId then some new else s.leases.find? k)
    (hfree : ∀ old, s.leases.find? new.leaseId = some old → old.taskKey = new.taskKey) (hk : row.key ≠ new.taskKey) :
    l = new ∨ LooksUp s row l := by
  rcases h with hnamed | ⟨hnone, ⟨hfind, htask⟩, hmax⟩
  · unfold namedLease at hnamed
    obtain ⟨i, hi, hget⟩ := Option.bind_eq_some_iff.mp hnamed
    split at hget
    · cases hget
    · rename_i htext
      rw [ht] at hget
      split at hget
      · exact .inl (Option.some.inj hget).symm
      · refine .inr (.inl ?_)
        simp [namedLease, hi, htext, hget]
  · refine .inr (.inr ⟨?_, ⟨?_, htask⟩, ?_⟩)
    · unfold namedLease at hnone ⊢
      cases hc : row.claimedLeaseId with
      | none => rfl
      | some i =>
        simp only [hc, Option.bind_some] at hnone ⊢
        split at hnone
        · rename_i htext
          rw [if_pos htext]
        · rename_i htext
          rw [ht] at hnone
          split at hnone
          · cases hnone
          · rw [if_neg htext, hnone]
    · rw [ht] at hfind
      split at hfind
      · obtain rfl := Option.some.inj hfind
        exact absurd htask.symm hk
      · exact hfind
    · intro m hm hkey
      refine hmax m ?_ hkey
      rw [ht, if_neg, hm]
      intro hid
      rw [hid] at hm
      exact hk (hkey.symm.trans (hfree m hm))

/-- The store of a claim behind its upserts. -/
def upserted (now : Int) (a : ClaimArgs) (s : Store) : Store :=
  ((s.upsertRun (a.run now) (a.mergeRun now) (a.mergeRun_runId now)).upsertTask (a.taskRow now) (a.mergeTask now)
    (a.mergeTask_key now)).upsertWorker (a.worker now) (a.mergeWorker now) (a.mergeWorker_workerId now)

theorem claimStore_upserted (now : Int) (a : ClaimArgs) (s : Store) :
    claimStore now a s = OperationRuns.applyStore a.key .claimed now (a.transition now) (upserted now a s) := rfl

theorem upserted_row (now : Int) (a : ClaimArgs) (s : Store) :
    ∃ row, (upserted now a s).tasks.find? a.key = some row ∧ row.state = .claimed := by
  have hkey : a.key = (a.taskRow now).key := rfl
  refine ⟨_, by rw [upserted, Store.upsertWorker_tasks, Store.upsertTask_tasks, Table.find?_upsert, if_pos hkey], ?_⟩
  cases (s.upsertRun (a.run now) (a.mergeRun now) (a.mergeRun_runId now)).tasks.find? a.key <;> rfl

theorem assignState_same {state : TaskState} {row : TaskRow} (h : row.state = state) (now : Int) (a : Transition)
    (m : TaskMetadata) : (assignState now state a m row).state = state := by
  unfold assignState
  split
  · rfl
  · exact h

theorem claimStore_state (now : Int) (a : ClaimArgs) (s : Store) {r : TaskRow}
    (hr : (claimStore now a s).tasks.find? a.key = some r) : r.state = .claimed := by
  obtain ⟨row, hrow, hstate⟩ := upserted_row now a s
  have hclear : (a.transition now).clearClaim = false := rfl
  rw [claimStore_upserted, OperationRuns.applyStore, hrow] at hr
  simp only [hclear, Bool.false_eq_true, if_false, touchStore, hstate, ne_eq, not_true, Store.modifyTask_tasks,
    Table.find?_modify, if_true, hrow, Option.map_some, Option.some.injEq] at hr
  rw [← hr]
  exact assignState_same hstate now _ _

theorem claimStore_others (now : Int) (a : ClaimArgs) (s : Store) {k : String} (hk : k ≠ a.key) :
    (claimStore now a s).tasks.find? k = s.tasks.find? k := by
  obtain ⟨row, hrow, -⟩ := upserted_row now a s
  have hclear : (a.transition now).clearClaim = false := rfl
  have hkey : ¬ k = (a.taskRow now).key := hk
  rw [claimStore_upserted, OperationRuns.applyStore, hrow]
  simp only [hclear, Bool.false_eq_true, if_false]
  rw [touchStore_tasks_other _ _ _ _ _ _ hk, upserted, Store.upsertWorker_tasks, Store.upsertTask_tasks, Table.find?_upsert,
    if_neg hkey]
  rfl

theorem written_leases (now : Int) (a : ClaimArgs) (attempt : Nat) (s : Store) (k : Ident) :
    (claimStore now a (s.putLease (a.lease now attempt))).leases.find? k =
      if k = (a.lease now attempt).leaseId then some (a.lease now attempt) else s.leases.find? k := by
  rw [LeaseRelease.claimStore_leases, Store.putLease_leases]

/-- The condition on a sweep of expired leases: none of them belongs to finished work. -/
def SparesExpired (now : Int) (s : Store) : Prop := ∀ l ∈ expiredLeases now s, ¬ OfFinished s l

/-- The condition on a sweep of stale workers: no lease it takes belongs to finished work. -/
def SparesStale (now staleAfterSeconds : Int) (s : Store) : Prop :=
  ∀ l, ∀ row ∈ staleWorkers (staleCutoff now staleAfterSeconds) s,
    Takes (staleCutoff now staleAfterSeconds) (deadHosts (staleWorkers (staleCutoff now staleAfterSeconds) s) s) l s row →
      ¬ OfFinished s l

theorem Settled.sweepExpired {s : Store} (h : Settled s) {now : Int} (hc : SparesExpired now s) :
    Settled (sweepExpired now s) ∧ ∀ row, Finished s row → (sweepExpired now s).tasks.find? row.key = some row :=
  h.sweep (swept_sweepLeases now (expiredLeases now s) s)
    (fun _ hl => (activeLease?_eq_some.mp (mem_expiredLeases.mp hl).1).1) hc

theorem Settled.sweepStale {s : Store} (h : Settled s) {now after : Int} (hc : SparesStale now after s) :
    Settled (sweepStale now after s) ∧ ∀ row, Finished s row → (sweepStale now after s).tasks.find? row.key = some row := by
  refine h.sweep (swept_sweepWorkers now (staleCutoff now after) _ _ s) ?_ ?_
  · rintro l ⟨row, -, howned, -⟩
    obtain ⟨-, -, hl, -⟩ := ownedLease_eq_some.mp howned
    exact (activeLease?_eq_some.mp hl).1
  · rintro l ⟨row, hrow, htakes⟩
    exact hc l row hrow htakes

/-- The condition on a claim that is granted: its sweeps spare finished work, and the lease id it
draws is not another task's. -/
def ClaimsCarefully (env : Env) (now : Int) (a : ClaimArgs) (s : Store) : Prop :=
  (claimDependencies env now a s).blocked = false → liveLease a.key now (sweptStore now s) = none →
    (sweptStore now s).insertLease (a.lease now (nextAttempt a.key (sweptStore now s))) ≠ none →
      SparesExpired now s ∧ SparesStale now defaultWorkerStaleAfterSeconds (OperationRuns.sweepExpired now s) ∧
        ∀ l, s.leases.find? a.leaseId = some l → l.taskKey = a.key

theorem Settled.claim {env : Env} {s : Store} (h : Settled s) {now : Int} {a : ClaimArgs} (hc : ClaimsCarefully env now a s) :
    Settled ((claimTask env now a).run s).2 ∧ ∀ row, Finished s row → row.key ≠ a.key →
      ((claimTask env now a).run s).2.tasks.find? row.key = some row := by
  rcases run_claimTask_cases env now a s with ⟨-, hrun⟩ | ⟨l, -, -, hrun⟩ | ⟨-, -, -, hrun⟩ | ⟨t, hb, hlive, hi, hrun⟩
  · rw [hrun]
    exact ⟨h, fun row hrow _ => hrow.1⟩
  · rw [hrun]
    exact ⟨h, fun row hrow _ => hrow.1⟩
  · rw [hrun]
    exact ⟨h, fun row hrow _ => hrow.1⟩
  · obtain ⟨hexpired, hstale, hfree⟩ := hc hb hlive (by simp [hi])
    obtain ⟨hmid, hkeptMid⟩ := h.sweepExpired hexpired
    obtain ⟨hswept, hkept⟩ := hmid.sweepStale hstale
    obtain ⟨rfl, -⟩ := insertLease_eq hi
    rw [hrun]
    have hkeeps : ∀ row, Finished s row → (sweptStore now s).tasks.find? row.key = some row :=
      fun row hrow => hkept row ⟨hkeptMid row hrow, hrow.2⟩
    refine ⟨?_, fun row hrow hk => ?_⟩
    · intro row ⟨hrow, hdone⟩ l hlook
      by_cases hk : row.key = a.key
      · rw [claimStore_state now a _ (hk ▸ hrow)] at hdone
        cases hdone
      · rw [claimStore_others now a _ hk, Store.putLease_tasks] at hrow
        have hfreeMid : ∀ old, (sweptStore now s).leases.find? a.leaseId = some old → old.taskKey = a.key := by
          intro old hold
          have hback : Restatus (fun _ => True) s (sweptStore now s) :=
            ((swept_sweepLeases now _ s).leases.mono fun _ _ => trivial).trans
              ((swept_sweepWorkers now _ _ _ _).leases.mono fun _ _ => trivial)
          have hid : old.leaseId = a.leaseId := Table.find?_key hold
          obtain ⟨x, hx, htask, -⟩ := hback.back old (by rw [hid, hold])
          rw [← htask]
          exact hfree x (hid ▸ hx)
        rcases hlook.written (written_leases now a _ _) hfreeMid hk with rfl | hold
        · simp
        · exact hswept row ⟨hrow, hdone⟩ l hold
    · rw [claimStore_others now a _ hk, Store.putLease_tasks]
      exact hkeeps row hrow

/-! ## Runs -/

/-- A complete operation, or the start of one of the two that commit their statements one by
one: `n` statements of a release or of a mark, and then the process stops. The sweeps and
the claim are transactions, so that a stop leaves nothing of them or all. -/
inductive Step where
  | op (o : Op)
  | stopRelease (n : Nat) (now : Int) (leaseId : Ident) (status : ReleaseStatus) (reason : Option String)
  | stopMark (n : Nat) (mark : Mark) (now : Int) (key : String) (me : RunIdentity) (leaseExpiresAtMs : Int)
      (reason : Option String)

/-- The store after the `n`-th statement of a mark. -/
def markPrefix (n : Nat) (mark : Mark) (now : Int) (key : String) (me : RunIdentity) (leaseExpiresAtMs : Int)
    (reason : Option String) (s : Store) : Store := crash n (markProg mark now key me leaseExpiresAtMs reason) ⟨s, none⟩

def Step.apply (env : Env) (s : Store) : Step → Store
  | .op o => o.apply env s
  | .stopRelease n now leaseId status reason => releasePrefix now leaseId status reason n s
  | .stopMark n mark now key me leaseExpiresAtMs reason => markPrefix n mark now key me leaseExpiresAtMs reason s

/-- The condition on a mark: to done only where the lease the row names then, or else the task's
latest one, is not stale. -/
def MarksCarefully (mark : Mark) (key : String) (me : RunIdentity) (s : Store) : Prop :=
  mark = .done → ∀ row, s.tasks.find? key = some row → Unstale s (nameLease me.leaseId row)

/-- The condition on a step, in the store it starts from. -/
def Careful (env : Env) (s : Store) : Step → Prop
  | .op (.claimTask now a) => ClaimsCarefully env now a s
  | .op (.heartbeatLease _ _ _) => True
  | .op (.releaseLease _ leaseId status _) => ReleasesCarefully leaseId status true true s
  | .op (.reapExpiredLeases now) => SparesExpired now s
  | .op (.reapStaleWorkers now staleAfterSeconds) => SparesStale now staleAfterSeconds s
  | .op (.registerTask _ task _ status) => status = .done → RegistersCarefully (taskKey task).1 s
  | .op (.markTask mark _ key me _ _) => MarksCarefully mark key me s
  | .op (.operatorMove _ key state _ clearClaim) =>
    if clearClaim = true then ClearsCarefully key state s
    else state = .done → ∀ row, s.tasks.find? key = some row → Unstale s row
  | .op (.registerWorker _ _ _ _ _ _ _ _) => True
  | .op (.heartbeatWorker _ _ _) => True
  | .stopRelease n _ leaseId status _ => ReleasesCarefully leaseId status (decide (2 ≤ n)) (decide (3 ≤ n)) s
  | .stopMark n mark _ key me _ _ => 2 ≤ n → MarksCarefully mark key me s

/-- A mark stopped half way has done nothing, or has written its row. -/
theorem transitionPrefix_cases (n : Nat) (now : Int) (key : String) (state : TaskState) {a : Transition} (s : Store)
    (hm : a.metadata = none) (hclear : a.clearClaim = false) :
    crash n (transitionTaskState now key state a) ⟨s, none⟩ = s ∨ 2 ≤ n ∧ ∃ row, s.tasks.find? key = some row ∧
      (∀ k, (crash n (transitionTaskState now key state a) ⟨s, none⟩).leases.find? k = s.leases.find? k) ∧
      Rewrites key (fun r => r.state = state ∧ r.claimedLeaseId = coalesce a.leaseId row.claimedLeaseId) s
        (crash n (transitionTaskState now key state a) ⟨s, none⟩) := by
  unfold transitionTaskState applyTaskState getTask
  rcases n with _ | _ | m
  · exact .inl rfl
  · exact .inl rfl
  · cases hrow : s.tasks.find? key with
    | none =>
      left
      simp only [bind_assoc, crash_get_bind, Conn.view, Option.getD_none, hrow, pure_def, ret_bind, crash_get]
    | some row =>
      refine .inr ⟨by omega, row, rfl, ?_⟩
      simp only [bind_assoc, crash_get_bind, Conn.view, Option.getD_none, hrow, crash_update_bind, hclear, Conn.put]
      have hassign := rewrites_assign state now hrow hm
      by_cases hs : row.state ≠ state
      · rw [if_pos hs]
        cases m with
        | zero => exact ⟨fun _ => rfl, hassign⟩
        | succ k =>
          simp only [Bool.false_eq_true, if_false, pure_def, bind_assoc, ret_bind, crash_update_bind, crash_get, Conn.view,
            Option.getD_none, Conn.put]
          exact ⟨fun _ => rfl, hassign.touch⟩
      · rw [if_neg hs]
        simp only [Bool.false_eq_true, if_false, pure_def, ret_bind, crash_get]
        exact ⟨fun _ => rfl, hassign⟩

theorem settled_reapStale {env : Env} {s : Store} (h : Settled s) {now after : Int} (hc : SparesStale now after s) :
    Settled ((Op.reapStaleWorkers now after).apply env s) ∧
      ∀ row, Finished s row → ((Op.reapStaleWorkers now after).apply env s).tasks.find? row.key = some row := by
  have hsame : (Op.reapStaleWorkers now after).apply env s = OperationRuns.sweepStale now after s := by
    rw [apply_reapStaleWorkers]
    exact sweepStale_order (List.perm_insertionSort _ _) (List.Perm.refl _) now
  rw [hsame]
  exact h.sweepStale hc

theorem Mark.transition_done {mark : Mark} {me : RunIdentity} {expires : Int} {reason : Option String} :
    (mark.transition me expires reason).1 = .done ↔ mark = .done := by cases mark <;> simp [Mark.transition]

theorem Mark.transition_plain (mark : Mark) (me : RunIdentity) (expires : Int) (reason : Option String) :
    (mark.transition me expires reason).2.metadata = none ∧ (mark.transition me expires reason).2.clearClaim = false ∧
      (mark.transition me expires reason).2.leaseId = me.leaseId := by cases mark <;> exact ⟨rfl, rfl, rfl⟩

theorem markPrefix_eq (n : Nat) (mark : Mark) (now : Int) (key : String) (me : RunIdentity) (expires : Int)
    (reason : Option String) (s : Store) : markPrefix n mark now key me expires reason s =
      crash n (transitionTaskState now key (mark.transition me expires reason).1 (mark.transition me expires reason).2)
        ⟨s, none⟩ := by cases mark <;> rfl

theorem settled_releaseOp {env : Env} {s : Store} (h : Settled s) (now : Int) {leaseId : Ident} {status : ReleaseStatus}
    (reason : Option String) (hc : ReleasesCarefully leaseId status true true s) :
    Settled ((Op.releaseLease now leaseId status reason).apply env s) := by
  rw [apply_releaseLease]
  rcases run_releaseLease now leaseId status reason s with ⟨row, hrow, ha, he⟩ | ⟨-, htasks, -, hleases⟩
  · obtain rfl := Table.find?_key hrow
    rw [he]
    exact h.release now (activeLease?_eq_some.mpr ⟨hrow, ha⟩) reason hc rfl fun _ => rfl
  · exact h.same (fun k => by rw [htasks]) hleases

theorem settled_stopRelease {s : Store} (h : Settled s) (n : Nat) (now : Int) {leaseId : Ident} {status : ReleaseStatus}
    (reason : Option String) (hc : ReleasesCarefully leaseId status (decide (2 ≤ n)) (decide (3 ≤ n)) s) :
    Settled (releasePrefix now leaseId status reason n s) := by
  cases hl : s.activeLease? leaseId with
  | none =>
    obtain ⟨htasks, hleases⟩ := releasePrefix_idle now status reason hl n
    exact h.same (fun k => by rw [htasks]) hleases
  | some l =>
    rcases releasePrefix_active now status reason hl n with ⟨-, he⟩ | ⟨rfl, he⟩ | ⟨hn, htasks, hleases⟩
    · rw [he]
      exact h
    · rw [he]
      exact h.close now hl reason hc
    · have h2 : 2 ≤ n := by omega
      simp only [h2, hn, decide_true] at hc
      exact h.release now hl reason hc htasks fun k => by rw [hleases]

/-- A careful step keeps the store settled. -/
theorem apply_settled {env : Env} {s : Store} (h : Settled s) (e : Step) (hc : Careful env s e) : Settled (e.apply env s) := by
  cases e with
  | stopRelease n now leaseId status reason => exact settled_stopRelease h n now reason hc
  | stopMark n mark now key me expires reason =>
    obtain ⟨hm, hclear, hid⟩ := Mark.transition_plain mark me expires reason
    rw [Step.apply, markPrefix_eq]
    rcases transitionPrefix_cases n now key _ s hm hclear with he | ⟨hn, row, hrow, hleases, hw⟩
    · rw [he]
      exact h
    · exact h.transition hrow hleases hw fun hst => hid ▸ hc hn (Mark.transition_done.mp hst) row hrow
  | op o =>
    cases o with
    | claimTask now a =>
      rw [Step.apply, apply_claimTask]
      exact (h.claim hc).1
    | heartbeatLease now ttl leaseId =>
      rw [Step.apply, apply_heartbeatLease]
      rcases run_heartbeatLease now ttl leaseId s with ⟨row, -, -, he⟩ | ⟨-, htasks, -, hleases⟩
      · rw [he]
        exact h.beat now _ row
      · exact h.same (fun k => by rw [htasks]) hleases
    | releaseLease now leaseId status reason => exact settled_releaseOp h now reason hc
    | reapExpiredLeases now =>
      rw [Step.apply, apply_reapExpiredLeases]
      exact (h.sweepExpired hc).1
    | reapStaleWorkers now after => exact (settled_reapStale h hc).1
    | registerTask now task repo status =>
      rw [Step.apply, apply_registerTask]
      exact h.register now task repo hc
    | markTask mark now key me expires reason =>
      obtain ⟨hm, hclear, hid⟩ := Mark.transition_plain mark me expires reason
      rw [Step.apply, apply_markTask]
      exact h.applyStore hm hclear fun hst row hrow => hid ▸ hc (Mark.transition_done.mp hst) row hrow
    | operatorMove now key state reason clearClaim =>
      rw [Step.apply, apply_operatorMove]
      cases clearClaim with
      | true => exact h.clearStore rfl rfl (by simpa [Careful] using hc)
      | false =>
        have hdone : state = .done → ∀ row, s.tasks.find? key = some row → Unstale s row := by simpa [Careful] using hc
        exact h.applyStore rfl rfl fun hst row hrow => hdone hst row hrow
    | registerWorker now workerId hostId role status capabilities runId leaseId => exact h.same (fun _ => rfl) (fun _ => rfl)
    | heartbeatWorker now workerId fields =>
      rw [Step.apply, apply_heartbeatWorker]
      split
      · exact h.same (fun _ => rfl) (fun _ => rfl)
      · exact h

/-- The steps that run a sweep. -/
def Step.sweeps : Step → Bool
  | .op (.claimTask _ _) => true
  | .op (.reapExpiredLeases _) => true
  | .op (.reapStaleWorkers _ _) => true
  | _ => false

/-- The task a claim takes, done or not. -/
def Step.claims : Step → Option String
  | .op (.claimTask _ a) => some a.key
  | _ => none

/-- The sweeps of a step leave finished work alone. -/
def KeepsFinished (env : Env) (s : Store) (e : Step) : Prop :=
  e.sweeps = true → ∀ row, Finished s row → e.claims ≠ some row.key → (e.apply env s).tasks.find? row.key = some row

/-- No done task is reported as reclaimable. -/
def NeverReclaimable (s : Store) : Prop :=
  ∀ latest, LatestQuery latest → ∀ key o, taskOwnership latest key s = some o → o.taskState = .done → o.reclaimable = false

theorem settled_empty : Settled Store.empty := by
  rintro row ⟨hrow, -⟩
  cases hrow

theorem reached_settled {env : Env} {s : Store} (h : Reached (Step.apply env) (Careful env) Store.empty s) : Settled s :=
  h.invariant settled_empty fun _ e hs hc => apply_settled hs e hc

theorem keepsFinished_of_settled {env : Env} {s : Store} (h : Settled s) {e : Step} (hc : Careful env s e) :
    KeepsFinished env s e := by
  intro hsweeps row hrow hclaims
  cases e with
  | stopRelease n now leaseId status reason => cases hsweeps
  | stopMark n mark now key me expires reason => cases hsweeps
  | op o =>
    cases o with
    | claimTask now a =>
      rw [Step.apply, apply_claimTask]
      exact (h.claim hc).2 row hrow fun he => hclaims (by rw [Step.claims, he])
    | reapExpiredLeases now =>
      rw [Step.apply, apply_reapExpiredLeases]
      exact (h.sweepExpired hc).2 row hrow
    | reapStaleWorkers now after => exact (settled_reapStale h hc).2 row hrow
    | _ => cases hsweeps

/-- In every store reached by careful steps no done task is reported as reclaimable, and the
sweeps of the next careful step leave every done task as it is. -/
theorem finished_work_stays {env : Env} {s : Store} (h : Reached (Step.apply env) (Careful env) Store.empty s) :
    NeverReclaimable s ∧ ∀ e, Careful env s e → KeepsFinished env s e := by
  have hs := reached_settled h
  refine ⟨fun latest hlatest key o ho hdone => hs.not_reclaimable hlatest ho hdone, fun e hc => ?_⟩
  exact keepsFinished_of_settled hs hc

/-! ## One run -/

/-- What the run of a claim says about itself. -/
def runA : RunIdentity := ⟨"run-a", some (Ident.of "lease-a"), some (Ident.of "worker-a"), some (Ident.of "host-a")⟩

def claimA : Step := .op (.claimTask 0 (claimBy "a" (plainTask "T1")))

def doneA (now : Int) : Step := .op (.markTask .done now (claimBy "a" (plainTask "T1")).key runA 0 none)

/-- A run to its end. -/
def releasedRun : List Step := [claimA, doneA 100, .op (.releaseLease 200 (Ident.of "lease-a") .completed none)]

theorem unstale_of_rows {s : Store} (h : s.leases.rows.all (fun l => decide (l.status ≠ .stale)) = true) (row : TaskRow) :
    Unstale s row := by
  intro l hl
  exact of_decide_eq_true (List.all_eq_true.mp h l (Table.mem_rows.mpr hl.found))

/-- The stores of the run behind its claim and behind its mark. -/
def claimedStore : Store := claimA.apply sqliteEnv Store.empty

def doneStore : Store := (doneA 100).apply sqliteEnv claimedStore

theorem releasedRun_careful : AllSteps (Step.apply sqliteEnv) (Careful sqliteEnv) Store.empty releasedRun := by
  have hclaim : Careful sqliteEnv Store.empty claimA := by
    intro _ _ _
    refine ⟨?_, ?_, ?_⟩
    · intro l hl
      cases hl
    · intro l row hrow
      cases hrow
    · intro l hl
      cases hl
  have hmark : Careful sqliteEnv claimedStore (doneA 100) := fun _ row _ => unstale_of_rows (by decide +kernel) _
  have hrelease : Careful sqliteEnv doneStore (.op (.releaseLease 200 (Ident.of "lease-a") .completed none)) := by
    intro l _
    constructor
    · intro _ hs
      cases hs
    · exact fun _ _ row _ => unstale_of_rows (by decide +kernel) _
  exact ⟨hclaim, hmark, hrelease, trivial⟩

/-- The sweeps that come long after a released run. -/
theorem releasedRun_stays : ∃ s, Reached (Step.apply sqliteEnv) (Careful sqliteEnv) Store.empty s ∧
    (∃ row, Finished s row) ∧ NeverReclaimable s ∧ KeepsFinished sqliteEnv s (.op (.reapExpiredLeases 90000)) := by
  have hreached := Reached.init.after releasedRun releasedRun_careful
  obtain ⟨hnever, hkeeps⟩ := finished_work_stays hreached
  refine ⟨_, hreached, ?_, hnever, hkeeps _ ?_⟩
  · have hdone : ((GuardedRuns.after (Step.apply sqliteEnv) Store.empty releasedRun).tasks.find?
        (claimBy "a" (plainTask "T1")).key).map (·.state) = some .done := by decide +kernel
    obtain ⟨row, hrow, hstate⟩ := Option.map_eq_some_iff.mp hdone
    exact ⟨row, Table.find?_key hrow ▸ hrow, hstate⟩
  · intro l hl
    have hnone : (expiredLeases 90000 (GuardedRuns.after (Step.apply sqliteEnv) Store.empty releasedRun)).length = 0 := by
      decide +kernel
    rw [List.eq_nil_of_length_eq_zero hnone] at hl
    cases hl

/-- The process stops behind `mark_task_done`: the next sweep undoes the work. A run that marks
its task done behind a sweep leaves a done task that is reported as reclaimable. -/
theorem unreleased_work_undone :
    (∃ s, Reached (Step.apply sqliteEnv) (fun _ _ => True) Store.empty s ∧
      ¬ KeepsFinished sqliteEnv s (.op (.reapExpiredLeases 90000))) ∧
    ∃ s, Reached (Step.apply sqliteEnv) (fun _ _ => True) Store.empty s ∧ ¬ NeverReclaimable s := by
  constructor
  · refine ⟨doneStore, (Reached.init.step claimA trivial).step (doneA 100) trivial, fun hkeeps => ?_⟩
    have hdone : (doneStore.tasks.find? (claimBy "a" (plainTask "T1")).key).map (·.state) = some .done := by decide +kernel
    obtain ⟨row, hrow, hstate⟩ := Option.map_eq_some_iff.mp hdone
    have hswept : (((Step.op (.reapExpiredLeases 90000)).apply sqliteEnv doneStore).tasks.find?
        (claimBy "a" (plainTask "T1")).key).map (·.state) = some .stale := by decide +kernel
    have hkept := hkeeps rfl row ⟨Table.find?_key hrow ▸ hrow, hstate⟩ (by simp [Step.claims])
    rw [← Table.find?_key hrow, hkept, Option.map_some, hstate] at hswept
    cases hswept
  · refine ⟨(doneA 95000).apply sqliteEnv ((Step.op (.reapExpiredLeases 90000)).apply sqliteEnv claimedStore),
      ((Reached.init.step claimA trivial).step (.op (.reapExpiredLeases 90000)) trivial).step (doneA 95000) trivial,
      fun hnever => ?_⟩
    have hview : (taskOwnership latestLease (claimBy "a" (plainTask "T1")).key ((doneA 95000).apply sqliteEnv
        ((Step.op (.reapExpiredLeases 90000)).apply sqliteEnv claimedStore))).map
        (fun o => (o.taskState, o.reclaimable)) = some (.done, true) := by decide +kernel
    obtain ⟨o, ho, hpair⟩ := Option.map_eq_some_iff.mp hview
    obtain ⟨hdone, htrue⟩ := Prod.mk.inj hpair
    rw [hnever latestLease latestLease_query _ o ho hdone] at htrue
    cases htrue

end FinishedWork
