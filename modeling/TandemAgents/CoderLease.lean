import TandemAgents.LeaseRelease

/-!
# A coder that is still at work

When the wait for a coder is over and it has not finished, the run is booked as running:
the supervisor is to go on with it, and with its lease. The wrapper gives back the lease
of every run that returns, whatever the supervisor still needs it for.
-/
namespace CoderLease

open KeyedTable PythonText JsonData CoordinationStore Statements Statements.Prog Effects RunStatus RunContext
open LeaseOperations WorkerOperations TaskOperations OperationRuns StoreHistories ReleaseCrash TaskContract TaskIntake
open CoderRun RunOnce LeaseHolding LeaseRelease

set_option maxRecDepth 20000

/-! ## What the supervisor goes on with -/

/-- `_is_coder_execution`, where the blackboard holds the coder run. -/
def isCoderExecution (py : Python) (s : Status) : Bool :=
  ["created", "running"].contains (normalizeStatus py s.run.status) && decide (strip s.phase.name = "coder_execution")

/-- The supervisor's `_touch_coordination` for a coder that is still running, as calls of
the store; it answers with what its heartbeat does. -/
def reconcileBeat (now ttl : Int) (runId : String) : Sql (Option LeaseRow) := do
  let existing ← getRun runId
  let updated ← updateRun now runId { status := some "running", phase := some "coder_execution" }
  match (updated.orElse (fun _ => existing)).bind runLease with
  | some id => heartbeatLease now ttl id
  | none => return none

/-- The run's lease is active, its task has not ended, and a `reconcile_coder_run` at any
time beats the lease. -/
structure Owned (x : RunArgs) (s : Store) : Prop where
  lease : (s.activeLease? x.claim.leaseId).isSome = true
  task : ∀ row ∈ s.tasks.find? x.claim.key, row.state ∉ [.blocked, .done, .stale]
  beat : ∀ now ttl, ∃ l, ((reconcileBeat now ttl x.runId).run s).1 = some (some l) ∧ l.leaseId = x.claim.leaseId

/-- Two stores of the same active leases, task states and leases of runs. -/
structure SameHold (s t : Store) : Prop where
  lease : ∀ id, (t.activeLease? id).isSome = (s.activeLease? id).isSome
  task : ∀ key, (t.tasks.find? key).map (·.state) = (s.tasks.find? key).map (·.state)
  run : ∀ runId, (t.runs.find? runId).bind runLease = (s.runs.find? runId).bind runLease

/-! ## Heartbeats of the supervisor -/

/-- A heartbeat answers with a row when the lease is active. -/
theorem heartbeatLease_answers {now ttl : Int} {id : Ident} {s : Store} :
    (∃ l, ((heartbeatLease now ttl id).run s).1 = some (some l) ∧ l.leaseId = id) ↔ (s.activeLease? id).isSome = true := by
  rw [run_plain (heartbeatLease_plain now ttl id), heartbeatLease, getLease, eff_get_bind]
  cases hrow : s.leases.find? id with
  | none => simp [Store.activeLease?, hrow]
  | some row =>
    obtain rfl : row.leaseId = id := Table.find?_key hrow
    simp only [heartbeatFound, eff_updateCount_bind]
    cases hl : s.activeLease? row.leaseId with
    | none =>
      rw [if_pos (activeLeaseCount_eq_zero.mpr hl)]
      simp
    | some l =>
      rw [if_neg (activeLeaseCount_ne_zero hl)]
      simp [heartbeatTask, getLease, hrow, LeaseRow.beat_leaseId]

theorem runLease_assign {now : Int} {u : RunUpdate} (hu : u.leaseId = none) (r : RunRow) :
    runLease (u.assign now r) = runLease r := by
  simp [runLease, RunUpdate.assign, hu]

/-- The supervisor beats the lease that the run's row names. -/
theorem reconcileBeat_iff {now ttl : Int} {runId : String} {id : Ident} {s : Store} :
    (∃ l, ((reconcileBeat now ttl runId).run s).1 = some (some l) ∧ l.leaseId = id) ↔
      (s.runs.find? runId).bind runLease = some id ∧ (s.activeLease? id).isSome = true := by
  have hplain : (reconcileBeat now ttl runId).Plain := by
    refine (get_plain _).bind fun existing => Plain.bind ?_ fun updated => ?_
    · refine (get_plain _).bind fun row => ?_
      cases row with
      | none => trivial
      | some r => exact (update_plain _ _).bind fun _ => get_plain _
    · cases (updated.orElse fun _ => existing).bind runLease with
      | none => trivial
      | some i => exact heartbeatLease_plain now ttl i
  rw [run_plain hplain, reconcileBeat, getRun, eff_get_bind, eff_bind, updateRun, getRun, eff_get_bind]
  cases hrow : s.runs.find? runId with
  | none => simp
  | some r =>
    have hfind : (s.modifyRun runId (RunUpdate.assign now { status := some "running", phase := some "coder_execution" })
        (RunUpdate.assign_runId now _)).runs.find? runId = some (RunUpdate.assign now
          { status := some "running", phase := some "coder_execution" } r) := by
      simp [Store.modifyRun, hrow]
    simp only [eff_update_bind, eff_get, hfind, Option.orElse_some, Option.bind_some, runLease_assign]
    cases hl : runLease r with
    | none => simp
    | some i =>
      simp only [← run_plain (heartbeatLease_plain now ttl i)]
      constructor
      · rintro ⟨l, hbeat, rfl⟩
        have hid : l.leaseId = i := heartbeatLease_leaseId (Prod.ext hbeat rfl)
        have hactive := heartbeatLease_answers.mp ⟨l, hbeat, hid⟩
        exact ⟨by rw [hid], hid ▸ hactive⟩
      · rintro ⟨he, hactive⟩
        obtain rfl := Option.some.inj he
        exact heartbeatLease_answers.mpr hactive

/-- On the rows of the lease, the task and the run. -/
theorem owned_iff_rows {x : RunArgs} {s : Store} : Owned x s ↔
    (s.activeLease? x.claim.leaseId).isSome = true ∧
      (∀ row ∈ s.tasks.find? x.claim.key, row.state ∉ [.blocked, .done, .stale]) ∧
      (s.runs.find? x.runId).bind runLease = some x.claim.leaseId := by
  constructor
  · intro h
    exact ⟨h.lease, h.task, (reconcileBeat_iff.mp (h.beat 0 0)).1⟩
  · rintro ⟨hlease, htask, hrun⟩
    exact ⟨hlease, htask, fun now ttl => reconcileBeat_iff.mpr ⟨hrun, hlease⟩⟩

/-! ## Steps that leave the hold alone -/

section
variable {s t : Store}

theorem SameHold.refl (s : Store) : SameHold s s := ⟨fun _ => rfl, fun _ => rfl, fun _ => rfl⟩

theorem owned_congr {x : RunArgs} (h : SameHold s t) : Owned x t ↔ Owned x s := by
  have htask : (∀ row ∈ t.tasks.find? x.claim.key, row.state ∉ [.blocked, .done, .stale]) ↔
      ∀ row ∈ s.tasks.find? x.claim.key, row.state ∉ [.blocked, .done, .stale] := by
    have hstate := h.task x.claim.key
    cases ht : t.tasks.find? x.claim.key <;> cases hs : s.tasks.find? x.claim.key <;> simp_all
  rw [owned_iff_rows, owned_iff_rows, h.lease, h.run, htask]

theorem SameHold.updateRun {now : Int} {runId : String} {u : RunUpdate} (hu : u.leaseId = none) (h : SameHold s t) :
    SameHold s (t.modifyRun runId (u.assign now) (u.assign_runId now)) := by
  refine ⟨h.lease, h.task, fun k => ?_⟩
  rw [← h.run k]
  simp only [Store.modifyRun, Table.find?_modify]
  split
  · cases t.runs.find? k with
    | none => rfl
    | some r => exact runLease_assign hu r
  · rfl

theorem SameHold.beatLease {now expires : Int} {id : Ident} (h : SameHold s t) :
    SameHold s (t.modifyLease id (LeaseRow.beat now expires) (LeaseRow.beat_leaseId now expires)) := by
  refine ⟨fun k => ?_, h.task, h.run⟩
  rw [← h.lease k]
  simp only [Store.activeLease?, Store.modifyLease_leases, Table.find?_modify]
  split
  · cases t.leases.find? k with
    | none => rfl
    | some l => by_cases ha : l.status = .active <;> simp [LeaseRow.beat, ha]
  · rfl

theorem SameHold.beatTask {now expires : Int} {key : String} (h : SameHold s t) :
    SameHold s (t.modifyTask key (TaskRow.extendLease now expires) (TaskRow.extendLease_key now expires)) := by
  refine ⟨h.lease, fun k => ?_, h.run⟩
  rw [← h.task k]
  simp only [Store.modifyTask_tasks, Table.find?_modify]
  split
  · cases t.tasks.find? k <;> rfl
  · rfl

theorem each_heartbeatLease {now ttl : Int} {id : Ident} :
    (heartbeatLease now ttl id).Each (Guarantee.keeps (SameHold s)).Respects [] := by
  refine each_get_bind fun t => ?_
  cases t.leases.find? id with
  | none => trivial
  | some row =>
    refine each_updateCount_bind (Guarantee.respects_some fun _ h => h.beatLease) fun u => ?_
    split
    · trivial
    · refine each_update_bind (Guarantee.respects_some fun _ h => h.beatTask) fun _ => ?_
      exact each_update_bind (Guarantee.respects_some fun _ h => ⟨h.lease, h.task, h.run⟩) fun _ => each_get _ _

end

/-! ## Booking a coder that is still at work -/

/-- The change `_apply_non_terminal` makes to the status. -/
def stillRunning (c : CoderArgs) (runId : String) (r : CoderResult) : Changes :=
  { phase := some "coder_execution", runStatus := some "running", blocker := some { active := false }
    phaseDetail := some ("Tandem coder run \x60" ++ coderRunId c.py runId r.coderRun ++ "\x60 is still \x60" ++
      orElse (normalizeStatus c.py r.status) "running" ++ "\x60.") }

/-- The hold is that of `s`, and the status is `v`. -/
structure Waiting (s : Store) (v : Status) (w : World) : Prop where
  hold : SameHold s w.store
  status : w.status = v

/-- The status is on disk too. -/
structure Booked (s : Store) (v : Status) (w : World) : Prop extends Waiting s v w where
  file : w.statusFile = some v

section
variable {s : Store} {v : Status} {α : Type}

theorem hold_updateRun {u : RunUpdate} (hu : u.leaseId = none) (m : Moment) (now : Int) (runId : String) :
    Keeps (fun w => SameHold s w.store) (storeCall m (updateRun now runId u)) :=
  keeps_storeCall_each (each_updateRun fun _ h => h.updateRun hu) m

theorem hold_heartbeat (m : Moment) (now ttl : Int) (id : Ident) :
    Keeps (fun w => SameHold s w.store) (storeCall m (heartbeatLease now ttl id)) :=
  keeps_storeCall_each each_heartbeatLease m

theorem hold_getRun (m : Moment) (runId : String) : Keeps (fun w => SameHold s w.store) (storeCall m (getRun runId)) :=
  keeps_storeCall_each (each_get _ _) m

theorem waiting_storeCall {m : Moment} {p : Sql α} (hp : Keeps (fun w => SameHold s w.store) (storeCall m p)) :
    Keeps (Waiting s v) (storeCall m p) := by
  have hstatus : Keeps (fun w => w.status = v) (storeCall m p) := keeps_storeCall (fun _ _ h => h) m p
  exact (hp.and hstatus).congr fun _ => ⟨fun h => ⟨h.hold, h.status⟩, fun h => ⟨h.1, h.2⟩⟩

theorem booked_storeCall {m : Moment} {p : Sql α} (hp : Keeps (fun w => SameHold s w.store) (storeCall m p)) :
    Keeps (Booked s v) (storeCall m p) := by
  have hfile : Keeps (fun w => w.statusFile = some v) (storeCall m p) := keeps_storeCall (fun _ _ h => h) m p
  exact ((waiting_storeCall hp).and hfile).congr fun _ => ⟨fun h => ⟨h.toWaiting, h.file⟩, fun h => ⟨h.1, h.2⟩⟩

theorem booked_superviseTouch (c : CoderArgs) (runId : String) (ttl : Int) {u : RunUpdate} (hu : u.leaseId = none) :
    Keeps (Booked s v) (superviseTouch c runId ttl u) := by
  refine (booked_storeCall (hold_getRun _ _)).bind fun existing => ?_
  refine (booked_storeCall (hold_updateRun hu _ _ _)).bind fun updated => ?_
  split
  · split
    · exact (booked_storeCall (hold_heartbeat _ _ _ _)).bind fun _ => Keeps.pure updated
    · exact Keeps.pure updated
  · exact Keeps.pure updated

/-- A status that is set and written is the one in memory and on disk. -/
theorem booked_setStatus (m : Moment) (c : Changes) :
    Leads (Waiting s v) (setStatus m c) (fun _ => Booked s (updateStatus m.now c v)) (fun _ _ => True) := by
  have hchange : Leads (Waiting s v) (modify fun w => { w with status := updateStatus m.now c w.status })
      (fun (_ : Unit) => Waiting s (updateStatus m.now c v)) (fun (_ : String) _ => True) :=
    Leads.modify fun w h => ⟨h.hold, by rw [h.status]⟩
  refine hchange.bind fun _ => Leads.get_bind fun w hw => ?_
  rintro _ rfl
  unfold writeStatus
  cases m.fault with
  | none => exact ⟨⟨hw.hold, hw.status⟩, by rw [hw.status]⟩
  | some f => trivial

theorem booked_reloadStatus (m : Moment) : Keeps (Booked s v) (reloadStatus m) := by
  refine (keeps_call m).bind fun _ => Keeps.modify fun w h => ⟨⟨h.hold, ?_⟩, h.file⟩
  simp [h.file]

/-- A result that is not terminal leaves the run running, in memory and on disk, and the
hold as it was. -/
theorem booked_bookResult {c : CoderArgs} {runId : String} {ttl : Int} {r : CoderResult}
    (hr : isTerminal (normalizeStatus c.py r.status) = false) :
    Leads (Waiting s v) (bookResult c runId ttl r)
      (fun _ => Booked s (updateStatus (c.call .superviseStatus).now (stillRunning c runId r) v)) (fun _ _ => True) := by
  have hraise : ∀ {β : Type} {P : World → Prop} {m : Act β}, Keeps P m → Leads P m (fun _ => P) (fun _ _ => True) :=
    fun h => h.leads fun _ _ _ => trivial
  have happly : Leads (Waiting s v) (applyCoderResult c runId ttl r)
      (fun _ => Booked s (updateStatus (c.call .superviseStatus).now (stillRunning c runId r) v)) (fun _ _ => True) := by
    rw [applyCoderResult, if_neg (by simp [hr])]
    refine Leads.bind (hraise (keeps_call _)) fun _ => Leads.bind (booked_setStatus _ _) fun _ => hraise ?_
    refine (booked_superviseTouch c runId ttl rfl).bind fun _ => ?_
    exact (keeps_call _).bind fun _ => keeps_call _
  refine Leads.bind (hraise (waiting_storeCall (hold_updateRun rfl _ _ _))) fun _ => ?_
  refine Leads.bind (hraise (keeps_call _)) fun _ => Leads.bind (hraise (keeps_call _)) fun _ => ?_
  refine Leads.bind (hraise (keeps_call _)) fun _ => happly.bind fun _ => ?_
  exact hraise (booked_reloadStatus _)

end

/-! ## A run whose coder is still at work -/

/-- From the hand-over to the answer of the coder. -/
def untilAnswer (env : Env) (x : RunArgs) (c : CoderArgs) : Act Unit := do
  startRun env x
  runSteps env x.runId x.sync
  startCoder c x.runId x.ttl
  let _ ← storeCall (c.call .loadSpend) (getRun x.runId)
  await env c

/-- The world in which the run gets the answer of its coder. -/
def arrival (env : Env) (x : RunArgs) (c : CoderArgs) (w : World) : Option World :=
  match grant env x w with
  | none => none
  | some (registered, lease, claimed) =>
    match handOver env x registered lease claimed with
    | .ok none named =>
      match untilAnswer env x c named with
      | .ok _ arrived => some arrived
      | .error _ _ => none
    | _ => none

/-- A run that gets a result of its coder which is not terminal, and books it. -/
structure Detached (env : Env) (x : RunArgs) (c : CoderArgs) (r : CoderResult) (w arrived booked : World) : Prop where
  later : x.later = .coder c
  supported : c.supported = true
  inBudget : c.overBudget = none
  answer : executeCoderRun c.py c.answers = .ok r
  running : isTerminal (normalizeStatus c.py r.status) = false
  arrives : arrival env x c w = some arrived
  books : bookResult c x.runId x.ttl r arrived = .ok () booked

/-- The supervisor can go on with the run: the run is its own, and the file says that its
coder is being executed. -/
structure Supervisable (c : CoderArgs) (x : RunArgs) (w : World) : Prop where
  owned : Owned x w.store
  execution : isCoderExecution c.py (w.statusFile.getD {}) = true

section
variable {env : Env} {x : RunArgs} {c : CoderArgs} {r : CoderResult} {w arrived booked : World}

theorem arrival_eq_some (h : arrival env x c w = some arrived) :
    ∃ registered lease claimed named, grant env x w = some (registered, lease, claimed) ∧
      handOver env x registered lease claimed = .ok none named ∧ untilAnswer env x c named = .ok () arrived := by
  unfold arrival at h
  split at h
  · cases h
  · rename_i registered lease claimed hgrant
    split at h
    · rename_i named hhand
      split at h
      · rename_i u arrived' huntil
        obtain rfl := Option.some.inj h
        exact ⟨registered, lease, claimed, named, hgrant, hhand, huntil⟩
      · cases h
    · cases h

/-- The backend returns with the result booked. -/
theorem Detached.later_eq (h : Detached env x c r w arrived booked) {synced coding spent : World}
    {row : Option RunRow}
    (hstart : startCoder c x.runId x.ttl synced = .ok () coding)
    (hspend : storeCall (c.call .loadSpend) (getRun x.runId) coding = .ok row spent)
    (hawait : await env c spent = .ok () arrived) : runLater env x synced = .ok booked.status booked := by
  have hbackend : runCoderBackend env c x.runId x.ttl synced = .ok () booked := by
    rw [runCoderBackend, if_neg (by simp [h.supported]), run_bind_ok hstart, run_bind_ok hspend]
    simp only [h.inBudget]
    rw [run_bind_ok hawait, h.answer]
    exact h.books
  rw [runLater, h.later]
  simp only
  rw [run_bind_ok hbackend]
  rfl

/-- The run ends in the world of the booking, with its status as the result. -/
theorem Detached.ends (h : Detached env x c r w arrived booked) :
    runToEnd env x w = ⟨booked, none, some booked.status, booked.status⟩ := by
  obtain ⟨registered, lease, claimed, named, hgrant, hhand, huntil⟩ := arrival_eq_some h.arrives
  simp only [untilAnswer, bind_eq_ok] at huntil
  obtain ⟨_, started, hstart, _, synced, hsync, _, coding, hcoder, row, spent, hspend, hawait⟩ := huntil
  have himpl : runOnceInternalImpl env x w = .ok booked.status booked := by
    rw [grant_impl hgrant, afterClaim, run_bind_ok hhand]
    simp only
    rw [run_bind_ok hstart, run_bind_ok hsync]
    exact h.later_eq hcoder hspend hawait
  simp only [runToEnd, himpl]

/-- The status of the booking. -/
theorem Detached.booking (h : Detached env x c r w arrived booked) :
    Booked arrived.store (updateStatus (c.call .superviseStatus).now (stillRunning c x.runId r) arrived.status) booked :=
  (booked_bookResult h.running).ok ⟨SameHold.refl _, rfl⟩ h.books

theorem Detached.supervised (h : Detached env x c r w arrived booked) (hrunning : c.py.lower "running" = "running") :
    isCoderExecution c.py (booked.statusFile.getD {}) = true := by
  have hstrip : strip "running" = "running" ∧ strip "coder_execution" = "coder_execution" := by decide
  simp [h.booking.file, isCoderExecution, stillRunning, normalizeStatus, updateStatus, hstrip, hrunning]

/-- A release that stops before its first update changes nothing. -/
theorem finalRelease_unreached (h : ¬ ReleaseReached x) (crashed : Option String) (result : Option Status) :
    (finalRelease env x crashed result w).store = w.store := by
  unfold finalRelease
  split
  · rfl
  · rename_i id _
    simp only [ReleaseReached, not_forall] at h
    obtain ⟨f, hf, hdone⟩ := h
    rw [endState_storeCall, Option.mem_def.mp hf]
    have hcases : f.done = 0 ∨ f.done = 1 := by omega
    rcases hcases with hd | hd <;> simp only [hd] <;> rfl

theorem finalRelease_statusFile (crashed : Option String) (result : Option Status) :
    (finalRelease env x crashed result w).statusFile = w.statusFile := by
  unfold finalRelease
  split
  · rfl
  · have hfile : ∀ p : Sql (Option LeaseRow), Keeps (fun v => v.statusFile = w.statusFile)
        (storeCall (x.call .finalRelease) p) := fun p => keeps_storeCall (fun _ _ h => h) _ p
    exact (hfile _).endState rfl

end

/-- Behind a run whose coder is still at work the supervisor can go on with it exactly
when it could have done so when the coder's answer came, and the release at the end
failed before its first update. -/
theorem detached_supervisable_iff (env : Env) (x : RunArgs) (c : CoderArgs) (r : CoderResult) (s : Store)
    (statusFile : Option Status) (arrived booked : World) (hrunning : c.py.lower "running" = "running")
    (h : Detached env x c r (start s statusFile) arrived booked) :
    Supervisable c x (runOnceInternal env x (start s statusFile)).2 ↔ ¬ ReleaseReached x ∧ Owned x arrived.store := by
  obtain ⟨registered, lease, claimed, named, hgrant, hhand, -⟩ := arrival_eq_some h.arrives
  have hholds : Holds x.claim.leaseId booked := by
    have hend := grant_holds hgrant rfl (handOver_eq_ok.mp hhand).1
    rw [h.ends] at hend
    exact hend
  have hsame : Owned x booked.store ↔ Owned x arrived.store := owned_congr h.booking.hold
  simp only [runOnceInternal, h.ends]
  constructor
  · intro hs
    have hactive := hs.owned.lease
    have hreached : ¬ ReleaseReached x := by
      intro hr
      rw [(finalRelease_ends_iff hholds _ _).mpr (.inl hr)] at hactive
      cases hactive
    have howned := hs.owned
    rw [finalRelease_unreached hreached] at howned
    exact ⟨hreached, hsame.mp howned⟩
  · rintro ⟨hreached, howned⟩
    refine ⟨?_, ?_⟩
    · rw [finalRelease_unreached hreached]
      exact hsame.mpr howned
    · rw [finalRelease_statusFile]
      exact h.supervised hrunning

/-! ## A coder that is running when the wait is over -/

/-- Python on texts of ASCII letters. -/
def asciiPython : Python where
  lower := sqliteEnv.lower
  repr := fun _ => ""
  lower_empty := rfl

/-- The engine starts the coder run and says at the one poll that it is running. -/
def patientCoder : CoderArgs where
  py := asciiPython
  answers := { execute := .ok { run := [("status", .str "queued")] }
               polls := [.ok { run := [("status", .str "running")], coderRun := [("id", .str "coder-1")] }] }

/-- A task of a GitHub project with a linked issue. -/
def issueTask : Task :=
  { taskId := "T1", title := some "Fix the build",
    source := { type := "github_project", owner := "acme", project := "P", issueNumber := "7" } }

def patientRun : RunArgs where
  claim := claimBy "a" issueTask
  drawn := by decide +kernel
  later := .coder patientCoder

/-- The same run whose database is locked at the last release. -/
def lockedRun : RunArgs :=
  { patientRun with call := fun site => if site = .finalRelease then { fault := some ⟨"database is locked", 0⟩ } else {} }

/-- What the patient coder's run gets. -/
def patientResult : CoderResult where
  coderRun := [("id", .str "coder-1")]
  run := [("status", .str "running")]
  artifacts := []
  status := "running"
  phase := ""
  lastError := "Coder run did not reach a terminal state within 3600s; Tandem may still be executing it in the background."
  monitorTimeout := true

theorem patientCoder_answer : executeCoderRun patientCoder.py patientCoder.answers = .ok patientResult := by
  rfl

/-- A run of the patient coder gets its answer and books it; what is asked here of the
world in which it comes is evaluated. -/
theorem patient_detached {x : RunArgs} {s : Store} (hlater : x.later = .coder patientCoder)
    (h : (arrival sqliteEnv x patientCoder (start s none)).any (fun a =>
      isOk (bookResult patientCoder x.runId x.ttl patientResult a) &&
        (a.store.activeLease? x.claim.leaseId).isSome &&
        (a.store.tasks.find? x.claim.key).all (fun row => decide (row.state ∉ [.blocked, .done, .stale])) &&
        decide ((a.store.runs.find? x.runId).bind runLease = some x.claim.leaseId)) = true) :
    ∃ arrived booked, Detached sqliteEnv x patientCoder patientResult (start s none) arrived booked ∧
      Owned x arrived.store := by
  obtain ⟨arrived, harrives, hall⟩ := (Option.any_eq_true _ _).mp h
  simp only [Bool.and_eq_true, decide_eq_true_eq] at hall
  obtain ⟨⟨⟨hok, hlease⟩, htask⟩, hrun⟩ := hall
  obtain ⟨_, booked, hbooks⟩ := isOk_iff.mp hok
  refine ⟨arrived, booked, ⟨hlater, rfl, rfl, patientCoder_answer, by decide +kernel, harrives, hbooks⟩, ?_⟩
  refine owned_iff_rows.mpr ⟨hlease, fun row hrow => ?_, hrun⟩
  rw [Option.mem_def.mp hrow] at htask
  simpa using htask

/-- The wait is over, the coder is at work, and the lease goes back with its task blocked. -/
theorem patientRun_loses_lease : (∃ arrived booked,
      Detached sqliteEnv patientRun patientCoder patientResult (start Store.empty none) arrived booked ∧
        Owned patientRun arrived.store) ∧
    (runOnceInternal sqliteEnv patientRun (start Store.empty none)).2.store.activeLease? (Ident.of "lease-a") = none ∧
    ((runOnceInternal sqliteEnv patientRun (start Store.empty none)).2.store.tasks.find? patientRun.claim.key).map
      (·.state) = some .blocked := by
  refine ⟨patient_detached rfl (by decide +kernel), ?_, by decide +kernel⟩
  rw [← Option.isNone_iff_eq_none]
  decide +kernel

theorem lockedRun_supervisable :
    Supervisable patientCoder lockedRun (runOnceInternal sqliteEnv lockedRun (start Store.empty none)).2 := by
  obtain ⟨arrived, booked, hdetached, howned⟩ := patient_detached (x := lockedRun) (s := Store.empty) rfl (by decide +kernel)
  refine (detached_supervisable_iff sqliteEnv lockedRun patientCoder patientResult Store.empty none arrived booked
    (by decide +kernel) hdetached).mpr ⟨?_, howned⟩
  intro hreached
  have hdone : 2 ≤ 0 := hreached ⟨"database is locked", 0⟩ rfl
  omega

end CoderLease
