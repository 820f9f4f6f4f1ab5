import TandemAgents.CoderLease
import TandemAgents.LeaseEffects
import TandemAgents.Outbox

/-!
# The outcome of a coder

`_apply_terminal` books a finished coder in several stores, one write after the other: the
status file, the run, the task, its lease and the entries for the remote. A supervisor
takes up a run again only while its status file says that the coder is being executed.
-/
namespace TerminalOutcome

open KeyedTable PythonText JsonData CoordinationStore Statements Statements.Prog Effects RunStatus RunContext
open LeaseOperations WorkerOperations TaskOperations OperationRuns StoreHistories CoderRun LeaseHolding LeaseRelease
open CoderLease Outbox TaskContract TaskIntake

set_option maxRecDepth 20000

/-! ## The parts of the booking -/

/-- `tandem_status == "completed"`. -/
def isCompleted (py : Python) (r : CoderResult) : Bool := decide (normalizeStatus py r.status = "completed")

/-- `phase_detail`. -/
def outcomeDetail (py : Python) (r : CoderResult) : String :=
  let tandemStatus := normalizeStatus py r.status
  if tandemStatus = "completed" then "coder workflow completed"
  else orElse r.lastError ("Coder workflow stopped with status \x60" ++ orElse tandemStatus "unknown" ++ "\x60")

/-- What `_apply_terminal` writes to the status. -/
def outcomeChanges (py : Python) (r : CoderResult) : Changes :=
  let tandemStatus := normalizeStatus py r.status
  { phase := some (if tandemStatus = "completed" then "handoff" else "coder_execution")
    phaseDetail := some (outcomeDetail py r)
    runStatus := some (terminalRelease tandemStatus).text
    blocker := if tandemStatus = "completed" then some { active := false }
      else some { active := true, kind := "coder", message := outcomeDetail py r, ownerRole := "manager" }
    runCompleted := true }

/-- What it writes to the run's row. -/
def outcomeUpdate (py : Python) (r : CoderResult) : RunUpdate :=
  let tandemStatus := normalizeStatus py r.status
  { status := some (terminalRelease tandemStatus).text
    phase := some (if tandemStatus = "completed" then "handoff" else "coder_execution")
    error := if tandemStatus = "completed" then none else some (outcomeDetail py r)
    completed := true }

/-- The state it gives the task. -/
def outcomeState (py : Python) (r : CoderResult) : TaskState := if isCompleted py r then .done else .blocked

/-- `mark_task_done` or `mark_task_blocked`. -/
def markOutcome (py : Python) (now : Int) (key : String) (me : RunIdentity) (r : CoderResult) : Sql (Option TaskRow) :=
  if normalizeStatus py r.status = "completed" then markTaskDone now key me (some "coder workflow completed")
  else markTaskBlocked now key me (some (outcomeDetail py r))

/-- The task and its lease. -/
def settleClaim (c : CoderArgs) (runId : String) (r : CoderResult) (run : Option RunRow) : Act Unit := do
  let context := coordinationContext (← get).status run
  let key := strip (context.taskKey.getD "")
  let me : RunIdentity := ⟨runId, present context.leaseId, present context.workerId, present context.hostId⟩
  if key ≠ "" then
    let m := c.call .superviseMark
    let _ ← storeCall m (markOutcome c.py m.now key me r)
  if let some id := present context.leaseId then
    let m := c.call .superviseRelease
    let _ ← storeCall m
      (releaseLease m.now id (terminalRelease (normalizeStatus c.py r.status)) (some (outcomeDetail c.py r)))

/-- `_apply_terminal` before its entries for the remote. -/
def bookOutcome (c : CoderArgs) (runId : String) (ttl : Int) (r : CoderResult) : Act Unit := do
  call (c.call .superviseBlackboard)
  setStatus (c.call .superviseStatus) (outcomeChanges c.py r)
  call (c.call .superviseSummary)
  let run ← superviseTouch c runId ttl (outcomeUpdate c.py r)
  settleClaim c runId r run

/-! ## The entries for the remote -/

/-- What the configuration says of the task's source: its type, how far the remote is
kept in step and in which scope; and the task's id with the payloads of the entries. -/
structure Remote where
  sourceType : String
  remoteSync : String
  scope : String
  taskId : String
  payload : String → String → String

/-- An entry of the finalization. -/
def finalizeEntry (x : Remote) (runId outcome kind dedupe : String) : Message where
  kind := kind
  aggregateType := "task"
  aggregateId := orElse x.taskId runId
  payload := x.payload kind outcome
  dedupeKey := some (runId ++ dedupe)

/-- `_enqueue_linear_finalize`. -/
def linearFinalize (x : Remote) (runId outcome : String) : List Message :=
  if x.remoteSync = "off" ∨ x.scope ∉ ["intake_finalize", "always"] then []
  else
    finalizeEntry x runId outcome "linear_issue.status_update" ":linear:finalize-status" ::
      if outcome ≠ "completed" ∧ x.remoteSync ∈ ["status_comment", "rich"] then
        [finalizeEntry x runId outcome "linear_issue.comment" ":linear:finalize-comment"]
      else []

/-- `_enqueue_github_finalize`. -/
def githubFinalize (x : Remote) (runId outcome : String) : List Message :=
  if x.remoteSync = "off" ∨ x.scope ∉ ["intake_finalize", "always"] then []
  else
    finalizeEntry x runId outcome "github_project.status_update" ":github:finalize-status" ::
      if x.remoteSync = "status_comment" then
        [finalizeEntry x runId outcome "github_issue.comment" ":github:finalize-comment"]
      else []

/-- The entries of an outcome, in the order in which they are enqueued. -/
def finalizeEntries (py : Python) (x : Remote) (runId : String) (r : CoderResult) : List Message :=
  let outcome := if isCompleted py r then "completed" else "blocked"
  if x.sourceType = "linear" then linearFinalize x runId outcome else githubFinalize x runId outcome

/-! ## Attempts of the supervisor -/

/-- What outlives a supervisor: the store, the run's status file, whether its blackboard
names the coder, and the outbox with the dedupe keys enqueued so far. -/
structure Host where
  store : Store
  statusFile : Option Status
  coderBacked : Bool
  outbox : OutboxTable
  enqueued : List (Option String) := []

abbrev HostAct := EStateM String Host

/-- The world of a supervisor that has just loaded the status. -/
def Host.world (h : Host) : World := { store := h.store, status := h.statusFile.getD {}, statusFile := h.statusFile }

/-- A step on the store and the status file. -/
def onWorld (a : Act Unit) : HostAct Unit := fun h =>
  match a h.world with
  | .ok _ w => .ok () { h with store := w.store, statusFile := w.statusFile }
  | .error e w => .error e { h with store := w.store, statusFile := w.statusFile }

/-- The id the database draws: rows are never deleted. -/
def drawId (s : OutboxTable) : Nat := (s.rows.map (·.id)).foldr max 0 + 1

/-- `enqueue_outbox`. -/
def enqueue (m : Moment) (x : Message) : HostAct Unit := fun h =>
  let p := enqueueOutbox m.now (drawId h.outbox) x
  match m.fault with
  | some f => .error f.text
      { h with
        outbox := crash f.done p ⟨h.outbox, none⟩
        enqueued := if f.done = 0 then h.enqueued else h.enqueued ++ [x.dedupeKey] }
  | none =>
    match p.run h.outbox with
    | (some _, s) => .ok () { h with outbox := s, enqueued := h.enqueued ++ [x.dedupeKey] }
    | (none, s) => .error "IntegrityError" { h with outbox := s }

/-- The entries of an outcome, one after the other. -/
def enqueueAll (call : Nat → Moment) : Nat → List Message → HostAct Unit
  | _, [] => pure ()
  | i, x :: entries => do
    enqueue (call i) x
    enqueueAll call (i + 1) entries

/-- What an attempt to book the outcome meets: what raises before the engine's answer is
there, and the moments of its steps. -/
structure Attempt where
  before : Option String := none
  call : CoderSite → Moment := fun _ => {}
  enqueue : Nat → Moment := fun _ => {}

abbrev Attempt.args (py : Python) (a : Attempt) : CoderArgs := { py := py, answers := {}, call := a.call }

/-- The run, and what the engine answers about its coder. -/
structure Supervised where
  py : Python
  remote : Remote
  runId : String
  ttl : Int
  result : CoderResult

namespace Supervised

variable (x : Supervised)

def entries : List Message := finalizeEntries x.py x.remote x.runId x.result

/-- `_apply_terminal`. -/
def applyOutcome (a : Attempt) : HostAct Unit := do
  onWorld (bookOutcome (a.args x.py) x.runId x.ttl x.result)
  enqueueAll a.enqueue 0 x.entries
  onWorld (call (a.call .superviseEvent))

/-- `reconcile_coder_run` of an active run, once the engine has answered. -/
def reconcile (a : Attempt) : HostAct Unit :=
  match a.before with
  | some text => throw text
  | none =>
    if isTerminal (normalizeStatus x.py x.result.status) then x.applyOutcome a
    else onWorld (applyNonTerminal (a.args x.py) x.runId x.ttl x.result)

/-- The file and the blackboard say that the coder is being executed. -/
def Eligible (h : Host) : Prop :=
  (isCoderExecution x.py (h.statusFile.getD {}) && h.coderBacked) = true

instance (h : Host) : Decidable (x.Eligible h) := inferInstanceAs (Decidable (_ = true))

/-- A tick of the supervisor: whatever becomes of the attempt, what it wrote stays. A run
that is not eligible is skipped; a coder's run has no pull request of its own to look at. -/
def tick (h : Host) (a : Attempt) : Host := if x.Eligible h then endState (x.reconcile a h) else h

end Supervised

/-! ## What is to hold in the end -/

/-- The attempt replaces the status file, whether it goes on or not. -/
def Attempt.marks (a : Attempt) : Bool :=
  a.before.isNone && (a.call .superviseBlackboard).fault.isNone &&
    (a.call .superviseStatus).fault.all (fun f => decide (f.done ≠ 0))

/-- The attempt comes to its release of the lease. -/
def Attempt.settles (a : Attempt) : Bool :=
  [CoderSite.superviseStatus, .superviseSummary, .superviseRead, .superviseRun, .superviseMark].all
    (fun site => (a.call site).fault.isNone)

/-- All entries are written; behind the last of them the attempt may stop. -/
def writesAll (call : Nat → Moment) : Nat → List Message → Bool
  | _, [] => true
  | i, [_] => (call i).fault.all (fun f => decide (1 ≤ f.done))
  | i, _ :: x :: entries => (call i).fault.isNone && writesAll call (i + 1) (x :: entries)

/-- The attempt writes all it has to write: the lease is closed by the second statement
of its release. -/
def Attempt.completes (entries : List Message) (a : Attempt) : Bool :=
  a.settles &&
    if entries = [] then (a.call .superviseRelease).fault.all (fun f => decide (2 ≤ f.done))
    else (a.call .superviseRelease).fault.isNone && writesAll a.enqueue 0 entries

/-- The first attempt that replaces the status file gets through. -/
def firstMarkCompletes (entries : List Message) (attempts : List Attempt) : Prop :=
  (attempts.find? Attempt.marks).any (Attempt.completes entries) = true

instance (entries : List Message) (attempts : List Attempt) : Decidable (firstMarkCompletes entries attempts) :=
  inferInstanceAs (Decidable (_ = true))

namespace Supervised

variable (x : Supervised)

/-- The coder is being executed for a task that is the run's own. -/
structure Awaiting (key : String) (id : Ident) (h : Host) : Prop where
  eligible : x.Eligible h
  keyed : strip ((coordinationContext (h.statusFile.getD {}) (h.store.runs.find? x.runId)).taskKey.getD "") = key
  named : key ≠ ""
  lease : present (coordinationContext (h.statusFile.getD {}) (h.store.runs.find? x.runId)).leaseId = some id
  task : (h.store.tasks.find? key).isSome = true
  active : (h.store.activeLease? id).isSome = true
  fresh : ∀ m ∈ x.entries, h.enqueued.count m.dedupeKey = 0

/-- The outcome has reached the task, the lease and the remote's entries. -/
structure Applied (key : String) (id : Ident) (h : Host) : Prop where
  task : ∃ row, h.store.tasks.find? key = some row ∧ row.state = outcomeState x.py x.result
  lease : h.store.activeLease? id = none
  entries : ∀ m ∈ x.entries, h.enqueued.count m.dedupeKey = 1 ∧ ∃ row ∈ h.outbox.rows, row.dedupeKey = m.dedupeKey

end Supervised

/-! ## Calls that return and calls that do not -/

section
variable {α : Type} {m : Moment} {w : World}

theorem call_none (h : m.fault = none) : call m w = .ok () w := by
  simp only [call, h]
  rfl

theorem call_some {f : Fault} (h : m.fault = some f) : call m w = .error f.text w := by
  simp only [call, h]
  rfl

theorem storeCall_some {f : Fault} (p : Sql α) (h : m.fault = some f) :
    storeCall m p w = .error f.text { w with store := crash f.done p ⟨w.store, none⟩ } := by
  simp only [storeCall, h]

theorem storeCall_none {p : Sql α} {a : α} {s : Store} (h : m.fault = none) (hp : p.run w.store = (some a, s)) :
    storeCall m p w = .ok a { w with store := s } := by
  simp only [storeCall, h, hp]

end

/-- The write that `set_status` ends with. -/
theorem setStatus_eq (m : Moment) (c : Changes) (w : World) :
    setStatus m c w = writeStatus m (updateStatus m.now c w.status) { w with status := updateStatus m.now c w.status } := rfl

/-! ## Up to the lease -/

theorem run_updateRun (now : Int) (runId : String) (u : RunUpdate) (s : Store) :
    ∃ t, (updateRun now runId u).run s = (some ((s.runs.find? runId).map (u.assign now)), t) ∧
      t.tasks = s.tasks ∧ t.leases = s.leases := by
  have hplain : (updateRun now runId u).Plain := by
    refine (get_plain _).bind fun row => ?_
    cases row with
    | none => trivial
    | some r => exact (update_plain _ _).bind fun _ => get_plain _
  rw [run_plain hplain, updateRun, getRun, eff_get_bind]
  cases hrow : s.runs.find? runId with
  | none => exact ⟨s, rfl, rfl, rfl⟩
  | some r =>
    refine ⟨s.modifyRun runId (u.assign now) (u.assign_runId now), ?_, rfl, rfl⟩
    simp [Store.modifyRun, hrow]

theorem each_markOutcome {I : Store → Prop} {py : Python} {now : Int} {key : String} {me : RunIdentity} {r : CoderResult}
    (hI : ∀ s t : Store, t.leases = s.leases → I s → I t) :
    (markOutcome py now key me r).Each (Guarantee.keeps I).Respects [] := by
  have htransition : ∀ (state : TaskState) (a : Transition), a.clearClaim = false →
      (transitionTaskState now key state a).Each (Guarantee.keeps I).Respects [] := fun state a ha =>
    (LeaseEffects.each_applyTaskState
      (fun _ _ hf => Guarantee.respects_some fun s hs => hI s _ (hf s) hs) (fun hc => by simp [ha] at hc)).bind
      fun _ _ _ => each_get _ _
  unfold markOutcome
  split
  · exact htransition _ _ rfl
  · exact htransition _ _ rfl

theorem applyStore_state {key : String} (state : TaskState) (now : Int) {a : Transition} {s : Store} {row : TaskRow}
    (hm : a.metadata = none) (hc : a.clearClaim = false) (hrow : s.tasks.find? key = some row) :
    ∃ new, (applyStore key state now a s).tasks.find? key = some new ∧ new.state = state := by
  have hown : (assignState now state a (a.metadataOf row) row).state = state := assignState_own hm now state
  have htouch : ∀ r : TaskRow, (TaskRow.touch now r).state = r.state := fun _ => rfl
  simp only [applyStore, hrow, hc, Bool.false_eq_true, if_false, touchStore]
  split
  · exact ⟨TaskRow.touch now (assignState now state a (a.metadataOf row) row), by simp [hrow], (htouch _).trans hown⟩
  · exact ⟨_, by simp [hrow], hown⟩

/-- The transition that books an outcome. -/
theorem run_markOutcome (py : Python) (now : Int) {key : String} (me : RunIdentity) (r : CoderResult) {s : Store}
    (hrow : (s.tasks.find? key).isSome = true) :
    ∃ a t, (markOutcome py now key me r).run s = (some a, t) ∧ t.leases = s.leases ∧
      ∃ row, t.tasks.find? key = some row ∧ row.state = outcomeState py r := by
  obtain ⟨row, hrow⟩ := Option.isSome_iff_exists.mp hrow
  have hmark : ∀ (state : TaskState) (a : Transition), a.metadata = none → a.clearClaim = false →
      ∃ v t, (transitionTaskState now key state a).run s = (some v, t) ∧ t.leases = s.leases ∧
        ∃ new, t.tasks.find? key = some new ∧ new.state = state := by
    intro state a hm hc
    have hplain : (transitionTaskState now key state a).Plain :=
      (applyTaskState_plain key state now a).bind fun _ => get_plain _
    have hfirst : ∃ v, ((transitionTaskState now key state a).run s).1 = some v := by
      rw [run_plain hplain, transitionTaskState, eff_bind, eff_applyTaskState]
      exact ⟨_, rfl⟩
    obtain ⟨v, hv⟩ := hfirst
    exact ⟨v, _, Prod.ext hv (run_transitionTaskState now key state a s), applyStore_leases hc s,
      applyStore_state state now hm hc hrow⟩
  unfold markOutcome outcomeState isCompleted
  by_cases hcompleted : normalizeStatus py r.status = "completed"
  · simpa [hcompleted, markTaskDone, markTask] using hmark .done _ rfl rfl
  · simpa [hcompleted, markTaskBlocked, markTask] using hmark .blocked _ rfl rfl

/-- A release is never refused. -/
theorem run_releaseLease_some (now : Int) (id : Ident) (status : ReleaseStatus) (reason : Option String) (s : Store) :
    ∃ a, ((releaseLease now id status reason).run s).1 = some a := by
  rw [run_plain (releaseLease_plain now id status reason), releaseLease, getLease, eff_get_bind]
  cases s.leases.find? id with
  | none => exact ⟨_, rfl⟩
  | some row =>
    simp only [eff_updateCount_bind]
    by_cases hcount : activeLeaseCount id s = 0
    · rw [if_pos hcount]
      exact ⟨_, rfl⟩
    · rw [if_neg hcount]
      exact ⟨_, rfl⟩

/-- Whatever comes of a release, a task in the state it leads to stays in it. -/
theorem each_releaseLease {key : String} {now : Int} {id : Ident} {status : ReleaseStatus} {reason : Option String} :
    (releaseLease now id status reason).Each (Guarantee.keeps fun s : Store =>
      ∃ row, s.tasks.find? key = some row ∧ row.state = taskStateFromLeaseStatus status).Respects [] := by
  refine each_get_bind fun s => ?_
  cases s.leases.find? id with
  | none => trivial
  | some l =>
    refine each_updateCount_bind (Guarantee.respects_some fun _ h => h) fun t => ?_
    split
    · exact each_get _ _
    · refine each_update_bind (Guarantee.respects_some fun u h => ?_) fun _ => ?_
      · obtain ⟨row, hrow, hstate⟩ := h
        by_cases hk : key = l.taskKey
        · exact ⟨TaskRow.clearClaimForLease id now (taskStateFromLeaseStatus status) (taskStateFromLeaseStatus status).text
            row, by simp [← hk, hrow], TaskRow.clearClaimForLease_state _ _ _ _ _⟩
        · exact ⟨row, by simp [hk, hrow], hstate⟩
      · exact each_update_bind (Guarantee.respects_some fun _ h => h) fun _ => each_get _ _

/-! ## Where an attempt may stop -/

theorem coordinationContext_assign {u : RunUpdate} (hu : u.leaseId = none) (now : Int) (s : Status) (run : Option RunRow) :
    coordinationContext s (run.map (u.assign now)) = coordinationContext s run := by
  cases run with
  | none => rfl
  | some row =>
    simp only [coordinationContext, Option.map_some, Option.bind_some, runLease_assign hu]
    rfl

theorem release_text_ne (tandemStatus : String) : (terminalRelease tandemStatus).text ≠ "running" := by
  unfold terminalRelease
  split
  · decide
  · split <;> decide

section
variable (c : CoderArgs) (runId : String) (ttl : Int) (r : CoderResult) (w : World)

/-- The run's row is booked, or the leases are as they were. -/
theorem superviseTouch_cases :
    ((c.call .superviseRead).fault = none ∧ (c.call .superviseRun).fault = none ∧
      ∃ t, superviseTouch c runId ttl (outcomeUpdate c.py r) w =
          .ok ((w.store.runs.find? runId).map ((outcomeUpdate c.py r).assign (c.call .superviseRun).now))
            { w with store := t } ∧
        t.tasks = w.store.tasks ∧ t.leases = w.store.leases) ∨
    (((c.call .superviseRead).fault.isNone && (c.call .superviseRun).fault.isNone) = false ∧
      ∃ e t, superviseTouch c runId ttl (outcomeUpdate c.py r) w = .error e { w with store := t } ∧
        t.leases = w.store.leases) := by
  unfold superviseTouch
  cases hread : (c.call .superviseRead).fault with
  | some f =>
    refine .inr ⟨rfl, f.text, w.store, ?_, rfl⟩
    rw [run_bind_error (storeCall_some (getRun runId) hread), getRun, crash_get]
  | none =>
    have hget : storeCall (c.call .superviseRead) (getRun runId) w = .ok (w.store.runs.find? runId) w :=
      storeCall_none hread rfl
    rw [run_bind_ok hget]
    cases hrun : (c.call .superviseRun).fault with
    | some f =>
      refine .inr ⟨rfl, f.text, _, run_bind_error (storeCall_some _ hrun), ?_⟩
      exact (each_updateRun (I := fun s => s.leases = w.store.leases) fun _ h => h).crash f.done rfl rfl
    | none =>
      obtain ⟨t, hupdate, htasks, hleases⟩ :=
        run_updateRun (c.call .superviseRun).now runId (outcomeUpdate c.py r) w.store
      refine .inl ⟨rfl, rfl, t, ?_, htasks, hleases⟩
      rw [run_bind_ok (storeCall_none hrun hupdate)]
      have hstatus : (outcomeUpdate c.py r).status ≠ some "running" := by
        simpa [outcomeUpdate] using release_text_ne _
      generalize Option.bind _ runLease = lease
      cases lease with
      | none => rfl
      | some id =>
        simp only [if_neg hstatus]
        rfl

/-- The task is booked and its lease is next, or the leases are as they were. -/
theorem settleClaim_cases {run : Option RunRow} {key : String} {id : Ident}
    (hkey : strip ((coordinationContext w.status run).taskKey.getD "") = key) (hnamed : key ≠ "")
    (hlease : present (coordinationContext w.status run).leaseId = some id)
    (htask : (w.store.tasks.find? key).isSome = true) :
    ((c.call .superviseMark).fault = none ∧
      ∃ t, settleClaim c runId r run w = (do
            let _ ← storeCall (c.call .superviseRelease) (releaseLease (c.call .superviseRelease).now id
              (terminalRelease (normalizeStatus c.py r.status)) (some (outcomeDetail c.py r)))
            pure ()) { w with store := t } ∧
        t.leases = w.store.leases ∧ ∃ row, t.tasks.find? key = some row ∧ row.state = outcomeState c.py r) ∨
    ((c.call .superviseMark).fault.isNone = false ∧
      ∃ e t, settleClaim c runId r run w = .error e { w with store := t } ∧ t.leases = w.store.leases) := by
  have hget : (get : Act World) w = .ok w w := rfl
  unfold settleClaim
  rw [run_bind_ok hget]
  simp only [hkey, hnamed, hlease, ne_eq, not_false_eq_true, if_true]
  cases hmark : (c.call .superviseMark).fault with
  | some f =>
    refine .inr ⟨rfl, f.text, _, run_bind_error (storeCall_some _ hmark), ?_⟩
    exact (each_markOutcome (I := fun s => s.leases = w.store.leases) fun _ _ h hs => h.trans hs).crash f.done rfl rfl
  | none =>
    obtain ⟨a, t, hrun, hleases, hstate⟩ := run_markOutcome c.py (c.call .superviseMark).now
      ⟨runId, some id, present (coordinationContext w.status run).workerId,
        present (coordinationContext w.status run).hostId⟩ r htask
    exact .inl ⟨rfl, t, run_bind_ok (storeCall_none hmark hrun), hleases, hstate⟩

/-- Both together: the release is next, or the leases are as they were. -/
theorem settle_cases {key : String} {id : Ident}
    (hkey : strip ((coordinationContext w.status (w.store.runs.find? runId)).taskKey.getD "") = key) (hnamed : key ≠ "")
    (hlease : present (coordinationContext w.status (w.store.runs.find? runId)).leaseId = some id)
    (htask : (w.store.tasks.find? key).isSome = true) :
    ([CoderSite.superviseRead, .superviseRun, .superviseMark].all (fun site => (c.call site).fault.isNone) = true ∧
      ∃ t, (superviseTouch c runId ttl (outcomeUpdate c.py r) >>= settleClaim c runId r) w = (do
            let _ ← storeCall (c.call .superviseRelease) (releaseLease (c.call .superviseRelease).now id
              (terminalRelease (normalizeStatus c.py r.status)) (some (outcomeDetail c.py r)))
            pure ()) { w with store := t } ∧
        t.leases = w.store.leases ∧ ∃ row, t.tasks.find? key = some row ∧ row.state = outcomeState c.py r) ∨
    ([CoderSite.superviseRead, .superviseRun, .superviseMark].all (fun site => (c.call site).fault.isNone) = false ∧
      ∃ e t, (superviseTouch c runId ttl (outcomeUpdate c.py r) >>= settleClaim c runId r) w =
          .error e { w with store := t } ∧ t.leases = w.store.leases) := by
  rcases superviseTouch_cases c runId ttl r w with ⟨hread, hrun, t, htouch, htasks, hleases⟩ | ⟨hstop, e, t, htouch, hleases⟩
  · rw [run_bind_ok htouch]
    have hcontext := coordinationContext_assign (u := outcomeUpdate c.py r) rfl (c.call .superviseRun).now w.status
      (w.store.runs.find? runId)
    rcases settleClaim_cases c runId r { w with store := t } (hcontext ▸ hkey) hnamed (hcontext ▸ hlease)
      (htasks ▸ htask) with ⟨hmark, u, hsettle, hkept, hstate⟩ | ⟨hmark, e, u, hsettle, hkept⟩
    · exact .inl ⟨by simp [hread, hrun, hmark], u, hsettle, hkept.trans hleases, hstate⟩
    · exact .inr ⟨by simp [hmark], e, u, hsettle, hkept.trans hleases⟩
  · refine .inr ⟨?_, e, t, run_bind_error htouch, hleases⟩
    simp only [List.all_cons, List.all_nil, Bool.and_true, ← Bool.and_assoc, hstop, Bool.false_and]

end

section
variable (py : Python) {a : Attempt} (runId : String) {key : String} {id : Ident} (ttl : Int) {r : CoderResult} {w : World}

/-- The status an attempt writes. -/
def bookedStatus (py : Python) (a : Attempt) (r : CoderResult) (s : Status) : Status :=
  updateStatus (a.call .superviseStatus).now (outcomeChanges py r) s

/-- An attempt that does not replace the status file leaves all as it was. -/
theorem bookOutcome_unmarked (hbefore : a.before = none) (h : a.marks = false) :
    ∃ e t, bookOutcome (a.args py) runId ttl r w = .error e t ∧ t.store = w.store ∧ t.statusFile = w.statusFile := by
  cases hboard : (a.call .superviseBlackboard).fault with
  | some f => exact ⟨f.text, w, run_bind_error (call_some hboard), rfl, rfl⟩
  | none =>
    cases hstatus : (a.call .superviseStatus).fault with
    | none => simp [Attempt.marks, hbefore, hboard, hstatus] at h
    | some f =>
      have hdone : f.done = 0 := by simpa [Attempt.marks, hbefore, hboard, hstatus] using h
      refine ⟨f.text, { w with status := bookedStatus py a r w.status }, ?_, rfl, rfl⟩
      refine (run_bind_ok (call_none hboard)).trans (run_bind_error ?_)
      rw [setStatus_eq, writeStatus, Attempt.args]
      simp only [hstatus, hdone, if_true]
      rfl

/-- An attempt that replaces the status file comes to its release with the task booked,
or stops with the leases as they were. -/
theorem bookOutcome_marked (h : a.marks = true)
    (hkey : strip ((coordinationContext w.status (w.store.runs.find? runId)).taskKey.getD "") = key) (hnamed : key ≠ "")
    (hlease : present (coordinationContext w.status (w.store.runs.find? runId)).leaseId = some id)
    (htask : (w.store.tasks.find? key).isSome = true) :
    (a.settles = true ∧
      ∃ t, t.statusFile = some (bookedStatus py a r w.status) ∧ t.store.leases = w.store.leases ∧
        (∃ row, t.store.tasks.find? key = some row ∧ row.state = outcomeState py r) ∧
        bookOutcome (a.args py) runId ttl r w = (do
          let _ ← storeCall (a.call .superviseRelease) (releaseLease (a.call .superviseRelease).now id
            (terminalRelease (normalizeStatus py r.status)) (some (outcomeDetail py r)))
          pure ()) t) ∨
    (a.settles = false ∧
      ∃ e t, bookOutcome (a.args py) runId ttl r w = .error e t ∧
        t.statusFile = some (bookedStatus py a r w.status) ∧ t.store.leases = w.store.leases) := by
  simp only [Attempt.marks, Bool.and_eq_true, Option.isNone_iff_eq_none] at h
  obtain ⟨⟨-, hboard⟩, hwritten⟩ := h
  have hbook : bookOutcome (a.args py) runId ttl r w = (do
      setStatus (a.call .superviseStatus) (outcomeChanges py r)
      call (a.call .superviseSummary)
      let run ← superviseTouch (a.args py) runId ttl (outcomeUpdate py r)
      settleClaim (a.args py) runId r run) w := run_bind_ok (call_none hboard)
  rw [hbook]
  let booked : World :=
    { w with status := bookedStatus py a r w.status, statusFile := some (bookedStatus py a r w.status) }
  cases hstatus : (a.call .superviseStatus).fault with
  | some f =>
    have hdone : f.done ≠ 0 := by simpa [hstatus] using hwritten
    refine .inr ⟨by simp [Attempt.settles, hstatus], f.text, booked, run_bind_error ?_, rfl, rfl⟩
    rw [setStatus_eq, writeStatus]
    simp only [hstatus, if_neg hdone]
    rfl
  | none =>
    have hset : setStatus (a.call .superviseStatus) (outcomeChanges py r) w = .ok () booked := by
      rw [setStatus_eq, writeStatus, hstatus]
      rfl
    rw [run_bind_ok hset]
    cases hsummary : (a.call .superviseSummary).fault with
    | some f =>
      exact .inr ⟨by simp [Attempt.settles, hsummary], f.text, booked, run_bind_error (call_some hsummary), rfl, rfl⟩
    | none =>
      rw [run_bind_ok (call_none hsummary)]
      have hsettles : a.settles = [CoderSite.superviseRead, .superviseRun, .superviseMark].all
          (fun site => (a.call site).fault.isNone) := by
        simp [Attempt.settles, hstatus, hsummary]
      rw [hsettles]
      rcases settle_cases (a.args py) runId ttl r booked hkey hnamed hlease htask with
        ⟨hall, t, hrun, hleases, hstate⟩ | ⟨hall, e, t, hrun, hleases⟩
      · exact .inl ⟨hall, { booked with store := t }, rfl, hleases, hstate, hrun⟩
      · exact .inr ⟨hall, e, { booked with store := t }, hrun, rfl, hleases⟩

end

/-! ## The entries of an attempt -/

theorem drawId_fresh (s : OutboxTable) : drawId s ∉ s.rows.map (·.id) := by
  intro hmem
  have hle : ∀ ids : List Nat, ∀ i ∈ ids, i ≤ ids.foldr max 0 := by
    intro ids
    induction ids with
    | nil => simp
    | cons j ids ih =>
      intro i hi
      rw [List.foldr_cons]
      rcases List.mem_cons.mp hi with rfl | hi
      · exact le_max_left _ _
      · exact (ih i hi).trans (le_max_right _ _)
  have hbound := hle _ _ hmem
  unfold drawId at hbound
  omega

/-- The row of an entry is there once it is inserted, and so are those there before. -/
theorem insert_drawn (now : Int) (x : Message) (s : OutboxTable) :
    ∃ t, s.insert (x.row now (drawId s)) (OutboxRow.requeue now x.payload) (OutboxRow.requeue_id now x.payload)
        (OutboxRow.requeue_dedupeKey now x.payload) = some t ∧
      (∃ row ∈ t.rows, row.dedupeKey = x.dedupeKey) ∧ ∀ row ∈ s.rows, ∃ new ∈ t.rows, new.dedupeKey = row.dedupeKey := by
  have hsome : ∃ t, s.insert (x.row now (drawId s)) (OutboxRow.requeue now x.payload)
      (OutboxRow.requeue_id now x.payload) (OutboxRow.requeue_dedupeKey now x.payload) = some t := by
    unfold DedupeTable.insert
    split
    · exact ⟨_, rfl⟩
    · exact ⟨_, dif_neg (drawId_fresh s)⟩
  obtain ⟨t, ht⟩ := hsome
  refine ⟨t, ht, ?_⟩
  rcases DedupeTable.insert_eq ht with ⟨r, hr, hfind⟩ | ⟨-, hfree, hfind⟩
  · obtain ⟨hmem, -, hkey⟩ := DedupeTable.holder_some hr
    have hmerged : r.requeue now x.payload ∈ t.rows := DedupeTable.mem_rows.mpr (by
      rw [OutboxRow.requeue_id, hfind, if_pos rfl])
    refine ⟨⟨_, hmerged, hkey⟩, fun row hrow => ?_⟩
    by_cases hid : row.id = r.id
    · have hsame : s.find? r.id = some row := hid ▸ DedupeTable.mem_rows.mp hrow
      rw [DedupeTable.mem_rows.mp hmem] at hsame
      obtain rfl := Option.some.inj hsame
      exact ⟨_, hmerged, rfl⟩
    · exact ⟨row, DedupeTable.mem_rows.mpr (by rw [hfind, if_neg hid, DedupeTable.mem_rows.mp hrow]), rfl⟩
  · refine ⟨⟨x.row now (drawId s), DedupeTable.mem_rows.mpr (by rw [hfind, if_pos rfl]), rfl⟩, fun row hrow => ?_⟩
    have hid : row.id ≠ drawId s := fun hid => by
      rw [show drawId s = (x.row now (drawId s)).id from rfl] at hid
      rw [← hid, DedupeTable.mem_rows.mp hrow] at hfree
      cases hfree
    exact ⟨row, DedupeTable.mem_rows.mpr (by rw [hfind]; exact (if_neg hid).trans (DedupeTable.mem_rows.mp hrow)), rfl⟩

/-- The entry is in the table and in the list of what was enqueued. -/
def Host.added (h : Host) (x : Message) (t : OutboxTable) : Host :=
  { h with outbox := t, enqueued := h.enqueued ++ [x.dedupeKey] }

/-- An entry is enqueued by the first statement of its call, or nothing is. -/
theorem enqueue_cases (m : Moment) (x : Message) (h : Host) :
    ∃ t, (∃ row ∈ t.rows, row.dedupeKey = x.dedupeKey) ∧
      (∀ row ∈ h.outbox.rows, ∃ new ∈ t.rows, new.dedupeKey = row.dedupeKey) ∧
      match m.fault with
      | none => enqueue m x h = .ok () (h.added x t)
      | some f => enqueue m x h = .error f.text (if f.done = 0 then h else h.added x t) := by
  obtain ⟨t, hinsert, hown, hold⟩ := insert_drawn m.now x h.outbox
  refine ⟨t, hown, hold, ?_⟩
  cases hfault : m.fault with
  | none =>
    have hstore : ((enqueueOutbox m.now (drawId h.outbox) x).run h.outbox).2 = t := by
      rw [run_enqueueOutbox, hinsert]
      rfl
    have hfirst : ∃ v, ((enqueueOutbox m.now (drawId h.outbox) x).run h.outbox).1 = some v := by
      have hplain : (enqueueOutbox m.now (drawId h.outbox) x).Plain :=
        Plain.bind (p := insertRow _ _) (fun _ => trivial) fun _ => fun _ => trivial
      rw [run_plain hplain, enqueueOutbox, insertRow, exec_bind, eff_exec, hinsert]
      exact ⟨_, rfl⟩
    obtain ⟨v, hv⟩ := hfirst
    have hrun : (enqueueOutbox m.now (drawId h.outbox) x).run h.outbox = (some v, t) := Prod.ext hv hstore
    simp only [enqueue, hfault, hrun]
    rfl
  | some f =>
    simp only [enqueue, hfault]
    cases hdone : f.done with
    | zero => simp
    | succ n =>
      have hcrash : crash (n + 1) (enqueueOutbox m.now (drawId h.outbox) x) ⟨h.outbox, none⟩ = t := by
        rw [enqueueOutbox, insertRow, exec_bind, crash]
        simp only [Conn.view, Option.getD_none, hinsert]
        exact crash_get _ _ _
      simp [hcrash, Host.added]

/-- The entries are enqueued from the first on; all of them are where `writesAll` says so. -/
theorem enqueueAll_cases (call : Nat → Moment) (i : Nat) (entries : List Message) (h : Host) :
    ∃ n t, n ≤ entries.length ∧ (writesAll call i entries = true ↔ n = entries.length) ∧
      endState (enqueueAll call i entries h) =
        { h with outbox := t, enqueued := h.enqueued ++ (entries.take n).map (·.dedupeKey) } ∧
      (∀ m ∈ entries.take n, ∃ row ∈ t.rows, row.dedupeKey = m.dedupeKey) ∧
      ∀ row ∈ h.outbox.rows, ∃ new ∈ t.rows, new.dedupeKey = row.dedupeKey := by
  induction entries generalizing i h with
  | nil =>
    have hend : endState (enqueueAll call i [] h) = { h with outbox := h.outbox, enqueued := h.enqueued ++ [] } := by
      rw [List.append_nil]
      rfl
    exact ⟨0, h.outbox, le_rfl, by simp [writesAll], hend, by simp, fun row hrow => ⟨row, hrow, rfl⟩⟩
  | cons x entries ih =>
    obtain ⟨t, hown, hold, hrun⟩ := enqueue_cases (call i) x h
    rw [enqueueAll]
    cases hfault : (call i).fault with
    | none =>
      rw [hfault] at hrun
      obtain ⟨n, u, hn, hall, hend, htaken, hkept⟩ := ih (i + 1) (h.added x t)
      refine ⟨n + 1, u, by simpa using hn, ?_, ?_, ?_, fun row hrow => ?_⟩
      · cases entries <;> simp_all [writesAll]
      · rw [run_bind_ok hrun, hend]
        simp [Host.added]
      · intro m hm
        rw [List.take_succ_cons] at hm
        rcases List.mem_cons.mp hm with rfl | hm
        · obtain ⟨row, hrow, hkey⟩ := hown
          obtain ⟨new, hnew, hsame⟩ := hkept row hrow
          exact ⟨new, hnew, hsame.trans hkey⟩
        · exact htaken m hm
      · obtain ⟨new, hnew, hsame⟩ := hold row hrow
        obtain ⟨last, hlast, hlastKey⟩ := hkept new hnew
        exact ⟨last, hlast, hlastKey.trans hsame⟩
    | some f =>
      rw [hfault] at hrun
      rw [run_bind_error hrun]
      by_cases hdone : f.done = 0
      · refine ⟨0, h.outbox, by simp, ?_, by simp [hdone, endState], by simp, fun row hrow => ⟨row, hrow, rfl⟩⟩
        cases entries <;> simp [writesAll, hfault, hdone]
      · refine ⟨1, t, by simp, ?_, by simp [hdone, endState, Host.added], ?_, hold⟩
        · cases entries with
          | nil => simpa [writesAll, hfault] using Nat.one_le_iff_ne_zero.mpr hdone
          | cons y entries => simp [writesAll, hfault]
        · intro m hm
          obtain rfl : m = x := by simpa using hm
          exact hown

/-- The dedupe keys of an outcome's entries are different. -/
theorem entries_nodup (py : Python) (x : Remote) (runId : String) (r : CoderResult) :
    ((finalizeEntries py x runId r).map (·.dedupeKey)).Nodup := by
  have hlinear : ∀ outcome, ((linearFinalize x runId outcome).map (·.dedupeKey)).Nodup := by
    intro outcome
    unfold linearFinalize
    split
    · exact List.nodup_nil
    · split
      · simp [finalizeEntry]
      · exact List.nodup_singleton _
  have hgithub : ∀ outcome, ((githubFinalize x runId outcome).map (·.dedupeKey)).Nodup := by
    intro outcome
    unfold githubFinalize
    split
    · exact List.nodup_nil
    · split
      · simp [finalizeEntry]
      · exact List.nodup_singleton _
  by_cases h : x.sourceType = "linear"
  · simpa only [finalizeEntries, if_pos h] using hlinear _
  · simpa only [finalizeEntries, if_neg h] using hgithub _

/-! ## One attempt -/

theorem normalizeStatus_release {py : Python} (hlower : ∀ status : ReleaseStatus, py.lower status.text = status.text)
    (status : ReleaseStatus) : normalizeStatus py status.text = status.text := by
  have hstrip : strip status.text = status.text := by cases status <;> decide
  have hne : status.text ≠ "canceled" := by cases status <;> decide
  simp only [normalizeStatus, hstrip, hlower, if_neg hne]

/-- The status an attempt writes ends the coder execution. -/
theorem bookedStatus_over {py : Python} (hlower : ∀ status : ReleaseStatus, py.lower status.text = status.text)
    (a : Attempt) (r : CoderResult) (s : Status) : isCoderExecution py (bookedStatus py a r s) = false := by
  have hrun : (bookedStatus py a r s).run.status = (terminalRelease (normalizeStatus py r.status)).text := rfl
  have hover : ∀ status : ReleaseStatus, ["created", "running"].contains status.text = false := by
    intro status
    cases status <;> decide
  rw [isCoderExecution, hrun, normalizeStatus_release hlower, hover, Bool.false_and]

theorem outcomeState_release (py : Python) (r : CoderResult) :
    taskStateFromLeaseStatus (terminalRelease (normalizeStatus py r.status)) = outcomeState py r := by
  unfold terminalRelease outcomeState isCompleted
  by_cases hcompleted : normalizeStatus py r.status = "completed"
  · simp [hcompleted, taskStateFromLeaseStatus]
  · by_cases hcancelled : normalizeStatus py r.status = "cancelled" <;>
      simp [hcompleted, hcancelled, taskStateFromLeaseStatus]

theorem endState_onWorld_bind (a : Act Unit) (p : HostAct Unit) (h : Host) :
    endState ((onWorld a >>= fun _ => p) h) = match a h.world with
      | .ok _ w => endState (p { h with store := w.store, statusFile := w.statusFile })
      | .error _ w => { h with store := w.store, statusFile := w.statusFile } := by
  cases ha : a h.world with
  | ok u w =>
    have hrun : onWorld a h = .ok () { h with store := w.store, statusFile := w.statusFile } := by
      simp only [onWorld, ha]
    rw [run_bind_ok hrun]
  | error e w =>
    have hrun : onWorld a h = .error e { h with store := w.store, statusFile := w.statusFile } := by
      simp only [onWorld, ha]
    simp only [run_bind_error hrun, endState]

/-- The event at the end leaves nothing behind. -/
theorem endState_bind_event (p : HostAct Unit) (m : Moment) (h : Host) :
    endState ((p >>= fun _ => onWorld (call m)) h) = endState (p h) := by
  have hevent : ∀ g : Host, endState (onWorld (call m) g) = g := by
    intro g
    unfold onWorld
    cases hm : m.fault with
    | none =>
      rw [call_none hm]
      rfl
    | some f =>
      rw [call_some hm]
      rfl
  cases hp : p h with
  | ok u g =>
    rw [run_bind_ok hp]
    exact hevent g
  | error e g => simp only [run_bind_error hp, endState]

namespace Supervised

variable {x : Supervised} {h : Host} {a : Attempt} {key : String} {id : Ident}

theorem Awaiting.not_applied (haw : x.Awaiting key id h) : ¬ x.Applied key id h := by
  intro happ
  have hactive := haw.active
  rw [happ.lease] at hactive
  cases hactive

theorem tick_skips (hover : ¬ x.Eligible h) : x.tick h a = h := if_neg hover

theorem tick_terminal (hr : isTerminal (normalizeStatus x.py x.result.status) = true) (helig : x.Eligible h)
    (hbefore : a.before = none) : x.tick h a =
      match bookOutcome (a.args x.py) x.runId x.ttl x.result h.world with
      | .ok _ w => endState (enqueueAll a.enqueue 0 x.entries { h with store := w.store, statusFile := w.statusFile })
      | .error _ w => { h with store := w.store, statusFile := w.statusFile } := by
  have happly : x.reconcile a = x.applyOutcome a := by
    simp only [reconcile, hbefore, if_pos hr]
  rw [tick, if_pos helig, happly, applyOutcome, endState_onWorld_bind]
  cases bookOutcome (a.args x.py) x.runId x.ttl x.result h.world with
  | ok u w => exact endState_bind_event _ _ _
  | error e w => rfl

/-- An attempt that does not replace the status file leaves everything for the next. -/
theorem tick_unmarked (hr : isTerminal (normalizeStatus x.py x.result.status) = true) (h0 : a.marks = false) :
    x.tick h a = h := by
  by_cases helig : x.Eligible h
  · cases hbefore : a.before with
    | some text =>
      have hraise : x.reconcile a = throw text := by simp only [reconcile, hbefore]
      rw [tick, if_pos helig, hraise]
      rfl
    | none =>
      obtain ⟨e, t, hbook, hstore, hfile⟩ := bookOutcome_unmarked x.py x.runId x.ttl
        (r := x.result) (w := h.world) hbefore h0
      rw [tick_terminal hr helig hbefore, hbook]
      simp only [hstore, hfile, Host.world]
  · exact tick_skips helig

/-- Which entries there are, once the first `n` of them are enqueued. -/
theorem entries_once_iff (hfresh : ∀ m ∈ x.entries, h.enqueued.count m.dedupeKey = 0) {n : Nat} (hn : n ≤ x.entries.length)
    {g : Host} (henqueued : g.enqueued = h.enqueued ++ (x.entries.take n).map (·.dedupeKey))
    (hrows : ∀ m ∈ x.entries.take n, ∃ row ∈ g.outbox.rows, row.dedupeKey = m.dedupeKey) :
    (∀ m ∈ x.entries, g.enqueued.count m.dedupeKey = 1 ∧ ∃ row ∈ g.outbox.rows, row.dedupeKey = m.dedupeKey) ↔
      n = x.entries.length := by
  have hnodup := entries_nodup x.py x.remote x.runId x.result
  constructor
  · intro hall
    by_contra hne
    have hlt : n < x.entries.length := by omega
    have hmem : x.entries[n] ∈ x.entries := List.getElem_mem hlt
    have hcount := (hall _ hmem).1
    rw [henqueued, List.count_append, hfresh _ hmem, Nat.zero_add] at hcount
    have hin : (x.entries[n]).dedupeKey ∈ (x.entries.take n).map (·.dedupeKey) :=
      List.count_pos_iff.mp (by omega)
    have hdrop : x.entries[n] ∈ x.entries.drop n := by
      rw [List.drop_eq_getElem_cons hlt]
      exact List.mem_cons_self
    have hsplit : ((x.entries.take n).map (·.dedupeKey) ++ (x.entries.drop n).map (·.dedupeKey)).Nodup := by
      rw [← List.map_append, List.take_append_drop]
      exact hnodup
    exact List.disjoint_of_nodup_append hsplit hin (List.mem_map_of_mem hdrop)
  · rintro rfl m hm
    rw [List.take_length] at henqueued hrows
    refine ⟨?_, hrows m hm⟩
    rw [henqueued, List.count_append, hfresh m hm, Nat.zero_add]
    exact List.count_eq_one_of_mem hnodup (List.mem_map_of_mem hm)

/-- The attempt that replaces the status file is the last one, and applies the outcome
exactly when it completes. -/
theorem tick_marked (hlower : ∀ status : ReleaseStatus, x.py.lower status.text = status.text)
    (hr : isTerminal (normalizeStatus x.py x.result.status) = true) (haw : x.Awaiting key id h) (hm : a.marks = true) :
    ¬ x.Eligible (x.tick h a) ∧ (x.Applied key id (x.tick h a) ↔ a.completes x.entries = true) := by
  have hbefore : a.before = none := by
    simp only [Attempt.marks, Bool.and_eq_true, Option.isNone_iff_eq_none] at hm
    exact hm.1.1
  have hover : ∀ g : Host, g.statusFile = some (bookedStatus x.py a x.result h.world.status) → ¬ x.Eligible g := by
    intro g hg he
    simp [Eligible, hg, bookedStatus_over hlower] at he
  rw [tick_terminal hr haw.eligible hbefore]
  rcases bookOutcome_marked x.py x.runId x.ttl (r := x.result) (w := h.world) hm haw.keyed
    haw.named haw.lease haw.task with ⟨hsettles, t, hfile, hleases, hstate, hbook⟩ | ⟨hsettles, e, t, hbook, hfile, hleases⟩
  · -- the attempt comes to the release of the lease
    let m := a.call .superviseRelease
    let release := releaseLease m.now id (terminalRelease (normalizeStatus x.py x.result.status))
      (some (outcomeDetail x.py x.result))
    have hended : (endState (storeCall m release t)).store.activeLease? id = none ↔ ∀ f ∈ m.fault, 2 ≤ f.done := by
      have hactive : t.store.activeLease? id ≠ none := by
        rw [activeLease?_congr (s := h.store) (by rw [hleases]; rfl)]
        exact Option.isSome_iff_ne_none.mp haw.active
      rw [release_ends_iff]
      simp [hactive]
    have hkept : ∃ row, (endState (storeCall m release t)).store.tasks.find? key = some row ∧
        row.state = outcomeState x.py x.result := by
      rw [← outcomeState_release] at hstate ⊢
      exact (keeps_storeCall_each each_releaseLease m).endState hstate
    have hsameFile : (endState (storeCall m release t)).statusFile = t.statusFile :=
      (keeps_storeCall (P := fun w => w.statusFile = t.statusFile) (fun _ _ h => h) m release).endState rfl
    rw [hbook]
    cases hfault : m.fault with
    | none =>
      obtain ⟨v, hv⟩ := run_releaseLease_some m.now id (terminalRelease (normalizeStatus x.py x.result.status))
        (some (outcomeDetail x.py x.result)) t.store
      have hok : storeCall m release t = .ok v { t with store := (release.run t.store).2 } :=
        storeCall_none hfault (Prod.ext hv rfl)
      rw [hok] at hended hkept
      rw [run_bind_ok hok]
      obtain ⟨n, u, hn, hall, hend, htaken, -⟩ := enqueueAll_cases a.enqueue 0 x.entries
        { h with store := (release.run t.store).2, statusFile := t.statusFile }
      change ¬ x.Eligible (endState (enqueueAll a.enqueue 0 x.entries _)) ∧
        (x.Applied key id (endState (enqueueAll a.enqueue 0 x.entries _)) ↔ _)
      rw [hend]
      have hcompletes : a.completes x.entries = writesAll a.enqueue 0 x.entries := by
        by_cases hnone : x.entries = []
        · simp [Attempt.completes, hsettles, hnone, writesAll, show (a.call .superviseRelease).fault = none from hfault]
        · simp [Attempt.completes, hsettles, hnone, show (a.call .superviseRelease).fault = none from hfault]
      let g : Host :=
        { h with
          store := (release.run t.store).2
          statusFile := t.statusFile
          outbox := u
          enqueued := h.enqueued ++ (x.entries.take n).map (·.dedupeKey) }
      have honce := entries_once_iff (x := x) (g := g) haw.fresh hn rfl htaken
      rw [hcompletes, hall, ← honce]
      exact ⟨hover g hfile, fun happ => happ.entries, fun hentries => ⟨hkept, hended.mpr (by simp [hfault]), hentries⟩⟩
    | some f =>
      have herror : storeCall m release t = .error f.text { t with store := crash f.done release ⟨t.store, none⟩ } :=
        storeCall_some release hfault
      rw [herror] at hended hkept
      rw [run_bind_error herror]
      refine ⟨hover _ hfile, ?_⟩
      have honce := entries_once_iff (x := x) (g := { h with store := crash f.done release ⟨t.store, none⟩, statusFile := t.statusFile })
        haw.fresh (Nat.zero_le _) (by simp) (by simp)
      have hcompletes : a.completes x.entries = true ↔ x.entries = [] ∧ 2 ≤ f.done := by
        by_cases hnone : x.entries = []
        · simp [Attempt.completes, hsettles, hnone, show (a.call .superviseRelease).fault = some f from hfault]
        · simp [Attempt.completes, hsettles, hnone, show (a.call .superviseRelease).fault = some f from hfault]
      have hreached : (∀ f ∈ m.fault, 2 ≤ f.done) ↔ 2 ≤ f.done := by simp [hfault]
      rw [hcompletes]
      constructor
      · intro happ
        have hzero : 0 = x.entries.length := honce.mp happ.entries
        exact ⟨List.length_eq_zero_iff.mp hzero.symm, hreached.mp (hended.mp happ.lease)⟩
      · rintro ⟨hnone, hdone⟩
        exact ⟨hkept, hended.mpr (hreached.mpr hdone), honce.mpr (by rw [hnone]; rfl)⟩
  · -- the attempt stops before the release
    have hactive : t.store.activeLease? id ≠ none := by
      rw [activeLease?_congr (s := h.store) (by rw [hleases]; rfl)]
      exact Option.isSome_iff_ne_none.mp haw.active
    rw [hbook]
    refine ⟨hover _ hfile, fun happ => absurd happ.lease hactive, fun hc => ?_⟩
    simp [Attempt.completes, hsettles] at hc

theorem ticks_skip (hover : ¬ x.Eligible h) (attempts : List Attempt) : attempts.foldl x.tick h = h := by
  induction attempts with
  | nil => rfl
  | cons a attempts ih => rw [List.foldl_cons, tick_skips hover, ih]

end Supervised

/-- Whatever attempts a supervisor makes to book a terminal answer of the engine, each
stopping anywhere: the outcome reaches the task, the lease and the remote's entries exactly
when the first attempt that replaces the status file gets through to its last write. -/
theorem outcome_applied_iff (x : Supervised) (key : String) (id : Ident) (h : Host)
    (hlower : ∀ status : ReleaseStatus, x.py.lower status.text = status.text)
    (hr : isTerminal (normalizeStatus x.py x.result.status) = true) (haw : x.Awaiting key id h)
    (attempts : List Attempt) :
    x.Applied key id (attempts.foldl x.tick h) ↔ firstMarkCompletes x.entries attempts := by
  induction attempts with
  | nil => exact iff_of_false haw.not_applied (by simp [firstMarkCompletes])
  | cons a attempts ih =>
    rw [List.foldl_cons]
    cases hm : a.marks with
    | false =>
      rw [Supervised.tick_unmarked hr hm, ih, firstMarkCompletes, firstMarkCompletes, List.find?_cons_of_neg (by simp [hm])]
    | true =>
      obtain ⟨hover, happ⟩ := Supervised.tick_marked hlower hr haw hm
      rw [Supervised.ticks_skip hover, happ, firstMarkCompletes, List.find?_cons_of_pos hm, Option.any_some]

/-! ## An attempt that is cut behind the status file -/

def coderClaim : ClaimArgs := claimBy "a" (plainTask "T1")

/-- The run has claimed its task and is at work on it. -/
def claimedStore : Store :=
  (Op.markTask .active 1 coderClaim.key (ClaimArgs.identity coderClaim) 1000 none).apply sqliteEnv
    ((Op.claimTask 0 coderClaim).apply sqliteEnv Store.empty)

/-- Its status file says that the coder is being executed. -/
def coderHost : Host where
  store := claimedStore
  statusFile := some
    { run := { runId := "run-a", status := "running" }, phase := { name := "coder_execution" }
      coordination := some { leaseId := some (Ident.of "lease-a"), taskKey := some coderClaim.key } }
  coderBacked := true
  outbox := .empty

/-- The engine answers that the coder has completed; the remote is a GitHub project. -/
def completedCoder : Supervised where
  py := asciiPython
  remote := ⟨"github_project", "status", "always", "T1", fun _ _ => "{}"⟩
  runId := "run-a"
  ttl := 60
  result := { patientResult with status := "completed", lastError := "" }

theorem completedCoder_lower (status : ReleaseStatus) : completedCoder.py.lower status.text = status.text := by
  cases status <;> decide +kernel

theorem coderHost_awaiting : completedCoder.Awaiting coderClaim.key (Ident.of "lease-a") coderHost where
  eligible := by decide +kernel
  keyed := by decide +kernel
  named := by decide +kernel
  lease := by decide +kernel
  task := by decide +kernel
  active := by decide +kernel
  fresh := by decide +kernel

/-- The first attempt fails at the blackboard, the second goes through. -/
theorem lateAttempt_applied : completedCoder.Applied coderClaim.key (Ident.of "lease-a")
    ([{ call := fun site => if site = .superviseBlackboard then { fault := some ⟨"disk full", 0⟩ } else {} },
      {}].foldl completedCoder.tick coderHost) :=
  (outcome_applied_iff completedCoder coderClaim.key (Ident.of "lease-a") coderHost completedCoder_lower
    (by decide +kernel) coderHost_awaiting _).mpr (by decide +kernel)

/-- The attempt ends with its write of the status file. -/
def cutAttempt : Attempt :=
  { call := fun site => if site = .superviseStatus then { fault := some ⟨"killed", 1⟩ } else {} }

/-- However often the supervisor comes by afterwards, the run's status is terminal, its task
is active and its remote item gets no update. -/
theorem cutAttempt_never_applied : completedCoder.Awaiting coderClaim.key (Ident.of "lease-a") coderHost ∧
    (∀ later, ¬ completedCoder.Applied coderClaim.key (Ident.of "lease-a")
      ((cutAttempt :: later).foldl completedCoder.tick coderHost)) ∧
    (∀ later, ((cutAttempt :: later).foldl completedCoder.tick coderHost) = completedCoder.tick coderHost cutAttempt) ∧
    (((completedCoder.tick coderHost cutAttempt).statusFile.map (·.run.status) = some "completed") ∧
      ((completedCoder.tick coderHost cutAttempt).store.tasks.find? coderClaim.key).map (·.state) = some .active ∧
      (completedCoder.tick coderHost cutAttempt).outbox.rows = []) := by
  have hmarks : cutAttempt.marks = true := by decide +kernel
  have hover := (Supervised.tick_marked completedCoder_lower (by decide +kernel) coderHost_awaiting hmarks).1
  refine ⟨coderHost_awaiting, fun later => ?_, fun later => ?_, by decide +kernel⟩
  · rw [List.foldl_cons, Supervised.ticks_skip hover,
      (Supervised.tick_marked completedCoder_lower (by decide +kernel) coderHost_awaiting hmarks).2]
    decide +kernel
  · rw [List.foldl_cons, Supervised.ticks_skip hover]

end TerminalOutcome
