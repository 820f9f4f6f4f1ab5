import Mathlib.Logic.Function.Basic
import TandemAgents.GuardedRuns
import TandemAgents.SnapshotGuards

/-!
# The attempts of a worker

A run dispatches workers again and again, and a worker id names one execution after the other. While one
runs, the heartbeat starts checks of it: a thread that captures a snapshot, and the no-change guard. A check
takes its time, and nothing waits for it when the result is recorded. What it finds it writes under the
worker's id, into the dictionaries of its dispatch and into two files of the run: the attempt that is active
for each worker, and the attempts that were cancelled.
-/
namespace WorkerAttempts

open NoChangeGuard GuardedRuns
open SnapshotGuards (Guard)

set_option maxRecDepth 20000

variable {Time Content : Type}

/-! ## Executions and checks -/

/-- An execution of the pool: `dispatch` counts the calls of `dispatch_workers`, `startedAt` is the clock of
`_on_start`, `baseline` goes into the event `worker.started`. -/
structure Execution (Time Content : Type) where
  executionId : String
  subtaskId : String
  worktree : String
  dispatch : Nat
  startedAt : Time
  baseline : Baseline Content

/-- What a verdict is computed from. -/
structure Basis (Time Content : Type) where
  subtaskId : String
  worktree : String
  startedAt : Time
  baseline : Baseline Content

/-- The worktree, the start and the baseline are those of the execution. -/
structure Basis.IsOf (x : Execution Time Content) (e : Basis Time Content) : Prop where
  worktree : e.worktree = x.worktree
  startedAt : e.startedAt = x.startedAt
  baseline : e.baseline = x.baseline

/-- What the dictionaries of a dispatch have under the worker's id; a snapshot and an abort result stand with
what they were computed from. -/
structure Entries (Time Content : Type) where
  active : Bool := false
  startedAt : Option Time := none
  worktree : Option String := none
  /-- Its id and its execution id. -/
  subtask : Option (String × String) := none
  startBaseline : Option (Baseline Content) := none
  progressSnapshot : Option (Basis Time Content) := none
  abortResult : Option (Basis Time Content) := none
  snapshotInflight : Bool := false

inductive Kind where
  | snapshot | noChange
  deriving DecidableEq, Repr

/-- How far a check has come. -/
inductive Stage (Time Content : Type) where
  | copied
  | ready
  | captured (subtaskId executionId : String) (startedAt : Time)
  | looked (subtaskId : String) (startedAt : Time) (baseline : Baseline Content)
  | based (subtaskId : String) (startedAt : Time) (baseline : Baseline Content)
  | keeping (basis : Basis Time Content) (aborts : Bool)
  | aborting (basis : Basis Time Content)
  | clearing
  | noted (executionId : String)
  | dropping
  | ended

/-- The next step writes something that others read. -/
def Stage.writes : Stage Time Content → Bool
  | .looked .. | .keeping .. | .aborting _ | .noted _ | .dropping => true
  | _ => false

/-- The heartbeat gives a check the worktree that it has copied. -/
structure Check (Time Content : Type) where
  kind : Kind
  dispatch : Nat
  worktree : String
  stage : Stage Time Content

/-- One worker id in a run. `awaited` is the execution whose result the pool waits for, `dispatch` the call it is in;
`returned` collects the abort results that the pool was given, and `hits` the attempts that were cancelled or
taken out of the file, with the worktree of the check. -/
structure Run (Time Content : Type) where
  executions : List (Execution Time Content) := []
  awaited : Option Nat := none
  dispatch : Nat := 0
  entries : Nat → Entries Time Content := fun _ => {}
  activeAttempt : Option String := none
  cancelledAttempts : List String := []
  started : List (String × Baseline Content) := []
  checks : List (Check Time Content) := []
  returned : List (Nat × Basis Time Content) := []
  hits : List (String × String) := []

namespace Run

def awaitedExecution (s : Run Time Content) : Option (Execution Time Content) := s.awaited.bind fun i => s.executions[i]?

def setEntries (s : Run Time Content) (d : Nat) (b : Entries Time Content) : Run Time Content :=
  { s with entries := Function.update s.entries d b }

@[simp] theorem setEntries_self (s : Run Time Content) (d : Nat) (b : Entries Time Content) : (s.setEntries d b).entries d = b := by
  simp [setEntries]

theorem setEntries_of_ne {d e : Nat} (s : Run Time Content) (b : Entries Time Content) (h : e ≠ d) :
    (s.setEntries d b).entries e = s.entries e := by
  simp [setEntries, h]

def setStage (s : Run Time Content) (k : Nat) (c : Check Time Content) (stage : Stage Time Content) : Run Time Content :=
  { s with checks := s.checks.set k { c with stage := stage } }

end Run

/-! ## The steps of a check -/

/-- `_latest_worker_start_baseline`. -/
def latestWorkerStartBaseline (executionId : String) (started : List (String × Baseline Content)) : Option (Baseline Content) :=
  (started.reverse.find? fun event => !(decide (executionId ≠ "") && decide (event.1 ≠ "") && decide (event.1 ≠ executionId))).map
    Prod.snd

/-- `_active_worker_snapshot_still_current`. -/
def activeWorkerSnapshotStillCurrent (b : Entries Time Content) (worktree subtaskId : String) : Bool :=
  b.active && b.worktree.all (fun current => decide (current = worktree)) &&
    !(decide (subtaskId ≠ "") && b.subtask.any fun current => decide (current.1 ≠ "") && decide (current.1 ≠ subtaskId))

/-- The guards that run tests look again whether the worker is current. -/
def looksAgain : Guard → Bool
  | .testsFailed | .unterminated => true
  | _ => false

/-- `_mark_cancelled_worker_attempt`; the last twenty are kept. -/
def markCancelledWorkerAttempt (executionId : String) (cancelled : List String) : List String :=
  let attempts := if executionId ∈ cancelled then cancelled else cancelled ++ [executionId]
  attempts.drop (attempts.length - 20)

/-- A snapshot thread that ends is no longer in flight. -/
def endCheck (s : Run Time Content) (k : Nat) (c : Check Time Content) : Run Time Content :=
  match c.kind with
  | .snapshot => (s.setEntries c.dispatch { s.entries c.dispatch with snapshotInflight := false }).setStage k c .ended
  | .noChange => s.setStage k c .ended

/-- The next step of a check; `found` is the guard that holds of the diff, where one does. -/
def advance (s : Run Time Content) (k : Nat) (c : Check Time Content) (now : Time) (found : Option Guard) : Run Time Content :=
  let b := s.entries c.dispatch
  match c.stage with
  | .copied =>
    match c.kind with
    | .snapshot =>
      if b.snapshotInflight then s.setStage k c .ended
      else (s.setEntries c.dispatch { b with snapshotInflight := true }).setStage k c .ready
    | .noChange => s.setStage k c .ready
  | .ready =>
    let returns := match c.kind with
      | .snapshot => !b.active
      | .noChange => b.abortResult.isSome
    if returns then endCheck s k c
    else
      let subtask := b.subtask.getD ("", "")
      s.setStage k c (.captured subtask.1 subtask.2 (b.startedAt.getD now))
  | .captured subtaskId executionId startedAt =>
    match b.startBaseline with
    | some baseline => s.setStage k c (.based subtaskId startedAt baseline)
    | none =>
      match latestWorkerStartBaseline executionId s.started with
      | none => endCheck s k c
      | some baseline => s.setStage k c (.looked subtaskId startedAt baseline)
  | .looked subtaskId startedAt baseline =>
    (s.setEntries c.dispatch { b with startBaseline := some baseline }).setStage k c (.based subtaskId startedAt baseline)
  | .based subtaskId startedAt baseline =>
    let basis : Basis Time Content := ⟨subtaskId, c.worktree, startedAt, baseline⟩
    match c.kind with
    | .noChange => s.setStage k c (.aborting basis)
    | .snapshot =>
      if found.any looksAgain && !activeWorkerSnapshotStillCurrent b c.worktree subtaskId then endCheck s k c
      else s.setStage k c (.keeping basis found.isSome)
  | .keeping basis aborts =>
    let s := s.setEntries c.dispatch { b with progressSnapshot := some basis }
    if aborts then s.setStage k c (.aborting basis) else endCheck s k c
  | .aborting basis => (s.setEntries c.dispatch { b with abortResult := some basis }).setStage k c .clearing
  -- `_clear_active_worker_attempt_marker` reads the one file, writes the other, then the first again
  | .clearing =>
    match s.activeAttempt with
    | none => endCheck s k c
    | some executionId => s.setStage k c (.noted executionId)
  | .noted executionId =>
    { s with
      cancelledAttempts := markCancelledWorkerAttempt executionId s.cancelledAttempts
      hits := s.hits ++ [(c.worktree, executionId)] }.setStage k c .dropping
  | .dropping =>
    endCheck { s with
      activeAttempt := none
      hits := s.hits ++ (s.activeAttempt.map fun executionId => (c.worktree, executionId)).toList } k c
  | .ended => s

/-! ## The steps of the run -/

inductive Action (Time Content : Type) where
  /-- A new call of `dispatch_workers`. -/
  | dispatch
  | submit (x : Execution Time Content)
  | start (i : Nat)
  | mark (i : Nat)
  | begin (i : Nat)
  | unmark (i : Nat)
  | beat (d : Nat) (kind : Kind)
  | advance (k : Nat) (now : Time) (found : Option Guard)
  /-- A check returns without a finding, or raises. -/
  | quit (k : Nat)
  | poll
  | result
  | finish

/-- `_on_start`. -/
def onStart (x : Execution Time Content) (b : Entries Time Content) : Entries Time Content :=
  if x.subtaskId ≠ "" then
    { b with active := true, startedAt := some x.startedAt, worktree := some x.worktree, subtask := some (x.subtaskId, x.executionId) }
  else { b with active := true, startedAt := some x.startedAt }

/-- What `_on_result` leaves. -/
def onResult (b : Entries Time Content) : Entries Time Content := { snapshotInflight := b.snapshotInflight }

/-- The id and the worktree of an execution have its time in their names. -/
def isFresh (s : Run Time Content) (x : Execution Time Content) : Bool :=
  decide (x.executionId ≠ "") && s.executions.all fun y => decide (y.executionId ≠ x.executionId) && decide (y.worktree ≠ x.worktree)

/-- `_worker_event_attempt_is_current`: a worker whose attempt is not stops with `WORKER_ATTEMPT_INACTIVE`. -/
def workerEventAttemptIsCurrent (s : Run Time Content) (executionId : String) : Bool :=
  decide (executionId = "") || (!decide (executionId ∈ s.cancelledAttempts) && decide (s.activeAttempt = some executionId))

/-- The steps of the pool and of the worker, with those of the checks; a step that cannot be taken changes nothing. -/
def step (s : Run Time Content) : Action Time Content → Run Time Content
  -- the pool of a dispatch returns when every result is recorded
  | .dispatch =>
    if s.awaited.isNone then { s with dispatch := s.dispatch + 1, entries := Function.update s.entries (s.dispatch + 1) {} } else s
  | .submit x =>
    if s.awaited.isNone && isFresh s x && decide (x.dispatch = s.dispatch) then
      { s with executions := s.executions ++ [x], awaited := some s.executions.length }
    else s
  | .start i =>
    match s.executions[i]? with
    | some x => s.setEntries x.dispatch (onStart x (s.entries x.dispatch))
    | none => s
  | .mark i =>
    match s.executions[i]? with
    | some x => { s with activeAttempt := some x.executionId }
    | none => s
  | .begin i =>
    match s.executions[i]? with
    | some x => { s with started := s.started ++ [(x.executionId, x.baseline)] }
    | none => s
  | .unmark i =>
    match s.executions[i]? with
    | some x => if s.activeAttempt = some x.executionId then { s with activeAttempt := none } else s
    | none => s
  | .beat d kind =>
    match (s.entries d).worktree with
    | some worktree => if (s.entries d).active then { s with checks := s.checks ++ [⟨kind, d, worktree, .copied⟩] } else s
    | none => s
  | .advance k now found =>
    match s.checks[k]? with
    | some c => advance s k c now found
    | none => s
  | .quit k =>
    match s.checks[k]? with
    | some c => match c.stage with
      | .copied | .ended => s.setStage k c .ended
      | _ => endCheck s k c
    | none => s
  -- `_abort_result`
  | .poll =>
    match s.awaited, s.awaitedExecution with
    | some i, some x => { s with returned := s.returned ++ ((s.entries x.dispatch).abortResult.map fun basis => (i, basis)).toList }
    | _, _ => s
  | .result =>
    match s.awaitedExecution with
    | some x => { s.setEntries x.dispatch (onResult (s.entries x.dispatch)) with awaited := none }
    | none => s
  | .finish => if s.awaited.isNone then s.setEntries s.dispatch { s.entries s.dispatch with active := false } else s

/-! ## The purpose -/

/-- The verdicts of the checks hit the execution they looked at. -/
structure Sound (s : Run Time Content) : Prop where
  /-- What the pool was given for an execution was computed from its own. -/
  returned : ∀ i basis, (i, basis) ∈ s.returned → ∃ x, s.executions[i]? = some x ∧ basis.IsOf x
  /-- No check of an execution cancels the attempt of a later one. -/
  spared : ∀ worktree executionId, (worktree, executionId) ∈ s.hits → ∀ (i j : Nat) (x y : Execution Time Content),
    s.executions[i]? = some x → x.worktree = worktree → i < j → s.executions[j]? = some y → y.executionId ≠ executionId
  /-- The snapshot kept is of the execution that is awaited. -/
  snapshot : ∀ x basis, s.awaitedExecution = some x → (s.entries x.dispatch).progressSnapshot = some basis → basis.IsOf x

/-- The execution that is awaited starts, and a check writes as long as the execution whose worktree it was given is awaited. -/
def isOrderly (s : Run Time Content) : Action Time Content → Bool
  | .start i => decide (s.awaited = some i)
  | .advance k _ _ => (s.checks[k]?).all fun c => !c.stage.writes || s.awaitedExecution.any fun x => decide (x.worktree = c.worktree)
  | _ => true

/-- A run whose steps are all orderly. -/
abbrev Orderly (s : Run Time Content) : Prop := Reached step (fun s a => isOrderly s a = true) {} s

/-! ## The invariant -/

/-- The dictionaries name the execution. -/
structure Shows (x : Execution Time Content) (b : Entries Time Content) : Prop where
  worktree : b.worktree = some x.worktree
  subtask : b.subtask = some (x.subtaskId, x.executionId)
  startedAt : b.startedAt = some x.startedAt

/-- They have nothing of another execution. -/
structure Owned (x : Execution Time Content) (b : Entries Time Content) : Prop where
  shows : b.worktree = none ∨ Shows x b
  startBaseline : ∀ baseline, b.startBaseline = some baseline → baseline = x.baseline
  progressSnapshot : ∀ basis, b.progressSnapshot = some basis → basis.IsOf x
  abortResult : ∀ basis, b.abortResult = some basis → basis.IsOf x

/-- They have nothing of any. -/
structure Idle (b : Entries Time Content) : Prop where
  worktree : b.worktree = none
  startBaseline : b.startBaseline = none
  progressSnapshot : b.progressSnapshot = none
  abortResult : b.abortResult = none

/-- What a check has read is the execution's own. -/
def Follows (x : Execution Time Content) (b : Entries Time Content) : Stage Time Content → Prop
  | .copied | .ready => Shows x b
  | .captured _ executionId startedAt => executionId = x.executionId ∧ startedAt = x.startedAt
  | .looked _ startedAt baseline | .based _ startedAt baseline => startedAt = x.startedAt ∧ baseline = x.baseline
  | .keeping basis _ | .aborting basis => basis.IsOf x
  | _ => True

/-- The check was given the worktree of an execution, which it follows while that one is awaited. -/
def Follower (s : Run Time Content) (c : Check Time Content) : Prop :=
  ∃ (i : Nat) (x : Execution Time Content), s.executions[i]? = some x ∧ c.worktree = x.worktree ∧ c.dispatch = x.dispatch ∧
    (s.awaited = some i → Follows x (s.entries x.dispatch) c.stage)

structure Inv (s : Run Time Content) : Prop where
  ids : ∀ (i j : Nat) (x y : Execution Time Content), s.executions[i]? = some x → s.executions[j]? = some y →
    (x.executionId = y.executionId ∨ x.worktree = y.worktree) → i = j
  named : ∀ x ∈ s.executions, x.executionId ≠ ""
  last : ∀ i, s.awaited = some i → i + 1 = s.executions.length
  here : ∀ x, s.awaitedExecution = some x → x.dispatch = s.dispatch
  idle : s.awaited = none → Idle (s.entries s.dispatch)
  owned : ∀ x, s.awaitedExecution = some x → Owned x (s.entries x.dispatch)
  worktrees : ∀ d worktree, (s.entries d).worktree = some worktree → ∃ x ∈ s.executions, x.worktree = worktree ∧ x.dispatch = d
  checks : ∀ c ∈ s.checks, Follower s c
  noted : ∀ c ∈ s.checks, ∀ executionId, c.stage = .noted executionId → ∃ x ∈ s.executions, x.executionId = executionId
  active : ∀ executionId, s.activeAttempt = some executionId → ∃ x ∈ s.executions, x.executionId = executionId
  started : ∀ event ∈ s.started, ∃ x ∈ s.executions, event = (x.executionId, x.baseline)
  returned : ∀ i basis, (i, basis) ∈ s.returned → ∃ x, s.executions[i]? = some x ∧ basis.IsOf x
  spared : ∀ worktree executionId, (worktree, executionId) ∈ s.hits → (∃ x ∈ s.executions, x.executionId = executionId) ∧
    ∀ (i j : Nat) (x y : Execution Time Content), s.executions[i]? = some x → x.worktree = worktree → i < j →
      s.executions[j]? = some y → y.executionId ≠ executionId

section
variable {s : Run Time Content} {c : Check Time Content} {x : Execution Time Content} {k d : Nat}

theorem Inv.sound (h : Inv s) : Sound s :=
  ⟨h.returned, fun worktree executionId hhit => (h.spared worktree executionId hhit).2,
    fun x basis hx hbasis => (h.owned x hx).progressSnapshot basis hbasis⟩

theorem inv_init : Inv ({} : Run Time Content) where
  ids := nofun
  named := nofun
  last := nofun
  here := nofun
  idle := fun _ => ⟨rfl, rfl, rfl, rfl⟩
  owned := nofun
  worktrees := nofun
  checks := nofun
  noted := nofun
  active := nofun
  started := nofun
  returned := nofun
  spared := nofun

theorem awaitedExecution_eq (h : s.awaitedExecution = some x) : ∃ i, s.awaited = some i ∧ s.executions[i]? = some x :=
  Option.bind_eq_some_iff.mp h

theorem awaitedExecution_of {i : Nat} (hi : s.awaited = some i) (hx : s.executions[i]? = some x) : s.awaitedExecution = some x :=
  Option.bind_eq_some_iff.mpr ⟨i, hi, hx⟩

/-! ## The steps of a check keep it -/

/-- The dictionaries name the same execution. -/
structure SameNames (b b' : Entries Time Content) : Prop where
  worktree : b'.worktree = b.worktree
  subtask : b'.subtask = b.subtask
  startedAt : b'.startedAt = b.startedAt

theorem Shows.same {b b' : Entries Time Content} (h : Shows x b) (hb : SameNames b b') : Shows x b' :=
  ⟨hb.worktree.trans h.worktree, hb.subtask.trans h.subtask, hb.startedAt.trans h.startedAt⟩

theorem Follows.mono {b b' : Entries Time Content} {stage : Stage Time Content} (hb : Shows x b → Shows x b')
    (h : Follows x b stage) : Follows x b' stage := by
  cases stage with
  | copied => exact hb h
  | ready => exact hb h
  | _ => exact h

theorem inv_setEntries {b : Entries Time Content} (h : Inv s) (hnames : SameNames (s.entries d) b)
    (howned : ∀ x, s.awaitedExecution = some x → x.dispatch = d → Owned x b) (hidle : s.awaited = none → d = s.dispatch → Idle b) :
    Inv (s.setEntries d b) := by
  have hsame : ∀ e, SameNames (s.entries e) ((s.setEntries d b).entries e) := by
    intro e
    by_cases he : e = d
    · rw [he, s.setEntries_self]
      exact hnames
    · rw [s.setEntries_of_ne b he]
      exact ⟨rfl, rfl, rfl⟩
  have howned' : ∀ x, s.awaitedExecution = some x → Owned x ((s.setEntries d b).entries x.dispatch) := by
    intro x hx
    by_cases he : x.dispatch = d
    · rw [he, s.setEntries_self]
      exact howned x hx he
    · rw [s.setEntries_of_ne b he]
      exact h.owned x hx
  have hidle' : s.awaited = none → Idle ((s.setEntries d b).entries s.dispatch) := by
    intro hnone
    by_cases he : s.dispatch = d
    · rw [he, s.setEntries_self]
      exact hidle hnone he.symm
    · rw [s.setEntries_of_ne b he]
      exact h.idle hnone
  exact { h with
    idle := hidle'
    owned := howned'
    worktrees := fun e worktree hw => h.worktrees e worktree ((hsame e).worktree ▸ hw)
    checks := by
      intro c hc
      obtain ⟨i, x, hx, hworktree, hdispatch, hfollows⟩ := h.checks c hc
      exact ⟨i, x, hx, hworktree, hdispatch, fun hi => (hfollows hi).mono fun hshows => hshows.same (hsame x.dispatch)⟩ }

theorem inv_setStage {stage : Stage Time Content} (h : Inv s) (hc : c ∈ s.checks)
    (hfollows : ∀ x, s.awaitedExecution = some x → c.dispatch = x.dispatch → c.worktree = x.worktree →
      Follows x (s.entries x.dispatch) c.stage → Follows x (s.entries x.dispatch) stage)
    (hnoted : ∀ executionId, stage = .noted executionId → ∃ x ∈ s.executions, x.executionId = executionId) :
    Inv (s.setStage k c stage) :=
  { h with
    checks := by
      intro c' hc'
      rcases List.mem_or_eq_of_mem_set hc' with hold | rfl
      · exact h.checks c' hold
      · obtain ⟨i, x, hx, hworktree, hdispatch, hf⟩ := h.checks c hc
        exact ⟨i, x, hx, hworktree, hdispatch, fun hi => hfollows x (awaitedExecution_of hi hx) hdispatch hworktree (hf hi)⟩
    noted := by
      intro c' hc'
      rcases List.mem_or_eq_of_mem_set hc' with hold | rfl
      · exact h.noted c' hold
      · exact hnoted }

/-- Another entry than these says nothing about an execution. -/
theorem inv_sameEntries {b : Entries Time Content} (h : Inv s) (hnames : SameNames (s.entries d) b)
    (hbaseline : b.startBaseline = (s.entries d).startBaseline) (hsnapshot : b.progressSnapshot = (s.entries d).progressSnapshot)
    (habort : b.abortResult = (s.entries d).abortResult) : Inv (s.setEntries d b) := by
  apply inv_setEntries h hnames
  · intro x hx hd
    have howned := h.owned x hx
    rw [hd] at howned
    refine ⟨?_, hbaseline ▸ howned.startBaseline, hsnapshot ▸ howned.progressSnapshot, habort ▸ howned.abortResult⟩
    exact howned.shows.imp (fun hnone => hnames.worktree.trans hnone) fun hshows => hshows.same hnames
  · intro hnone hd
    have hidle := h.idle hnone
    rw [← hd] at hidle
    exact ⟨hnames.worktree.trans hidle.worktree, hbaseline.trans hidle.startBaseline, hsnapshot.trans hidle.progressSnapshot,
      habort.trans hidle.abortResult⟩

theorem inv_endCheck (h : Inv s) (hc : c ∈ s.checks) : Inv (endCheck s k c) := by
  rw [endCheck]
  cases c.kind with
  | noChange => exact inv_setStage h hc (fun _ _ _ _ _ => trivial) nofun
  | snapshot =>
    have hentries : Inv (s.setEntries c.dispatch { s.entries c.dispatch with snapshotInflight := false }) :=
      inv_sameEntries h ⟨rfl, rfl, rfl⟩ rfl rfl rfl
    exact inv_setStage hentries hc (fun _ _ _ _ _ => trivial) nofun

/-- The execution whose worktree the check has is the one that is awaited. -/
theorem follower_awaited (h : Inv s) (hc : c ∈ s.checks) (hx : s.awaitedExecution = some x) (hworktree : x.worktree = c.worktree) :
    c.dispatch = x.dispatch ∧ Follows x (s.entries x.dispatch) c.stage := by
  obtain ⟨i, hi, hxi⟩ := awaitedExecution_eq hx
  obtain ⟨j, y, hyj, hy, hdispatch, hfollows⟩ := h.checks c hc
  have hij : i = j := h.ids i j x y hxi hyj (.inr (hworktree.trans hy))
  subst hij
  obtain rfl : x = y := Option.some.inj (hxi.symm.trans hyj)
  exact ⟨hdispatch, hfollows hi⟩

/-- A write of a check that the awaited execution owns. -/
theorem inv_write {b : Entries Time Content} (h : Inv s) (hx : s.awaitedExecution = some x) (hd : d = x.dispatch)
    (hnames : SameNames (s.entries d) b) (hbaseline : ∀ baseline, b.startBaseline = some baseline → baseline = x.baseline)
    (hsnapshot : ∀ basis, b.progressSnapshot = some basis → basis.IsOf x)
    (habort : ∀ basis, b.abortResult = some basis → basis.IsOf x) : Inv (s.setEntries d b) := by
  obtain ⟨i, hi, -⟩ := awaitedExecution_eq hx
  apply inv_setEntries h hnames
  · intro y hy _
    obtain rfl : x = y := Option.some.inj (hx.symm.trans hy)
    have howned := (h.owned x hx).shows
    rw [← hd] at howned
    exact ⟨howned.imp (fun hnone => hnames.worktree.trans hnone) fun hshows => hshows.same hnames, hbaseline, hsnapshot, habort⟩
  · intro hnone
    cases hi.symm.trans hnone

/-- The baseline found for an execution is its own. -/
theorem latestWorkerStartBaseline_own (h : Inv s) (hx : x ∈ s.executions) {baseline : Baseline Content}
    (hfound : latestWorkerStartBaseline x.executionId s.started = some baseline) : baseline = x.baseline := by
  obtain ⟨event, hevent, rfl⟩ := Option.map_eq_some_iff.mp hfound
  have hmatches := List.find?_some hevent
  obtain ⟨y, hy, rfl⟩ := h.started event (List.mem_reverse.mp (List.mem_of_find?_eq_some hevent))
  have hid : y.executionId = x.executionId := by
    simpa [h.named x hx, h.named y hy] using hmatches
  obtain ⟨i, hi⟩ := List.mem_iff_getElem?.mp hx
  obtain ⟨j, hj⟩ := List.mem_iff_getElem?.mp hy
  have hij : j = i := h.ids j i y x hj hi (.inl hid)
  subst hij
  rw [Option.some.inj (hj.symm.trans hi)]

/-- The execution that is awaited is the last one. -/
theorem awaited_last (h : Inv s) (hx : s.awaitedExecution = some x) {i j : Nat} {y : Execution Time Content}
    (hy : s.executions[i]? = some y) (hworktree : y.worktree = x.worktree) (hij : i < j) : s.executions[j]? = none := by
  obtain ⟨k, hk, hxk⟩ := awaitedExecution_eq hx
  have hik : i = k := h.ids i k y x hy hxk (.inr hworktree)
  have hlast := h.last k hk
  exact List.getElem?_eq_none (by omega)

/-- Attempts that a check of the awaited execution cancels or takes out of the file. -/
theorem inv_hits (h : Inv s) (hx : s.awaitedExecution = some x) {hits : List (String × String)} {activeAttempt : Option String}
    (cancelled : List String) (hactive : ∀ executionId, activeAttempt = some executionId → s.activeAttempt = some executionId)
    (hhits : ∀ hit ∈ hits, hit.1 = x.worktree ∧ ∃ y ∈ s.executions, y.executionId = hit.2) :
    Inv { s with activeAttempt := activeAttempt, cancelledAttempts := cancelled, hits := s.hits ++ hits } :=
  { h with
    active := fun executionId hid => h.active executionId (hactive executionId hid)
    spared := by
      intro worktree executionId hmem
      rcases List.mem_append.mp hmem with hold | hnew
      · exact h.spared worktree executionId hold
      · obtain ⟨hworktree, hknown⟩ := hhits _ hnew
        refine ⟨hknown, ?_⟩
        intro i j y z hy hyw hij hz
        cases (awaited_last h hx hy (hyw.trans hworktree) hij).symm.trans hz }

theorem inv_advance (h : Inv s) (hk : s.checks[k]? = some c) (now : Time) (found : Option Guard)
    (howner : c.stage.writes = true → ∃ x, s.awaitedExecution = some x ∧ x.worktree = c.worktree) :
    Inv (advance s k c now found) := by
  have hc : c ∈ s.checks := List.mem_of_getElem? hk
  obtain ⟨kind, dispatch, worktree, stage⟩ := c
  cases stage with
  | copied =>
    cases kind with
    | noChange => exact inv_setStage h hc (fun _ _ _ _ hshows => hshows) nofun
    | snapshot =>
      simp only [advance]
      split
      · exact inv_setStage h hc (fun _ _ _ _ _ => trivial) nofun
      · have hentries : Inv (s.setEntries dispatch { s.entries dispatch with snapshotInflight := true }) :=
          inv_sameEntries h ⟨rfl, rfl, rfl⟩ rfl rfl rfl
        exact inv_setStage hentries hc (fun _ _ _ _ hshows => hshows) nofun
  | ready =>
    have hcaptured : Inv (s.setStage k ⟨kind, dispatch, worktree, .ready⟩ (.captured ((s.entries dispatch).subtask.getD ("", "")).1
        ((s.entries dispatch).subtask.getD ("", "")).2 ((s.entries dispatch).startedAt.getD now))) := by
      apply inv_setStage h hc
      · intro x _ hdispatch _ hready
        obtain rfl : dispatch = x.dispatch := hdispatch
        have hshows : Shows x (s.entries x.dispatch) := hready
        simp [Follows, hshows.subtask, hshows.startedAt]
      · nofun
    cases kind with
    | snapshot =>
      simp only [advance]
      split
      · exact inv_endCheck h hc
      · exact hcaptured
    | noChange =>
      simp only [advance]
      split
      · exact inv_endCheck h hc
      · exact hcaptured
  | captured subtaskId executionId startedAt =>
    simp only [advance]
    split
    · rename_i baseline hcached
      apply inv_setStage h hc
      · intro x hx hdispatch _ hcaptured
        obtain rfl : dispatch = x.dispatch := hdispatch
        exact ⟨hcaptured.2, (h.owned x hx).startBaseline baseline hcached⟩
      · nofun
    · split
      · exact inv_endCheck h hc
      · rename_i baseline hfound
        apply inv_setStage h hc
        · intro x hx _ _ hcaptured
          obtain ⟨i, -, hxi⟩ := awaitedExecution_eq hx
          obtain ⟨rfl, hstarted⟩ : executionId = x.executionId ∧ startedAt = x.startedAt := hcaptured
          exact ⟨hstarted, latestWorkerStartBaseline_own h (List.mem_of_getElem? hxi) hfound⟩
        · nofun
  | looked subtaskId startedAt baseline =>
    obtain ⟨x, hx, hworktree⟩ := howner rfl
    obtain ⟨hdispatch, hlooked⟩ := follower_awaited h hc hx hworktree
    have howned := h.owned x hx
    rw [← hdispatch] at howned
    have hentries : Inv (s.setEntries dispatch { s.entries dispatch with startBaseline := some baseline }) := by
      have hown : ∀ cached, some baseline = some cached → cached = x.baseline :=
        fun cached hcached => (Option.some.inj hcached).symm.trans hlooked.2
      exact inv_write h hx hdispatch ⟨rfl, rfl, rfl⟩ hown howned.progressSnapshot howned.abortResult
    exact inv_setStage hentries hc (fun _ _ _ _ hbased => hbased) nofun
  | based subtaskId startedAt baseline =>
    have hbasis : ∀ x, s.awaitedExecution = some x → dispatch = x.dispatch → worktree = x.worktree →
        startedAt = x.startedAt ∧ baseline = x.baseline → Basis.IsOf x ⟨subtaskId, worktree, startedAt, baseline⟩ :=
      fun _ _ _ hworktree hbased => ⟨hworktree, hbased.1, hbased.2⟩
    cases kind with
    | noChange => exact inv_setStage h hc hbasis nofun
    | snapshot =>
      simp only [advance]
      split
      · exact inv_endCheck h hc
      · exact inv_setStage h hc hbasis nofun
  | keeping basis aborts =>
    obtain ⟨x, hx, hworktree⟩ := howner rfl
    obtain ⟨hdispatch, hbasis⟩ := follower_awaited h hc hx hworktree
    have howned := h.owned x hx
    rw [← hdispatch] at howned
    have hentries : Inv (s.setEntries dispatch { s.entries dispatch with progressSnapshot := some basis }) := by
      have hown : ∀ kept, some basis = some kept → kept.IsOf x := fun kept hkept => Option.some.inj hkept ▸ hbasis
      exact inv_write h hx hdispatch ⟨rfl, rfl, rfl⟩ howned.startBaseline hown howned.abortResult
    simp only [advance]
    split
    · exact inv_setStage hentries hc (fun _ _ _ _ hkeeping => hkeeping) nofun
    · exact inv_endCheck hentries hc
  | aborting basis =>
    obtain ⟨x, hx, hworktree⟩ := howner rfl
    obtain ⟨hdispatch, hbasis⟩ := follower_awaited h hc hx hworktree
    have howned := h.owned x hx
    rw [← hdispatch] at howned
    have hentries : Inv (s.setEntries dispatch { s.entries dispatch with abortResult := some basis }) := by
      have hown : ∀ kept, some basis = some kept → kept.IsOf x := fun kept hkept => Option.some.inj hkept ▸ hbasis
      exact inv_write h hx hdispatch ⟨rfl, rfl, rfl⟩ howned.startBaseline howned.progressSnapshot hown
    exact inv_setStage hentries hc (fun _ _ _ _ _ => trivial) nofun
  | clearing =>
    simp only [advance]
    split
    · exact inv_endCheck h hc
    · rename_i executionId hactive
      apply inv_setStage h hc
      · intro _ _ _ _ _
        trivial
      · rintro _ ⟨rfl⟩
        exact h.active executionId hactive
  | noted executionId =>
    obtain ⟨x, hx, hworktree⟩ := howner rfl
    have hhits : Inv { s with
        cancelledAttempts := markCancelledWorkerAttempt executionId s.cancelledAttempts
        hits := s.hits ++ [(worktree, executionId)] } := by
      apply inv_hits h hx _ fun _ hid => hid
      intro hit hmem
      obtain rfl := List.mem_singleton.mp hmem
      exact ⟨hworktree.symm, h.noted _ hc executionId rfl⟩
    exact inv_setStage hhits hc (fun _ _ _ _ _ => trivial) nofun
  | dropping =>
    obtain ⟨x, hx, hworktree⟩ := howner rfl
    have hhits : Inv { s with
        activeAttempt := none
        hits := s.hits ++ (s.activeAttempt.map fun executionId => (worktree, executionId)).toList } := by
      have hnone : ∀ executionId, (none : Option String) = some executionId → s.activeAttempt = some executionId := nofun
      apply inv_hits h hx s.cancelledAttempts hnone
      intro hit hmem
      obtain ⟨executionId, hactive, rfl⟩ := Option.map_eq_some_iff.mp (Option.mem_toList.mp hmem)
      exact ⟨hworktree.symm, h.active executionId hactive⟩
    exact inv_endCheck hhits hc
  | ended => exact h

/-! ## The steps of the run keep it -/

/-- A fresh execution has the id and the worktree of none before it. -/
theorem isFresh_of_mem {y : Execution Time Content} (h : isFresh s x = true) (hy : y ∈ s.executions) :
    y.executionId ≠ x.executionId ∧ y.worktree ≠ x.worktree := by
  have hall := (Bool.and_eq_true_iff.mp h).2
  simpa using List.all_eq_true.mp hall y hy

theorem inv_dispatch (h : Inv s) (hnone : s.awaited = none) :
    Inv { s with dispatch := s.dispatch + 1, entries := Function.update s.entries (s.dispatch + 1) {} } := by
  have hawaited : s.awaitedExecution = none := by rw [Run.awaitedExecution, hnone]; rfl
  exact { h with
    here := by
      intro x hx
      cases hawaited.symm.trans hx
    idle := by
      intro _
      simp only [Function.update_self]
      exact ⟨rfl, rfl, rfl, rfl⟩
    owned := by
      intro x hx
      cases hawaited.symm.trans hx
    worktrees := by
      intro d worktree hw
      by_cases hd : d = s.dispatch + 1
      · simp [hd] at hw
      · simp only [Function.update_of_ne hd] at hw
        exact h.worktrees d worktree hw
    checks := by
      intro c hc
      obtain ⟨i, x, hx, hworktree, hdispatch, -⟩ := h.checks c hc
      exact ⟨i, x, hx, hworktree, hdispatch, fun hi => nomatch hnone.symm.trans hi⟩ }

theorem inv_submit (h : Inv s) (hnone : s.awaited = none) (hfresh : isFresh s x = true) (hhere : x.dispatch = s.dispatch) :
    Inv { s with executions := s.executions ++ [x], awaited := some s.executions.length } := by
  have hmem : ∀ {y : Execution Time Content}, y ∈ s.executions → y ∈ s.executions ++ [x] := fun hy => List.mem_append_left _ hy
  have hold : ∀ {i : Nat} {y : Execution Time Content}, s.executions[i]? = some y → (s.executions ++ [x])[i]? = some y :=
    fun hy => (List.getElem?_append_left (List.getElem?_eq_some_iff.mp hy).1).trans hy
  have hother : ∀ {i : Nat} {y : Execution Time Content}, s.executions[i]? = some y →
      ¬(y.executionId = x.executionId ∨ y.worktree = x.worktree) := by
    intro i y hy hsame
    obtain ⟨hid, hworktree⟩ := isFresh_of_mem hfresh (List.mem_of_getElem? hy)
    exact hsame.elim hid hworktree
  have hawaited : ∀ {y : Execution Time Content}, ({ s with executions := s.executions ++ [x], awaited := some s.executions.length } :
      Run Time Content).awaitedExecution = some y → y = x := by
    intro y hy
    simpa [Run.awaitedExecution] using hy.symm
  exact { h with
    ids := by
      intro i j y z hy hz hsame
      rcases getElem?_snoc_cases hy with hyold | ⟨hi, rfl⟩ <;> rcases getElem?_snoc_cases hz with hzold | ⟨hj, rfl⟩
      · exact h.ids i j y z hyold hzold hsame
      · exact absurd hsame (hother hyold)
      · exact absurd (hsame.imp Eq.symm Eq.symm) (hother hzold)
      · exact hi.trans hj.symm
    named := by
      intro y hy
      rcases List.mem_append.mp hy with hyold | hnew
      · exact h.named y hyold
      · rw [List.mem_singleton.mp hnew]
        exact of_decide_eq_true (Bool.and_eq_true_iff.mp hfresh).1
    last := by
      rintro _ ⟨rfl⟩
      simp
    here := by
      intro y hy
      rw [hawaited hy]
      exact hhere
    idle := nofun
    owned := by
      intro y hy
      obtain ⟨hworktree, hbaseline, hsnapshot, habort⟩ := h.idle hnone
      rw [← hhere] at hworktree hbaseline hsnapshot habort
      rw [hawaited hy]
      exact ⟨.inl hworktree, by simp [hbaseline], by simp [hsnapshot], by simp [habort]⟩
    worktrees := by
      intro d worktree hw
      obtain ⟨y, hy, hyw⟩ := h.worktrees d worktree hw
      exact ⟨y, hmem hy, hyw⟩
    checks := by
      intro c hc
      obtain ⟨i, y, hy, hworktree, hdispatch, -⟩ := h.checks c hc
      have hlt := (List.getElem?_eq_some_iff.mp hy).1
      exact ⟨i, y, hold hy, hworktree, hdispatch, fun hi => absurd (Option.some.inj hi) (by omega)⟩
    noted := by
      intro c hc executionId hid
      obtain ⟨y, hy, hyid⟩ := h.noted c hc executionId hid
      exact ⟨y, hmem hy, hyid⟩
    active := by
      intro executionId hid
      obtain ⟨y, hy, hyid⟩ := h.active executionId hid
      exact ⟨y, hmem hy, hyid⟩
    started := by
      intro event hevent
      obtain ⟨y, hy, hyevent⟩ := h.started event hevent
      exact ⟨y, hmem hy, hyevent⟩
    returned := by
      intro i basis hbasis
      obtain ⟨y, hy, hyb⟩ := h.returned i basis hbasis
      exact ⟨y, hold hy, hyb⟩
    spared := by
      intro worktree executionId hhit
      obtain ⟨⟨y, hy, rfl⟩, hspared⟩ := h.spared worktree executionId hhit
      refine ⟨⟨y, hmem hy, rfl⟩, ?_⟩
      intro i j u v hu huw hij hv
      rcases getElem?_snoc_cases hv with hvold | ⟨hj, rfl⟩
      · rcases getElem?_snoc_cases hu with huold | ⟨hi, -⟩
        · exact hspared i j u v huold huw hij hvold
        · have hlt := (List.getElem?_eq_some_iff.mp hvold).1
          omega
      · exact ((isFresh_of_mem hfresh hy).1).symm }

theorem onStart_owned {b : Entries Time Content} (h : Owned x b) : Owned x (onStart x b) := by
  rw [onStart]
  split
  · exact ⟨.inr ⟨rfl, rfl, rfl⟩, h.startBaseline, h.progressSnapshot, h.abortResult⟩
  · exact ⟨h.shows.imp id fun hshows => ⟨hshows.worktree, hshows.subtask, rfl⟩, h.startBaseline, h.progressSnapshot, h.abortResult⟩

theorem onStart_shows {b : Entries Time Content} (h : Shows x b) : Shows x (onStart x b) := by
  rw [onStart]
  split
  · exact ⟨rfl, rfl, rfl⟩
  · exact ⟨h.worktree, h.subtask, rfl⟩

theorem onStart_worktree {b : Entries Time Content} {worktree : String} (h : (onStart x b).worktree = some worktree) :
    x.worktree = worktree ∨ b.worktree = some worktree := by
  rw [onStart] at h
  split at h
  · exact .inl (Option.some.inj h)
  · exact .inr h

theorem inv_start {i : Nat} (h : Inv s) (hi : s.awaited = some i) (hx : s.executions[i]? = some x) :
    Inv (s.setEntries x.dispatch (onStart x (s.entries x.dispatch))) := by
  have hawaited := awaitedExecution_of hi hx
  exact { h with
    idle := fun hnone => nomatch hi.symm.trans hnone
    owned := by
      intro y hy
      obtain rfl : x = y := Option.some.inj (hawaited.symm.trans hy)
      rw [s.setEntries_self]
      exact onStart_owned (h.owned x hawaited)
    worktrees := by
      intro d worktree hw
      by_cases hd : d = x.dispatch
      · subst hd
        rw [s.setEntries_self] at hw
        rcases onStart_worktree hw with hnew | hold
        · exact ⟨x, List.mem_of_getElem? hx, hnew, rfl⟩
        · exact h.worktrees _ worktree hold
      · rw [s.setEntries_of_ne _ hd] at hw
        exact h.worktrees d worktree hw
    checks := by
      intro c hc
      obtain ⟨j, y, hy, hworktree, hdispatch, hfollows⟩ := h.checks c hc
      refine ⟨j, y, hy, hworktree, hdispatch, ?_⟩
      intro hj
      obtain rfl : x = y := Option.some.inj (hawaited.symm.trans (awaitedExecution_of hj hy))
      apply (hfollows hj).mono
      rw [s.setEntries_self]
      exact onStart_shows }

theorem inv_result (h : Inv s) (hx : s.awaitedExecution = some x) :
    Inv { s.setEntries x.dispatch (onResult (s.entries x.dispatch)) with awaited := none } :=
  { h with
    last := nofun
    here := nofun
    idle := by
      intro _
      have hcleared : Idle ((s.setEntries x.dispatch (onResult (s.entries x.dispatch))).entries s.dispatch) := by
        rw [← h.here x hx, s.setEntries_self]
        exact ⟨rfl, rfl, rfl, rfl⟩
      exact hcleared
    owned := nofun
    worktrees := by
      intro d worktree hw
      by_cases hd : d = x.dispatch
      · subst hd
        simp [onResult] at hw
      · simp only [s.setEntries_of_ne _ hd] at hw
        exact h.worktrees d worktree hw
    checks := by
      intro c hc
      obtain ⟨i, y, hy, hworktree, hdispatch, -⟩ := h.checks c hc
      exact ⟨i, y, hy, hworktree, hdispatch, nofun⟩ }

theorem inv_beat {kind : Kind} {worktree : String} (h : Inv s) (hw : (s.entries d).worktree = some worktree) :
    Inv { s with checks := s.checks ++ [⟨kind, d, worktree, .copied⟩] } :=
  { h with
    checks := by
      intro c hc
      rcases List.mem_append.mp hc with hold | hnew
      · exact h.checks c hold
      · obtain rfl := List.mem_singleton.mp hnew
        obtain ⟨x, hx, rfl, rfl⟩ := h.worktrees d worktree hw
        obtain ⟨i, hi⟩ := List.mem_iff_getElem?.mp hx
        refine ⟨i, x, hi, rfl, rfl, ?_⟩
        intro hawaited
        rcases (h.owned x (awaitedExecution_of hawaited hi)).shows with hnone | hshows
        · cases hnone.symm.trans hw
        · exact hshows
    noted := by
      intro c hc
      rcases List.mem_append.mp hc with hold | hnew
      · exact h.noted c hold
      · obtain rfl := List.mem_singleton.mp hnew
        nofun }

theorem inv_poll {i : Nat} (h : Inv s) (hi : s.awaited = some i) (hx : s.awaitedExecution = some x) :
    Inv { s with returned := s.returned ++ ((s.entries x.dispatch).abortResult.map fun basis => (i, basis)).toList } :=
  { h with
    returned := by
      intro j basis hmem
      rcases List.mem_append.mp hmem with hold | hnew
      · exact h.returned j basis hold
      · obtain ⟨kept, hkept, heq⟩ := Option.map_eq_some_iff.mp (Option.mem_toList.mp hnew)
        obtain ⟨rfl, rfl⟩ := Prod.mk.inj heq
        obtain ⟨k, hk, hxk⟩ := awaitedExecution_eq hx
        obtain rfl : i = k := Option.some.inj (hi.symm.trans hk)
        exact ⟨x, hxk, (h.owned x hx).abortResult kept hkept⟩ }

theorem inv_step (h : Inv s) (a : Action Time Content) (ha : isOrderly s a = true) : Inv (step s a) := by
  cases a with
  | dispatch =>
    simp only [step]
    split
    · rename_i hnone
      exact inv_dispatch h (Option.isNone_iff_eq_none.mp hnone)
    · exact h
  | submit x =>
    simp only [step]
    split
    · rename_i hcond
      obtain ⟨hcond, hhere⟩ := Bool.and_eq_true_iff.mp hcond
      obtain ⟨hnone, hfresh⟩ := Bool.and_eq_true_iff.mp hcond
      exact inv_submit h (Option.isNone_iff_eq_none.mp hnone) hfresh (of_decide_eq_true hhere)
    · exact h
  | start i =>
    simp only [step]
    split
    · rename_i x hx
      exact inv_start h (of_decide_eq_true ha) hx
    · exact h
  | mark i =>
    simp only [step]
    split
    · rename_i x hx
      have hmarked : ∀ executionId, some x.executionId = some executionId → ∃ y ∈ s.executions, y.executionId = executionId :=
        fun _ hid => ⟨x, List.mem_of_getElem? hx, Option.some.inj hid⟩
      exact { h with active := hmarked }
    · exact h
  | begin i =>
    simp only [step]
    split
    · rename_i x hx
      have hstarted : ∀ event ∈ s.started ++ [(x.executionId, x.baseline)], ∃ y ∈ s.executions, event = (y.executionId, y.baseline) := by
        intro event hevent
        rcases List.mem_append.mp hevent with hold | hnew
        · exact h.started event hold
        · exact ⟨x, List.mem_of_getElem? hx, List.mem_singleton.mp hnew⟩
      exact { h with started := hstarted }
    · exact h
  | unmark i =>
    simp only [step]
    split
    · split
      · have hnone : ∀ executionId, (none : Option String) = some executionId →
          ∃ y ∈ s.executions, y.executionId = executionId := by
          intro executionId hid
          cases hid
        exact { h with active := hnone }
      · exact h
    · exact h
  | beat d kind =>
    simp only [step]
    split
    · rename_i worktree hw
      split
      · exact inv_beat h hw
      · exact h
    · exact h
  | advance k now found =>
    simp only [step]
    split
    · rename_i c hk
      apply inv_advance h hk
      intro hwrites
      simp only [isOrderly, hk, Option.all_some, hwrites, Bool.not_true, Bool.false_or, Option.any_eq_true, decide_eq_true_eq] at ha
      exact ha
    · exact h
  | quit k =>
    simp only [step]
    split
    · rename_i c hk
      have hc := List.mem_of_getElem? hk
      split
      · exact inv_setStage h hc (fun _ _ _ _ _ => trivial) (fun _ hnoted => by cases hnoted)
      · exact inv_setStage h hc (fun _ _ _ _ _ => trivial) (fun _ hnoted => by cases hnoted)
      · exact inv_endCheck h hc
    · exact h
  | poll =>
    simp only [step]
    split
    · rename_i i x hi hx
      exact inv_poll h hi hx
    · exact h
  | result =>
    simp only [step]
    split
    · rename_i x hx
      exact inv_result h hx
    · exact h
  | finish =>
    simp only [step]
    split
    · exact inv_sameEntries h ⟨rfl, rfl, rfl⟩ rfl rfl rfl
    · exact h

/-- In every run of orderly steps the verdicts hit the execution they looked at. -/
theorem orderly_sound (h : Orderly s) : Sound s := by
  have hinv : Inv s := h.invariant inv_init fun s a hs ha => inv_step hs a ha
  exact hinv.sound

end

/-! ## Two runs -/

def firstAttempt : Execution Nat Nat where
  executionId := "1-100"
  subtaskId := "subtask-1"
  worktree := "worker-1--subtask-1--exec-1-100"
  dispatch := 0
  startedAt := 100
  baseline := ⟨[], fun _ => none⟩

/-- The subtask again, in the next dispatch of the run. -/
def retry : Execution Nat Nat where
  executionId := "1-400"
  subtaskId := "subtask-1"
  worktree := "worker-1--subtask-1--exec-1-400"
  dispatch := 1
  startedAt := 400
  baseline := ⟨["client.py"], fun _ => none⟩

/-- The first attempt runs, and a snapshot thread has found a destructive diff in its worktree. -/
def examinedRun : List (Action Nat Nat) :=
  [.submit firstAttempt, .start 0, .mark 0, .begin 0, .beat 0 .snapshot, .advance 0 200 none,
    .advance 0 200 none, .advance 0 200 none, .advance 0 200 none, .advance 0 200 (some .destructive)]

/-- The verdict is written and returned while the attempt runs. -/
def verdictRun : List (Action Nat Nat) :=
  examinedRun ++ [.advance 0 200 none, .advance 0 200 none, .advance 0 200 none, .advance 0 200 none, .advance 0 200 none, .poll, .result]

theorem orderly_sound_of_verdict : (after step {} verdictRun).returned.length = 1 ∧ Sound (after step {} verdictRun) := by
  have hrun : Orderly (after step {} verdictRun) := Reached.init.after verdictRun (by decide +kernel)
  exact ⟨by decide +kernel, orderly_sound hrun⟩

/-- The attempt ends first; the thread writes when the retry runs. -/
def staleRun : List (Action Nat Nat) :=
  examinedRun ++ [.result, .unmark 0, .finish, .dispatch, .submit retry, .start 1, .mark 1, .begin 1,
    .advance 0 200 none, .advance 0 200 none, .advance 0 200 none, .advance 0 200 none]

/-- The verdict of the first attempt cancels the retry, which is no longer current. -/
theorem retry_cancelled : ¬Sound (after step {} staleRun) ∧ (after step {} staleRun).awaited = some 1 ∧
    (after step {} staleRun).cancelledAttempts = [retry.executionId] ∧
    workerEventAttemptIsCurrent (after step {} staleRun) retry.executionId = false := by
  refine ⟨?_, by decide +kernel, by decide +kernel, by decide +kernel⟩
  intro hsound
  have hhit : (firstAttempt.worktree, retry.executionId) ∈ (after step {} staleRun).hits := by decide +kernel
  exact hsound.spared _ _ hhit 0 1 firstAttempt retry rfl rfl (by decide) rfl rfl

end WorkerAttempts
