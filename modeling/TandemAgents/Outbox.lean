import Mathlib.Data.List.Sort
import TandemAgents.CoordinationStore
import TandemAgents.DedupeTable
import TandemAgents.GuardedRuns
import TandemAgents.Statements

/-!
# The outbox and its dispatchers

The operations on the outbox, and any number of dispatcher ticks at work on it. A
tick is taken apart where other statements can come between: behind the `SELECT` of
each of its two transactions, around each external dispatch, and behind the `SELECT`
of the operation that settles an item. Under SQLite the two halves of a transaction
follow each other at once.
-/
namespace Outbox

open KeyedTable PythonText CoordinationStore Statements Statements.Prog

set_option maxRecDepth 20000

def defaultOutboxStaleAfterSeconds : Int := 300
def defaultOutboxMaxAttempts : Nat := 5

inductive OutboxStatus where
  | pending | processing | dispatched | failed
  deriving DecidableEq, Repr

/-- A row of `outbox`; the payload is the text of `payload_json`. -/
structure OutboxRow where
  id : Nat
  kind : String
  aggregateType : String
  aggregateId : String
  payload : String
  status : OutboxStatus
  attempts : Nat
  nextAttemptAtMs : Int
  lastError : Option String
  createdAtMs : Int
  updatedAtMs : Int
  dedupeKey : Option String
  deriving DecidableEq

abbrev OutboxTable := DedupeTable Nat OutboxRow OutboxRow.id OutboxRow.dedupeKey

/-- Programs over the outbox; a row is named by its id. -/
abbrev OutboxSql := Prog OutboxTable Nat

/-- The keyword arguments of `enqueue_outbox`. -/
structure Message where
  kind : String
  aggregateType : String
  aggregateId : String
  payload : String
  dedupeKey : Option String := none

/-- The row an enqueue inserts. -/
def Message.row (now : Int) (id : Nat) (x : Message) : OutboxRow where
  id := id
  kind := x.kind
  aggregateType := x.aggregateType
  aggregateId := x.aggregateId
  payload := x.payload
  status := .pending
  attempts := 0
  nextAttemptAtMs := now
  lastError := none
  createdAtMs := now
  updatedAtMs := now
  dedupeKey := x.dedupeKey

namespace OutboxRow

/-- The `DO UPDATE` of an enqueue. -/
def requeue (now : Int) (payload : String) (r : OutboxRow) : OutboxRow :=
  { r with payload := payload, status := .pending, nextAttemptAtMs := now, updatedAtMs := now, lastError := none }

/-- The `UPDATE` of a claim, with the attempts counted from the row it read. -/
def claim (now : Int) (attempts : Nat) (r : OutboxRow) : OutboxRow :=
  { r with status := .processing, attempts := attempts, updatedAtMs := now, lastError := none }

/-- A row as a claim returns it. -/
def claimed (now : Int) (r : OutboxRow) : OutboxRow :=
  { r with status := .processing, attempts := r.attempts + 1, updatedAtMs := now }

def complete (now : Int) (r : OutboxRow) : OutboxRow :=
  { r with status := .dispatched, updatedAtMs := now, lastError := none }

/-- A terminal retry. -/
def fail (now : Int) (error : String) (r : OutboxRow) : OutboxRow :=
  { r with status := .failed, updatedAtMs := now, lastError := some error }

def postpone (now nextAttempt : Int) (error : String) (r : OutboxRow) : OutboxRow :=
  { r with status := .pending, nextAttemptAtMs := nextAttempt, updatedAtMs := now, lastError := some error }

/-- The `UPDATE` of the stale-claim sweep. -/
def release (now : Int) (r : OutboxRow) : OutboxRow :=
  { r with
    status := .pending, nextAttemptAtMs := now, updatedAtMs := now,
    lastError := some (r.lastError.getD "processing claim expired") }

section
variable (now next : Int) (payload error : String) (n : Nat) (r : OutboxRow)

@[simp] theorem requeue_id : (r.requeue now payload).id = r.id := rfl
@[simp] theorem requeue_dedupeKey : (r.requeue now payload).dedupeKey = r.dedupeKey := rfl
@[simp] theorem requeue_payload : (r.requeue now payload).payload = payload := rfl
@[simp] theorem claim_id : (r.claim now n).id = r.id := rfl
@[simp] theorem claim_dedupeKey : (r.claim now n).dedupeKey = r.dedupeKey := rfl
@[simp] theorem claim_payload : (r.claim now n).payload = r.payload := rfl
@[simp] theorem claimed_id : (r.claimed now).id = r.id := rfl
@[simp] theorem claimed_payload : (r.claimed now).payload = r.payload := rfl
@[simp] theorem complete_id : (r.complete now).id = r.id := rfl
@[simp] theorem complete_dedupeKey : (r.complete now).dedupeKey = r.dedupeKey := rfl
@[simp] theorem complete_payload : (r.complete now).payload = r.payload := rfl
@[simp] theorem fail_id : (r.fail now error).id = r.id := rfl
@[simp] theorem fail_dedupeKey : (r.fail now error).dedupeKey = r.dedupeKey := rfl
@[simp] theorem fail_payload : (r.fail now error).payload = r.payload := rfl
@[simp] theorem postpone_id : (r.postpone now next error).id = r.id := rfl
@[simp] theorem postpone_dedupeKey : (r.postpone now next error).dedupeKey = r.dedupeKey := rfl
@[simp] theorem postpone_payload : (r.postpone now next error).payload = r.payload := rfl
@[simp] theorem release_id : (r.release now).id = r.id := rfl
@[simp] theorem release_dedupeKey : (r.release now).dedupeKey = r.dedupeKey := rfl
@[simp] theorem release_payload : (r.release now).payload = r.payload := rfl
end

end OutboxRow

/-! ## Operations -/

/-- `enqueue_outbox`, with the id the database draws for the row. -/
def enqueueOutbox (now : Int) (id : Nat) (x : Message) : OutboxSql (Option OutboxRow) := do
  insertRow (fun s => id :: ((s.holder x.dedupeKey).map (·.id)).toList)
    (fun s => s.insert (x.row now id) (OutboxRow.requeue now x.payload) (OutboxRow.requeue_id now x.payload)
      (OutboxRow.requeue_dedupeKey now x.payload))
  get (fun s =>
    let found := match x.dedupeKey with
      | some k => s.rows.filter (fun r => decide (r.dedupeKey = some k))
      | none => s.rows.filter (fun r => decide (r.dedupeKey = none ∧ r.kind = x.kind ∧ r.aggregateId = x.aggregateId))
    let latest := fun (rows : List OutboxRow) => (rows.insertionSort (fun a b => b.id ≤ a.id)).head?
    (latest found).orElse (fun _ => latest s.rows))

/-- A transaction that selects rows, updates them one by one and returns them. -/
def updateSelected (select : OutboxTable → List OutboxRow) (f : OutboxRow → OutboxTable → OutboxTable)
    (result : OutboxRow → OutboxRow) : OutboxSql (List OutboxRow) := do
  beginTransaction
  let rows ← get select
  forEach (fun row => update (fun _ => [row.id]) (f row)) rows
  commitTransaction
  return rows.map result

/-- The rows `claim_pending_outbox` selects. -/
def pendingRows (now limit : Int) (s : OutboxTable) : List OutboxRow :=
  ((s.rows.filter (fun r => decide (r.status = .pending ∧ r.nextAttemptAtMs ≤ now))).insertionSort
    (fun a b => a.id ≤ b.id)).take (max 1 limit).toNat

theorem mem_pendingRows {now limit : Int} {s : OutboxTable} {r : OutboxRow} (h : r ∈ pendingRows now limit s) :
    s.find? r.id = some r ∧ r.status = .pending := by
  have hmem := List.mem_of_mem_take h
  rw [(List.perm_insertionSort _ _).mem_iff, List.mem_filter, decide_eq_true_eq] at hmem
  exact ⟨DedupeTable.mem_rows.mp hmem.1, hmem.2.1⟩

/-- The `UPDATE` of a claim for a row it selected. -/
def claimRow (now : Int) (row : OutboxRow) (s : OutboxTable) : OutboxTable :=
  s.modify row.id (OutboxRow.claim now (row.attempts + 1)) (OutboxRow.claim_id now _) (OutboxRow.claim_dedupeKey now _)

theorem find?_claimRow (now : Int) (row : OutboxRow) (s : OutboxTable) (id : Nat) : (claimRow now row s).find? id =
    if id = row.id then (s.find? id).map (OutboxRow.claim now (row.attempts + 1)) else s.find? id :=
  DedupeTable.find?_modify ..

/-- `claim_pending_outbox`. -/
def claimPendingOutbox (now limit : Int) : OutboxSql (List OutboxRow) :=
  updateSelected (pendingRows now limit) (claimRow now) (OutboxRow.claimed now)

def getOutbox (id : Nat) : OutboxSql (Option OutboxRow) := get (fun s => s.find? id)

def completeRow (now : Int) (id : Nat) (s : OutboxTable) : OutboxTable :=
  s.modify id (OutboxRow.complete now) (OutboxRow.complete_id now) (OutboxRow.complete_dedupeKey now)

/-- `complete_outbox`: it looks at nothing but the id. -/
def completeOutbox (now : Int) (id : Nat) : OutboxSql (Option OutboxRow) := do
  match ← getOutbox id with
  | none => return none
  | some row =>
    update (fun _ => [id]) (completeRow now id)
    return some row

/-- The seconds until the next attempt. -/
def waitSeconds (attempts : Nat) (delaySeconds : Option Int) : Int :=
  max 1 (delaySeconds.getD (min 300 (max 5 (attempts * 5))))

/-- The `UPDATE` of a retry, with the attempts of the row it read. -/
def retryRow (now : Int) (id attempts : Nat) (error : String) (terminal : Bool) (delaySeconds : Option Int)
    (s : OutboxTable) : OutboxTable :=
  if terminal then
    s.modify id (OutboxRow.fail now error) (OutboxRow.fail_id now error) (OutboxRow.fail_dedupeKey now error)
  else
    s.modify id (OutboxRow.postpone now (now + waitSeconds attempts delaySeconds * 1000) error)
      (OutboxRow.postpone_id now _ error) (OutboxRow.postpone_dedupeKey now _ error)

/-- `retry_outbox`. -/
def retryOutbox (now : Int) (id : Nat) (error : String) (terminal : Bool) (delaySeconds : Option Int) :
    OutboxSql (Option OutboxRow) := do
  match ← getOutbox id with
  | none => return none
  | some row =>
    update (fun _ => [id]) (retryRow now id row.attempts error terminal delaySeconds)
    return some row

/-- The rows `reap_stale_outbox_claims` selects. -/
def staleClaims (now staleAfterSeconds : Int) (s : OutboxTable) : List OutboxRow :=
  (s.rows.filter (fun r => decide (r.status = .processing ∧
    r.updatedAtMs ≤ now - secondsToMs defaultOutboxStaleAfterSeconds staleAfterSeconds))).insertionSort
      (fun a b => a.id ≤ b.id)

def releaseRow (now : Int) (row : OutboxRow) (s : OutboxTable) : OutboxTable :=
  s.modify row.id (OutboxRow.release now) (OutboxRow.release_id now) (OutboxRow.release_dedupeKey now)

theorem find?_releaseRow (now : Int) (row : OutboxRow) (s : OutboxTable) (id : Nat) : (releaseRow now row s).find? id =
    if id = row.id then (s.find? id).map (OutboxRow.release now) else s.find? id := DedupeTable.find?_modify ..

/-- `reap_stale_outbox_claims`. -/
def reapStaleOutboxClaims (now staleAfterSeconds : Int) : OutboxSql (List OutboxRow) :=
  updateSelected (staleClaims now staleAfterSeconds) (releaseRow now) id

/-- What became of the dispatch of an item. -/
inductive DispatchResult where
  | dispatched
  | failed (terminal : Bool) (error : String)
  /-- The dispatch or its connector raised. -/
  | raised (error : String)
  deriving DecidableEq

/-- The retry the dispatcher asks for, if the item was not dispatched. -/
def DispatchResult.retry (item : OutboxRow) : DispatchResult → Option (String × Bool)
  | .dispatched => none
  | .failed terminal error => some (orElse (strip error) "outbox dispatch failed", terminal)
  | .raised error => some (orElse (strip error) "outbox dispatch raised an exception",
      decide (defaultOutboxMaxAttempts ≤ item.attempts))

/-- How the dispatcher settles an item. -/
def settleOutbox (now : Int) (item : OutboxRow) (result : DispatchResult) : OutboxSql (Option OutboxRow) :=
  match result.retry item with
  | none => completeOutbox now item.id
  | some (error, terminal) => retryOutbox now item.id error terminal none

/-- The `UPDATE` that settles an item, behind a `SELECT` that found `row`. -/
def settleRow (now : Int) (item row : OutboxRow) (result : DispatchResult) (s : OutboxTable) : OutboxTable :=
  match result.retry item with
  | none => completeRow now item.id s
  | some (error, terminal) => retryRow now item.id row.attempts error terminal none s

/-! ## Dispatchers next to the writers -/

/-- Where a dispatcher tick is: before a transaction, behind the `SELECT` of its
stale-claim sweep or of its claim, with a batch to dispatch, with an item to settle,
or behind the `SELECT` of that. -/
inductive Stage where
  | ready
  | reaping (rows : List OutboxRow)
  | claiming (rows : List OutboxRow)
  | working (todo : List OutboxRow)
  | settling (item : OutboxRow) (result : DispatchResult) (todo : List OutboxRow)
  | writing (item row : OutboxRow) (result : DispatchResult) (todo : List OutboxRow)

/-- The outbox, the ticks under way, and the payloads sent so far under their row ids. -/
structure Run where
  outbox : OutboxTable
  ticks : List Stage
  sent : List (Nat × String)

def Run.empty : Run := ⟨.empty, [], []⟩

inductive Event where
  | enqueue (now : Int) (id : Nat) (x : Message)
  | startTick
  | reapSelect (now staleAfterSeconds : Int) (tick : Nat)
  | reapCommit (now : Int) (tick : Nat)
  | claimSelect (now limit : Int) (tick : Nat)
  | claimCommit (now : Int) (tick : Nat)
  | dispatch (result : DispatchResult) (tick : Nat)
  | settleSelect (tick : Nat)
  | settleUpdate (now : Int) (tick : Nat)

/-- What a statement does to the tick that makes it, to the outbox and to what was sent. -/
structure Effect where
  stage : Stage
  outbox : OutboxTable
  sent : List (Nat × String)

namespace Stage

/-- The rows a tick holds that it will complete, or may. -/
def inHand : Stage → List OutboxRow
  | ready => []
  | reaping _ => []
  | claiming rows => rows
  | working todo => todo
  | settling item result todo => if result = .dispatched then item :: todo else todo
  | writing item _ result todo => if result = .dispatched then item :: todo else todo

/-- A statement of a tick, where it can make it. -/
def next (s : OutboxTable) (sent : List (Nat × String)) : Event → Stage → Option Effect
  | .reapSelect now after _, ready => some ⟨reaping (staleClaims now after s), s, sent⟩
  | .reapCommit now _, reaping rows => some ⟨ready, rows.foldl (fun s row => releaseRow now row s) s, sent⟩
  | .claimSelect now limit _, ready => some ⟨claiming (pendingRows now limit s), s, sent⟩
  | .claimCommit now _, claiming rows =>
    some ⟨working (rows.map (OutboxRow.claimed now)), rows.foldl (fun s row => claimRow now row s) s, sent⟩
  | .dispatch result _, working (item :: todo) =>
    some ⟨settling item result todo, s, if result = .dispatched then sent ++ [(item.id, item.payload)] else sent⟩
  | .settleSelect _, settling item result todo =>
    match s.find? item.id with
    | none => some ⟨working todo, s, sent⟩
    | some row => some ⟨writing item row result todo, s, sent⟩
  | .settleUpdate now _, writing item row result todo =>
    some ⟨working todo, settleRow now item row result s, sent⟩
  | _, _ => none

end Stage

/-- The tick an event belongs to. -/
def Event.tick : Event → Option Nat
  | .enqueue _ _ _ => none
  | .startTick => none
  | .reapSelect _ _ i => some i
  | .reapCommit _ i => some i
  | .claimSelect _ _ i => some i
  | .claimCommit _ i => some i
  | .dispatch _ i => some i
  | .settleSelect i => some i
  | .settleUpdate _ i => some i

def Run.step (h : Run) (e : Event) : Run :=
  match e with
  | .enqueue now id x => { h with outbox := ((enqueueOutbox now id x).run h.outbox).2 }
  | .startTick => { h with ticks := h.ticks ++ [.ready] }
  | e =>
    match e.tick with
    | none => h
    | some i =>
      match (h.ticks[i]?).bind (Stage.next h.outbox h.sent e) with
      | none => h
      | some ⟨stage, outbox, sent⟩ => ⟨outbox, h.ticks.set i stage, sent⟩

/-- A step of a tick. -/
theorem Run.step_tick {h : Run} {e : Event} {i : Nat} (he : e.tick = some i) : h.step e =
    ((h.ticks[i]?).bind (Stage.next h.outbox h.sent e)).elim h
      (fun x => ⟨x.outbox, h.ticks.set i x.stage, x.sent⟩) := by
  cases e with
  | enqueue now id x => cases he
  | startTick => cases he
  | _ =>
    cases he
    simp only [step, Event.tick]
    cases (h.ticks[i]?).bind (Stage.next h.outbox h.sent _) <;> rfl

/-! ## The operations run alone -/

theorem run_enqueueOutbox (now : Int) (id : Nat) (x : Message) (s : OutboxTable) :
    ((enqueueOutbox now id x).run s).2 =
      (s.insert (x.row now id) (OutboxRow.requeue now x.payload) (OutboxRow.requeue_id now x.payload)
        (OutboxRow.requeue_dedupeKey now x.payload)).getD s := by
  have hp : (enqueueOutbox now id x).Plain :=
    Plain.bind (p := insertRow _ _) (fun _ => trivial) fun _ => fun _ => trivial
  rw [run_plain hp, enqueueOutbox, insertRow, exec_bind, eff_exec]
  cases s.insert (x.row now id) (OutboxRow.requeue now x.payload) (OutboxRow.requeue_id now x.payload)
      (OutboxRow.requeue_dedupeKey now x.payload) <;> rfl

theorem run_updateSelected (select : OutboxTable → List OutboxRow) (f : OutboxRow → OutboxTable → OutboxTable)
    (result : OutboxRow → OutboxRow) (s : OutboxTable) :
    (updateSelected select f result).run s =
      (some ((select s).map result), (select s).foldl (fun s row => f row s) s) := by
  have hp : (forEach (fun row => update (fun _ => [row.id]) (f row)) (select s) : OutboxSql Unit).Plain :=
    Plain.forEach (fun row => show (update (fun _ => [row.id]) (f row)).Plain from fun _ => trivial) (select s)
  have hloop : (forEach (fun row => update (fun _ => [row.id]) (f row)) (select s) : OutboxSql Unit).eff s =
      (some (), (select s).foldl (fun s row => f row s) s) :=
    eff_forEach _ (fun row s => f row s) (fun _ _ => rfl) (select s) s
  have hgo : (updateSelected select f result).go ⟨s, none⟩ =
      (some ((select s).map result), ⟨(select s).foldl (fun s row => f row s) s, none⟩) :=
    go_plain_bind hp (fun _ => commitTransaction >>= fun _ => ret ((select s).map result))
      (c := ⟨s, some s⟩) hloop
  rw [run, hgo]

/-- Alone, a claim is the two halves the ticks are made of. -/
theorem run_claimPendingOutbox (now limit : Int) (s : OutboxTable) :
    (claimPendingOutbox now limit).run s = (some ((pendingRows now limit s).map (OutboxRow.claimed now)),
      (pendingRows now limit s).foldl (fun s row => claimRow now row s) s) :=
  run_updateSelected (pendingRows now limit) (claimRow now) (OutboxRow.claimed now) s

theorem run_reapStaleOutboxClaims (now staleAfterSeconds : Int) (s : OutboxTable) :
    (reapStaleOutboxClaims now staleAfterSeconds).run s = (some (staleClaims now staleAfterSeconds s),
      (staleClaims now staleAfterSeconds s).foldl (fun s row => releaseRow now row s) s) := by
  rw [reapStaleOutboxClaims, run_updateSelected, List.map_id]

/-- Alone, an item is settled in the two halves the ticks are made of. -/
theorem run_settleOutbox (now : Int) (item : OutboxRow) (result : DispatchResult) (s : OutboxTable) :
    (settleOutbox now item result).run s = match s.find? item.id with
      | none => (some none, s)
      | some row => (some (some row), settleRow now item row result s) := by
  unfold settleOutbox settleRow
  cases result.retry item with
  | none =>
    simp only [completeOutbox, getOutbox, run, go_get_bind]
    cases h : s.find? item.id <;> simp only [Conn.view, Option.getD_none, h] <;> rfl
  | some q =>
    simp only [retryOutbox, getOutbox, run, go_get_bind]
    cases h : s.find? item.id <;> simp only [Conn.view, Option.getD_none, h] <;> rfl

end Outbox
