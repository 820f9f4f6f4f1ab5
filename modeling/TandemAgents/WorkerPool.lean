import Mathlib.Data.List.Basic
import TandemAgents.EventLog

/-!
# The local worker pool

`_execute_local_worker_pool` runs the subtasks of a plan on worker threads and polls them:
a worker is done, is aborted by its caller, or exceeds the timeout and is judged by the
events it left in `events.jsonl`. What the threads, the caller and the clock do is read
from one round of polling to the next. Where Python raises, `none` or `raised` stands.
-/
namespace WorkerPool

open PythonText JsonData JsonText EventLog

set_option maxRecDepth 20000

/-- What the pool takes from the language besides: `int(value)`, where it returns. -/
structure Values extends Python where
  int : Json → Option Int
  int_int : ∀ n, int (.int n) = some n

/-- A planned subtask, as far as the pool reads it. -/
structure Subtask where
  id : Json
  title : Json
  writeRequired : Option Json
  executionId : Json

/-- `bool(subtask.get("write_required", True))`. -/
def Subtask.writes (t : Subtask) : Bool := (t.writeRequired.map Json.truthy).getD true

/-- A subtask with the number of its worker. -/
abbrev Slot := Subtask × Nat

def workerId (index : Nat) : String := "worker-" ++ toString index

/-- `slugify(f"{index}-{time.time_ns()}", limit=24)`. -/
def executionId (index time : Nat) : String :=
  let slug := stripBy (· = '-') (String.ofList (dashRuns false (toString index ++ "-" ++ toString time).toList))
  orElse (stripBy (· = '-') (String.ofList ((orElse (String.ofList (slug.toList.map asciiLower)) "task").toList.take 24))) "task"

/-- The settings of a pool: the spelling of the timeout, whether there is one, and the names
of the log files. -/
structure Pool where
  py : Values
  floats : Floats
  seconds : String
  timed : Bool
  logPath : String → String

section
variable (p : Pool)

/-- `_normalized_text`. -/
def normalizedText (v : Json) : String := p.py.lower (strip (p.py.text v))

/-- `str(value or "").strip()`. -/
def word (v : Json) : String := strip (p.py.text v)

/-! ## Results -/

/-- `result.setdefault(key, value)`. -/
def setDefault (d : Dict) (key : String) (value : Json) : Dict := if d.contains key then d else d.set key value

/-- The defaults every result of a worker gets. -/
def complete (slot : Slot) (result : Dict) : Dict :=
  let named := setDefault (setDefault (setDefault (setDefault result "worker_id" (.str (workerId slot.2)))
    "subtask_index" (.int slot.2)) "subtask_id" slot.1.id) "title" slot.1.title
  let code := if named.contains "returncode" then named.get "returncode" else .int 1
  let judged := setDefault named "status" (.str (if code.truthy then "failed" else "completed"))
  let coded := setDefault judged "returncode"
    (.int (if normalizedText p (judged.get "status") = "completed" then 0 else 1))
  setDefault (coded.set "write_required" (.bool (slot.1.writes || (coded.get "write_required").truthy)))
    "verified_existing" (.bool false)

/-- What became of a worker: the value it returned, or the text of its exception. -/
inductive Answer where
  | returned (v : Json)
  | raised (message : String)

/-- `_run_one`, behind the worker. -/
def runOne (slot : Slot) : Answer → Dict
  | .returned v => complete p slot (v.asDict.getD [])
  | .raised message => complete p slot
      [("worker_id", .str (workerId slot.2)), ("subtask_index", .int slot.2), ("subtask_id", slot.1.id),
        ("title", slot.1.title), ("status", .str "failed"), ("returncode", .int 1), ("worktree", .str ""),
        ("log_path", .str ""), ("output_excerpt", .str ("Worker execution raised an exception: " ++ message)),
        ("write_required", .bool slot.1.writes), ("verified_existing", .bool false)]

/-! ## A worker that exceeds the timeout -/

/-- A `worker.completed` or `worker.failed` event. -/
structure TerminalEvent where
  completed : Bool
  payload : Dict

def TerminalEvent.execution (e : TerminalEvent) : String := word p (e.payload.get "execution_id")

/-- The event of a line, where it is a terminal one of the worker, its subtask and the
execution the subtask names. -/
def terminalEvent (slot : Slot) (event : Dict) : Option TerminalEvent :=
  let type := word p (event.get "type")
  let payload := (event.get "payload").asDict.getD []
  if type ≠ "worker.completed" ∧ type ≠ "worker.failed" then none
  else if word p (payload.get "worker_id") ≠ workerId slot.2 then none
  else if word p slot.1.id ≠ "" ∧ word p (payload.get "subtask_id") ≠ word p slot.1.id then none
  else if word p slot.1.executionId ≠ "" ∧ word p (payload.get "execution_id") ≠ word p slot.1.executionId then none
  else some ⟨decide (type = "worker.completed"), payload⟩

/-- The loop over the lines; a value without `get` raises. -/
def scanLines (slot : Slot) : List (List Char) → Option TerminalEvent → Option (Option TerminalEvent)
  | [], latest => some latest
  | line :: rest, latest =>
    match loads p.floats line with
    | none => scanLines slot rest latest
    | some (.obj event) => scanLines slot rest ((terminalEvent p slot event).or latest)
    | some _ => none

/-- The event `_terminal_worker_event_result` judges by, of a log that may not exist. -/
def latestEvent (slot : Slot) : Option (List Char) → Option (Option TerminalEvent)
  | none => some none
  | some content => scanLines p slot (splitlines content) none

def copiedKeys : List String :=
  ["partial_diff_artifact", "partial_diff_state", "changed_files", "synced_files", "failure_reason", "blocker_kind",
    "recovery_action", "engine"]

/-- `value not in (None, "", [])`. -/
def filled : Json → Bool
  | .null => false
  | .str s => decide (s ≠ "")
  | .arr items => !items.isEmpty
  | _ => true

/-- The result `_terminal_worker_event_result` builds from an event. -/
def eventResult (slot : Slot) (e : TerminalEvent) : Option Dict := do
  let returncode ← p.py.int ((e.payload.get "returncode").or (.int (if e.completed then 0 else 1)))
  let result : Dict := [("worker_id", .str (workerId slot.2)), ("subtask_index", .int slot.2),
    ("subtask_id", slot.1.id), ("title", slot.1.title),
    ("status", .str (if returncode = 0 then "completed" else "failed")), ("returncode", .int returncode),
    ("worktree", .str ""), ("log_path", .str (p.logPath (workerId slot.2))),
    ("output_excerpt", .str ("Worker emitted a terminal event before the pool timeout fired; " ++
      "ACA used that terminal event instead of recording stale no-progress.")),
    ("write_required", .bool slot.1.writes), ("verified_existing", .bool false)]
  return (copiedKeys.filter (fun key => filled (e.payload.get key))).foldl
    (fun (d : Dict) key => d.set key (e.payload.get key)) result

/-- `_timeout_result`, which its callers give no late result. -/
def timeoutResult (slot : Slot) : Dict :=
  [("worker_id", .str (workerId slot.2)), ("subtask_index", .int slot.2), ("subtask_id", slot.1.id),
    ("title", slot.1.title), ("status", .str "failed"), ("returncode", .int 1), ("worktree", .str ""),
    ("log_path", .str (p.logPath (workerId slot.2))),
    ("output_excerpt", .str ("Worker produced no terminal result within " ++ p.seconds ++
      "s. ACA blocked the run instead of leaving it in worker_execution.")),
    ("failure_reason", .str ("Worker produced no terminal result within " ++ p.seconds ++ "s.")),
    ("blocker_kind", .str "worker_no_progress"),
    ("recovery_action",
      .str "Inspect the worker log and engine run state, then retry after fixing the stalled worker path."),
    ("write_required", .bool slot.1.writes), ("verified_existing", .bool false)]

/-- The no-progress failure, of a worker that did not start or of one that is abandoned. -/
def noProgress (slot : Slot) (cancelled : Bool) : Dict :=
  if cancelled then timeoutResult p slot
  else ((timeoutResult p slot).set "worker_abandoned_after_timeout" (.bool true)).set "recovery_action"
    (.str ("Inspect the worker log and engine run state. ACA did not wait for the stuck worker thread, " ++
      "so the repair loop can continue or block cleanly."))

/-- `_timed_out_worker_result`, from the event that is used. -/
def timedOutWorkerResult (slot : Slot) (cancelled : Bool) : Option TerminalEvent → Option Dict
  | some event => eventResult p slot event
  | none => some (noProgress p slot cancelled)

/-! ## Polling -/

/-- How a result came about. -/
inductive Source where
  | worker
  | aborted
  | timedOut (log : Option (List Char)) (cancelled : Bool) (used : Option TerminalEvent)

/-- A recorded result, with the subtask it is recorded for. -/
structure Entry where
  slot : Slot
  source : Source
  result : Dict

/-- What a round of polling sees, by the number of a worker: the futures that are done when
they are looked through, the answers of `abort_result`, whether the deadline has passed,
`events.jsonl`, the futures that can still be cancelled, and those done behind the wait. A
set is looked through in an order of its own. -/
structure Round where
  order : List Slot → List Slot
  done : Nat → Bool
  abort : Nat → Option Dict
  late : Bool
  log : Nat → Option (List Char)
  cancelled : Nat → Bool
  waited : Nat → Bool
  perm : ∀ slots, (order slots).Perm slots

/-- The answer of `abort_result`, where it is true. -/
def Round.answer (r : Round) (index : Nat) : Option Dict := (r.abort index).filter (fun d => !d.isEmpty)

/-- A call of the pool that returns, raises, or is still polling. -/
inductive Run (α : Type) where
  | returned (a : α)
  | raised
  | polling

def Run.bind {α β : Type} : Run α → (α → Run β) → Run β
  | .returned a, f => f a
  | .raised, _ => .raised
  | .polling, _ => .polling

def Run.ofOption {α : Type} : Option α → Run α
  | some a => .returned a
  | none => .raised

/-- What the workers do, and the rounds of each polling loop. -/
structure Env where
  answers : Nat → Answer
  rounds : Nat → Nat → Round

variable (env : Env)

/-- `_record_future_result`, whose defaults `_run_one` has already set. -/
def futureEntry (slot : Slot) : Entry := ⟨slot, .worker, complete p slot (runOne p slot (env.answers slot.2))⟩

def abortEntry (slot : Slot) (answer : Dict) : Entry := ⟨slot, .aborted, answer⟩

def timeoutEntry (r : Round) (slot : Slot) : Option Entry := do
  let used ← latestEvent p slot (r.log slot.2)
  let result ← timedOutWorkerResult p slot (r.cancelled slot.2) used
  return ⟨slot, .timedOut (r.log slot.2) (r.cancelled slot.2) used, result⟩

/-! ## One worker at a time -/

/-- The polling of one worker. -/
def watch (rounds : Nat → Round) (slot : Slot) : Nat → Nat → Run Entry
  | 0, _ => .polling
  | fuel + 1, n =>
    match (rounds n).answer slot.2 with
    | some answer => .returned (abortEntry slot answer)
    | none =>
      if p.timed && (rounds n).late then .ofOption (timeoutEntry p (rounds n) slot)
      else if (rounds n).waited slot.2 then .returned ⟨slot, .worker, runOne p slot (env.answers slot.2)⟩
      else watch rounds slot fuel (n + 1)

/-- `_worker_result_has_reviewable_synced_diff`. -/
def hasReviewableSyncedDiff (result : Dict) : Option Bool := do
  if normalizedText p (result.get "status") ≠ "completed" then
    if (← p.py.int ((result.get "returncode").or (.int 0))) ≠ 0 then return false
  if word p (result.get "partial_diff_state") ≠ "reviewable_terminalized" then return false
  return match result.get "synced_files" with
    | .arr files => files.any (fun path => decide (word p path ≠ ""))
    | _ => false

/-- `_has_reviewable_synced_worker_result`, which stops at the first. -/
def hasReviewableSyncedWorkerResult : List Dict → Option Bool
  | [] => some false
  | result :: rest => do
    if ← hasReviewableSyncedDiff p result then return true
    hasReviewableSyncedWorkerResult rest

/-- `_worker_failure_is_inherited_overlay_no_fresh_changes`. -/
def inheritedOverlay (result : Dict) : Option Bool := do
  if normalizedText p (result.get "status") ≠ "failed" then
    if (← p.py.int ((result.get "returncode").or (.int 0))) = 0 then return false
  if word p (result.get "failure_reason") = "WORKER_INHERITED_OVERLAY_NO_FRESH_CHANGES" then return true
  return match result.get "fresh_changed_files" with
    | .arr [] => (result.get "inherited_overlay_changed_files").truthy
    | _ => false

/-- A failed result that is not excused. -/
def unresolved (synced : Bool) (result : Dict) : Option Bool := do
  if normalizedText p (result.get "status") ≠ "failed" then return false
  if let .bool false := result.get "write_required" then return false
  if (result.get "verified_existing").truthy then return false
  if synced then
    if ← inheritedOverlay p result then return false
  return true

/-- The loop of `_has_unresolved_write_required_worker_failure`. -/
def anyUnresolved (synced : Bool) : List Dict → Option Bool
  | [] => some false
  | result :: rest => do
    if ← unresolved p synced result then return true
    anyUnresolved synced rest

/-- `_has_unresolved_write_required_worker_failure`. -/
def hasUnresolvedFailure (results : List Dict) : Option Bool := do
  anyUnresolved p (← hasReviewableSyncedWorkerResult p results) results

/-- The loop over the subtasks. -/
def serialPool (fuel : Nat) : List Slot → Run (List Entry)
  | [] => .returned []
  | slot :: rest =>
    (watch p env (env.rounds slot.2) slot fuel 0).bind fun entry =>
      (Run.ofOption (hasUnresolvedFailure p [entry.result])).bind fun failed =>
        if failed then .returned [entry] else (serialPool fuel rest).bind fun entries => .returned (entry :: entries)

/-! ## Many workers -/

/-- The pending futures and the results recorded. -/
structure State where
  pending : List Slot
  results : List Entry

/-- The futures a flag is set of are recorded and leave the pending ones. -/
def sift (r : Round) (taken : Nat → Bool) (entry : Slot → Entry) (s : State) : State :=
  ⟨(r.order s.pending).filter (fun slot => !taken slot.2),
    s.results ++ ((r.order s.pending).filter (fun slot => taken slot.2)).map entry⟩

/-- The futures that are done. -/
def takeDone (r : Round) (s : State) : State := sift r r.done (futureEntry p env) s

/-- The futures their caller aborts. -/
def takeAborted (r : Round) (s : State) : State :=
  sift r (fun index => (r.answer index).isSome) (fun slot => abortEntry slot ((r.answer slot.2).getD [])) s

/-- All that are left, at the deadline. -/
def takeLate (r : Round) (s : State) : Option State := do
  let entries ← (r.order s.pending).mapM (timeoutEntry p r)
  return ⟨[], s.results ++ entries⟩

/-- The futures done behind the wait. -/
def takeWaited (r : Round) (s : State) : State := sift r r.waited (futureEntry p env) s

/-- A round: the loop is over, or goes on. -/
inductive Turn where
  | over (run : Run (List Entry))
  | next (s : State)

def pollRound (r : Round) (s : State) : Turn :=
  let s := takeDone p env r s
  if s.pending = [] then .over (.returned s.results)
  else
    let s := takeAborted r s
    if s.pending = [] then .over (.returned s.results)
    else if p.timed && r.late then .over ((Run.ofOption (takeLate p r s)).bind fun s => .returned s.results)
    else .next (takeWaited p env r s)

def pollLoop (rounds : Nat → Round) : Nat → Nat → State → Run (List Entry)
  | 0, _, _ => .polling
  | fuel + 1, n, s =>
    if s.pending = [] then .returned s.results
    else
      match pollRound p env (rounds n) s with
      | .over run => run
      | .next s => pollLoop rounds fuel (n + 1) s

/-- The subtasks with the numbers of their workers. -/
def slots (pendingSubtasks : List Subtask) : List Slot := pendingSubtasks.zipIdx 1

/-- `_execute_local_worker_pool`; a loop that is still polling behind `fuel` rounds is cut
off. -/
def executeLocalWorkerPool (workerLimit : Int) (pendingSubtasks : List Subtask) (fuel : Nat) : Run (List Entry) :=
  if pendingSubtasks = [] then .returned []
  else if workerLimit ≤ 1 then serialPool p env fuel (slots pendingSubtasks)
  else pollLoop p env (env.rounds 0) fuel 0 ⟨slots pendingSubtasks, []⟩

end
end WorkerPool
