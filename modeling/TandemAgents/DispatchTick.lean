import Mathlib.Algebra.Ring.Int.Defs
import Mathlib.Algebra.Ring.Nat
import Mathlib.Data.List.Perm.Subperm
import TandemAgents.OutboxOutcomes
import TandemAgents.PullRequests

/-!
# The accounts of a dispatcher tick

A tick settles each row of its batch once, where every reply names the row it is the
reply to. It takes the row's id from the reply; and while a row that raised is given up
after its last attempt, a reply decides itself whether it is the last.
-/
namespace DispatchTick

open KeyedTable PythonText JsonData PullRequests CoordinationStore Statements Outbox OutboxOutcomes

set_option maxRecDepth 20000

/-! ## Dispatching an item -/

/-- What the dispatches take from elsewhere: the payload of a row, `dict(value)` of what is no
dictionary, the comment texts, and the calls to GitHub and Linear, each of which may raise; a
warning that is empty is none. -/
structure Remote where
  payload : OutboxRow → Dict
  dict : Json → Except String Dict
  issueCommentBody : Dict → Dict → String
  linearCommentBody : Dict → Dict → String
  updateProjectItemStatus : Dict → String → Except String String
  addIssueComment : Dict → String → Except String String
  createPullRequestMetadata : Dict → String → String → String → Except String Dict
  linearUpdateIssue : Dict → Dict → Except String String
  linearAddComment : Dict → String → Except String String
  linearCommentMarkerPresent : Dict → String → Except String Bool

/-- The reply to an item. -/
def reply (kind : String) (payload : Dict) (row : OutboxRow) (status : String) (terminal : Bool) (error : String)
    (more : Dict) : Dict :=
  [("outbox_id", .int row.id), ("kind", .str kind), ("payload", .obj payload), ("status", .str status),
    ("terminal", .bool terminal), ("error", .str error)] ++ more

section
variable (py : Runtime) (q : Remote) (row : OutboxRow)

def failedReply (error : String) (more : Dict) : Dict :=
  reply row.kind (q.payload row) row "failed" true error more

def dispatchedReply (more : Dict) : Dict :=
  reply row.kind (q.payload row) row "dispatched" false "" more

/-- The reply to a call that answered with a warning. -/
def warned (warning : String) : Dict := if warning ≠ "" then failedReply q row warning [] else dispatchedReply q row []

/-- `dict(payload.get("task") or {})`. -/
def taskOf : Except String Dict :=
  let task := (q.payload row).get "task"
  if task.truthy then task.asDict.elim (q.dict task) .ok else .ok []

/-- `value in (None, "")`. -/
def blank : Json → Bool
  | .null => true
  | .str s => decide (s = "")
  | _ => false

/-- The task, with the run of the payload if it has none. -/
def taskWithRun : Except String Dict := do
  let task ← taskOf q row
  let runId := (q.payload row).get "run_id"
  return if !blank runId && blank (task.get "run_id") then task.set "run_id" runId else task

def field (key : String) : String := strip (py.text ((q.payload row).get key))

/-- `_dispatch_status_update`. -/
def dispatchStatusUpdate : Except String Dict := do
  let task ← taskOf q row
  let payload := q.payload row
  let targetStatus := strip (py.text ((payload.get "target_status").or (payload.get "status_name")))
  if targetStatus = "" then
    return failedReply q row "Outbox payload missing target_status for GitHub Project status update." []
  return warned q row (← q.updateProjectItemStatus task targetStatus)

/-- `_dispatch_issue_comment`. -/
def dispatchIssueComment : Except String Dict := do
  let task ← taskWithRun q row
  let body := orElse (field py q row "body") (q.issueCommentBody (q.payload row) task)
  if strip body = "" then
    return failedReply q row "Outbox payload missing comment body." []
  return warned q row (← q.addIssueComment task body)

/-- `_dispatch_pull_request_create`. -/
def dispatchPullRequestCreate : Except String Dict := do
  let task ← taskWithRun q row
  let headBranch := field py q row "head_branch"
  let title := field py q row "title"
  if headBranch = "" ∨ title = "" then
    return failedReply q row "Outbox payload missing PR head branch or title." []
  let pullRequest ← q.createPullRequestMetadata task headBranch title (field py q row "body")
  let prUrl := strip (py.text (pullRequest.get "url"))
  if prUrl = "" then
    let detail := strip (py.text (pullRequest.get "error"))
    let error := "Pull request creation returned no URL."
    return failedReply q row (if detail = "" then error else error ++ " " ++ detail) [("pull_request", .obj pullRequest)]
  return dispatchedReply q row [("pr_url", .str prUrl), ("pull_request", .obj pullRequest)]

/-- The fields a Linear issue is updated with. -/
def linearFields (targetStatus : String) (labels : Json) : Dict :=
  let clean := ((labels.asList.getD []).map (fun l => strip (py.str l))).filter (fun l => decide (l ≠ ""))
  (if targetStatus = "" then [] else
    [("status", .str targetStatus), ("state", .str targetStatus), ("state_name", .str targetStatus)]) ++
  (if clean = [] then [] else [("labels", .arr (clean.map .str)), ("label_names", .arr (clean.map .str))])

/-- `_dispatch_linear_status_update`. -/
def dispatchLinearStatusUpdate : Except String Dict := do
  let task ← taskOf q row
  let payload := q.payload row
  let targetStatus := strip (py.text ((payload.get "target_status").or (payload.get "status")))
  let fields := linearFields py targetStatus (payload.get "labels")
  if fields.isEmpty then
    return failedReply q row "Outbox payload missing target_status or labels for Linear issue update." []
  return warned q row (← q.linearUpdateIssue task fields)

/-- `_dispatch_linear_comment`. -/
def dispatchLinearComment : Except String Dict := do
  let task ← taskWithRun q row
  let body := orElse (field py q row "body") (q.linearCommentBody (q.payload row) task)
  if strip body = "" then
    return failedReply q row "Outbox payload missing Linear comment body." []
  let warning ← q.linearAddComment task body
  if warning ≠ "" then
    return failedReply q row warning []
  let marker := field py q row "run_id"
  if marker ≠ "" then
    if !(← q.linearCommentMarkerPresent task marker) then
      return failedReply q row
        "Linear comment creation could not be verified by reading the run marker back from Linear." []
  return dispatchedReply q row []

/-- `dispatch_outbox_item`. -/
def dispatchOutboxItem : Except String Dict :=
  let kind := strip row.kind
  if kind = "github_project.status_update" then dispatchStatusUpdate py q row
  else if kind = "github_issue.comment" then dispatchIssueComment py q row
  else if kind = "github_pull_request.create" then dispatchPullRequestCreate py q row
  else if kind = "linear_issue.status_update" then dispatchLinearStatusUpdate py q row
  else if kind = "linear_issue.comment" then dispatchLinearComment py q row
  else .ok (reply kind (q.payload row) row "failed" true ("Unsupported outbox kind: " ++ orElse kind "unknown") [])

end

/-! ## The tick -/

/-- The operations that settle a row. -/
inductive Op where
  | complete
  | retry (terminal : Bool)
  deriving DecidableEq, Repr

/-- A call of `complete_outbox` or of `retry_outbox`. -/
structure Call where
  op : Op
  id : Int
  error : String := ""
  deriving DecidableEq, Repr

/-- What the call does to the outbox; no row has a negative id. -/
def Call.run (now : Int) (c : Call) (s : OutboxTable) : OutboxTable :=
  match c.id.toNat?, c.op with
  | none, _ => s
  | some id, .complete => ((completeOutbox now id).run s).2
  | some id, .retry terminal => ((retryOutbox now id c.error terminal none).run s).2

/-- An entry of `items`: the one a raised row gets, or the reply itself. -/
inductive Item where
  | raised (row : OutboxRow) (terminal : Bool) (error : String)
  | reply (result : Dict)

/-- The outbox, the calls made so far, the counters and the items. -/
structure Tick where
  outbox : OutboxTable
  calls : List Call := []
  dispatched : Nat := 0
  retried : Nat := 0
  failed : Nat := 0
  items : List Item := []

def Tick.settle (now : Int) (c : Call) (item : Item) (t : Tick) : Tick where
  outbox := c.run now t.outbox
  calls := t.calls ++ [c]
  dispatched := t.dispatched + if c.op = .complete then 1 else 0
  retried := t.retried + if c.op = .retry false then 1 else 0
  failed := t.failed + if c.op = .retry true then 1 else 0
  items := t.items ++ [item]

/-- What a tick meets: the exception with which connecting `"github"` or `"linear"` ends, if it
does; the exception or the reply of a dispatch; and the time at which a row is settled. -/
structure Meets where
  connect : String → Option String
  dispatch : OutboxRow → Except String Dict
  settledAt : OutboxRow → Int

/-- `_outbox_connector`. -/
def outboxConnector (kind : String) : String :=
  if "github_".toList.isPrefixOf kind.toList then "github"
  else if "linear_".toList.isPrefixOf kind.toList then "linear"
  else ""

/-- The connectors the batch needs and cannot have. -/
def connectorErrors (m : Meets) (claimed : List OutboxRow) : List (String × String) :=
  [("github", "Failed to connect GitHub MCP server"), ("linear", "Failed to connect Linear MCP server")].filterMap
    fun (connector, default) =>
      if claimed.any (fun row => decide (outboxConnector row.kind = connector)) then
        (m.connect connector).map (fun e => (connector, orElse (strip e) default))
      else none

/-- `retry_claimed_outbox`. -/
def retryClaimedOutbox (row : OutboxRow) (error : String) : Call × Item :=
  let terminal := decide (defaultOutboxMaxAttempts ≤ row.attempts)
  (⟨.retry terminal, row.id, error⟩, .raised row terminal error)

/-- An integer SQLite takes as a parameter. -/
def bound (n : Int) : Option Int := if -2 ^ 63 ≤ n ∧ n < 2 ^ 63 then some n else none

/-- `int(result.get("outbox_id") or 0)` as the parameter of a statement; either may raise. -/
def replyId (py : Runtime) (result : Dict) : Option Int := (py.int ((result.get "outbox_id").or (.int 0))).bind bound

/-- `str(result.get("status") or "").strip().lower() == "dispatched"`. -/
def isDispatched (py : Runtime) (result : Dict) : Bool :=
  decide (py.lower (strip (py.text (result.get "status"))) = "dispatched")

/-- The operation a reply asks for. -/
def replyOp (py : Runtime) (result : Dict) : Op :=
  if isDispatched py result then .complete else .retry (result.get "terminal").truthy

/-- The call that settles a row, unless reading the reply raises. -/
def settlement (py : Runtime) (m : Meets) (errors : List (String × String)) (row : OutboxRow) : Option (Call × Item) :=
  match errors.lookup (outboxConnector row.kind) with
  | some error => some (retryClaimedOutbox row error)
  | none =>
    match m.dispatch row with
    | .error e => some (retryClaimedOutbox row (orElse (strip e) "outbox dispatch raised an exception"))
    | .ok result => (replyId py result).map fun id =>
      (⟨replyOp py result, id, orElse (strip (py.text (result.get "error"))) "outbox dispatch failed"⟩, .reply result)

/-- The loop over the batch; the flag says that it raised. -/
def settleAll (py : Runtime) (m : Meets) (errors : List (String × String)) : List OutboxRow → Tick → Tick × Bool
  | [], t => (t, false)
  | row :: rows, t =>
    match settlement py m errors row with
    | none => (t, true)
    | some (c, item) => settleAll py m errors rows (t.settle (m.settledAt row) c item)

structure Summary where
  reaped : Nat
  claimed : Nat
  dispatched : Nat := 0
  retried : Nat := 0
  failed : Nat := 0
  items : List Item := []

/-- The times of a tick and its `limit`. -/
structure Asked where
  reapedAt : Int
  claimedAt : Int
  limit : Int

/-- The outbox behind the sweep, behind the claim, and the rows claimed. -/
def reapedOutbox (a : Asked) (o : OutboxTable) : OutboxTable :=
  ((reapStaleOutboxClaims a.reapedAt defaultOutboxStaleAfterSeconds).run o).2

def claimedRows (a : Asked) (o : OutboxTable) : List OutboxRow :=
  ((claimPendingOutbox a.claimedAt a.limit).run (reapedOutbox a o)).1.getD []

def claimedOutbox (a : Asked) (o : OutboxTable) : OutboxTable :=
  ((claimPendingOutbox a.claimedAt a.limit).run (reapedOutbox a o)).2

/-- `dispatch_outbox_tick`: what it returns, if it does not raise, and how far it came. -/
def dispatchOutboxTick (py : Runtime) (m : Meets) (a : Asked) (o : OutboxTable) : Option Summary × Tick :=
  let reaped := (((reapStaleOutboxClaims a.reapedAt defaultOutboxStaleAfterSeconds).run o).1.getD []).length
  let claimed := claimedRows a o
  if claimed = [] then (some { reaped := reaped, claimed := 0 }, { outbox := claimedOutbox a o })
  else
    let (t, raised) := settleAll py m (connectorErrors m claimed) claimed { outbox := claimedOutbox a o }
    (if raised then none else
      some ⟨reaped, claimed.length, t.dispatched, t.retried, t.failed, t.items⟩, t)

/-! ## What the loop does -/

section
variable {py : Runtime} {m : Meets} {errors : List (String × String)}

/-- The state the calls leave a row in. -/
def Op.status : Op → OutboxStatus
  | .complete => .dispatched
  | .retry true => .failed
  | .retry false => .pending

theorem run_completeOutbox (now : Int) (id : Nat) (s : OutboxTable) : ((completeOutbox now id).run s).2 =
    match s.find? id with
    | none => s
    | some _ => completeRow now id s := by
  simp only [completeOutbox, getOutbox, Prog.run, Prog.go_get_bind, Prog.Conn.view, Option.getD_none]
  cases s.find? id <;> rfl

theorem run_retryOutbox (now : Int) (id : Nat) (error : String) (terminal : Bool) (delaySeconds : Option Int)
    (s : OutboxTable) : ((retryOutbox now id error terminal delaySeconds).run s).2 =
      match s.find? id with
      | none => s
      | some row => retryRow now id row.attempts error terminal delaySeconds s := by
  simp only [retryOutbox, getOutbox, Prog.run, Prog.go_get_bind, Prog.Conn.view, Option.getD_none]
  cases s.find? id <;> rfl

/-- An update of one row, as far as states go. -/
theorem status_modify (s : OutboxTable) (i id : Nat) (f : OutboxRow → OutboxRow) (hf : ∀ r, (f r).id = r.id)
    (hd : ∀ r, (f r).dedupeKey = r.dedupeKey) {status : OutboxStatus} (hs : ∀ r, (f r).status = status) :
    ((s.modify i f hf hd).find? id).map (·.status) =
      if i = id then (s.find? id).map (fun _ => status) else (s.find? id).map (·.status) := by
  rw [DedupeTable.find?_modify]
  by_cases h : id = i
  · rw [if_pos h, if_pos h.symm, Option.map_map]
    exact congrArg (fun g => (s.find? id).map g) (funext hs)
  · rw [if_neg h, if_neg (Ne.symm h)]

/-- A call changes the state of the row it names, to the one of its operation. -/
theorem status_run (now : Int) (c : Call) (s : OutboxTable) (id : Nat) :
    ((c.run now s).find? id).map (·.status) =
      if c.id = id then (s.find? id).map (fun _ => c.op.status) else (s.find? id).map (·.status) := by
  obtain ⟨op, n, error⟩ := c
  cases n with
  | negSucc k =>
    have hneg : ¬ Int.negSucc k = (id : Int) := by omega
    rw [if_neg hneg]
    cases op <;> rfl
  | ofNat i =>
    have hid : (Int.ofNat i = (id : Int)) ↔ i = id := Int.ofNat_inj
    simp only [hid, Call.run, Int.toNat?]
    cases hrow : s.find? i with
    | none =>
      have hgone : i = id → s.find? id = none := fun h => h ▸ hrow
      cases op <;> simp only [run_completeOutbox, run_retryOutbox, hrow] <;> by_cases h : i = id <;> simp [h, hgone]
    | some row =>
      cases op with
      | complete =>
        simp only [run_completeOutbox, hrow, completeRow]
        exact status_modify s i id _ _ _ fun _ => rfl
      | retry terminal =>
        simp only [run_retryOutbox, hrow, retryRow]
        cases terminal
        · exact status_modify s i id _ _ _ fun _ => rfl
        · exact status_modify s i id _ _ _ fun _ => rfl

/-! ## The books of the loop -/

/-- Every call is counted once and has its item, and the rows the calls name are released. -/
structure Books (t : Tick) : Prop where
  counted : t.dispatched + t.retried + t.failed = t.calls.length
  listed : t.items.length = t.calls.length
  released : ∀ c ∈ t.calls, ∀ id : Nat, c.id = id → (t.outbox.find? id).map (·.status) ≠ some .processing

theorem Op.status_ne (op : Op) : op.status ≠ .processing := by
  rcases op with _ | ⟨_ | _⟩ <;> decide

theorem Books.settle {t : Tick} (h : Books t) (now : Int) (c : Call) (item : Item) : Books (t.settle now c item) where
  counted := by
    have hcounted := h.counted
    rcases hop : c.op with _ | ⟨_ | _⟩ <;> simp [Tick.settle, hop] <;> omega
  listed := by simp [Tick.settle, h.listed]
  released := by
    intro b hb id hid
    simp only [Tick.settle, status_run]
    split
    · cases t.outbox.find? id with
      | none => simp
      | some row => simpa using c.op.status_ne
    · rename_i hne
      rcases List.mem_append.mp hb with hold | hnew
      · exact h.released b hold id hid
      · rw [List.mem_singleton.mp hnew] at hid
        exact absurd hid hne

theorem books_settleAll {t : Tick} (h : Books t) (rows : List OutboxRow) : Books (settleAll py m errors rows t).1 := by
  induction rows generalizing t with
  | nil => exact h
  | cons row rows ih =>
    rw [settleAll]
    cases settlement py m errors row with
    | none => exact h
    | some x => exact ih (h.settle _ _ _)

/-- The call that settles a row. -/
def callFor (py : Runtime) (m : Meets) (errors : List (String × String)) (row : OutboxRow) : Option Call :=
  (settlement py m errors row).map (·.1)

theorem raised_settleAll (rows : List OutboxRow) (t : Tick) :
    (settleAll py m errors rows t).2 = rows.any (fun row => (callFor py m errors row).isNone) := by
  induction rows generalizing t with
  | nil => rfl
  | cons row rows ih =>
    rw [settleAll, List.any_cons, callFor]
    cases settlement py m errors row with
    | none => rfl
    | some x => simpa using ih _

theorem calls_settleAll {rows : List OutboxRow} {t : Tick} (h : (settleAll py m errors rows t).2 = false) :
    (settleAll py m errors rows t).1.calls.map some = t.calls.map some ++ rows.map (callFor py m errors) := by
  induction rows generalizing t with
  | nil => simp [settleAll]
  | cons row rows ih =>
    rw [settleAll] at h ⊢
    rw [List.map_cons, callFor]
    cases hrow : settlement py m errors row with
    | none => simp [hrow] at h
    | some x =>
      simp only [hrow] at h
      have hcalls : (t.settle (m.settledAt row) x.1 x.2).calls = t.calls ++ [x.1] := rfl
      simp [ih h, hcalls]

/-! ## The row a settlement names -/

/-- The reply to a row, where its connector is there and its dispatch does not raise. -/
def replied (m : Meets) (errors : List (String × String)) (row : OutboxRow) : Option Dict :=
  if (errors.lookup (outboxConnector row.kind)).isSome then none else (m.dispatch row).toOption

/-- The id under which a row is settled: the one in the reply, or without one its own. -/
def named (py : Runtime) (m : Meets) (errors : List (String × String)) (row : OutboxRow) : Option Int :=
  match replied m errors row with
  | some result => replyId py result
  | none => some row.id

/-- What the call for a row is. -/
theorem callFor_spec (row : OutboxRow) :
    (replied m errors row = none ∧ ∃ error, callFor py m errors row =
      some ⟨.retry (decide (defaultOutboxMaxAttempts ≤ row.attempts)), row.id, error⟩) ∨
    ∃ result, replied m errors row = some result ∧ callFor py m errors row = (replyId py result).map fun id =>
      ⟨replyOp py result, id, orElse (strip (py.text (result.get "error"))) "outbox dispatch failed"⟩ := by
  unfold callFor settlement replied
  cases errors.lookup (outboxConnector row.kind) with
  | some error => exact .inl ⟨by simp, error, rfl⟩
  | none =>
    cases hrow : m.dispatch row with
    | error e => exact .inl ⟨by simp [Except.toOption], _, rfl⟩
    | ok result => exact .inr ⟨result, by simp [Except.toOption], by simp [Function.comp_def]⟩

theorem id_callFor (row : OutboxRow) : (callFor py m errors row).map (·.id) = named py m errors row := by
  rcases @callFor_spec py m errors row with ⟨hnone, error, hcall⟩ | ⟨result, hsome, hcall⟩
  · rw [hcall, named, hnone]
    rfl
  · rw [hcall, named, hsome]
    simp [Function.comp_def]

end

/-! ## The accounts of a tick -/

/-- The claimed rows are settled once each and released, the numbers agree, and no row without
attempts left is put back. -/
structure Accounted (claimed : List OutboxRow) (o : OutboxTable) (answer : Option Summary × Tick) : Prop where
  once : ∀ r ∈ claimed, answer.2.calls.countP (fun c => decide (c.id = (r.id : Int))) = 1
  released : ∀ r ∈ claimed, (answer.2.outbox.find? r.id).map (·.status) ≠ some .processing
  balanced : ∃ summary, answer.1 = some summary ∧ summary.claimed = claimed.length ∧
    summary.claimed = summary.dispatched + summary.retried + summary.failed ∧ summary.claimed = summary.items.length
  bounded : ∀ c ∈ answer.2.calls, c.op = .retry false → ∀ id : Nat, c.id = id →
    ∀ row, o.find? id = some row → row.attempts < defaultOutboxMaxAttempts

/-- The rows are settled under their own ids, in some order, and no reply asks for another attempt
for a row that has none left. -/
structure RepliesFit (py : Runtime) (m : Meets) (errors : List (String × String)) (claimed : List OutboxRow) : Prop where
  own : (claimed.map (named py m errors)).Perm (claimed.map (fun r => some (r.id : Int)))
  last : ∀ r ∈ claimed, ∀ result ∈ replied m errors r, replyOp py result = .retry false →
    ∀ r' ∈ claimed, replyId py result = some (r'.id : Int) → r'.attempts < defaultOutboxMaxAttempts

theorem claimedRows_eq (a : Asked) (o : OutboxTable) : claimedRows a o =
    (pendingRows a.claimedAt a.limit (reapedOutbox a o)).map (OutboxRow.claimed a.claimedAt) := by
  rw [claimedRows, run_claimPendingOutbox]
  rfl

theorem nodup_claimedRows (a : Asked) (o : OutboxTable) : ((claimedRows a o).map (·.id)).Nodup := by
  rw [claimedRows_eq, List.map_map]
  exact nodup_pendingRows a.claimedAt a.limit (reapedOutbox a o)

/-- A claimed row stands in the outbox with its attempts. -/
theorem find?_claimedOutbox {a : Asked} {o : OutboxTable} {r : OutboxRow} (hr : r ∈ claimedRows a o) :
    ∃ row, (claimedOutbox a o).find? r.id = some row ∧ row.attempts = r.attempts := by
  rw [claimedRows_eq] at hr
  obtain ⟨x, hx, rfl⟩ := List.mem_map.mp hr
  refine ⟨x.claim a.claimedAt (x.attempts + 1), ?_, rfl⟩
  rw [claimedOutbox, run_claimPendingOutbox]
  exact find?_claims a.claimedAt (nodup_pendingRows _ _ _) hx (mem_pendingRows hx).1

section
variable {py : Runtime} {m : Meets} {errors : List (String × String)} {claimed : List OutboxRow} {o : OutboxTable}

/-- The rows are claimed ones: ids of their own, and as they stand in the outbox. -/
structure Claimed (claimed : List OutboxRow) (o : OutboxTable) : Prop where
  nodup : (claimed.map (·.id)).Nodup
  found : ∀ r ∈ claimed, ∃ row, o.find? r.id = some row ∧ row.attempts = r.attempts

/-- The tick of a batch. -/
def tickOf (py : Runtime) (m : Meets) (errors : List (String × String)) (claimed : List OutboxRow) (o : OutboxTable) :
    Tick × Bool := settleAll py m errors claimed { outbox := o }

theorem books_tickOf : Books (tickOf py m errors claimed o).1 :=
  books_settleAll ⟨rfl, rfl, fun _ hc => by cases hc⟩ claimed

theorem calls_tickOf (h : (tickOf py m errors claimed o).2 = false) :
    (tickOf py m errors claimed o).1.calls.map some = claimed.map (callFor py m errors) :=
  calls_settleAll h

theorem ids_tickOf (h : (tickOf py m errors claimed o).2 = false) :
    (tickOf py m errors claimed o).1.calls.map (fun c => some c.id) = claimed.map (named py m errors) := by
  have hmap := congrArg (List.map (Option.map Call.id)) (calls_tickOf h)
  simpa [Function.comp_def, id_callFor] using hmap

theorem length_tickOf (h : (tickOf py m errors claimed o).2 = false) :
    (tickOf py m errors claimed o).1.calls.length = claimed.length := by
  simpa using congrArg List.length (calls_tickOf h)

/-- A tick whose replies all name a row does not raise. -/
theorem not_raised (h : ∀ r ∈ claimed, named py m errors r ≠ none) : (tickOf py m errors claimed o).2 = false := by
  rw [tickOf, raised_settleAll, List.any_eq_false]
  intro r hr hnone
  apply h r hr
  rw [← id_callFor, Option.isNone_iff_eq_none.mp hnone, Option.map_none]

/-- What the loop owes to the rows of its batch. -/
structure Settled (claimed : List OutboxRow) (o : OutboxTable) (t : Tick) : Prop where
  once : ∀ r ∈ claimed, t.calls.countP (fun c => decide (c.id = (r.id : Int))) = 1
  bounded : ∀ c ∈ t.calls, c.op = .retry false → ∀ id : Nat, c.id = id →
    ∀ row, o.find? id = some row → row.attempts < defaultOutboxMaxAttempts

theorem nodup_intIds (hn : (claimed.map (·.id)).Nodup) : (claimed.map (fun r => (r.id : Int))).Nodup := by
  have hinj : Function.Injective (fun i : Nat => (i : Int)) := fun i j hij => Int.ofNat_inj.mp hij
  simpa [List.map_map, Function.comp_def] using hn.map hinj

/-- Settled once each, the rows of the batch are exactly the ones the calls name. -/
theorem perm_of_once {calls : List Call} (hn : (claimed.map (·.id)).Nodup) (hl : calls.length = claimed.length)
    (h : ∀ r ∈ claimed, calls.countP (fun c => decide (c.id = (r.id : Int))) = 1) :
    (claimed.map (fun r => (r.id : Int))).Perm (calls.map (·.id)) := by
  have hnodup := nodup_intIds hn
  have hsub : claimed.map (fun r => (r.id : Int)) ⊆ calls.map (·.id) := by
    intro i hi
    obtain ⟨r, hr, rfl⟩ := List.mem_map.mp hi
    obtain ⟨c, hc, hid⟩ := List.countP_pos_iff.mp (by rw [h r hr]; exact Nat.one_pos)
    exact List.mem_map.mpr ⟨c, hc, by simpa using hid⟩
  exact (List.subperm_of_subset hnodup hsub).perm_of_length_le (by simp [hl])

theorem once_of_perm {calls : List Call} (hn : (claimed.map (·.id)).Nodup)
    (h : (claimed.map (fun r => (r.id : Int))).Perm (calls.map (·.id))) :
    ∀ r ∈ claimed, calls.countP (fun c => decide (c.id = (r.id : Int))) = 1 := by
  intro r hr
  have hnodup := nodup_intIds hn
  have hcount := List.count_eq_one_of_mem (h.nodup_iff.mp hnodup) (h.subset (List.mem_map_of_mem hr))
  rw [List.count, List.countP_map] at hcount
  rw [← hcount]
  exact List.countP_congr fun c _ => by simp

/-- The loop does not raise and settles its batch, exactly if the replies fit. -/
theorem settled_iff (hc : Claimed claimed o) :
    ((tickOf py m errors claimed o).2 = false ∧ Settled claimed o (tickOf py m errors claimed o).1) ↔
      RepliesFit py m errors claimed := by
  constructor
  · rintro ⟨hraised, hs⟩
    refine ⟨?_, ?_⟩
    · have hperm := (perm_of_once hc.nodup (length_tickOf hraised) hs.once).map some
      rw [List.map_map, List.map_map] at hperm
      rw [← ids_tickOf hraised]
      exact hperm.symm
    · intro r hr result hresult hop r' hr' hid
      rcases @callFor_spec py m errors r with ⟨hnone, _⟩ | ⟨result', hsome, hcall⟩
      · simp [hnone] at hresult
      · obtain rfl : result' = result := by simpa [hsome] using hresult
        rw [hid] at hcall
        have hmem := List.mem_map_of_mem (f := callFor py m errors) hr
        rw [← calls_tickOf (o := o) hraised, hcall] at hmem
        obtain ⟨c, hmem, hceq⟩ := List.mem_map.mp hmem
        obtain rfl := Option.some.inj hceq
        obtain ⟨row, hrow, hattempts⟩ := hc.found r' hr'
        rw [← hattempts]
        exact hs.bounded _ hmem hop r'.id rfl row hrow
  · intro hfit
    have hraised : (tickOf py m errors claimed o).2 = false := by
      apply not_raised
      intro r hr hnone
      have hmem := hfit.own.subset (List.mem_map_of_mem hr)
      simp [hnone] at hmem
    have hperm : (claimed.map (fun r => (r.id : Int))).Perm ((tickOf py m errors claimed o).1.calls.map (·.id)) := by
      have hown := hfit.own
      rw [← ids_tickOf hraised] at hown
      have hsome : ((claimed.map (fun r => (r.id : Int))).map some).Perm
          (((tickOf py m errors claimed o).1.calls.map (·.id)).map some) := by
        simpa [Function.comp_def] using hown.symm
      exact (List.map_perm_map_iff (Option.some_injective Int)).mp hsome
    refine ⟨hraised, once_of_perm hc.nodup hperm, ?_⟩
    intro c hmem hop id hid row hrow
    -- the call names a claimed row, whose attempts are the ones in the outbox
    obtain ⟨r', hr', hid'⟩ := List.mem_map.mp (hperm.symm.subset (List.mem_map_of_mem hmem))
    obtain ⟨row', hrow', hattempts'⟩ := hc.found r' hr'
    have hsame : r'.id = id := by omega
    rw [hsame, hrow] at hrow'
    obtain rfl := Option.some.inj hrow'
    rw [hattempts']
    have hfor := List.mem_map_of_mem (f := some) hmem
    rw [calls_tickOf hraised] at hfor
    obtain ⟨r, hr, hcall⟩ := List.mem_map.mp hfor
    rcases @callFor_spec py m errors r with ⟨hnone, error, hraise⟩ | ⟨result, hsome, hreply⟩
    · rw [hraise] at hcall
      obtain rfl := Option.some.inj hcall
      have hterminal : ¬ defaultOutboxMaxAttempts ≤ r.attempts := by simpa using hop
      have hrr : r = r' := List.inj_on_of_nodup_map hc.nodup hr hr' (Int.ofNat_inj.mp hid'.symm)
      rw [← hrr]
      omega
    · rw [hreply] at hcall
      obtain ⟨n, hn, rfl⟩ := Option.map_eq_some_iff.mp hcall
      exact hfit.last r hr result hsome hop r' hr' (by rw [hn, hid'])

end

section
variable (py : Runtime) (m : Meets) (a : Asked) (o : OutboxTable)

theorem claimed_tick : Claimed (claimedRows a o) (claimedOutbox a o) :=
  ⟨nodup_claimedRows a o, fun _ hr => find?_claimedOutbox hr⟩

/-- The batch of a tick, in the connectors it needs. -/
abbrev tickLoop : Tick × Bool :=
  tickOf py m (connectorErrors m (claimedRows a o)) (claimedRows a o) (claimedOutbox a o)

theorem accounted_iff_settled : Accounted (claimedRows a o) (claimedOutbox a o) (dispatchOutboxTick py m a o) ↔
    (tickLoop py m a o).2 = false ∧ Settled (claimedRows a o) (claimedOutbox a o) (tickLoop py m a o).1 := by
  have hbooks : Books (tickLoop py m a o).1 := books_tickOf
  unfold dispatchOutboxTick
  by_cases hempty : claimedRows a o = []
  · rw [if_pos hempty]
    simp only [tickLoop, tickOf, hempty, settleAll, true_and]
    refine ⟨fun _ => ⟨by simp, by simp⟩, fun _ => ⟨by simp, by simp, ⟨_, rfl, by simp⟩, by simp⟩⟩
  · rw [if_neg hempty]
    change Accounted _ _ (if (tickLoop py m a o).2 then none else some _, (tickLoop py m a o).1) ↔ _
    constructor
    · intro h
      obtain ⟨summary, hsummary, _⟩ := h.balanced
      refine ⟨?_, h.once, h.bounded⟩
      by_contra hraised
      simp [hraised] at hsummary
    · rintro ⟨hraised, hs⟩
      have hlength := length_tickOf hraised
      refine ⟨hs.once, ?_, ⟨_, by simp only [hraised]; rfl, rfl, ?_, ?_⟩, hs.bounded⟩
      · intro r hr
        obtain ⟨c, hc, hid⟩ := List.countP_pos_iff.mp (by rw [hs.once r hr]; exact Nat.one_pos)
        exact hbooks.released c hc r.id (of_decide_eq_true hid)
      · exact hlength.symm.trans hbooks.counted.symm
      · exact hlength.symm.trans hbooks.listed.symm

/-- The accounts of a tick are right for every batch, connector error and exception, exactly if the
replies fit. -/
theorem accounted_iff : Accounted (claimedRows a o) (claimedOutbox a o) (dispatchOutboxTick py m a o) ↔
    RepliesFit py m (connectorErrors m (claimedRows a o)) (claimedRows a o) :=
  (accounted_iff_settled py m a o).trans (settled_iff (claimed_tick a o))

end

/-! ## The replies of the dispatcher itself -/

/-- A reply under the id of its row, that is no failure to be tried again. -/
def OwnReply (row : OutboxRow) (result : Dict) : Prop :=
  result.get "outbox_id" = .int row.id ∧
    ((result.get "terminal").truthy = true ∨ result.get "status" = .str "dispatched")

section
variable {py : Runtime} {q : Remote} {row : OutboxRow}

/-- What is returned, if anything, has a property. -/
def Yields (P : Dict → Prop) (p : Except String Dict) : Prop := ∀ result, p = .ok result → P result

theorem Yields.ok {P : Dict → Prop} {result : Dict} (h : P result) : Yields P (.ok result) := by
  rintro _ ⟨⟩
  exact h

theorem Yields.bind {P : Dict → Prop} {α : Type} {p : Except String α} {f : α → Except String Dict}
    (h : ∀ x, Yields P (f x)) : Yields P (p >>= f) := by
  intro result hresult
  cases p with
  | error e => cases hresult
  | ok x => exact h x result hresult

section
variable {P : Dict → Prop} (hfailed : ∀ error more, P (failedReply q row error more))
  (hdispatched : ∀ more, P (dispatchedReply q row more))
include hfailed hdispatched

theorem yields_warned (warning : String) : Yields P (.ok (warned q row warning)) := by
  apply Yields.ok
  unfold warned
  split
  · exact hfailed warning []
  · exact hdispatched []

theorem yields_statusUpdate : Yields P (dispatchStatusUpdate py q row) := by
  apply Yields.bind
  intro task
  dsimp only
  split
  · exact Yields.ok (hfailed _ _)
  · exact Yields.bind fun warning => yields_warned hfailed hdispatched warning

theorem yields_issueComment : Yields P (dispatchIssueComment py q row) := by
  apply Yields.bind
  intro task
  dsimp only
  split
  · exact Yields.ok (hfailed _ _)
  · exact Yields.bind fun warning => yields_warned hfailed hdispatched warning

theorem yields_pullRequestCreate : Yields P (dispatchPullRequestCreate py q row) := by
  apply Yields.bind
  intro task
  dsimp only
  split
  · exact Yields.ok (hfailed _ _)
  · apply Yields.bind
    intro pullRequest
    split
    · exact Yields.ok (hfailed _ _)
    · exact Yields.ok (hdispatched _)

theorem yields_linearStatusUpdate : Yields P (dispatchLinearStatusUpdate py q row) := by
  apply Yields.bind
  intro task
  dsimp only
  split
  · exact Yields.ok (hfailed _ _)
  · exact Yields.bind fun warning => yields_warned hfailed hdispatched warning

theorem yields_linearComment : Yields P (dispatchLinearComment py q row) := by
  apply Yields.bind
  intro task
  dsimp only
  split
  · exact Yields.ok (hfailed _ _)
  · apply Yields.bind
    intro warning
    split
    · exact Yields.ok (hfailed _ _)
    · split
      · apply Yields.bind
        intro present
        split
        · exact Yields.ok (hfailed _ _)
        · exact Yields.ok (hdispatched _)
      · exact Yields.ok (hdispatched _)

/-- Every reply is one of the two kinds, or that of an unknown row. -/
theorem yields_dispatchOutboxItem
    (hunknown : ∀ error, P (reply (strip row.kind) (q.payload row) row "failed" true error [])) :
    Yields P (dispatchOutboxItem py q row) := by
  unfold dispatchOutboxItem
  dsimp only
  split_ifs
  · exact yields_statusUpdate hfailed hdispatched
  · exact yields_issueComment hfailed hdispatched
  · exact yields_pullRequestCreate hfailed hdispatched
  · exact yields_linearStatusUpdate hfailed hdispatched
  · exact yields_linearComment hfailed hdispatched
  · exact Yields.ok (hunknown _)

end

/-- What is returned, if anything, is a reply of that kind. -/
def Replies (row : OutboxRow) (p : Except String Dict) : Prop := ∀ result, p = .ok result → OwnReply row result

theorem replies_dispatchOutboxItem (py : Runtime) (q : Remote) (row : OutboxRow) :
    Replies row (dispatchOutboxItem py q row) :=
  yields_dispatchOutboxItem (P := OwnReply row) (fun _ _ => ⟨rfl, .inl rfl⟩) (fun _ => ⟨rfl, .inr rfl⟩) fun _ =>
    ⟨rfl, .inl rfl⟩

/-- `int(result.get("outbox_id") or 0)` of a reply under the row's id, where SQLite gave that id. -/
theorem replyId_own (hint : ∀ n, py.int (.int n) = some n) {result : Dict} (h : OwnReply row result)
    (hid : row.id < 2 ^ 63) : replyId py result = some (row.id : Int) := by
  have hor : (Json.int row.id).or (.int 0) = .int row.id := by
    by_cases h0 : row.id = 0 <;> simp [Json.or, Json.truthy, h0]
  rw [replyId, h.1, hor, hint, Option.bind_some, bound, if_pos]
  omega

theorem replyOp_own (hlower : py.lower "dispatched" = "dispatched") {result : Dict} (h : OwnReply row result) :
    replyOp py result ≠ .retry false := by
  unfold replyOp isDispatched
  rcases h.2 with hterminal | hstatus
  · split <;> simp [hterminal]
  · have hstrip : strip "dispatched" = "dispatched" := by decide
    have htext : py.text (.str "dispatched") = "dispatched" := rfl
    simp [hstatus, htext, hstrip, hlower]

/-- With the replies of `dispatch_outbox_item` the accounts are right in every tick. -/
theorem own_dispatch_accounted (hint : ∀ n, py.int (.int n) = some n) (hlower : py.lower "dispatched" = "dispatched")
    (m : Meets) (hm : m.dispatch = dispatchOutboxItem py q) (a : Asked) (o : OutboxTable)
    (hids : ∀ r ∈ claimedRows a o, r.id < 2 ^ 63) :
    Accounted (claimedRows a o) (claimedOutbox a o) (dispatchOutboxTick py m a o) := by
  have hown : ∀ errors r, ∀ result ∈ replied m errors r, OwnReply r result := by
    intro errors r result hresult
    unfold replied at hresult
    split at hresult
    · cases hresult
    · rw [hm] at hresult
      apply replies_dispatchOutboxItem py q r
      cases hd : dispatchOutboxItem py q r with
      | error e => simp [hd, Except.toOption] at hresult
      | ok x =>
        simp only [hd, Except.toOption, Option.mem_some_iff] at hresult
        rw [hresult]
  rw [accounted_iff_settled, settled_iff (claimed_tick a o)]
  constructor
  · refine List.Perm.of_eq (List.map_congr_left fun r hr => ?_)
    unfold named
    cases hreply : replied m (connectorErrors m (claimedRows a o)) r with
    | none => rfl
    | some result => exact replyId_own hint (hown _ r result hreply) (hids r hr)
  · intro r hr result hresult hop
    exact absurd hop (replyOp_own hlower (hown _ r result hresult))

end

/-! ## Replies that do not fit -/

/-- A comment that was tried four times already. -/
def comment : OutboxRow where
  id := 1
  kind := "github_issue.comment"
  aggregateType := "task"
  aggregateId := "ISSUE-7"
  payload := "{}"
  status := .pending
  attempts := 4
  nextAttemptAtMs := 0
  lastError := none
  createdAtMs := 0
  updatedAtMs := 0
  dedupeKey := none

def commentOutbox : OutboxTable := ⟨⟨[comment], by decide⟩, by decide⟩

def tickRuntime : Runtime where
  lower := fun s => String.ofList (s.toList.map asciiLower)
  repr := fun _ => ""
  lower_empty := asciiLower_empty
  isDigit := fun c => decide ('0' ≤ c ∧ c ≤ '9')
  int := fun v => match v with
    | .int n => some n
    | _ => none

/-- Connected, with one reply to everything. -/
def answering (result : Dict) : Meets where
  connect := fun _ => none
  dispatch := fun _ => .ok result
  settledAt := fun _ => 2000

def noon : Asked := ⟨1000, 1000, 25⟩

/-- A comment that Linear and GitHub refuse. -/
def refusing : Remote where
  payload := fun _ => []
  dict := fun _ => .error ""
  issueCommentBody := fun _ _ => "done"
  linearCommentBody := fun _ _ => "done"
  updateProjectItemStatus := fun _ _ => .error "connection refused"
  addIssueComment := fun _ _ => .error "connection refused"
  createPullRequestMetadata := fun _ _ _ _ => .error "connection refused"
  linearUpdateIssue := fun _ _ => .error "connection refused"
  linearAddComment := fun _ _ => .error "connection refused"
  linearCommentMarkerPresent := fun _ _ => .error "connection refused"

theorem own_dispatch_accounted_refusing :
    (let m : Meets := ⟨fun _ => none, dispatchOutboxItem tickRuntime refusing, fun _ => 2000⟩
     Accounted (claimedRows noon commentOutbox) (claimedOutbox noon commentOutbox)
       (dispatchOutboxTick tickRuntime m noon commentOutbox)) :=
  own_dispatch_accounted (fun _ => rfl) (by decide) _ rfl noon commentOutbox (by decide +kernel)

/-- A failure that is not terminal puts the row back after its fifth attempt, and a reply without an
id leaves its row in processing. -/
theorem unfit_replies_break :
    ¬ Accounted (claimedRows noon commentOutbox) (claimedOutbox noon commentOutbox)
      (dispatchOutboxTick tickRuntime (answering [("outbox_id", .int 1), ("status", .str "failed")]) noon commentOutbox) ∧
    ¬ Accounted (claimedRows noon commentOutbox) (claimedOutbox noon commentOutbox)
      (dispatchOutboxTick tickRuntime (answering [("status", .str "dispatched")]) noon commentOutbox) := by
  constructor
  · intro h
    have hrow : ((claimedOutbox noon commentOutbox).find? 1).any (fun r => decide (r.attempts = 5)) = true := by
      decide +kernel
    have hcall : ∃ c ∈ (dispatchOutboxTick tickRuntime (answering [("outbox_id", .int 1), ("status", .str "failed")])
        noon commentOutbox).2.calls, c.op = .retry false ∧ c.id = 1 := by decide +kernel
    obtain ⟨c, hc, hop, hid⟩ := hcall
    obtain ⟨row, hfound, hfive⟩ := (Option.any_eq_true _ _).mp hrow
    have hbelow := h.bounded c hc hop 1 hid row hfound
    rw [of_decide_eq_true hfive] at hbelow
    exact absurd hbelow (by decide)
  · intro h
    have hlost : (claimedRows noon commentOutbox).any (fun r =>
        decide ((dispatchOutboxTick tickRuntime (answering [("status", .str "dispatched")])
          noon commentOutbox).2.calls.countP (fun c => decide (c.id = (r.id : Int))) ≠ 1)) = true := by decide +kernel
    obtain ⟨r, hr, hne⟩ := List.any_eq_true.mp hlost
    exact of_decide_eq_true hne (h.once r hr)

end DispatchTick
