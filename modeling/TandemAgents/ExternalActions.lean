import Mathlib.Data.List.Sort
import TandemAgents.DedupeTable
import TandemAgents.GuardedRuns
import TandemAgents.PythonText
import TandemAgents.Statements

/-!
# Approvals of external actions

The approval queue of the store, and the calls of `execute_approved_actions` that
work on it. Each operation writes with one statement. A call lists the approved rows
of its run once, and then executes and marks them one by one while other operations
go on.
-/
namespace ExternalActions

open KeyedTable PythonText Statements Statements.Prog

set_option maxRecDepth 20000

/-! ## Rows -/

inductive ApprovalStatus where
  | pending | approved | rejected | executed | failed
  deriving DecidableEq, Repr

/-- What an approved row will do: `target_json`, `payload_json`, `risk_level` and
`verification_marker`. -/
structure Content where
  target : String
  payload : String
  riskLevel : String
  verificationMarker : String
  deriving DecidableEq

/-- A row of `external_action_approvals`. -/
structure Approval where
  approvalId : String
  runId : String
  taskId : String
  sourceType : String
  adapter : String
  actionType : String
  content : Content
  status : ApprovalStatus
  requestedBy : String
  decidedBy : Option String
  decisionReason : Option String
  result : String
  error : Option String
  createdAtMs : Int
  updatedAtMs : Int
  decidedAtMs : Option Int
  executedAtMs : Option Int
  expiresAtMs : Option Int
  dedupeKey : Option String
  deriving DecidableEq

abbrev Approvals := DedupeTable String Approval Approval.approvalId Approval.dedupeKey

/-- Programs over the approval queue; a row is named by its id. -/
abbrev ApprovalSql := Prog Approvals String

/-- The keyword arguments of `enqueue_external_action_approval`. -/
structure Request where
  runId : String
  taskId : String
  sourceType : String
  adapter : String
  actionType : String
  content : Content
  requestedBy : String := "aca"
  expiresAtMs : Option Int := none
  dedupeKey : Option String := none

/-- The row an enqueue inserts. -/
def Request.row (now : Int) (approvalId : String) (x : Request) : Approval where
  approvalId := approvalId
  runId := x.runId
  taskId := x.taskId
  sourceType := x.sourceType
  adapter := x.adapter
  actionType := x.actionType
  content := x.content
  status := .pending
  requestedBy := x.requestedBy
  decidedBy := none
  decisionReason := none
  result := "{}"
  error := none
  createdAtMs := now
  updatedAtMs := now
  decidedAtMs := none
  executedAtMs := none
  expiresAtMs := x.expiresAtMs
  dedupeKey := x.dedupeKey

namespace Approval

/-- The `DO UPDATE` of an enqueue: the content is replaced whatever the status. -/
def requeue (now : Int) (content : Content) (r : Approval) : Approval :=
  { r with
    content := content
    status := if r.status = .executed ∨ r.status = .approved then r.status else .pending
    updatedAtMs := now
    error := none }

def decide (now : Int) (status : ApprovalStatus) (actor reason : String) (r : Approval) : Approval :=
  { r with
    status := status, decidedBy := some actor, decisionReason := some reason, decidedAtMs := some now,
    updatedAtMs := now, error := none }

/-- The assignment of both retries. -/
def retry (now : Int) (actor reason : String) (r : Approval) : Approval :=
  { r with
    status := .approved, decidedBy := some actor, decisionReason := some reason, decidedAtMs := some now,
    executedAtMs := none, result := "{}", error := none, updatedAtMs := now }

/-- The assignment of both marks. -/
def settle (now : Int) (status : ApprovalStatus) (result : String) (error : Option String) (r : Approval) :
    Approval :=
  { r with status := status, result := result, error := error, executedAtMs := some now, updatedAtMs := now }

section
variable (now : Int) (content : Content) (status : ApprovalStatus) (a b : String) (e : Option String) (r : Approval)

@[simp] theorem requeue_approvalId : (r.requeue now content).approvalId = r.approvalId := rfl
@[simp] theorem requeue_dedupeKey : (r.requeue now content).dedupeKey = r.dedupeKey := rfl
@[simp] theorem requeue_content : (r.requeue now content).content = content := rfl
@[simp] theorem decide_approvalId : (r.decide now status a b).approvalId = r.approvalId := rfl
@[simp] theorem decide_dedupeKey : (r.decide now status a b).dedupeKey = r.dedupeKey := rfl
@[simp] theorem decide_status : (r.decide now status a b).status = status := rfl
@[simp] theorem decide_content : (r.decide now status a b).content = r.content := rfl
@[simp] theorem retry_approvalId : (r.retry now a b).approvalId = r.approvalId := rfl
@[simp] theorem retry_dedupeKey : (r.retry now a b).dedupeKey = r.dedupeKey := rfl
@[simp] theorem retry_status : (r.retry now a b).status = .approved := rfl
@[simp] theorem retry_content : (r.retry now a b).content = r.content := rfl
@[simp] theorem settle_approvalId : (r.settle now status a e).approvalId = r.approvalId := rfl
@[simp] theorem settle_dedupeKey : (r.settle now status a e).dedupeKey = r.dedupeKey := rfl
@[simp] theorem settle_status : (r.settle now status a e).status = status := rfl
@[simp] theorem settle_content : (r.settle now status a e).content = r.content := rfl
end

end Approval

/-! ## Operations -/

/-- `get_external_action_approval`. -/
def getExternalActionApproval (approvalId : String) : ApprovalSql (Option Approval) :=
  get (fun s => s.find? approvalId)

/-- The ids of the rows a statement changes. -/
def idsWhere (p : Approval → Bool) (s : Approvals) : List String := (s.rows.filter p).map (·.approvalId)

/-- `enqueue_external_action_approval`, with the id it draws. An empty dedupe key
conflicts like any other, but the row is then read back by id. -/
def enqueueExternalActionApproval (now : Int) (approvalId : String) (x : Request) :
    ApprovalSql (Option Approval) := do
  insertRow (fun s => approvalId :: ((s.holder x.dedupeKey).map (·.approvalId)).toList)
    (fun s => s.insert (x.row now approvalId) (Approval.requeue now x.content)
      (Approval.requeue_approvalId now x.content) (Approval.requeue_dedupeKey now x.content))
  if x.dedupeKey.getD "" = "" then getExternalActionApproval approvalId
  else get (fun s => s.holder x.dedupeKey)

/-- `list_external_action_approvals`. -/
def listExternalActionApprovals (runId : Option String) (status : Option ApprovalStatus) (limit : Int)
    (s : Approvals) : List Approval :=
  ((s.rows.filter (fun r => runId.all (fun v => decide (r.runId = v)) &&
      status.all (fun v => decide (r.status = v)))).insertionSort
    (fun a b => b.createdAtMs ≤ a.createdAtMs)).take (max 1 limit).toNat

/-- `str(decision).strip().lower() == "approve"`. -/
def decisionStatus (lower : String → String) (decision : String) : ApprovalStatus :=
  if lower (strip decision) = "approve" then .approved else .rejected

/-- The rows that `decide_external_action_approval` changes. -/
def isPendingId (approvalId : String) (r : Approval) : Bool :=
  decide (r.approvalId = approvalId ∧ r.status = .pending)

def isPendingOf (runId : String) (r : Approval) : Bool := decide (r.runId = runId ∧ r.status = .pending)

def isFailedId (approvalId : String) (r : Approval) : Bool :=
  decide (r.approvalId = approvalId ∧ r.status = .failed)

def isFailedOf (runId : String) (r : Approval) : Bool := decide (r.runId = runId ∧ r.status = .failed)

/-- The rows of a run in a status, oldest first. -/
def rowsOf (runId : String) (status : ApprovalStatus) (s : Approvals) : List Approval :=
  (s.rows.filter (fun r => decide (r.runId = runId ∧ r.status = status))).insertionSort
    (fun a b => a.createdAtMs ≤ b.createdAtMs)

/-- `decide_external_action_approval`. -/
def decideExternalActionApproval (lower : String → String) (now : Int) (approvalId decision actor reason : String) :
    ApprovalSql (Option Approval) := do
  update (idsWhere (isPendingId approvalId))
    (fun s => s.update (isPendingId approvalId)
      (Approval.decide now (decisionStatus lower decision) actor reason)
      (Approval.decide_approvalId now _ actor reason) (Approval.decide_dedupeKey now _ actor reason))
  getExternalActionApproval approvalId

/-- `approve_pending_external_action_approvals`. -/
def approvePendingExternalActionApprovals (now : Int) (runId actor reason : String) : ApprovalSql (List Approval) := do
  update (idsWhere (isPendingOf runId))
    (fun s => s.update (isPendingOf runId) (Approval.decide now .approved actor reason)
      (Approval.decide_approvalId now _ actor reason) (Approval.decide_dedupeKey now _ actor reason))
  get (rowsOf runId .approved)

/-- `retry_external_action_approval`. -/
def retryExternalActionApproval (now : Int) (approvalId actor reason : String) : ApprovalSql (Option Approval) := do
  update (idsWhere (isFailedId approvalId))
    (fun s => s.update (isFailedId approvalId) (Approval.retry now actor reason)
      (Approval.retry_approvalId now actor reason) (Approval.retry_dedupeKey now actor reason))
  getExternalActionApproval approvalId

/-- `retry_failed_external_action_approvals`. -/
def retryFailedExternalActionApprovals (now : Int) (runId actor reason : String) : ApprovalSql (List Approval) := do
  update (idsWhere (isFailedOf runId))
    (fun s => s.update (isFailedOf runId) (Approval.retry now actor reason)
      (Approval.retry_approvalId now actor reason) (Approval.retry_dedupeKey now actor reason))
  get (rowsOf runId .approved)

/-- The outcome of an adapter call. -/
inductive CallOutcome where
  | done (result : String)
  | raised (error : String)
  deriving DecidableEq

def CallOutcome.status : CallOutcome → ApprovalStatus
  | .done _ => .executed
  | .raised _ => .failed

def CallOutcome.result : CallOutcome → String
  | .done result => result
  | .raised _ => "{}"

def CallOutcome.error : CallOutcome → Option String
  | .done _ => none
  | .raised error => some error

/-- The shape both marks share: they look at the id only. -/
def markExternalAction (now : Int) (approvalId : String) (status : ApprovalStatus) (result : String)
    (error : Option String) : ApprovalSql (Option Approval) := do
  update (idsWhere (fun r => decide (r.approvalId = approvalId)))
    (fun s => s.update (fun r => decide (r.approvalId = approvalId)) (Approval.settle now status result error)
      (Approval.settle_approvalId now status result error) (Approval.settle_dedupeKey now status result error))
  getExternalActionApproval approvalId

def markExternalActionExecuted (now : Int) (approvalId result : String) : ApprovalSql (Option Approval) :=
  markExternalAction now approvalId .executed result none

def markExternalActionFailed (now : Int) (approvalId error : String) (result : Option String) :
    ApprovalSql (Option Approval) :=
  markExternalAction now approvalId .failed (result.getD "{}") (some error)

/-- The mark behind an adapter call. -/
def markOutcome (now : Int) (approvalId : String) : CallOutcome → ApprovalSql (Option Approval)
  | .done result => markExternalActionExecuted now approvalId result
  | .raised error => markExternalActionFailed now approvalId error none

/-- The rows `execute_approved_actions` works on: at most 250, oldest first. -/
def approvedActions (runId : String) (s : Approvals) : List Approval :=
  (listExternalActionApprovals (some runId) (some .approved) 250 s).insertionSort
    (fun a b => a.createdAtMs ≤ b.createdAtMs)

/-! ## The queue after each operation -/

section
variable (s : Approvals)

theorem run_enqueue (now : Int) (approvalId : String) (x : Request) :
    ((enqueueExternalActionApproval now approvalId x).run s).2 =
      (s.insert (x.row now approvalId) (Approval.requeue now x.content)
        (Approval.requeue_approvalId now x.content) (Approval.requeue_dedupeKey now x.content)).getD s := by
  have hp : (enqueueExternalActionApproval now approvalId x).Plain := by
    refine Plain.bind (p := insertRow _ _) (fun _ => trivial) fun _ => ?_
    split <;> exact fun _ => trivial
  rw [run_plain hp, enqueueExternalActionApproval, insertRow, exec_bind, eff_exec]
  cases s.insert (x.row now approvalId) (Approval.requeue now x.content)
      (Approval.requeue_approvalId now x.content) (Approval.requeue_dedupeKey now x.content) with
  | none => rfl
  | some t =>
    dsimp only
    rw [ret_bind]
    split <;> rfl

theorem run_decide (lower : String → String) (now : Int) (approvalId decision actor reason : String) :
    ((decideExternalActionApproval lower now approvalId decision actor reason).run s).2 =
      s.update (isPendingId approvalId) (Approval.decide now (decisionStatus lower decision) actor reason)
        (Approval.decide_approvalId now _ actor reason) (Approval.decide_dedupeKey now _ actor reason) := rfl

theorem run_approvePending (now : Int) (runId actor reason : String) :
    ((approvePendingExternalActionApprovals now runId actor reason).run s).2 =
      s.update (isPendingOf runId) (Approval.decide now .approved actor reason)
        (Approval.decide_approvalId now _ actor reason) (Approval.decide_dedupeKey now _ actor reason) := rfl

theorem run_retry (now : Int) (approvalId actor reason : String) :
    ((retryExternalActionApproval now approvalId actor reason).run s).2 =
      s.update (isFailedId approvalId) (Approval.retry now actor reason)
        (Approval.retry_approvalId now actor reason) (Approval.retry_dedupeKey now actor reason) := rfl

theorem run_retryFailed (now : Int) (runId actor reason : String) :
    ((retryFailedExternalActionApprovals now runId actor reason).run s).2 =
      s.update (isFailedOf runId) (Approval.retry now actor reason)
        (Approval.retry_approvalId now actor reason) (Approval.retry_dedupeKey now actor reason) := rfl

theorem run_mark (now : Int) (approvalId : String) (status : ApprovalStatus) (result : String)
    (error : Option String) :
    ((markExternalAction now approvalId status result error).run s).2 =
      s.update (fun r => decide (r.approvalId = approvalId)) (Approval.settle now status result error)
        (Approval.settle_approvalId now status result error)
        (Approval.settle_dedupeKey now status result error) := rfl

theorem run_markOutcome (now : Int) (approvalId : String) (outcome : CallOutcome) :
    ((markOutcome now approvalId outcome).run s).2 =
      ((markExternalAction now approvalId outcome.status outcome.result outcome.error).run s).2 := by
  cases outcome <;> rfl

end

/-! ## Calls of `execute_approved_actions` next to the other operations -/

/-- A call under way: the rows it still has to execute, and the outcome it has yet to
mark. -/
structure Executor where
  todo : List Approval
  outcome : Option (String × CallOutcome)
  deriving DecidableEq

/-- An adapter call: what it did, and what the row held when an operator last moved it
from pending to approved. -/
structure AdapterCall where
  approvalId : String
  executed : Content
  approved : Option Content
  deriving DecidableEq

/-- The queue, the content of each row at its last approval, the calls under way and
the adapter calls so far. -/
structure Run where
  approvals : Approvals
  lastApproved : String → Option Content
  executors : List Executor
  calls : List AdapterCall

def Run.empty : Run := ⟨.empty, fun _ => none, [], []⟩

inductive Event where
  | enqueue (now : Int) (approvalId : String) (x : Request)
  | decide (now : Int) (approvalId decision actor reason : String)
  | approvePending (now : Int) (runId actor reason : String)
  | retry (now : Int) (approvalId actor reason : String)
  | retryFailed (now : Int) (runId actor reason : String)
  | markExecuted (now : Int) (approvalId result : String)
  | markFailed (now : Int) (approvalId error : String) (result : Option String)
  | listApproved (runId : String)
  | execute (executor : Nat) (outcome : CallOutcome)
  | markNext (now : Int) (executor : Nat)

/-- The rows that went from pending to approved have the content they hold as approved
content. -/
def noteApproved (before after : Approvals) (known : String → Option Content) (approvalId : String) :
    Option Content :=
  match before.find? approvalId, after.find? approvalId with
  | some b, some a => if b.status = .pending ∧ a.status = .approved then some a.content else known approvalId
  | _, _ => known approvalId

/-- The run after an operation on the queue. -/
def Run.update (h : Run) (approvals : Approvals) : Run :=
  { h with approvals := approvals, lastApproved := noteApproved h.approvals approvals h.lastApproved }

/-- `execute_approved_action` for the next row of a call. -/
def Run.execute (h : Run) (i : Nat) (outcome : CallOutcome) : Run :=
  match h.executors[i]? with
  | some ⟨row :: todo, none⟩ =>
    { h with
      executors := h.executors.set i ⟨todo, some (row.approvalId, outcome)⟩
      calls := h.calls ++ [⟨row.approvalId, row.content, h.lastApproved row.approvalId⟩] }
  | _ => h

/-- The mark behind it. -/
def Run.markNext (h : Run) (now : Int) (i : Nat) : Run :=
  match h.executors[i]? with
  | some ⟨todo, some (approvalId, outcome)⟩ =>
    { h.update ((markOutcome now approvalId outcome).run h.approvals).2 with
      executors := h.executors.set i ⟨todo, none⟩ }
  | _ => h

def Run.step (lower : String → String) (h : Run) : Event → Run
  | .enqueue now approvalId x => h.update ((enqueueExternalActionApproval now approvalId x).run h.approvals).2
  | .decide now approvalId decision actor reason =>
    h.update ((decideExternalActionApproval lower now approvalId decision actor reason).run h.approvals).2
  | .approvePending now runId actor reason =>
    h.update ((approvePendingExternalActionApprovals now runId actor reason).run h.approvals).2
  | .retry now approvalId actor reason =>
    h.update ((retryExternalActionApproval now approvalId actor reason).run h.approvals).2
  | .retryFailed now runId actor reason =>
    h.update ((retryFailedExternalActionApprovals now runId actor reason).run h.approvals).2
  | .markExecuted now approvalId result =>
    h.update ((markExternalActionExecuted now approvalId result).run h.approvals).2
  | .markFailed now approvalId error result =>
    h.update ((markExternalActionFailed now approvalId error result).run h.approvals).2
  | .listApproved runId => { h with executors := h.executors ++ [⟨approvedActions runId h.approvals, none⟩] }
  | .execute i outcome => h.execute i outcome
  | .markNext now i => h.markNext now i

end ExternalActions
