import TandemAgents.AutoMerge
import TandemAgents.Effects
import TandemAgents.RepairBreaker

/-!
# Supervision of pull requests

One refresh of a pull request by the coder supervisor: what it reads from GitHub, what it
writes to the blackboard, to the status file and to the metadata of the run, and the repair
pass or the merge it starts. Every call meets a moment, in which it may raise or the whole
supervisor may die, before or after it took effect. Events and comments leave no trace here.
-/
namespace PrSupervision

open PythonText JsonData PullRequests Effects IssueSpend RepairBreaker

set_option maxRecDepth 20000

/-- `str(exc)` and `repr(exc)`. -/
structure Exc where
  text : String
  repr : String
  deriving DecidableEq

/-- `str(exc).strip() or repr(exc)`. -/
def Exc.message (e : Exc) : String := orElse (strip e.text) e.repr

/-- Why a program does not go on: an exception, which it may catch, or its death. -/
inductive Stop where
  | raised (e : Exc)
  | crash
  deriving DecidableEq

structure Fault where
  stop : Stop
  done : Bool := false
  deriving DecidableEq

/-- What a call meets. -/
structure Moment where
  now : Int := 0
  fault : Option Fault := none
  deriving DecidableEq

/-- The call takes effect, whether it returns or not. -/
def Moment.lands (m : Moment) : Bool :=
  match m.fault with
  | none => true
  | some f => f.done

def Moment.returns (m : Moment) : Bool := m.fault.isNone

/-- What happened to the repairs of a run, in order. -/
inductive Deed where
  | created (repairRunId : String)
  | escalated
  deriving DecidableEq

/-- The dictionaries in memory and on disk, the metadata of the run's row, where there is
one, and the repair runs the engine was told to create. -/
structure World where
  blackboard : Dict := []
  status : Dict := []
  blackboardFile : Dict := []
  statusFile : Dict := []
  metadata : Option Dict := none
  deeds : List Deed := []

abbrev Act := EStateM Stop World

/-! ## Calls -/

/-- A call with its effect. -/
def effect (m : Moment) (f : World → World) : Act Unit := fun w =>
  match m.fault with
  | none => .ok () (f w)
  | some fault => .error fault.stop (if fault.done then f w else w)

/-- A call whose effect nothing here reads. -/
def call (m : Moment) : Act Unit := effect m id

/-- `try: ... except Exception`, which a death passes by. -/
def catchExc {α : Type} (a : Act α) (k : Exc → Act α) : Act α :=
  tryCatch a fun stop =>
    match stop with
    | .raised e => k e
    | .crash => throw .crash

/-- The exception a call raised, if it raised one. -/
def excOf (a : Act Unit) : Act (Option Exc) := catchExc (do a; return none) (fun e => return some e)

/-- A pure step that may raise. -/
def orRaise {α : Type} (e : Exc) : Option α → Act α
  | some a => pure a
  | none => throw (.raised e)

def saveBlackboard (m : Moment) : Act Unit :=
  effect m fun w => { w with blackboardFile := w.blackboard.set "updated_at_ms" (.int m.now) }

def writeStatus (m : Moment) : Act Unit := effect m fun w => { w with statusFile := w.status }

/-- `dict((coordination.get_run(run_id) or {}).get("metadata") or {})`. -/
def getMetadata (m : Moment) : Act Dict := do
  call m
  return (← get).metadata.getD []

/-- `coordination.update_run(run_id, metadata=metadata)`: without a row nothing is updated. -/
def updateMetadata (m : Moment) (metadata : Dict) : Act Unit :=
  effect m fun w => { w with metadata := w.metadata.map fun _ => metadata }

/-- The moments of a step that saves both files and updates the run. -/
structure PersistMoments where
  save : Moment := {}
  write : Moment := {}
  read : Moment := {}
  update : Moment := {}
  deriving DecidableEq

/-- The assignments a persisting step makes in the blackboard, in the status and in the
metadata. -/
structure Assignments where
  blackboard : Dict → Dict
  status : Dict → Dict
  metadata : Dict → Dict

/-- What follows the save of the blackboard: the status is written, then the metadata is
read, changed and written back. -/
def persistRest (t : PersistMoments) (a : Assignments) : Act Unit := do
  modify fun w => { w with status := a.status w.status }
  writeStatus t.write
  let metadata ← getMetadata t.read
  updateMetadata t.update (a.metadata metadata)

/-- A persisting step. -/
def persist (t : PersistMoments) (a : Assignments) : Act Unit := do
  modify fun w => { w with blackboard := a.blackboard w.blackboard }
  saveBlackboard t.save
  persistRest t a

def lifecycleKey : String := "pull_request_lifecycle"
def breakerKey : String := "pull_request_repair_state"

section
variable (n : Numbers)

/-- `str(lifecycle.get("lifecycle_state") or "").strip()`. -/
def lifecycleState (lifecycle : Dict) : String := strip (n.text (lifecycle.get "lifecycle_state"))

/-- `_normalize_status`. -/
def normalizeStatus (value : Json) : String :=
  let normalized := n.lower (strip (n.text value))
  if normalized = "canceled" then "cancelled" else normalized

/-- `needle in text`. -/
def isInfix (needle text : String) : Bool := text.toList.tails.any (fun t => needle.toList.isPrefixOf t)

/-- `_is_retryable_pr_lifecycle_error`. -/
def isRetryablePrLifecycleError (lifecycle : Dict) : Bool :=
  let error := strip (n.text (lifecycle.get "error"))
  isInfix "Could not read GitHub pull request" error || isInfix "GitHub MCP" error

def supervisedStates : List String := ["running", "waiting-for-review", "needs-repair", "ready-to-merge"]

/-- `_is_pr_lifecycle_supervisable`. -/
def isPrLifecycleSupervisable (status blackboard : Dict) : Bool :=
  match (status.get "run").asDict, (blackboard.get lifecycleKey).asDict with
  | some run, some lifecycle =>
    decide (normalizeStatus n (run.get "status") ∈ ["completed", "running"]) &&
      ((lifecycle.get "number").truthy && decide (lifecycleState n lifecycle ∈ supervisedStates) ||
        decide (lifecycleState n lifecycle = "blocked") && isRetryablePrLifecycleError n lifecycle)
  | _, _ => false

/-- What `_persist_pull_request_lifecycle` assigns. -/
def lifecycleAssignments (prUrl : String) (pullRequest : Dict) : Assignments where
  blackboard d := (d.set "pull_request" (.str prUrl)).set lifecycleKey (.obj pullRequest)
  status d :=
    let d := (d.set "pull_request" (.str prUrl)).set lifecycleKey (.obj pullRequest)
    let task := (d.get "task").asDict.getD []
    d.set "task" (.obj ((task.set "pull_request" (.str prUrl)).set lifecycleKey (.obj pullRequest)))
  metadata d := (d.set "pull_request" (.str prUrl)).set lifecycleKey (.obj pullRequest)

/-- `_persist_pull_request_lifecycle`. -/
def persistPullRequestLifecycle (t : PersistMoments) (pullRequest : Dict) : Act Unit := do
  let w ← get
  let prUrl := strip (n.text ((pullRequest.get "url").or ((w.blackboard.get "pull_request").or
    (w.status.get "pull_request"))))
  persist t (lifecycleAssignments prUrl pullRequest)

/-- A step that puts one entry everywhere: `_persist_pull_request_merge` and the end of
`_update_pr_branch_for_run`. -/
def entryAssignments (key : String) (value : Dict) : Assignments where
  blackboard d := d.set key (.obj value)
  status d := d.set key (.obj value)
  metadata d := d.set key (.obj value)

/-- What `_persist_repair` assigns. -/
def repairAssignments (repair : Dict) (breaker : Option Breaker) : Assignments where
  blackboard d := d.set "pull_request_repair" (.obj repair)
  status d := d.set "pull_request_repair" (.obj repair)
  metadata d :=
    let d := d.set "pull_request_repair" (.obj repair)
    match breaker with
    | some b => d.set breakerKey (.obj b.toDict)
    | none => d

/-! ## The repair pass -/

/-- The configuration the supervisor reads, and the texts it builds from a context. -/
structure Config where
  review : ReviewConfig
  maxRepairAttempts : Int
  repairCooldownBaseMs : Int
  budget : Option Budget
  digests : Digests
  prompt : Dict → String

def Config.gate (cfg : Config) : GateConfig where
  maxAttempts := repairMaxAttempts cfg.maxRepairAttempts
  cooldownBaseMs := RepairBreaker.repairCooldownBaseMs cfg.repairCooldownBaseMs

/-- The moments of `record_coder_spend`. -/
structure SpendMoments where
  load : Moment := {}
  read : Moment := {}
  update : Moment := {}
  deriving DecidableEq

/-- What one repair pass meets: the feedback it collects, the clock, and its calls. -/
structure RepairPass where
  context : Dict := []
  repairIdMs : Int := 0
  startedAtMs : Int := 0
  gateMs : Int := 0
  checkedAtMs : Int := 0
  completedAtMs : Int := 0
  createResponse : Json := .null
  executeResponse : Json := .null
  collect : Moment := {}
  readBreaker : Moment := {}
  readSpend : Moment := {}
  handOver : PersistMoments := {}
  comment : Moment := {}
  create : Moment := {}
  execute : Moment := {}
  spend : SpendMoments := {}
  persist : PersistMoments := {}
  event : Moment := {}

/-- `{**context_or_pull_request, "lifecycle_state": "needs-human", ...}`. -/
def escalatedPr (p : RepairPass) (pullRequest : Dict) (reason : String) : Option Dict :=
  ((p.context.get "pull_request").or (.obj pullRequest)).asDict.map fun d =>
    update d [("lifecycle_state", .str "needs-human"), ("terminal", .bool false), ("repair_escalated", .bool true),
      ("repair_escalation_reason", .str reason), ("last_checked_at_ms", .int p.checkedAtMs)]

/-- The repair record a pass starts with. -/
def repairRecord (cfg : Config) (runId : String) (p : RepairPass) (pullRequest : Dict) : Dict :=
  [("run_id", .str runId), ("repair_run_id", .str (runId ++ "-repair-" ++ toString p.repairIdMs)),
    ("status", .str "no_action"), ("pull_request", (p.context.get "pull_request").or (.obj pullRequest)),
    ("context", .obj p.context), ("prompt", .str (cfg.prompt p.context)), ("started_at_ms", .int p.startedAtMs),
    ("completed_at_ms", .null), ("summary", .str "")]

/-- `repair.update({"status": ..., "completed_at_ms": ..., "summary": ..., ..., "breaker": ...})`. -/
def reported (p : RepairPass) (repair : Dict) (status summary : String) (more : Dict) (breaker : Breaker) : Dict :=
  update repair ([("status", .str status), ("completed_at_ms", .int p.completedAtMs), ("summary", .str summary)] ++
    more ++ [("breaker", .obj breaker.toDict)])

/-- `response if isinstance(response, dict) else {}`. -/
def responseDict (response : Json) : Json := .obj (response.asDict.getD [])

def typeError : Exc := ⟨"", "TypeError()"⟩
def valueError : Exc := ⟨"", "ValueError()"⟩

/-- `record_coder_spend`, which counts one execution. -/
def recordCoderSpend (t : SpendMoments) (coderResult : Dict) : Act Spend := do
  let usage ← orRaise valueError (extractUsage n coderResult)
  let loaded ← getMetadata t.load
  let spend ← orRaise valueError (accumulate n (loadIssueSpend loaded) usage 1)
  let metadata ← getMetadata t.read
  updateMetadata t.update (metadata.set issueSpendKey (.obj spend.toDict))
  return spend

def note (d : Deed) : Act Unit := modify fun w => { w with deeds := w.deeds ++ [d] }

/-- `sdk_coder_create_run`. -/
def createRepairRun (m : Moment) (repairRunId : String) : Act Unit :=
  effect m fun w => { w with deeds := w.deeds ++ [.created repairRunId] }

/-- The two calls to the engine, and the report of how they ended. The responses seen are
those of the calls that returned. -/
def dispatch (p : RepairPass) (repair : Dict) (repairRunId : String) (maxAttempts : Int) (b : Breaker) :
    Act (Dict × Json × Json) := do
  match ← excOf (createRepairRun p.create repairRunId) with
  | some e => return (reported p repair "blocked" e.message [] b, .obj [], .obj [])
  | none =>
    match ← excOf (call p.execute) with
    | some e => return (reported p repair "blocked" e.message [] b, p.createResponse, .obj [])
    | none =>
      let summary := "Repair pass " ++ toString b.attempts ++ "/" ++ toString maxAttempts ++
        " dispatched to Tandem coder; outcome verified on next lifecycle refresh."
      let more := [("create_response", responseDict p.createResponse),
        ("execute_response", responseDict p.executeResponse)]
      return (reported p repair "dispatched" summary more b, p.createResponse, p.executeResponse)

/-- `_maybe_add_linear_repair_comment`. -/
def addComment (m : Moment) : Act Unit := catchExc (call m) (fun _ => pure ())

/-- The comment of the first attempt. -/
def startComment (p : RepairPass) (b : Breaker) : Act Unit := if b.attempts ≤ 1 then addComment p.comment else pure ()

/-- The comment and the event of the first escalation. -/
def escalationNotice (p : RepairPass) (first : Bool) : Act Unit :=
  if first then do
    addComment p.comment
    call p.event
  else pure ()

/-- The pass behind a decision to go on. -/
def proceed (cfg : Config) (p : RepairPass) (repair : Dict) (repairRunId : String) (b : Breaker) : Act Dict := do
  startComment p b
  let (repair, createResponse, executeResponse) ← dispatch p repair repairRunId cfg.gate.maxAttempts b
  let spend ← recordCoderSpend n p.spend
    [("create_response", responseDict createResponse), ("execute_response", responseDict executeResponse)]
  let repair := repair.set "issue_spend" (.obj spend.toDict)
  persist p.persist (repairAssignments repair (some b))
  call p.event
  return repair

/-- The pass behind a decision to wait. -/
def deferPass (p : RepairPass) (repair : Dict) (b : Breaker) : Act Dict := do
  let summary := "Repair pass deferred (cooldown) after attempt " ++ toString b.attempts ++ "."
  let repair := reported p repair "deferred" summary [] b
  persist p.persist (repairAssignments repair (some b))
  call p.event
  return repair

def escalatedRecord (p : RepairPass) (repair : Dict) (b : Breaker) (reason : String) : Dict :=
  let summary := "Escalated to human after " ++ toString b.attempts ++ " repair attempt(s): " ++ reason ++ "."
  reported p repair "escalated" summary [] b

/-- What follows once the request is with a human. -/
def closeEscalation (p : RepairPass) (repair : Dict) (b : Breaker) (first : Bool) : Act Dict := do
  persist p.persist (repairAssignments repair (some b))
  escalationNotice p first
  return repair

/-- The pass behind a decision to hand the request to a human; `first` says that it is the
first one. -/
def escalatePass (p : RepairPass) (pullRequest repair : Dict) (b : Breaker) (reason : String) (first : Bool) :
    Act Dict := do
  note .escalated
  let pr ← orRaise typeError (escalatedPr p pullRequest reason)
  persistPullRequestLifecycle n p.handOver pr
  closeEscalation p (escalatedRecord p repair b reason) b first

/-- What `_start_pr_repair_pass` does with a decision. -/
def actOn (cfg : Config) (runId : String) (p : RepairPass) (pullRequest repair : Dict) :
    Decision × Breaker × String → Act Dict
  | (.defer, b, _) => deferPass p repair b
  | (.escalate, b, reason) => escalatePass n p pullRequest repair b reason true
  | (.skip, b, reason) => escalatePass n p pullRequest repair b reason false
  | (.proceed, b, _) => proceed n cfg p repair (runId ++ "-repair-" ++ toString p.repairIdMs) b

/-- The decision of a pass, on the metadata of its two reads. -/
def passDecision (cfg : Config) (p : RepairPass) (metadata spendMetadata : Dict) :
    Option (Decision × Breaker × String) := do
  let state ← ((metadata.get breakerKey).or (.obj [])).asDict
  repairDecision n cfg.gate cfg.budget (loadIssueSpend spendMetadata) state
    (repairSignature n.toPython cfg.digests p.context) p.gateMs

/-- The record of a pass without feedback to act on. -/
def idleRecord (cfg : Config) (runId : String) (p : RepairPass) (pullRequest : Dict) : Dict :=
  (repairRecord cfg runId p pullRequest).set "summary"
    (.str (orElse (n.text (p.context.get "reason")) "No actionable PR feedback."))

/-- `_start_pr_repair_pass`. -/
def startPrRepairPass (cfg : Config) (runId : String) (p : RepairPass) (pullRequest : Dict) : Act Dict := do
  call p.collect
  if (p.context.get "actionable").truthy then
    let metadata ← getMetadata p.readBreaker
    let spendMetadata ← getMetadata p.readSpend
    let decision ← orRaise valueError (passDecision n cfg p metadata spendMetadata)
    actOn n cfg runId p pullRequest (repairRecord cfg runId p pullRequest) decision
  else
    persist p.persist (repairAssignments (idleRecord n cfg runId p pullRequest) none)
    return idleRecord n cfg runId p pullRequest

end

/-! ## Rules of the calls -/

section
variable {α β : Type} {P : World → Prop} {w : World} {m : Moment}

theorem effect_returns {f : World → World} (h : m.returns = true) : effect m f w = .ok () (f w) := by
  have hnone : m.fault = none := by simpa [Moment.returns] using h
  simp only [effect, hnone]

theorem effect_stops {f : World → World} (h : m.returns = false) :
    ∃ stop, effect m f w = .error stop (if m.lands then f w else w) := by
  cases hf : m.fault with
  | none => simp [Moment.returns, hf] at h
  | some fault => exact ⟨fault.stop, by simp only [effect, Moment.lands, hf]⟩

theorem endState_effect (m : Moment) (f : World → World) (w : World) :
    endState (effect m f w) = if m.lands then f w else w := by
  unfold effect Moment.lands
  cases m.fault <;> rfl

theorem endState_effect_bind (m : Moment) (f : World → World) (k : Unit → Act β) (w : World) :
    endState ((effect m f >>= k) w) =
      if m.returns then endState (k () (f w)) else if m.lands then f w else w := by
  cases hm : m.returns with
  | true =>
    rw [run_bind_ok (effect_returns hm)]
    rfl
  | false =>
    obtain ⟨stop, hstop⟩ := effect_stops (f := f) (w := w) hm
    rw [run_bind_error hstop]
    rfl

theorem call_returns (h : m.returns = true) : call m w = .ok () w := effect_returns h

theorem call_stops (h : m.returns = false) : ∃ stop, call m w = .error stop w := by
  obtain ⟨stop, hstop⟩ := effect_stops (f := id) (w := w) h
  simp only [id_eq, ite_self] at hstop
  exact ⟨stop, hstop⟩

theorem endState_call_bind (m : Moment) (k : Unit → Act β) (w : World) :
    endState ((call m >>= k) w) = if m.returns then endState (k () w) else w := by
  cases hm : m.returns with
  | true =>
    rw [run_bind_ok (call_returns hm)]
    rfl
  | false =>
    obtain ⟨stop, hstop⟩ := call_stops (w := w) hm
    rw [run_bind_error hstop]
    rfl

theorem isOk_effect (m : Moment) (f : World → World) (w : World) : isOk (effect m f w) = m.returns := by
  unfold effect Moment.returns
  cases m.fault <;> rfl

theorem isOk_effect_bind (m : Moment) (f : World → World) (k : Unit → Act β) (w : World) :
    isOk ((effect m f >>= k) w) = (m.returns && isOk (k () (f w))) := by
  cases hm : m.returns with
  | true =>
    rw [run_bind_ok (effect_returns hm)]
    rfl
  | false =>
    obtain ⟨stop, hstop⟩ := effect_stops (f := f) (w := w) hm
    rw [run_bind_error hstop]
    rfl

theorem endState_modify_bind (f : World → World) (k : Unit → Act β) (w : World) :
    endState ((modify f >>= k) w) = endState (k () (f w)) := rfl

theorem getMetadata_returns (h : m.returns = true) : getMetadata m w = .ok (w.metadata.getD []) w :=
  run_bind_ok (call_returns h)

theorem getMetadata_stops (h : m.returns = false) : ∃ stop, getMetadata m w = .error stop w := by
  obtain ⟨stop, hstop⟩ := call_stops (w := w) h
  exact ⟨stop, run_bind_error hstop⟩

theorem endState_getMetadata_bind (m : Moment) (k : Dict → Act β) (w : World) :
    endState ((getMetadata m >>= k) w) = if m.returns then endState (k (w.metadata.getD []) w) else w := by
  cases hm : m.returns with
  | true =>
    rw [run_bind_ok (getMetadata_returns hm)]
    rfl
  | false =>
    obtain ⟨stop, hstop⟩ := getMetadata_stops (w := w) hm
    rw [run_bind_error hstop]
    rfl

theorem isOk_getMetadata_bind (m : Moment) (k : Dict → Act β) (w : World) :
    isOk ((getMetadata m >>= k) w) = (m.returns && isOk (k (w.metadata.getD []) w)) := by
  cases hm : m.returns with
  | true =>
    rw [run_bind_ok (getMetadata_returns hm)]
    rfl
  | false =>
    obtain ⟨stop, hstop⟩ := getMetadata_stops (w := w) hm
    rw [run_bind_error hstop]
    rfl

theorem endState_orRaise_bind (e : Exc) (x : Option α) (k : α → Act β) (w : World) :
    endState ((orRaise e x >>= k) w) = x.elim w (fun a => endState (k a w)) := by
  cases x <;> rfl

/-- A call leaves the state it found or the one it makes. -/
theorem effect_at {f : World → World} (hw : P w) (hf : P (f w)) :
    Leads (fun s => s = w) (effect m f) (fun _ => P) (fun _ => P) := by
  rintro s rfl
  unfold effect
  cases m.fault with
  | none => exact hf
  | some fault =>
    cases hdone : fault.done with
    | true => simpa [hdone] using hf
    | false => simpa [hdone] using hw

theorem Keeps.effect {f : World → World} (h : ∀ s, P s → P (f s)) : Keeps P (effect m f) :=
  fun s hs => effect_at hs (h s hs) s rfl

theorem Keeps.call : Keeps P (call m) := Keeps.effect fun _ hs => hs

theorem Keeps.catchExc {a : Act α} {k : Exc → Act α} (ha : Keeps P a) (hk : ∀ e, Keeps P (k e)) :
    Keeps P (catchExc a k) := by
  refine Effects.Keeps.attempt ha ?_
  intro stop
  cases stop with
  | raised e => exact hk e
  | crash => exact Effects.Keeps.raise _

theorem catchExc_ok {a : Act α} {k : Exc → Act α} {t : World} {x : α} (h : a w = .ok x t) : catchExc a k w = .ok x t :=
  run_attempt_ok h

theorem catchExc_raised {a : Act α} {k : Exc → Act α} {t : World} {e : Exc} (h : a w = .error (.raised e) t) :
    catchExc a k w = k e t := run_attempt_error h

theorem catchExc_crash {a : Act α} {k : Exc → Act α} {t : World} (h : a w = .error .crash t) :
    catchExc a k w = .error .crash t := run_attempt_error h

theorem Keeps.excOf {a : Act Unit} (ha : Keeps P a) : Keeps P (excOf a) :=
  Keeps.catchExc (Effects.Keeps.bind ha fun _ => Effects.Keeps.pure _) fun _ => Effects.Keeps.pure _

theorem Keeps.orRaise {e : Exc} {x : Option α} : Keeps P (orRaise e x) := by
  cases x with
  | none => exact Effects.Keeps.raise _
  | some a => exact Effects.Keeps.pure a

/-- What is read is the metadata the call leaves. -/
theorem getMetadata_leads : Leads P (getMetadata m) (fun d s => P s ∧ d = s.metadata.getD []) (fun _ => P) := by
  intro s hs
  cases hm : m.returns with
  | true =>
    rw [getMetadata_returns hm]
    exact ⟨hs, rfl⟩
  | false =>
    obtain ⟨stop, hstop⟩ := getMetadata_stops (w := s) hm
    rw [hstop]
    exact hs

/-- The metadata behind an update that reads it first. -/
def World.remap (w : World) (f : Dict → Dict) : World :=
  { w with metadata := w.metadata.map fun _ => f (w.metadata.getD []) }

/-- What the assignments of a persisting step keep, the step keeps. -/
structure Harmless (P : World → Prop) (a : Assignments) : Prop where
  blackboard : ∀ s, P s → P { s with blackboard := a.blackboard s.blackboard }
  save : ∀ s now, P s → P { s with blackboardFile := s.blackboard.set "updated_at_ms" (.int now) }
  status : ∀ s, P s → P { s with status := a.status s.status }
  write : ∀ s, P s → P { s with statusFile := s.status }
  metadata : ∀ s, P s → P (s.remap a.metadata)

/-- The part of it that the steps behind the save of the blackboard need. -/
theorem Keeps.persistRest {t : PersistMoments} {a : Assignments}
    (hstatus : ∀ s, P s → P { s with status := a.status s.status })
    (hwrite : ∀ s, P s → P { s with statusFile := s.status }) (hmetadata : ∀ s, P s → P (s.remap a.metadata)) :
    Keeps P (persistRest t a) := by
  refine Effects.Keeps.bind (Effects.Keeps.modify hstatus) fun _ => ?_
  refine Effects.Keeps.bind (Keeps.effect hwrite) fun _ => ?_
  refine Leads.bind getMetadata_leads fun d => ?_
  rintro s ⟨hs, rfl⟩
  exact effect_at (P := P) hs (hmetadata s hs) s rfl

theorem Keeps.persist {t : PersistMoments} {a : Assignments} (h : Harmless P a) : Keeps P (persist t a) := by
  refine Effects.Keeps.bind (Effects.Keeps.modify h.blackboard) fun _ => ?_
  refine Effects.Keeps.bind (Keeps.effect fun s hs => h.save s _ hs) fun _ => ?_
  exact Keeps.persistRest h.status h.write h.metadata

def PersistMoments.returns (t : PersistMoments) : Bool :=
  t.save.returns && t.write.returns && t.read.returns && t.update.returns

/-- The state behind a persisting step that returns. -/
def persisted (t : PersistMoments) (a : Assignments) (w : World) : World where
  blackboard := a.blackboard w.blackboard
  status := a.status w.status
  blackboardFile := (a.blackboard w.blackboard).set "updated_at_ms" (.int t.save.now)
  statusFile := a.status w.status
  metadata := w.metadata.map fun _ => a.metadata (w.metadata.getD [])
  deeds := w.deeds

theorem persist_returns {t : PersistMoments} {a : Assignments} (h : t.returns = true) :
    persist t a w = .ok () (persisted t a w) := by
  simp only [PersistMoments.returns, Bool.and_eq_true] at h
  obtain ⟨⟨⟨hsave, hwrite⟩, hread⟩, hupdate⟩ := h
  refine (run_bind_ok rfl).trans ?_
  refine (run_bind_ok (effect_returns hsave)).trans ?_
  refine (run_bind_ok rfl).trans ?_
  refine (run_bind_ok (effect_returns hwrite)).trans ?_
  refine (run_bind_ok (getMetadata_returns hread)).trans ?_
  exact effect_returns hupdate

theorem persist_stops {t : PersistMoments} {a : Assignments} (h : t.returns = false) :
    ∃ stop u, persist t a w = .error stop u := by
  have hok : isOk (persist t a w) = t.returns := by
    change isOk ((effect t.save _ >>= fun _ => persistRest t a) _) = _
    rw [isOk_effect_bind]
    change (_ && isOk ((effect t.write _ >>= _) _)) = _
    rw [isOk_effect_bind, isOk_getMetadata_bind, updateMetadata, isOk_effect]
    simp only [PersistMoments.returns, Bool.and_assoc]
  cases hr : persist t a w with
  | ok x u =>
    rw [hr, h] at hok
    cases hok
  | error stop u => exact ⟨stop, u, rfl⟩

theorem endState_persist_bind (t : PersistMoments) (a : Assignments) (k : Unit → Act β) (w : World) :
    endState ((persist t a >>= k) w) =
      if t.returns then endState (k () (persisted t a w)) else endState (persist t a w) := by
  cases h : t.returns with
  | true =>
    rw [run_bind_ok (persist_returns h)]
    rfl
  | false =>
    obtain ⟨stop, u, hstop⟩ := persist_stops (w := w) (a := a) h
    rw [run_bind_error hstop, hstop]
    rfl

theorem Keeps.recordCoderSpend {n : Numbers} {t : SpendMoments} {coderResult : Dict}
    (h : ∀ s v, P s → P (s.remap fun d => d.set issueSpendKey (.obj v))) : Keeps P (recordCoderSpend n t coderResult) := by
  refine Effects.Keeps.bind Keeps.orRaise fun usage => ?_
  refine Effects.Keeps.bind (Leads.weaken getMetadata_leads (fun _ h => h) (fun _ _ h => h.1) (fun _ _ h => h)) fun d => ?_
  refine Effects.Keeps.bind Keeps.orRaise fun spend => ?_
  refine Leads.bind getMetadata_leads fun d => ?_
  rintro s ⟨hs, rfl⟩
  exact Effects.Leads.bind (effect_at (P := P) hs (h s spend.toDict hs)) (fun _ => Effects.Keeps.pure spend) s rfl

theorem Keeps.dispatch {p : RepairPass} {repair : Dict} {repairRunId : String} {maxAttempts : Int} {b : Breaker}
    (h : ∀ s, P s → P { s with deeds := s.deeds ++ [.created repairRunId] }) :
    Keeps P (dispatch p repair repairRunId maxAttempts b) := by
  refine Effects.Keeps.bind (Keeps.excOf (Keeps.effect h)) fun created => ?_
  cases created with
  | some e => exact Effects.Keeps.pure _
  | none =>
    refine Effects.Keeps.bind (Keeps.excOf Keeps.call) fun executed => ?_
    cases executed <;> exact Effects.Keeps.pure _

theorem Keeps.startComment {p : RepairPass} {b : Breaker} : Keeps P (startComment p b) := by
  unfold PrSupervision.startComment
  split
  · exact Keeps.catchExc Keeps.call fun _ => Effects.Keeps.pure _
  · exact Effects.Keeps.pure _

theorem Keeps.escalationNotice {p : RepairPass} {first : Bool} : Keeps P (escalationNotice p first) := by
  unfold PrSupervision.escalationNotice
  split
  · exact Effects.Keeps.bind (Keeps.catchExc Keeps.call fun _ => Effects.Keeps.pure _) fun _ => Keeps.call
  · exact Effects.Keeps.pure _

end

end PrSupervision
