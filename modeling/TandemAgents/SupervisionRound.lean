import TandemAgents.CoderLease
import TandemAgents.CoderReaders
import TandemAgents.Comprehensions
import TandemAgents.WatchedRequests

/-!
# One round of supervision

`reconcile_active_coder_runs` reconciles the active runs one by one in a list comprehension.
Of the calls inside one reconcile only the poll of the engine is caught, so a run that cannot
be read, cancelled or booked ends the round for every run behind it.
-/
namespace SupervisionRound

open PythonText JsonData CoordinationStore Effects RunStatus CoderRun CoderReaders Comprehensions
open PrSupervision (Exc Stop)

set_option maxRecDepth 20000

/-- What stands in the directory of a run, in the shape in which the supervisor goes on with
it: as the booking of a coder reads it, or as the refresh of a pull request does. -/
inductive RunFiles where
  | coder (status : Status) (blackboard : Dict)
  | pull (w : PrSupervision.World)

structure World where
  store : Store
  files : String → RunFiles

abbrev Act := EStateM Stop World

def World.put (w : World) (runId : String) (files : RunFiles) : World :=
  { w with files := fun id => if id = runId then files else w.files id }

/-- What one reconcile meets: the exceptions of reading the run and of asking the engine to
cancel it, the answer to the poll with what it says under `error`, and the calls behind. -/
structure Duty where
  load : Option Exc := none
  cancelOnSourceTerminal : Bool := true
  cancel : Option Exc := none
  poll : Except Exc (CoderResponse × Json) := .ok ({}, .null)
  coder : CoderArgs
  refresh : PrRefresh.Refresh := {}

/-- How a reconcile returns. -/
inductive Outcome where
  | skipped
  | refreshed (result : Dict)
  | pollError (message : String)
  | applied (result : CoderResult)

/-! ## The steps of a reconcile -/

def raiseIf : Option Exc → Act Unit
  | some e => throw (.raised e)
  | none => pure ()

/-- A step of the booking, on the run's status and the store. -/
def onCoder {α : Type} (runId : String) (status : Status) (blackboard : Dict) (m : RunContext.Act α) : Act α := fun w =>
  let leave := fun (v : RunContext.World) => { store := v.store, files := w.files : World }.put runId
    (.coder (v.statusFile.getD {}) blackboard)
  match m { store := w.store, status := status, statusFile := some status } with
  | .ok a v => .ok a (leave v)
  | .error text v => .error (.raised ⟨text, text⟩) (leave v)

/-- A refresh, on the dictionaries of the run. -/
def onPull {α : Type} (runId : String) (files : PrSupervision.World) (m : PrSupervision.Act α) : Act α := fun w =>
  match m (PrFiles.load files) with
  | .ok a v => .ok a (w.put runId (.pull v))
  | .error stop v => .error stop (w.put runId (.pull v))

/-- `_is_coder_execution`. -/
def isCoderExecution (py : Python) (status : Status) (blackboard : Dict) : Bool :=
  CoderLease.isCoderExecution py status &&
    (decide (strip (py.text (blackboard.get "execution_backend")) = "coder") || (blackboard.get "coder_run").asDict.isSome)

/-- `_source_task_terminal`. -/
def sourceTaskTerminal (py : Python) (task : Dict) : Bool :=
  let source := (task.get "source").asDict.getD []
  ([task.get "state", task.get "status", source.get "state", source.get "status"].map fun v => py.lower (strip (py.text v))).any
    fun value => decide (value ∈ ["done", "completed", "closed", "cancelled", "canceled"])

/-- The run is to be cancelled with its task. -/
def cancels (d : Duty) (status : Status) : Bool :=
  d.cancelOnSourceTerminal && (status.fields.get "task").asDict.any (sourceTaskTerminal d.coder.py)

/-- The booking of a poll that raised. -/
def bookPollError (c : CoderArgs) (runId : String) (ttl : Int) (message : String) : RunContext.Act Unit := do
  RunContext.call (c.call .superviseBlackboard)
  RunContext.setStatus (c.call .superviseStatus)
    { phase := some "coder_execution", phaseDetail := some message, runStatus := some "running",
      blocker := some { active := false } }
  let _ ← superviseTouch c runId ttl { status := some "running", phase := some "coder_execution", error := some message }
  RunContext.call (c.call .superviseEvent)

variable (n : IssueSpend.Numbers) (cfg : PrSupervision.Config) (ttl : Int) (duty : String → Duty)

/-- The reconcile of a run in the hands of a coder. -/
def reconcileCoder (runId : String) (status : Status) (blackboard : Dict) : Act Outcome := do
  let d := duty runId
  raiseIf (if cancels d status then d.cancel else none)
  match d.poll with
  | .error e =>
    onCoder runId status blackboard (bookPollError d.coder runId ttl e.message)
    return .pollError e.message
  | .ok (response, error) =>
    let coderId := coderRunId d.coder.py runId ((blackboard.get "coder_run").asDict.getD [])
    let result := buildCoderResultFromResponse d.coder.py coderId error response
    onCoder runId status blackboard (applyCoderResult d.coder runId ttl result)
    return .applied result

/-- `reconcile_coder_run`, as a round calls it. -/
def reconcileCoderRun (runId : String) : Act Outcome := do
  raiseIf (duty runId).load
  match (← get).files runId with
  | .coder status blackboard =>
    if isCoderExecution (duty runId).coder.py status blackboard then reconcileCoder ttl duty runId status blackboard
    else return .skipped
  | .pull files =>
    if PrSupervision.isPrLifecycleSupervisable n files.statusFile files.blackboardFile then do
      let result ← onPull runId files (PrRefresh.refreshPrLifecycleForRun n cfg runId (duty runId).refresh)
      return .refreshed result
    else return .skipped

/-- `reconcile_active_coder_runs`, over the runs it lists. -/
def reconcileActiveCoderRuns (active : List String) : Act (List Outcome) :=
  active.mapM (reconcileCoderRun n cfg ttl duty)

/-- Every run whose own steps return is reconciled from the same world, to the same one and
with the same answer as in a round without the runs whose steps raise. -/
def ReconcilesRest (active : List String) (w : World) : Prop :=
  visits (reconcileCoderRun n cfg ttl duty) active w = alone (reconcileCoderRun n cfg ttl duty) active w

/-- The own steps of a run raise, where the runs that return have been reconciled in front of it. -/
def Fails (front : List String) (runId : String) (w : World) : Prop :=
  Raises (reconcileCoderRun n cfg ttl duty) runId (settled (reconcileCoderRun n cfg ttl duty) front w)

variable {n cfg ttl duty}

/-! ## The round -/

/-- A run whose status file is torn, and one whose coder is done. -/
def tornAndDone (runId : String) : Duty where
  load := if runId = "run-torn" then some ⟨"Expecting value", "JSONDecodeError()"⟩ else none
  poll := .ok ({ run := [("status", .str "completed")] }, .null)
  coder := { py := CoderLease.asciiPython, answers := {} }

def twoRuns : World where
  store := Store.empty
  files _ := .coder { run := { status := "running" }, phase := { name := "coder_execution" } }
    [("coder_run", .obj [("coder_run_id", .str "coder-1")])]

end SupervisionRound
