import TandemAgents.JsonData
import TandemAgents.LeaseOperations

/-!
# The status dictionary of a run

What a run writes to `status.json`, how it changes, and how the end of a run reads off it
with which status its lease goes back. The dictionaries the program always finds are
records; a missing key and `None` read the same. The other entries are kept as they are.
-/
namespace RunStatus

open PythonText JsonData CoordinationStore LeaseOperations

set_option maxRecDepth 20000

/-- `status["run"]`. -/
structure RunMeta where
  runId : String := ""
  status : String := ""
  createdAtMs : Option Int := none
  updatedAtMs : Option Int := none
  startedAtMs : Option Int := none
  completedAtMs : Option Int := none
  deriving DecidableEq

/-- `status["phase"]`. -/
structure Phase where
  name : String := ""
  detail : String := ""
  role : String := ""
  updatedAtMs : Option Int := none
  deriving DecidableEq

/-- `status["blocker"]`. -/
structure Blocker where
  active : Bool := false
  kind : String := ""
  message : String := ""
  detail : String := ""
  ownerRole : String := ""
  deriving DecidableEq

/-- `status["timestamps"]`. -/
structure Timestamps where
  createdAtMs : Option Int := none
  updatedAtMs : Option Int := none
  startedAtMs : Option Int := none
  completedAtMs : Option Int := none
  deriving DecidableEq

/-- `status["coordination"]`. -/
structure Coordination where
  workerId : Option Ident := none
  hostId : Option Ident := none
  leaseId : Option Ident := none
  taskKey : Option String := none
  leaseExpiresAtMs : Option Int := none
  leaseHeartbeatAtMs : Option Int := none
  leaseStatus : String := ""
  consecutiveHeartbeatMisses : Nat := 0
  leaseHeartbeatMissedAtMs : Option Int := none
  deriving DecidableEq

/-- A status dictionary. `runStatus` is the key `run_status`, which only the result of
last resort has; `fields` holds the entries nothing here reads. -/
structure Status where
  runStatus : String := ""
  run : RunMeta := {}
  phase : Phase := {}
  blocker : Blocker := {}
  coordination : Option Coordination := none
  timestamps : Timestamps := {}
  metrics : Dict := []
  fields : Dict := []

/-- What `initial_status` is given besides the run's id. -/
structure Documents where
  task : Json := .null
  repo : Json := .null
  engine : Json := .null
  provider : Json := .null
  swarm : Json := .null
  runDir : String := ""

/-- `status["artifacts"]`. -/
def runArtifacts (runDir : String) : Json :=
  .obj [("run_dir", .str runDir), ("status_json", .str (runDir ++ "/status.json")),
    ("events_jsonl", .str (runDir ++ "/events.jsonl")), ("summary_md", .str (runDir ++ "/summary.md")),
    ("board_yaml", .str (runDir ++ "/board.yaml")), ("blackboard_yaml", .str (runDir ++ "/blackboard.yaml")),
    ("logs_dir", .str (runDir ++ "/logs")), ("worktrees_dir", .str (runDir ++ "/worktrees")),
    ("diffs_dir", .str (runDir ++ "/diffs"))]

/-- `initial_status`. -/
def initialStatus (now : Int) (runId : String) (d : Documents) : Status where
  run := { runId := runId, status := "created", createdAtMs := some now, updatedAtMs := some now }
  phase := { name := "bootstrap", updatedAtMs := some now }
  timestamps := { createdAtMs := some now, updatedAtMs := some now }
  metrics := [("planned_workers", .int 0), ("completed_workers", .int 0), ("failed_workers", .int 0),
    ("skipped_workers", .int 0), ("tolerated_workers", .int 0), ("tests_passed", .null)]
  fields := [("task", d.task), ("repo", d.repo), ("engine", d.engine), ("provider", d.provider),
    ("swarm", d.swarm), ("artifacts", runArtifacts d.runDir)]

/-- The blocker `set_status` is given. -/
structure BlockerChange where
  active : Bool
  kind : String := ""
  message : String := ""
  ownerRole : String := ""

/-- The arguments of `set_status`. -/
structure Changes where
  phase : Option String := none
  phaseDetail : Option String := none
  phaseRole : Option String := none
  runStatus : Option String := none
  blocker : Option BlockerChange := none
  metrics : Dict := []
  runStarted : Bool := false
  runCompleted : Bool := false

/-- `value or now`. -/
def orNow (now : Int) (value : Option Int) : Option Int := if value.getD 0 = 0 then some now else value

/-- `update_status`, on the changes `set_status` makes. -/
def updateStatus (now : Int) (c : Changes) (s : Status) : Status :=
  let phaseChanged := c.phase.isSome || c.phaseDetail.isSome || c.phaseRole.isSome
  { s with
    run := { s.run with
      status := c.runStatus.getD s.run.status
      startedAtMs := if c.runStarted then orNow now s.run.startedAtMs else s.run.startedAtMs
      completedAtMs := if c.runCompleted then some now else s.run.completedAtMs
      updatedAtMs := some now }
    timestamps := { s.timestamps with
      startedAtMs := if c.runStarted then orNow now s.timestamps.startedAtMs else s.timestamps.startedAtMs
      completedAtMs := if c.runCompleted then some now else s.timestamps.completedAtMs
      updatedAtMs := some now }
    phase :=
      { name := c.phase.getD s.phase.name
        detail := c.phaseDetail.getD s.phase.detail
        role := c.phaseRole.getD s.phase.role
        updatedAtMs := if phaseChanged then some now else s.phase.updatedAtMs }
    blocker := match c.blocker with
      | none => s.blocker
      | some b => { s.blocker with active := b.active, kind := b.kind, message := b.message, ownerRole := b.ownerRole }
    metrics := c.metrics.foldl (fun d f => d.set f.1 f.2) s.metrics }

/-- `RunContext.lease_id`, where the callers ask whether there is one. -/
def Status.leaseId (s : Status) : Option Ident :=
  (s.coordination.bind (fun c => c.leaseId)).filter (fun i => decide (i.text ≠ ""))

section
variable (now : Int) (c : Changes) (s : Status)

@[simp] theorem updateStatus_coordination : (updateStatus now c s).coordination = s.coordination := rfl
@[simp] theorem updateStatus_leaseId : (updateStatus now c s).leaseId = s.leaseId := rfl
@[simp] theorem updateStatus_runStatus : (updateStatus now c s).runStatus = s.runStatus := rfl
@[simp] theorem updateStatus_run_status :
    (updateStatus now c s).run.status = c.runStatus.getD s.run.status := rfl
@[simp] theorem initialStatus_leaseId (runId : String) (d : Documents) : (initialStatus now runId d).leaseId = none := rfl
@[simp] theorem empty_leaseId : ({} : Status).leaseId = none := rfl

end

/-! ## With which status the lease goes back -/

/-- `_status_run_value`. -/
def statusRunValue (lower : String → String) (s : Status) : String :=
  orElse (lower (strip s.runStatus)) (lower (strip s.run.status))

/-- `_status_blocker_reason`. -/
def statusBlockerReason (s : Status) : String :=
  let spoken := if s.blocker.active then orElse (strip s.blocker.detail) (strip s.blocker.message) else ""
  let kind := if s.blocker.active then strip s.blocker.kind else ""
  orElse spoken (orElse (strip s.phase.detail) kind)

/-- The verdict of one payload in the second loop of `_final_lease_release_decision`. -/
def terminalVerdict (lower : String → String) (s : Status) : Option (ReleaseStatus × String) :=
  let value := statusRunValue lower s
  if value = "completed" then some (.completed, "run completed")
  else if value = "blocked" then some (.blocked, orElse (statusBlockerReason s) "run blocked")
  else if value = "failed" then some (.failed, orElse (statusBlockerReason s) "run failed")
  else if value = "cancelled" then some (.blocked, orElse (statusBlockerReason s) "run cancelled")
  else none

/-- `_final_lease_release_decision`, given the payloads it collects. -/
def finalLeaseReleaseDecision (lower : String → String) (payloads : List Status) (crashed : Option String) :
    ReleaseStatus × String :=
  match crashed with
  | some text => (.failed, "crashed: " ++ text)
  | none =>
    match payloads.find? (fun s => s.blocker.active) with
    | some s => (.blocked, orElse (statusBlockerReason s) "run blocked")
    | none => (payloads.findSome? (terminalVerdict lower)).getD (.blocked, "run finished without terminal status")

end RunStatus
