import TandemAgents.Calls
import TandemAgents.JsonData

/-!
# Finishing a run

Commit, push, pull request, completed status and the task marked done: what every run that
is let through ships. Every call meets a fault or none, and what looks at the repository and
at the coordination store answers as the environment says.
-/
namespace RunFinalize

open PythonText JsonData Effects Calls

set_option maxRecDepth 20000

/-- What a run ships, in order. -/
inductive Deed where
  | committed | pushed | pullRequest | statusCompleted | runCompleted | taskDone
  deriving DecidableEq, Repr

/-- `ctx.status` and `ctx.blackboard`, and what was shipped. -/
structure World where
  status : Dict := []
  blackboard : Dict := []
  deeds : List Deed := []

abbrev Act := EStateM String World

def note (d : Deed) (w : World) : World := { w with deeds := w.deeds ++ [d] }

/-- An effect that is there or not. -/
def noteIf (b : Bool) (d : Deed) (w : World) : World := if b then note d w else w

def keyError : String := "KeyError"
def typeError : String := "TypeError"
def attributeError : String := "AttributeError"

/-! ## The dictionaries -/

/-- `d[key]`. -/
def item (d : Dict) (key : String) : Option Json := if d.contains key then some (d.get key) else none

/-- `d.get(key, {}).get(field)`. -/
def getIn (d : Dict) (key field : String) : Option Json :=
  if d.contains key then (d.get key).asDict.map fun inner => inner.get field else some .null

/-- `blackboard.setdefault("notes", [])`. -/
def notesOf (blackboard : Dict) : Json := if blackboard.contains "notes" then blackboard.get "notes" else .arr []

/-- `_append_blackboard_note`. -/
def appendBlackboardNote (text : String) (blackboard : Dict) : Option Dict :=
  (notesOf blackboard).asList.map fun notes => blackboard.set "notes" (.arr (notes ++ [.str text]))

/-- `status.setdefault(key, {})` with assignments in it. -/
def assignIn (status : Dict) (key : String) (fields : Dict) : Option Dict :=
  let section' := if status.contains key then status.get key else .obj []
  if fields.isEmpty then some (status.set key section')
  else section'.asDict.map fun d => status.set key (.obj (fields.foldl (fun (d : Dict) f => d.set f.1 f.2) d))

/-- `update_status` for the end of a run. -/
def updateStatus (now : Int) (phaseDetail runStatus : String) (blocker metrics status : Dict) : Option Dict := do
  let status ← assignIn status "run"
    [("status", .str runStatus), ("completed_at_ms", .int now), ("updated_at_ms", .int now)]
  let status ← assignIn status "timestamps" [("completed_at_ms", .int now), ("updated_at_ms", .int now)]
  let status ← assignIn status "phase"
    [("name", .str "handoff"), ("updated_at_ms", .int now), ("detail", .str phaseDetail)]
  let status ← assignIn status "blocker" blocker
  assignIn status "metrics" metrics

/-- `ctx.blackboard["artifacts"].extend(...)`, and what is assigned behind it. -/
def collectArtifacts (artifacts : List String) (workers : List Dict) (review test blackboard : Dict) : Option Dict := do
  let listed ← (← item blackboard "artifacts").asList
  return (((blackboard.set "artifacts" (.arr (listed ++ artifacts.map .str))).set "workers" (.arr (workers.map .obj))).set
    "review" (.obj review)).set "test" (.obj test)

/-- `value == 0`. -/
def isZero : Json → Bool
  | .int n => decide (n = 0)
  | .bool b => !b
  | .float text => decide (text = "0.0" ∨ text = "-0.0")
  | _ => false

/-- The metrics of a completed run. -/
def completedMetrics (plannedWorkers : Nat) (review test status : Dict) : Option Dict := do
  let metrics ← (← item status "metrics").asDict
  let completed ← item metrics "completed_workers"
  let failed ← item metrics "failed_workers"
  return [("planned_workers", .int plannedWorkers), ("completed_workers", completed), ("failed_workers", failed),
    ("tests_passed", .bool (isZero (review.get "returncode") && isZero (test.get "returncode")))]

/-! ## The calls -/

/-- The calls of `_block_finalization_failure` and of `block_run`. -/
structure BlockCalls where
  now : Int := 0
  saveBoard : Meets String := none
  boardSnapshot : Meets String := none
  write : Meets String := none
  summary : Meets String := none
  event : Meets String := none

/-- What `commit_repository_changes` answers. -/
structure CommitInfo where
  commit : String
  message : String := ""

def CommitInfo.toDict (i : CommitInfo) : Dict := [("commit", .str i.commit), ("message", .str i.message)]

/-- `commit_info['commit'][:7]`. -/
def CommitInfo.short (i : CommitInfo) : String := String.ofList (i.commit.toList.take 7)

/-- What finishing a run meets. `commitInfo` is the commit that was made, `pushed` whether the
push succeeded, and `opened` whether a pull request came of it. -/
structure FinalizeCalls where
  now : Int := 0
  currentBranch : String
  commitInfo : Option CommitInfo := none
  pushed : Bool := true
  pushDetail : String := ""
  opened : Bool := true
  prUrl : Option String := none
  syncFailed : Bool := false
  artifacts : List String := []
  readBranch : Meets String := none
  commit : Meets String := none
  diffStat : Meets String := none
  writeDiff : Meets String := none
  push : Meets String := none
  pullRequest : Meets String := none
  save : Meets String := none
  snapshot : Meets String := none
  writeStatus : Meets String := none
  touch : Meets String := none
  markDone : Meets String := none
  saveBoard : Meets String := none
  boardSnapshot : Meets String := none
  summary : Meets String := none
  sync : Meets String := none
  completedEvent : Meets String := none
  block : BlockCalls := {}

/-- What the context holds. -/
structure Context where
  task : Dict
  branchName : String
  workers : List Dict
  plannedWorkers : Nat
  review : Dict
  test : Dict

/-- `block_run`; its update of the run row may fail unseen. -/
def blockRun (b : BlockCalls) (kind message phaseDetail : String) : Act Unit := do
  let w ← get
  let status ← orRaise typeError (updateStatus b.now phaseDetail "blocked"
    [("active", .bool true), ("kind", .str kind), ("message", .str message), ("owner_role", .str "manager")] [] w.status)
  modify fun w => { w with status := status }
  calls [b.write, b.summary, b.event]

/-- `_block_finalization_failure`. -/
def blockFinalizationFailure (b : BlockCalls) (kind message : String) : Act Unit := do
  calls [b.saveBoard, b.boardSnapshot]
  blockRun b kind message message

/-- A note on the blackboard. -/
def leaveNote (text : String) : Act Unit := do
  let w ← get
  let blackboard ← orRaise attributeError (appendBlackboardNote text w.blackboard)
  modify fun w => { w with blackboard := blackboard }

def branchMismatch (expected current : String) : String :=
  "ACA expected to finalize on branch `" ++ expected ++ "` but the repository is on `" ++ orElse current "unknown" ++
    "`. No commit was created; reset the checkout to the default branch and rerun."

def pullRequestMissing : String :=
  "ACA committed and pushed the branch, but GitHub PR creation did not return a pull request URL. The task cannot be " ++
    "marked complete without a reviewable PR."

def pushFailed (commit branchName detail : String) : String :=
  "ACA committed local changes as `" ++ commit ++ "`, but failed to push branch `" ++
    branchName ++ "`: " ++ detail ++ ". No pull request was created, so the task remains blocked."

def syncFailedMessage : String :=
  "Run completed locally but the GitHub finalize sync hit a terminal outbox failure. The remote board will not show the " ++
    "completed status; investigate the GitHub MCP logs and the coordination outbox before re-running."

/-- The task's key and the lease, the worker and the host are all there. -/
def fullyClaimed (status : Dict) : Bool :=
  let coordination := ((status.get "coordination").asDict).getD []
  ["task_key", "lease_id", "worker_id", "host_id"].all fun key => (coordination.get key).truthy

/-- The last calls of a completed run. -/
def closeCompleted (f : FinalizeCalls) : Act Unit := do
  calls [f.saveBoard, f.boardSnapshot, f.summary, f.sync]
  if f.syncFailed then
    blockRun f.block "github_sync_failed" syncFailedMessage "github finalize outbox dispatch hit terminal failure"
  else
    call f.completedEvent

/-- The run row and the task, behind the completed status. -/
def markCompleted (f : FinalizeCalls) (status : Dict) : Act Unit := do
  let _ ← orRaise attributeError (getIn status "coordination" "lease_id")
  effect f.touch (note .runCompleted)
  effect (if fullyClaimed status then f.markDone else none) (noteIf (fullyClaimed status) .taskDone)
  closeCompleted f

/-- The completed status, and what follows it. -/
def completeRun (c : Context) (f : FinalizeCalls) : Act Unit := do
  calls [f.save, f.snapshot]
  let w ← get
  let metrics ← orRaise keyError (completedMetrics c.plannedWorkers c.review c.test w.status)
  let status ← orRaise typeError (updateStatus f.now "task completed" "completed" [] metrics w.status)
  modify fun w => { w with status := status }
  effect f.writeStatus (note .statusCompleted)
  markCompleted f status

/-- What `_enqueue_and_dispatch_pr` puts into the dictionaries where it found a pull request. -/
def recordPullRequest (prUrl : Option String) (w : World) : World :=
  match prUrl with
  | some url => { w with
      status := w.status.set "pull_request" (.str url), blackboard := w.blackboard.set "pull_request" (.str url) }
  | none => w

/-- The pull request of a pushed commit. -/
def openPullRequest (c : Context) (f : FinalizeCalls) : Act Unit := do
  leaveNote ("Pushed branch `" ++ c.branchName ++ "` to remote.")
  effect f.pullRequest (noteIf f.opened .pullRequest)
  if f.prUrl.isSome then
    modify (recordPullRequest f.prUrl)
    completeRun c f
  else
    leaveNote "Blocked: GitHub PR creation did not return a pull request URL."
    calls [f.save, f.snapshot]
    blockFinalizationFailure f.block "pull_request_missing" pullRequestMissing

/-- What follows a commit. -/
def shipCommit (c : Context) (f : FinalizeCalls) (info : CommitInfo) : Act Unit := do
  modify fun w => { w with blackboard := w.blackboard.set "commit" (.obj info.toDict) }
  leaveNote ("Committed validated changes as `" ++ info.short ++ "`.")
  effect f.push (noteIf f.pushed .pushed)
  if f.pushed then
    openPullRequest c f
  else
    leaveNote ("Warning: Failed to push branch `" ++ c.branchName ++ "`: " ++ f.pushDetail)
    calls [f.save, f.snapshot]
    blockFinalizationFailure f.block "push_failed" (pushFailed info.short c.branchName f.pushDetail)

/-- What follows `commit_repository_changes`, which may have found nothing to commit. -/
def shipRest (c : Context) (f : FinalizeCalls) : Act Unit := do
  calls [f.diffStat, f.writeDiff]
  let w ← get
  let blackboard ← orRaise keyError (collectArtifacts f.artifacts c.workers c.review c.test w.blackboard)
  modify fun w => { w with blackboard := blackboard }
  match f.commitInfo with
  | some info => shipCommit c f info
  | none => completeRun c f

/-- `finalize_completed_run`. -/
def finalizeCompletedRun (c : Context) (f : FinalizeCalls) : Act Unit := do
  call f.readBranch
  if f.currentBranch = c.branchName then
    let _ ← orRaise keyError (item c.task "title")
    effect f.commit (noteIf f.commitInfo.isSome .committed)
    shipRest c f
  else
    blockFinalizationFailure f.block "run_branch_mismatch" (branchMismatch c.branchName f.currentBranch)

/-! ## What is shipped -/

/-- Nothing is completed before the status is written, and it is written. -/
def completes (c : Context) (f : FinalizeCalls) (w : World) : Bool :=
  [f.diffStat, f.writeDiff].all returns &&
    (collectArtifacts f.artifacts c.workers c.review c.test w.blackboard).isSome && [f.save, f.snapshot].all returns &&
    ((completedMetrics c.plannedWorkers c.review c.test w.status).bind fun metrics =>
      updateStatus f.now "task completed" "completed" [] metrics w.status).isSome && lands f.writeStatus

/-- The run branch is checked out, and a commit is made or the run is completed without one. -/
def ships (c : Context) (f : FinalizeCalls) (w : World) : Bool :=
  returns f.readBranch && decide (f.currentBranch = c.branchName) && (item c.task "title").isSome &&
    if f.commitInfo.isSome then lands f.commit else returns f.commit && completes c f w

/-- Something was shipped. -/
def Shipped (w : World) : Prop := w.deeds ≠ []

section
variable {c : Context} {f : FinalizeCalls} {w : World}

theorem shipped_note {d : Deed} : Shipped (note d w) := by simp [Shipped, note]

theorem shipped_noteIf {b : Bool} {d : Deed} (h : Shipped w) : Shipped (noteIf b d w) := by
  cases b with
  | true => exact shipped_note
  | false => exact h

/-- A property of the deeds alone. -/
def OfDeeds (P : World → Prop) : Prop := ∀ s s', s'.deeds = s.deeds → P s → P s'

theorem ofDeeds_shipped : OfDeeds Shipped := fun _ _ h hs => by rwa [Shipped, h]

theorem ofDeeds_nothing : OfDeeds fun w => w.deeds = [] := fun _ _ h hs => h.trans hs

variable {P : World → Prop}

theorem keeps_blockRun (hP : OfDeeds P) (b : BlockCalls) (kind message phaseDetail : String) :
    Keeps P (blockRun b kind message phaseDetail) := by
  refine Effects.Keeps.get_bind fun w _ => Effects.Keeps.bind Keeps.orRaise fun status => ?_
  exact Effects.Keeps.bind (Effects.Keeps.modify fun s => hP s _ rfl) fun _ => Keeps.calls _

theorem keeps_blockFinalizationFailure (hP : OfDeeds P) (b : BlockCalls) (kind message : String) :
    Keeps P (blockFinalizationFailure b kind message) :=
  Effects.Keeps.bind (Keeps.calls _) fun _ => keeps_blockRun hP b kind message message

theorem keeps_leaveNote (hP : OfDeeds P) (text : String) : Keeps P (leaveNote text) :=
  Effects.Keeps.get_bind fun _ _ => Effects.Keeps.bind Keeps.orRaise fun _ => Effects.Keeps.modify fun s => hP s _ rfl

theorem keeps_closeCompleted : Keeps Shipped (closeCompleted f) := by
  refine Effects.Keeps.bind (Keeps.calls _) fun _ => ?_
  split
  · exact keeps_blockRun ofDeeds_shipped _ _ _ _
  · exact Keeps.call

theorem keeps_markCompleted (status : Dict) : Keeps Shipped (markCompleted f status) := by
  refine Effects.Keeps.bind Keeps.orRaise fun _ => Effects.Keeps.bind (Keeps.effect fun _ _ => shipped_note) fun _ => ?_
  exact Effects.Keeps.bind (Keeps.effect fun _ hs => shipped_noteIf hs) fun _ => keeps_closeCompleted

theorem keeps_completeRun : Keeps Shipped (completeRun c f) := by
  refine Effects.Keeps.bind (Keeps.calls _) fun _ => Effects.Keeps.get_bind fun _ _ => ?_
  refine Effects.Keeps.bind Keeps.orRaise fun _ => Effects.Keeps.bind Keeps.orRaise fun status => ?_
  refine Effects.Keeps.bind (Effects.Keeps.modify fun s => ofDeeds_shipped s _ rfl) fun _ => ?_
  exact Effects.Keeps.bind (Keeps.effect fun _ _ => shipped_note) fun _ => keeps_markCompleted status

theorem keeps_openPullRequest : Keeps Shipped (openPullRequest c f) := by
  refine Effects.Keeps.bind (keeps_leaveNote ofDeeds_shipped _) fun _ => ?_
  refine Effects.Keeps.bind (Keeps.effect fun _ hs => shipped_noteIf hs) fun _ => ?_
  split
  · refine Effects.Keeps.bind (Effects.Keeps.modify fun s hs => ?_) fun _ => keeps_completeRun
    refine ofDeeds_shipped s _ ?_ hs
    unfold recordPullRequest
    split <;> rfl
  · refine Effects.Keeps.bind (keeps_leaveNote ofDeeds_shipped _) fun _ => Effects.Keeps.bind (Keeps.calls _) fun _ => ?_
    exact keeps_blockFinalizationFailure ofDeeds_shipped _ _ _

theorem keeps_shipCommit {info : CommitInfo} : Keeps Shipped (shipCommit c f info) := by
  refine Effects.Keeps.bind (Effects.Keeps.modify fun s => ofDeeds_shipped s _ rfl) fun _ => ?_
  refine Effects.Keeps.bind (keeps_leaveNote ofDeeds_shipped _) fun _ => ?_
  refine Effects.Keeps.bind (Keeps.effect fun _ hs => shipped_noteIf hs) fun _ => ?_
  split
  · exact keeps_openPullRequest
  · refine Effects.Keeps.bind (keeps_leaveNote ofDeeds_shipped _) fun _ => Effects.Keeps.bind (Keeps.calls _) fun _ => ?_
    exact keeps_blockFinalizationFailure ofDeeds_shipped _ _ _

/-- What was shipped stays shipped, whatever comes after. -/
theorem keeps_shipRest : Keeps Shipped (shipRest c f) := by
  refine Effects.Keeps.bind (Keeps.calls _) fun _ => Effects.Keeps.get_bind fun _ _ => ?_
  refine Effects.Keeps.bind Keeps.orRaise fun _ => ?_
  refine Effects.Keeps.bind (Effects.Keeps.modify fun s => ofDeeds_shipped s _ rfl) fun _ => ?_
  split
  · exact keeps_shipCommit
  · exact keeps_completeRun

/-! ## Exactly what ships -/

theorem not_shipped (h : w.deeds = []) : ¬ Shipped w := fun hs => hs h

theorem completeRun_ships (hw : w.deeds = []) : Shipped (endState (completeRun c f w)) ↔
    ([f.save, f.snapshot].all returns && ((completedMetrics c.plannedWorkers c.review c.test w.status).bind fun metrics =>
      updateStatus f.now "task completed" "completed" [] metrics w.status).isSome && lands f.writeStatus) = true := by
  unfold completeRun
  rw [endState_calls_bind]
  cases [f.save, f.snapshot].all returns with
  | false => simpa using not_shipped hw
  | true =>
    rw [if_pos rfl, endState_get_bind, endState_orRaise_bind]
    cases completedMetrics c.plannedWorkers c.review c.test w.status with
    | none => simpa using not_shipped hw
    | some metrics =>
      rw [Option.elim_some, endState_orRaise_bind, Option.bind_some]
      cases updateStatus f.now "task completed" "completed" [] metrics w.status with
      | none => simpa using not_shipped hw
      | some status =>
        rw [Option.elim_some, endState_modify_bind, endState_effect_bind]
        have hshipped : Shipped (endState (markCompleted f status (note .statusCompleted { w with status := status }))) :=
          (keeps_markCompleted status).endState shipped_note
        cases hf : f.writeStatus with
        | none => simpa [returns, lands] using hshipped
        | some fault =>
          cases hdone : fault.done with
          | true => simpa [returns, lands, hdone] using shipped_note
          | false =>
            have hnothing : ¬ Shipped { w with status := status } := not_shipped hw
            simpa [returns, lands, hdone] using hnothing

theorem shipRest_ships (hw : w.deeds = []) (hnone : f.commitInfo = none) :
    Shipped (endState (shipRest c f w)) ↔ completes c f w = true := by
  unfold shipRest completes
  rw [endState_calls_bind, hnone]
  cases [f.diffStat, f.writeDiff].all returns with
  | false => simpa using not_shipped hw
  | true =>
    rw [if_pos rfl, endState_get_bind, endState_orRaise_bind]
    cases collectArtifacts f.artifacts c.workers c.review c.test w.blackboard with
    | none => simpa using not_shipped hw
    | some blackboard =>
      rw [Option.elim_some, endState_modify_bind]
      have hships := completeRun_ships (c := c) (f := f) (w := { w with blackboard := blackboard }) hw
      simpa using hships

/-- What a run ships when nothing was shipped before. -/
theorem finalizeCompletedRun_ships (hw : w.deeds = []) :
    Shipped (endState (finalizeCompletedRun c f w)) ↔ ships c f w = true := by
  unfold finalizeCompletedRun ships
  rw [endState_call_bind]
  cases returns f.readBranch with
  | false => simpa using not_shipped hw
  | true =>
    rw [if_pos rfl]
    by_cases hbranch : f.currentBranch = c.branchName
    · rw [if_pos hbranch, endState_orRaise_bind]
      cases item c.task "title" with
      | none => simpa using not_shipped hw
      | some title =>
        rw [Option.elim_some, endState_effect_bind]
        cases hinfo : f.commitInfo with
        | none =>
          have hrest := shipRest_ships (c := c) hw hinfo
          cases returns f.commit with
          | true => simpa [noteIf, hbranch] using hrest
          | false => simpa [noteIf, hbranch] using not_shipped hw
        | some info =>
          have hshipped : Shipped (endState (shipRest c f (note .committed w))) := keeps_shipRest.endState shipped_note
          cases hcommit : f.commit with
          | none => simpa [returns, lands, noteIf, hbranch] using hshipped
          | some fault =>
            cases hdone : fault.done with
            | true => simpa [returns, lands, noteIf, hbranch, hdone] using shipped_note
            | false => simpa [returns, lands, noteIf, hbranch, hdone] using not_shipped hw
    · have hblocked := (keeps_blockFinalizationFailure ofDeeds_nothing f.block "run_branch_mismatch"
        (branchMismatch c.branchName f.currentBranch)).endState hw
      rw [if_neg hbranch]
      simpa [hbranch] using not_shipped hblocked

end
end RunFinalize
