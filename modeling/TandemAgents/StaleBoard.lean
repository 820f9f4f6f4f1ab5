import TandemAgents.BoardSync

/-!
# Green runs and stale boards

A completed run is finished without the coordination store at hand, so that its last sync goes to
the remote system itself: nothing it meets there blocks the run, and GitHub is never told a status.
Which runs still leave the board and the run in agreement is decided by what the run meets.
-/
namespace StaleBoard

open PythonText JsonData Effects Calls RunFinalize BoardSync

set_option maxRecDepth 20000

/-! ## Where the sync is called -/

section
variable (c : Context) (f : FinalizeCalls)

/-- The state in which a run that is being completed comes to the sync. -/
def completedAt (w : World) : Option World :=
  passes ([f.save, f.snapshot].all returns) <|
  (completedMetrics c.plannedWorkers c.review c.test w.status).bind fun metrics =>
  (updateStatus f.now "task completed" "completed" [] metrics w.status).bind fun status =>
  passes (returns f.writeStatus) <|
  (getIn status "coordination" "lease_id").bind fun _ =>
  passes (returns f.touch) <|
  passes (returns (if fullyClaimed status then f.markDone else none)) <|
  passes ([f.saveBoard, f.boardSnapshot, f.summary].all returns) <|
  some (noteIf (fullyClaimed status) .taskDone (note .runCompleted (note .statusCompleted { w with status := status })))

/-- The same for a run with a note to leave. -/
def notedAt (text : String) (w : World) (x : World → Option World) : Option World :=
  (appendBlackboardNote text w.blackboard).bind fun blackboard => x { w with blackboard := blackboard }

/-- The same for a pushed commit. -/
def pullRequestAt (w : World) : Option World :=
  notedAt ("Pushed branch `" ++ c.branchName ++ "` to remote.") w fun w =>
  passes (returns f.pullRequest) <|
  passes f.prUrl.isSome <|
  completedAt c f (recordPullRequest f.prUrl (noteIf f.opened .pullRequest w))

/-- The same for a commit. -/
def commitAt (info : CommitInfo) (w : World) : Option World :=
  notedAt ("Committed validated changes as `" ++ info.short ++ "`.")
    { w with blackboard := w.blackboard.set "commit" (.obj info.toDict) } fun w =>
  passes (returns f.push) <|
  passes f.pushed <|
  pullRequestAt c f (noteIf f.pushed .pushed w)

/-- The same behind the commit, if there is one. -/
def shippedAt (w : World) : Option World :=
  passes ([f.diffStat, f.writeDiff].all returns) <|
  (collectArtifacts f.artifacts c.workers c.review c.test w.blackboard).bind fun blackboard =>
  match f.commitInfo with
  | some info => commitAt c f info { w with blackboard := blackboard }
  | none => completedAt c f { w with blackboard := blackboard }

/-- The state in which a run comes to the sync, if it does. -/
def atSync (w : World) : Option World :=
  passes (returns f.readBranch) <|
  passes (decide (f.currentBranch = c.branchName)) <|
  (item c.task "title").bind fun _ =>
  passes (returns f.commit) <|
  shippedAt c f (noteIf f.commitInfo.isSome .committed w)

/-- The sync, and what its answer leads to. -/
def closing : Act Unit := do
  call f.sync
  if f.syncFailed then
    blockRun f.block "github_sync_failed" syncFailedMessage "github finalize outbox dispatch hit terminal failure"
  else
    call f.completedEvent

end

/-! ## What a run reports -/

/-- `status["run"]["status"]`. -/
def runStatus (status : Dict) : Option String := ((status.get "run").asDict).bind fun run => (run.get "status").asStr

/-- `status["blocker"]["kind"]`. -/
def blockerKind (status : Dict) : Option String :=
  ((status.get "blocker").asDict).bind fun blocker => (blocker.get "kind").asStr

def isCompleted (w : World) : Bool := decide (runStatus w.status = some "completed")

/-- Blocked, and because of the sync. -/
def syncBlocked (w : World) : Bool :=
  decide (runStatus w.status = some "blocked" ∧ blockerKind w.status = some "github_sync_failed")

section
variable {c : Context} {f : FinalizeCalls} {w t : World} {status status' fields : Dict} {key other : String}

theorem assignIn_other (h : assignIn status key fields = some status') (hne : key ≠ other) :
    status'.get other = status.get other := by
  simp only [assignIn] at h
  split at h
  · rw [← Option.some.inj h, Dict.get_set, if_neg hne]
  · obtain ⟨d, -, rfl⟩ := Option.map_eq_some_iff.mp h
    rw [Dict.get_set, if_neg hne]

theorem assignIn_self (h : assignIn status key fields = some status') (hfields : fields ≠ []) :
    ∃ d : Dict, status'.get key = .obj (fields.foldl (fun (d : Dict) f => d.set f.1 f.2) d) := by
  simp only [assignIn] at h
  rw [if_neg (by simpa using hfields)] at h
  obtain ⟨d, -, rfl⟩ := Option.map_eq_some_iff.mp h
  exact ⟨d, by rw [Dict.get_set, if_pos rfl]⟩

theorem runStatus_updateStatus {now : Int} {detail text : String} {blocker metrics : Dict}
    (h : updateStatus now detail text blocker metrics status = some status') : runStatus status' = some text := by
  simp only [updateStatus, Option.bind_eq_bind, Option.bind_eq_some_iff] at h
  obtain ⟨s₁, h₁, s₂, h₂, s₃, h₃, s₄, h₄, h₅⟩ := h
  obtain ⟨d, hd⟩ := assignIn_self h₁ (by simp)
  unfold runStatus
  rw [assignIn_other h₅ (by decide), assignIn_other h₄ (by decide), assignIn_other h₃ (by decide),
    assignIn_other h₂ (by decide), hd]
  simp [Json.asStr]

/-- A blocked run is not reported completed. -/
theorem isCompleted_blockRun (b : BlockCalls) (kind message detail : String) :
    okWith isCompleted (blockRun b kind message detail w) = false := by
  have hrun : blockRun b kind message detail w = (orRaise typeError (updateStatus b.now detail "blocked"
      [("active", .bool true), ("kind", .str kind), ("message", .str message), ("owner_role", .str "manager")] [] w.status)
        >>= fun status => modify (fun w => { w with status := status }) >>= fun _ => calls [b.write, b.summary, b.event]) w := rfl
  rw [hrun]
  cases hstatus : updateStatus b.now detail "blocked"
      [("active", .bool true), ("kind", .str kind), ("message", .str message), ("owner_role", .str "manager")] [] w.status with
  | none => rfl
  | some status =>
    refine (okWith_calls (s := { w with status := status }) [b.write, b.summary, b.event]).trans ?_
    rw [isCompleted, runStatus_updateStatus hstatus]
    exact Bool.and_false _

theorem isCompleted_blockFinalizationFailure (b : BlockCalls) (kind message : String) :
    okWith isCompleted (blockFinalizationFailure b kind message w) = false :=
  okWith_bind_false fun _ _ => isCompleted_blockRun b kind message message

/-! ## Coming to the sync -/

theorem comesTo_leaveNote {k : World → EStateM.Result String World Unit} {x : World → Option World} {g : Unit → Act Unit}
    {text : String} (h : ∀ w, ComesTo isCompleted (x w) k (g () w)) :
    ComesTo isCompleted (notedAt text w x) k ((leaveNote text >>= g) w) := by
  unfold notedAt leaveNote
  rw [bind_assoc]
  change ComesTo isCompleted _ k ((orRaise attributeError _ >>= _ >>= g) w)
  rw [bind_assoc]
  exact ComesTo.orRaise fun blackboard _ => h { w with blackboard := blackboard }

theorem comesTo_completeRun : ComesTo isCompleted (completedAt c f w) (closing f) (completeRun c f w) := by
  refine ComesTo.calls (ComesTo.orRaise fun metrics _ => ComesTo.orRaise fun status _ => ?_)
  refine ComesTo.effect (ComesTo.orRaise fun _ _ => ComesTo.effect (ComesTo.effect ?_))
  unfold closeCompleted
  rw [show [f.saveBoard, f.boardSnapshot, f.summary, f.sync] = [f.saveBoard, f.boardSnapshot, f.summary] ++ [f.sync] from rfl,
    calls_append, bind_assoc, calls_one]
  exact ComesTo.calls rfl

theorem comesTo_openPullRequest : ComesTo isCompleted (pullRequestAt c f w) (closing f) (openPullRequest c f w) := by
  refine comesTo_leaveNote fun w => ComesTo.effect (ComesTo.ite comesTo_completeRun ?_)
  exact okWith_bind_false fun _ _ => okWith_bind_false fun _ _ => isCompleted_blockFinalizationFailure _ _ _

theorem comesTo_shipCommit (info : CommitInfo) :
    ComesTo isCompleted (commitAt c f info w) (closing f) (shipCommit c f info w) := by
  refine comesTo_leaveNote fun w => ComesTo.effect (ComesTo.ite comesTo_openPullRequest ?_)
  exact okWith_bind_false fun _ _ => okWith_bind_false fun _ _ => isCompleted_blockFinalizationFailure _ _ _

theorem comesTo_shipRest : ComesTo isCompleted (shippedAt c f w) (closing f) (shipRest c f w) := by
  refine ComesTo.calls (ComesTo.orRaise fun blackboard _ => ?_)
  change ComesTo isCompleted _ (closing f) ((match f.commitInfo with
    | some info => shipCommit c f info
    | none => completeRun c f) { w with blackboard := blackboard })
  cases f.commitInfo with
  | none => exact comesTo_completeRun
  | some info => exact comesTo_shipCommit info

/-- A run comes to the sync, or is not reported completed. -/
theorem comesTo_finalizeCompletedRun :
    ComesTo isCompleted (atSync c f w) (closing f) (finalizeCompletedRun c f w) := by
  refine ComesTo.effect (ComesTo.ite_prop (ComesTo.orRaise fun _ _ => ComesTo.effect comesTo_shipRest) ?_)
  exact isCompleted_blockFinalizationFailure _ _ _

/-! ## The state at the sync -/

theorem completedAt_of_commitAt {info : CommitInfo} (h : commitAt c f info w = some t) :
    ∃ w, completedAt c f w = some t := by
  simp only [commitAt, pullRequestAt, notedAt, passes_eq_some, Option.bind_eq_some_iff] at h
  obtain ⟨blackboard, -, -, -, blackboard', -, -, -, h⟩ := h
  exact ⟨_, h⟩

theorem completedAt_of_atSync (h : atSync c f w = some t) : ∃ w, completedAt c f w = some t := by
  simp only [atSync, shippedAt, passes_eq_some, Option.bind_eq_some_iff] at h
  obtain ⟨-, -, -, -, -, -, blackboard, -, h⟩ := h
  cases hinfo : f.commitInfo with
  | none =>
    rw [hinfo] at h
    exact ⟨_, h⟩
  | some info =>
    rw [hinfo] at h
    exact completedAt_of_commitAt h

/-- The run is marked completed before the sync is called. -/
theorem isCompleted_atSync (h : atSync c f w = some t) : isCompleted t = true := by
  obtain ⟨w, h⟩ := completedAt_of_atSync h
  simp only [completedAt, passes_eq_some, Option.bind_eq_some_iff, Option.some.injEq] at h
  obtain ⟨-, metrics, -, status, hstatus, -, -, -, -, -, -, rfl⟩ := h
  have hrun := runStatus_updateStatus hstatus
  cases fullyClaimed status <;> simp [isCompleted, note, noteIf, hrun]

/-! ## Runs with their sync -/

/-- What a run meets, with the answer of its sync. -/
def withSync (f : FinalizeCalls) : EStateM.Result String Remote Bool → FinalizeCalls
  | .ok failed _ => { f with sync := none, syncFailed := failed }
  | .error e _ => { f with sync := some ⟨e, false⟩, syncFailed := false }

theorem atSync_withSync (r : EStateM.Result String Remote Bool) : atSync c (withSync f r) w = atSync c f w := by
  cases r <;> rfl

/-- How a run ends, and what became of its status on the board. -/
structure Finished where
  result : EStateM.Result String World Unit
  write : Write

/-- A run that is finished as `finalize_completed_run` does it, which calls the sync without the
coordination store. -/
def finish (py : Python) (cfg : SyncConfig) (runId : String) (s : SyncCalls) (c : Context) (f : FinalizeCalls) (w : World) :
    Finished :=
  let sync := finalizeGithubSync py cfg { runId := runId, task := c.task } false s {}
  { result := finalizeCompletedRun c (withSync f sync) w
    write := if (atSync c f w).isSome then (endState sync).write else .unsent }

/-- A status that is given up blocks the run, whose task is not done, and a run that is reported
completed has its status sent or waiting. -/
def BoardAgrees (o : Finished) : Prop :=
  (o.write = .refused → okWith syncBlocked o.result = true ∧ Deed.taskDone ∉ (endState o.result).deeds) ∧
    (okWith isCompleted o.result = true → o.write = .dispatched ∨ o.write = .pending)

/-- Remote sync is on for the task's source. -/
def remoteSyncOn (py : Python) (cfg : SyncConfig) (task : Dict) : Bool :=
  (sourceType py cfg task).any fun source =>
    if source = "linear" then decide (linearRemoteSyncMode py cfg source ≠ "off")
    else decide (githubRemoteSyncMode py cfg source ≠ "off")

/-- With remote sync on, the board agrees with the run. -/
def NoStaleBoard (py : Python) (cfg : SyncConfig) (task : Dict) (o : Finished) : Prop :=
  remoteSyncOn py cfg task = true → BoardAgrees o

/-! ## Exactly when they agree -/

/-- With remote sync on, the run does not come to the sync, or Linear takes the status, or nothing
was given up and a call raises before the run is reported. -/
def agrees (py : Python) (cfg : SyncConfig) (runId : String) (s : SyncCalls) (c : Context) (f : FinalizeCalls) (w : World) :
    Bool :=
  let q : Request := { runId := runId, task := c.task }
  !remoteSyncOn py cfg c.task || (atSync c f w).isNone || decide (directWrite py cfg q s = .dispatched) ||
    decide (directWrite py cfg q s = .unsent) && !(directReturns py cfg q s && returns f.completedEvent)

variable {py : Python} {cfg : SyncConfig} {runId : String} {s : SyncCalls}

/-- A run whose sync answers no failure is not blocked for the sync, and is reported completed where
its last calls return. -/
theorem closing_silent (hf : f.syncFailed = false) (ht : isCompleted t = true) :
    okWith isCompleted (closing f t) = (returns f.sync && returns f.completedEvent) ∧
      okWith syncBlocked (closing f t) = false := by
  have hsync : syncBlocked t = false := by
    rw [isCompleted, decide_eq_true_eq] at ht
    simp [syncBlocked, ht]
  have hclosing : closing f = calls [f.sync, f.completedEvent] := by
    unfold closing
    rw [hf, if_neg Bool.false_ne_true]
    exact congrArg (call f.sync >>= ·) (funext fun _ => (calls_one f.completedEvent).symm)
  rw [hclosing, okWith_calls, okWith_calls, ht, hsync]
  simp

/-- What the sync of a finished run answers. -/
theorem withSync_direct (py : Python) (cfg : SyncConfig) (s : SyncCalls) (f : FinalizeCalls) (q : Request) :
    let sync := finalizeGithubSync py cfg q false s {}
    (withSync f sync).syncFailed = false ∧ returns (withSync f sync).sync = directReturns py cfg q s ∧
      (withSync f sync).completedEvent = f.completedEvent ∧ (endState sync).write = directWrite py cfg q s := by
  have hlead := (leads_finalizeGithubSync : Leads _ (finalizeGithubSync py cfg q false s) _ _) {} rfl
  have hok : isOk (finalizeGithubSync py cfg q false s {}) = directReturns py cfg q s := isOk_finalizeGithubSync
  intro sync
  cases hs : finalizeGithubSync py cfg q false s {} with
  | ok failed r =>
    rw [hs] at hlead hok
    rw [show sync = .ok failed r from hs]
    exact ⟨hlead.2, hok, rfl, hlead.1⟩
  | error e r =>
    rw [hs] at hlead hok
    rw [show sync = .error e r from hs]
    exact ⟨rfl, hok, rfl, hlead⟩

/-- A run that does not come to the sync. -/
theorem boardAgrees_of_none (h : atSync c f w = none) : BoardAgrees (finish py cfg runId s c f w) := by
  have hcomes := comesTo_finalizeCompletedRun (c := c) (w := w)
    (f := withSync f (finalizeGithubSync py cfg { runId := runId, task := c.task } false s {}))
  rw [atSync_withSync, h] at hcomes
  have hwrite : (finish py cfg runId s c f w).write = .unsent := by simp [finish, h]
  constructor
  · intro hrefused
    cases hwrite.symm.trans hrefused
  · intro hreported
    cases hcomes.symm.trans hreported

/-- A run that comes to the sync, whose status never waits. -/
theorem boardAgrees_of_some (h : atSync c f w = some t) : BoardAgrees (finish py cfg runId s c f w) ↔
    directWrite py cfg { runId := runId, task := c.task } s = .dispatched ∨
      directWrite py cfg { runId := runId, task := c.task } s = .unsent ∧
        (directReturns py cfg { runId := runId, task := c.task } s && returns f.completedEvent) = false := by
  obtain ⟨hfailed, hreturns, hevent, hwrite⟩ := withSync_direct py cfg s f { runId := runId, task := c.task }
  have hcomes := comesTo_finalizeCompletedRun (c := c) (w := w)
    (f := withSync f (finalizeGithubSync py cfg { runId := runId, task := c.task } false s {}))
  rw [atSync_withSync, h] at hcomes
  obtain ⟨hcompleted, hblocked⟩ := closing_silent hfailed (isCompleted_atSync h)
  rw [hreturns, hevent] at hcompleted
  have hresult : (finish py cfg runId s c f w).result = _ := hcomes
  have hfinish : (finish py cfg runId s c f w).write = directWrite py cfg { runId := runId, task := c.task } s := by
    simp [finish, h, hwrite]
  have hpending : directWrite py cfg { runId := runId, task := c.task } s ≠ .pending := directWrite_ne_pending
  rw [BoardAgrees, hresult, hfinish, hcompleted, hblocked]
  cases hw : directWrite py cfg { runId := runId, task := c.task } s <;> simp_all

/-- The language on texts of ASCII letters. -/
def plainPython : Python where
  lower := fun s => String.ofList (s.toList.map asciiLower)
  repr := fun _ => ""
  lower_empty := asciiLower_empty

/-- A run with a commit, a pull request and a lease. -/
def greenContext (source : String) : Context where
  task := [("task_id", .str "T1"), ("title", .str "Tidy"),
    ("source", .obj [("type", .str source), ("issue_id", .str "I1")])]
  branchName := "aca/t1"
  workers := []
  plannedWorkers := 1
  review := [("returncode", .int 0)]
  test := [("returncode", .int 0)]

def greenWorld : World where
  status := [("metrics", .obj [("completed_workers", .int 1), ("failed_workers", .int 0)]),
    ("coordination", .obj [("task_key", .str "T1"), ("lease_id", .str "L"), ("worker_id", .str "W"), ("host_id", .str "H")])]
  blackboard := [("artifacts", .arr [])]

def greenCalls : FinalizeCalls where
  currentBranch := "aca/t1"
  commitInfo := some ⟨"abc", ""⟩
  prUrl := some "U"

def syncedConfig : SyncConfig where
  sourceType := "github_project"
  github := { enabled := true, scope := "intake_finalize", remoteSync := "status_comment" }
  linear := { enabled := true, scope := "intake_finalize", remoteSync := "status_comment" }

/-- Every call is answered well but the updates of the Linear issue. -/
def refusedUpdates : SyncCalls := { updateIssue := fun _ => some "no" }

end
end StaleBoard
