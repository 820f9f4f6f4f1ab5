import TandemAgents.RunFinalize
import TandemAgents.VerificationGate

/-!
# Recovery of runs orphaned by a restart

A run whose worker was done when the service restarted is verified again from what its files
say, and then finished by the program that finishes every run: commit, push, pull request,
completed status, task done. Every call meets a fault or none. What looks at the repository,
at the engine and at the coordination store answers as the environment says.
-/
namespace RunRecovery

open PythonText JsonData Verification Effects Calls RunFinalize

set_option maxRecDepth 20000

/-- Also `int(value)`, which may raise. -/
structure Runtime extends Verification.Runtime where
  int : Json → Option Int

/-! ## Reading the files -/

/-- `_dict`. -/
def dictOf (v : Json) : Dict := v.asDict.getD []

/-- `a or b` of dictionaries. -/
def orDict (a b : Dict) : Dict := if a.isEmpty then b else a

/-- Every text once, where it first stands. -/
def distinct (texts : List String) : List String := texts.foldl (fun acc t => if t ∈ acc then acc else acc ++ [t]) []

section
variable (py : Runtime)

/-- `_string_list`: a value that is empty has no text. -/
def stringList (v : Json) : List String :=
  let items := match v with
    | .arr items => items
    | v => [v]
  (items.map (fun item => strip (py.text item))).filter (fun t => decide (t ≠ ""))

/-- `_changed_files_from_workers`. -/
def changedFilesFromWorkers (workers : List Dict) : List String :=
  distinct (workers.flatMap fun worker => stringList py (worker.get "changed_files"))

def lowered (v : Json) : String := py.lower (strip (py.text v))

/-- `_restart_orphan_is_recoverable`: the reason against it; `int` may raise. -/
def restartOrphanIsRecoverable (status blackboard : Dict) (events : List Dict) : Option (Option String) :=
  let eventTypes := events.map fun event => py.text (event.get "type")
  let workers := (blackboard.get "workers").dicts
  if lowered py ((dictOf (status.get "run")).get "status") ∉ ["created", "running"] then some (some "not_active")
  else if (dictOf (status.get "blocker")).get "active" matches .bool true then some (some "blocked")
  else if "run.completed" ∈ eventTypes ∨ "run.blocked" ∈ eventTypes then some (some "already_terminal")
  else if "github_pull_request.created" ∈ eventTypes then some (some "already_has_pr")
  else if workers.isEmpty then some (some "missing_workers")
  else if workers.any (fun worker => decide (lowered py (worker.get "status") ≠ "completed")) then
    some (some "worker_not_completed")
  else
    (py.int (((dictOf (status.get "metrics")).get "failed_workers").or (.int 0))).map fun failed =>
      if 0 < failed then some "failed_workers"
      else if (changedFilesFromWorkers py workers).isEmpty then some "missing_changed_files"
      else none

end

/-! ## The recovered verification -/

/-- What stands at a path of the repository. -/
inductive FileState where
  | missing | unreadable | readable
  deriving DecidableEq

def dropDots : List Char → List Char
  | '.' :: '/' :: cs => dropDots cs
  | cs => cs

/-- `_normalize`. -/
def normalizePath (path : String) : String := String.ofList (dropDots (replaceChar '\\' '/' (strip path)).toList)

/-- `_validation_expected_repo_files`. -/
def validationExpectedRepoFiles (files : String → FileState) (expected changed : List String) : List String :=
  let expected := (expected.filter (fun path => decide (strip path ≠ ""))).map normalizePath
  let changed := (changed.filter (fun path => decide (strip path ≠ ""))).map normalizePath
  if changed.isEmpty then distinct expected
  else distinct ((expected ++ changed).filter fun path =>
    decide (path ≠ "" ∧ (path ∈ changed ∨ files path ≠ .missing)))

def texts (values : List String) : Json := .arr (values.map .str)

def dictsOf (values : List Dict) : Json := .arr (values.map .obj)

def commandFailures (results : List Dict) : List Dict :=
  results.filter fun result => decide ((result.get "status").asStr ≠ some "pass")

/-- `deterministic_repo_validation` without commands. -/
def deterministicRepoValidation (files : String → FileState) (expected : List String) : Dict :=
  let missing := expected.filter (fun path => decide (files path = .missing))
  let unreadable := expected.filter (fun path => decide (files path = .unreadable))
  [("expected_files", texts expected), ("present_files", texts (expected.filter fun path => decide (files path ≠ .missing))),
    ("checked_files", texts (expected.filter fun path => decide (files path = .readable))),
    ("missing_files", texts missing), ("unreadable_files", texts unreadable), ("command_checks", .arr []),
    ("command_failures", .arr []), ("ok", .bool (missing.isEmpty && unreadable.isEmpty))]

/-- The validation with the results of the commands. -/
def withCommandChecks (validation : Dict) (results : List Dict) : Dict :=
  ((validation.set "command_checks" (dictsOf results)).set "command_failures" (dictsOf (commandFailures results))).set
    "ok" (.bool ((validation.get "ok").truthy && (commandFailures results).isEmpty))

section
variable (py : Runtime)

/-- The answer that stands in for a reviewer. -/
def defaultReview : Dict :=
  [("returncode", .int 0), ("stdout", .str (py.dumps (.obj [("status", .str "pass"),
    ("notes", .arr [.str "Recovered after ACA API restart; worker diff was already completed."])])))]

/-- The answer that stands in for a tester. -/
def defaultTest (validation : Dict) : Dict :=
  let results := (validation.get "command_checks").dicts.map fun result =>
    Json.obj [("command", result.get "command"), ("status", result.get "status")]
  [("returncode", .int 0), ("stdout", .str (py.dumps (.obj
    [("status", .str (if (validation.get "ok").truthy then "pass" else "blocked")), ("results", .arr results)])))]

/-- What the policy reads of a stored answer; an output that is not a text raises. -/
def processOf (answer : Dict) : Option ProcessResult :=
  match (answer.get "stdout").or (.str "") with
  | .str stdout => some ⟨py.int ((answer.get "returncode").or (.int 0)), stdout⟩
  | _ => none

/-- `int(review_returncode or 0) == 0 or int(test_returncode or 0) == 0` does not raise. -/
def readsReturncodes (review test : ProcessResult) : Bool :=
  review.returncode.isSome && (decide (review.returncode = some 0) || test.returncode.isSome)

/-- `evaluate_verification_policy` on stored answers. It reads the return codes where a repair
is asked for. -/
def evaluateResults (review test validation : Dict) : Option Decision := do
  let reviewResult ← processOf py review
  let testResult ← processOf py test
  let d ← evaluateVerificationPolicy py.toRuntime reviewResult testResult (some validation)
  if (d.reviewOutcome = .repairNeeded ∨ d.testOutcome = .repairNeeded) ∧ readsReturncodes reviewResult testResult = false then
    none
  else
    return d

def optText (t : Option String) : Json := t.elim .null .str

/-- `as_dict`. -/
def decisionDict (d : Decision) (review test : Dict) : Dict :=
  [("outcome", .str d.outcome.text), ("failure_category", optText d.failureCategory),
    ("review_blocker", optText d.reviewBlocker), ("test_blocker", optText d.testBlocker),
    ("repo_blocker", optText d.repoBlocker), ("validation_blocker", optText d.validationBlocker),
    ("should_retry", .bool d.shouldRetry), ("review_returncode", review.get "returncode"),
    ("test_returncode", test.get "returncode"), ("review_outcome", .str d.reviewOutcome.text),
    ("test_outcome", .str d.testOutcome.text)]

end

/-- The note of `_record_coding_run_contract`, appended where it is not there. -/
def appendMissingNote (text : String) (blackboard : Dict) : Option Dict :=
  match notesOf blackboard with
  | .arr notes => some (blackboard.set "notes" (.arr
      (if notes.any (fun n => decide (n.asStr = some text)) then notes else notes ++ [.str text])))
  | .str notes => if text.toList <:+: notes.toList then some blackboard else none
  | .obj notes => if Dict.contains notes text then some blackboard else none
  | _ => none

def codingRunContractNote : String :=
  "Coding run contract: diff review and minimal verification are required before handoff."

/-- `_record_coding_run_contract`. -/
def recordCodingRunContract (contract : Dict) (codeEditing : Bool) (blackboard : Dict) : Option Dict :=
  if codeEditing then appendMissingNote codingRunContractNote (blackboard.set "coding_run_contract" (.obj contract))
  else some (blackboard.set "coding_run_contract" (.obj contract))

/-- What the recovered verification meets. -/
structure VerificationCalls where
  files : String → FileState
  commands : List String := []
  commandResults : List Dict := []
  contract : Dict := []
  codeEditing : Bool := false
  findCommands : Meets String := none
  runCommands : Meets String := none
  buildContract : Meets String := none
  save : Meets String := none
  snapshot : Meets String := none
  write : Meets String := none
  event : Meets String := none

/-- The results a run is judged by. -/
structure Results where
  expectedFiles : List String
  validation : Dict
  review : Dict
  test : Dict

section
variable (py : Runtime)

/-- The results `_record_recovered_verification` builds. -/
def recoveredResults (v : VerificationCalls) (blackboard : Dict) : Results :=
  let changed := changedFilesFromWorkers py (blackboard.get "workers").dicts
  let expected := validationExpectedRepoFiles v.files (stringList py (blackboard.get "expected_repo_files")) changed
  let deterministic := deterministicRepoValidation v.files expected
  let validation := if v.commands.isEmpty then deterministic else withCommandChecks deterministic v.commandResults
  { expectedFiles := expected
    validation := validation
    review := orDict (dictOf (blackboard.get "review")) (defaultReview py)
    test := orDict (dictOf (blackboard.get "test")) (defaultTest py validation) }

/-- The decision on the recovered results; nothing where the policy raises. -/
def recoveredDecision (r : Results) : Option Decision := evaluateResults py r.review r.test r.validation

/-- What the verification puts on the blackboard. -/
def verifiedBlackboard (r : Results) (d : Decision) (blackboard : Dict) : Dict :=
  (((((blackboard.set "expected_repo_files" (texts r.expectedFiles)).set "repo_validation" (.obj r.validation)).set
    "review" (.obj r.review)).set "test" (.obj r.test)).set "verification" (.obj (decisionDict d r.review r.test))).set
    "recovered_after_restart" (.bool true)

/-- What the verification puts into the status. -/
def verifiedStatus (r : Results) (d : Decision) (status : Dict) : Dict :=
  (((status.set "repo_validation" (.obj r.validation)).set "verification" (.obj (decisionDict d r.review r.test))).set
    "review" (.obj r.review)).set "test" (.obj r.test)

/-- `_record_recovered_verification`. -/
def recordRecoveredVerification (v : VerificationCalls) : Act Results := do
  let w ← get
  let r := recoveredResults py v w.blackboard
  call v.findCommands
  call (if v.commands.isEmpty then none else v.runCommands)
  let d ← orRaise attributeError (recoveredDecision py r)
  modify fun w => { w with blackboard := verifiedBlackboard r d w.blackboard, status := verifiedStatus r d w.status }
  call v.buildContract
  let w ← get
  let blackboard ← orRaise attributeError (recordCodingRunContract v.contract v.codeEditing w.blackboard)
  modify fun w => { w with blackboard := blackboard }
  calls [v.save, v.snapshot, v.write, v.event]
  return r

end

/-! ## The recovery of one run -/

/-- What the recovery of a run meets: its files, the events of its log, and the calls. -/
structure Orphan where
  hasState : Bool := true
  loadedStatus : Except String Dict
  loadedBlackboard : Except String Dict
  events : List Dict := []
  repoExists : Bool := true
  layout : Meets String := none
  openStore : Meets String := none
  loadBoard : Meets String := none
  startedEvent : Meets String := none
  failedEvent : Meets String := none
  verification : VerificationCalls
  finalization : FinalizeCalls

/-- The answer of a recovery. -/
inductive Answer where
  | notRecovered (reason : String)
  | recovered (status pullRequest : Json)

section
variable (py : Runtime)

/-- The context of the finalizer, from the files and the recovered results. -/
def recoveredContext (status blackboard : Dict) (r : Results) : Context :=
  let repo := orDict (dictOf (status.get "repo")) (dictOf (blackboard.get "repo"))
  let subtasks := (blackboard.get "subtasks").dicts
  let planned := if subtasks.isEmpty then ((dictOf (blackboard.get "manager_plan")).get "subtasks").dicts else subtasks
  { task := orDict (dictOf (status.get "task")) (dictOf (blackboard.get "task"))
    branchName := py.text (repo.get "branch")
    workers := (blackboard.get "workers").dicts
    plannedWorkers := planned.length
    review := r.review
    test := r.test }

/-- The verification and the finalizer, one after the other. -/
def verifyAndFinalize (p : Orphan) (status blackboard : Dict) : Act Answer := do
  let r ← recordRecoveredVerification py p.verification
  finalizeCompletedRun (recoveredContext py status blackboard r) p.finalization
  let w ← get
  return .recovered ((dictOf (w.status.get "run")).get "status") (w.status.get "pull_request")

/-- The recovery of a run that is eligible. -/
def recoverEligible (p : Orphan) (status blackboard : Dict) : Act Answer := do
  call p.layout
  if p.repoExists then
    calls [p.openStore, p.loadBoard, p.startedEvent]
    tryCatch (verifyAndFinalize py p status blackboard) fun e => do
      call p.failedEvent
      return .notRecovered ("recovery_failed:" ++ e)
  else
    return .notRecovered "repo_path_missing"

/-- The recovery of a run whose files could be read. -/
def recoverLoaded (p : Orphan) (status blackboard : Dict) : Act Answer :=
  match restartOrphanIsRecoverable py status blackboard p.events with
  | none => throw "ValueError"
  | some (some reason) => return .notRecovered reason
  | some none => recoverEligible py p status blackboard

/-- `recover_restart_orphaned_run`. -/
def recoverRestartOrphanedRun (p : Orphan) : Act Answer :=
  if p.hasState then
    match p.loadedStatus, p.loadedBlackboard with
    | .ok status, .ok blackboard => do
      set ({ status := status, blackboard := blackboard } : World)
      recoverLoaded py p status blackboard
    | .error e, _ => return .notRecovered ("state_load_failed:" ++ e)
    | .ok _, .error e => return .notRecovered ("state_load_failed:" ++ e)
  else
    return .notRecovered "missing_state"

/-- Where a recovery ends. -/
def recovery (p : Orphan) : World := endState (recoverRestartOrphanedRun py p {})

/-! ## The condition -/

/-- The files and the directory are there, and nothing makes the run ineligible. -/
def eligible (p : Orphan) (status blackboard : Dict) : Bool :=
  decide (restartOrphanIsRecoverable py status blackboard p.events = some none) && returns p.layout && p.repoExists &&
    [p.openStore, p.loadBoard, p.startedEvent].all returns

/-- The blackboard behind the verification. -/
def recordedBlackboard (v : VerificationCalls) (r : Results) (blackboard : Dict) : Option Dict :=
  (recoveredDecision py r).bind fun d => recordCodingRunContract v.contract v.codeEditing (verifiedBlackboard r d blackboard)

/-- The state the finalizer starts from, where the verification returns. -/
def verified (v : VerificationCalls) (status blackboard : Dict) : Option World :=
  let r := recoveredResults py v blackboard
  if returns v.findCommands && (v.commands.isEmpty || returns v.runCommands) && returns v.buildContract &&
      [v.save, v.snapshot, v.write, v.event].all returns then do
    let d ← recoveredDecision py r
    let recorded ← recordedBlackboard py v r blackboard
    return { status := verifiedStatus r d status, blackboard := recorded }
  else none

/-- The run is eligible, its verification returns, whatever it says, and the finalizer makes
a commit or completes the run without one. -/
def recoveryShips (p : Orphan) (status blackboard : Dict) : Bool :=
  eligible py p status blackboard && (verified py p.verification status blackboard).any fun w =>
    ships (recoveredContext py status blackboard (recoveredResults py p.verification blackboard)) p.finalization w

/-- The recovered results have outcome `pass`. -/
def Passes (p : Orphan) (blackboard : Dict) : Prop :=
  ∃ d, recoveredDecision py (recoveredResults py p.verification blackboard) = some d ∧ d.outcome = .pass

/-- Nothing is shipped that was not verified. -/
def ShipsVerified (p : Orphan) : Prop :=
  Shipped (recovery py p) → ∃ blackboard, p.loadedBlackboard = .ok blackboard ∧ Passes py p blackboard

/-- The run and what it says can be read. -/
def loaded (p : Orphan) : Option (Dict × Dict) :=
  match p.hasState, p.loadedStatus, p.loadedBlackboard with
  | true, .ok status, .ok blackboard => some (status, blackboard)
  | _, _, _ => none

end

/-! ## What a recovery ships -/

section
variable {py : Runtime} {v : VerificationCalls} {status blackboard : Dict}

/-- What follows the verification starts from the state it leaves, and nothing was shipped
before. -/
theorem verification_ships (v : VerificationCalls) (status blackboard : Dict) (k : Results → Act Answer) :
    Shipped (endState ((recordRecoveredVerification py v >>= k) { status := status, blackboard := blackboard })) ↔
      ∃ w, verified py v status blackboard = some w ∧ Shipped (endState (k (recoveredResults py v blackboard) w)) := by
  have hnot : ∀ s b, ¬ Shipped { status := s, blackboard := b } := fun _ _ => not_shipped rfl
  unfold recordRecoveredVerification verified recordedBlackboard
  simp only [bind_assoc, pure_bind, endState_get_bind, endState_call_bind, endState_orRaise_bind, endState_modify_bind,
    endState_calls_bind]
  cases hfind : returns v.findCommands with
  | false => simp [hnot]
  | true =>
    have hrun : returns (if v.commands.isEmpty = true then none else v.runCommands) =
        (v.commands.isEmpty || returns v.runCommands) := by
      cases v.commands.isEmpty <;> rfl
    rw [hrun]
    cases v.commands.isEmpty || returns v.runCommands with
    | false => simp [hnot]
    | true =>
      cases recoveredDecision py (recoveredResults py v blackboard) with
      | none => simp [hnot]
      | some d =>
        cases returns v.buildContract with
        | false => simp [hnot]
        | true =>
          cases hrecorded : recordCodingRunContract v.contract v.codeEditing
              (verifiedBlackboard (recoveredResults py v blackboard) d blackboard) with
          | none => simp [hrecorded, hnot]
          | some recorded =>
            cases [v.save, v.snapshot, v.write, v.event].all returns with
            | false => simp [hrecorded, hnot]
            | true => simp [hrecorded]

theorem verified_deeds {w : World} (h : verified py v status blackboard = some w) : w.deeds = [] := by
  unfold verified at h
  dsimp only at h
  split at h
  · obtain ⟨d, -, h⟩ := Option.bind_eq_some_iff.mp h
    obtain ⟨recorded, -, h⟩ := Option.bind_eq_some_iff.mp h
    cases h
    rfl
  · cases h

theorem verifyAndFinalize_ships (p : Orphan) (status blackboard : Dict) :
    Shipped (endState (verifyAndFinalize py p status blackboard { status := status, blackboard := blackboard })) ↔
      (verified py p.verification status blackboard).any (fun w =>
        ships (recoveredContext py status blackboard (recoveredResults py p.verification blackboard)) p.finalization w) = true := by
  unfold verifyAndFinalize
  rw [verification_ships]
  have hfinal : ∀ w, verified py p.verification status blackboard = some w →
      (Shipped (endState ((finalizeCompletedRun (recoveredContext py status blackboard
        (recoveredResults py p.verification blackboard)) p.finalization >>= fun _ => do
          let w ← get
          return Answer.recovered ((dictOf (w.status.get "run")).get "status") (w.status.get "pull_request")) w)) ↔
        ships (recoveredContext py status blackboard (recoveredResults py p.verification blackboard)) p.finalization w = true) := by
    intro w hw
    rw [endState_bind_same fun _ _ => rfl]
    exact finalizeCompletedRun_ships (verified_deeds hw)
  cases hv : verified py p.verification status blackboard with
  | none => simp
  | some w =>
    rw [Option.any_some, ← hfinal w hv]
    exact ⟨fun ⟨w', hw', hshipped⟩ => by cases hw'; exact hshipped, fun h => ⟨w, rfl, h⟩⟩

theorem recoverLoaded_ships (p : Orphan) (status blackboard : Dict) :
    Shipped (endState (recoverLoaded py p status blackboard { status := status, blackboard := blackboard })) ↔
      recoveryShips py p status blackboard = true := by
  have hnot : ¬ Shipped { status := status, blackboard := blackboard } := not_shipped rfl
  unfold recoverLoaded recoveryShips eligible
  cases restartOrphanIsRecoverable py status blackboard p.events with
  | none => simpa using hnot
  | some reason =>
    cases reason with
    | some reason => simpa using hnot
    | none =>
      simp only [recoverEligible, endState_call_bind]
      cases returns p.layout with
      | false => simpa using hnot
      | true =>
        cases p.repoExists with
        | false => simpa using hnot
        | true =>
          simp only [if_true, endState_calls_bind]
          cases [p.openStore, p.loadBoard, p.startedEvent].all returns with
          | false => simpa using hnot
          | true =>
            rw [if_pos rfl, endState_attempt_same fun e t => endState_call_bind p.failedEvent _ t |>.trans (ite_self t)]
            simpa using verifyAndFinalize_ships p status blackboard

/-- A recovery ships what it can commit or complete, whatever the verification says. -/
theorem recovery_ships (p : Orphan) : Shipped (recovery py p) ↔
    ∃ status blackboard, loaded p = some (status, blackboard) ∧ recoveryShips py p status blackboard = true := by
  have hnot : ¬ Shipped {} := not_shipped rfl
  unfold recovery recoverRestartOrphanedRun loaded
  cases p.hasState with
  | false => simpa using hnot
  | true =>
    cases p.loadedStatus with
    | error e => simpa using hnot
    | ok status =>
      cases p.loadedBlackboard with
      | error e => simpa using hnot
      | ok blackboard => simpa [endState_set_bind] using recoverLoaded_ships p status blackboard

end

/-- Nothing unverified is shipped exactly where nothing can be committed or completed, or the
recovered results pass. -/
theorem shipsVerified_iff (py : Runtime) (p : Orphan) : ShipsVerified py p ↔
    ∀ status blackboard, loaded p = some (status, blackboard) → recoveryShips py p status blackboard = true →
      Passes py p blackboard := by
  have hloaded : ∀ status blackboard, loaded p = some (status, blackboard) → p.loadedBlackboard = .ok blackboard := by
    intro status blackboard h
    unfold loaded at h
    split at h
    · rename_i hblackboard
      cases h
      exact hblackboard
    · cases h
  unfold ShipsVerified
  rw [recovery_ships]
  constructor
  · intro h status blackboard hl hs
    obtain ⟨blackboard', hb, hpass⟩ := h ⟨status, blackboard, hl, hs⟩
    rw [hloaded status blackboard hl] at hb
    cases hb
    exact hpass
  · rintro h ⟨status, blackboard, hl, hs⟩
    exact ⟨blackboard, hloaded status blackboard hl, h status blackboard hl hs⟩

/-! ## A file that is missing -/

/-- Texts of ASCII letters; no text is read as JSON. -/
def plainRuntime : Runtime where
  toRuntime := VerificationGate.silentRuntime
  int v := match v with
    | .int n => some n
    | _ => none

def orphanStatus : Dict :=
  [("run", .obj [("status", .str "running")]), ("task", .obj [("title", .str "Fix the parser")]),
    ("repo", .obj [("path", .str "/srv/app"), ("branch", .str "run-1")]),
    ("metrics", .obj [("completed_workers", .int 1), ("failed_workers", .int 0)]),
    ("coordination", .obj [("task_key", .str "t-1"), ("lease_id", .str "lease-1"), ("worker_id", .str "w-1"),
      ("host_id", .str "h-1")])]

def orphanBlackboard : Dict :=
  [("workers", .arr [.obj [("status", .str "completed"), ("changed_files", .arr [.str "src/parser.py"])]]),
    ("artifacts", .arr [])]

/-- The worker was done, and its file is not there any more. -/
def missingFile : Orphan where
  loadedStatus := .ok orphanStatus
  loadedBlackboard := .ok orphanBlackboard
  verification := { files := fun _ => .missing }
  finalization := { currentBranch := "run-1", commitInfo := some { commit := "0123456789" }, prUrl := some "https://pr/1" }

/-- The verification blocks the run, and it is shipped from the commit to the task. -/
theorem missingFile_shipped : (recovery plainRuntime missingFile).deeds =
      [.committed, .pushed, .pullRequest, .statusCompleted, .runCompleted, .taskDone] ∧
    (recoveredDecision plainRuntime (recoveredResults plainRuntime missingFile.verification orphanBlackboard)).any
      (fun d => decide (d.outcome = .blocked)) = true ∧
    ¬ ShipsVerified plainRuntime missingFile := by
  have hdeeds : (recovery plainRuntime missingFile).deeds =
      [.committed, .pushed, .pullRequest, .statusCompleted, .runCompleted, .taskDone] := by decide +kernel
  have hblocked : (recoveredDecision plainRuntime (recoveredResults plainRuntime missingFile.verification orphanBlackboard)).any
      (fun d => decide (d.outcome = .blocked)) = true := by decide +kernel
  refine ⟨hdeeds, hblocked, fun h => ?_⟩
  have hshipped : Shipped (recovery plainRuntime missingFile) := by
    rw [Shipped, hdeeds]
    exact List.cons_ne_nil _ _
  obtain ⟨blackboard, hblackboard, d, hd, hpass⟩ := h hshipped
  cases hblackboard
  rw [hd, Option.any_some, decide_eq_true_eq, hpass] at hblocked
  cases hblocked

end RunRecovery
