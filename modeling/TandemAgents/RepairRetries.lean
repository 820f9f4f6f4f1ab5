import Mathlib.Data.List.Dedup
import Mathlib.Data.List.Infix
import TandemAgents.PythonText

/-!
# The repair loop of a run

`_run_once_internal_impl` plans, dispatches workers, integrates and verifies, and starts over
where one of its predicates grants a retry. Budgets come from the environment variables of
the configuration; what the workers and the reviews of an attempt come to is its input, and
the repair state is carried from one attempt to the next. The texts of the feedback are
left out: what counts is whether there is one.
-/
namespace RepairRetries

open PythonText

set_option maxRecDepth 20000

/-- What the loop takes from its surroundings: the environment variables, `int(text)` where it
returns, lowering of a text, and `cfg.swarm.max_retries`. -/
structure Config where
  env : String → String
  int : String → Option Int
  lower : String → String
  maxRetries : Int

/-! ## Budgets -/

section
variable (c : Config)

/-- A number of extra retries: the variable, where it holds a number, or the default. -/
def extraRetries (key : String) (default : Nat) : Nat :=
  if strip (c.env key) ≠ "" then ((c.int (strip (c.env key))).map Int.toNat).getD default else default

/-- `_worker_incomplete_diff_extra_retries`. -/
def workerIncompleteDiffExtraRetries : Nat := extraRetries c "ACA_WORKER_INCOMPLETE_DIFF_EXTRA_RETRIES" 1

/-- `_worker_off_track_extra_retries`. -/
def workerOffTrackExtraRetries : Nat := extraRetries c "ACA_WORKER_OFF_TRACK_EXTRA_RETRIES" 1

/-- `_worker_engine_empty_response_extra_retries`. -/
def workerEngineEmptyResponseExtraRetries : Nat := extraRetries c "ACA_WORKER_ENGINE_EMPTY_RESPONSE_EXTRA_RETRIES" 1

/-- `_worker_verifiable_diff_test_failed_extra_retries`. -/
def workerVerifiableDiffTestFailedExtraRetries : Nat :=
  extraRetries c "ACA_WORKER_VERIFIABLE_DIFF_TEST_FAILED_EXTRA_RETRIES" 1

/-- `_worker_verifiable_diff_weak_test_extra_retries`. -/
def workerVerifiableDiffWeakTestExtraRetries : Nat :=
  extraRetries c "ACA_WORKER_VERIFIABLE_DIFF_WEAK_TEST_EXTRA_RETRIES" 3

/-- `_worker_verifiable_diff_import_error_extra_retries`. -/
def workerVerifiableDiffImportErrorExtraRetries : Nat :=
  extraRetries c "ACA_WORKER_VERIFIABLE_DIFF_IMPORT_ERROR_EXTRA_RETRIES" 2

/-- `_worker_verifiable_diff_exception_extra_retries`. -/
def workerVerifiableDiffExceptionExtraRetries : Nat :=
  extraRetries c "ACA_WORKER_VERIFIABLE_DIFF_EXCEPTION_EXTRA_RETRIES" 2

/-- `_worker_verifiable_diff_assertion_extra_retries`. -/
def workerVerifiableDiffAssertionExtraRetries : Nat :=
  extraRetries c "ACA_WORKER_VERIFIABLE_DIFF_ASSERTION_EXTRA_RETRIES" 2

/-- `_verification_repair_extra_retries`. -/
def verificationRepairExtraRetries : Nat := extraRetries c "ACA_VERIFICATION_REPAIR_EXTRA_RETRIES" 1

/-- `_worker_complementary_partial_diff_loop_extra_retries`. -/
def workerComplementaryPartialDiffLoopExtraRetries : Nat :=
  extraRetries c "ACA_WORKER_COMPLEMENTARY_PARTIAL_DIFF_LOOP_EXTRA_RETRIES" 1

/-- The extra retries `_integration_can_retry` reads for itself. -/
def integrationRejectionExtraRetries : Nat := extraRetries c "ACA_INTEGRATION_REJECTION_EXTRA_RETRIES" 1

/-- `_worker_repair_loop_extra_retries`. -/
def workerRepairLoopExtraRetries : Nat :=
  [workerOffTrackExtraRetries c, workerEngineEmptyResponseExtraRetries c, workerVerifiableDiffTestFailedExtraRetries c,
    workerVerifiableDiffWeakTestExtraRetries c, workerVerifiableDiffImportErrorExtraRetries c,
    workerVerifiableDiffExceptionExtraRetries c, workerVerifiableDiffAssertionExtraRetries c].foldl max
      (workerIncompleteDiffExtraRetries c)

def baseMaxLoops : Nat := c.maxRetries.toNat + 1

/-- `max_loops`, without `base_max_loops`. -/
def loopExtraRetries : Nat :=
  workerRepairLoopExtraRetries c + verificationRepairExtraRetries c + workerComplementaryPartialDiffLoopExtraRetries c

def maxLoops : Nat := baseMaxLoops c + loopExtraRetries c

/-! ## Paths -/

/-- `while rel_path.startswith("./"): rel_path = rel_path[2:]`. -/
def dropDots : List Char → List Char
  | '.' :: '/' :: rest => dropDots rest
  | cs => cs

/-- `str(path or "").strip().replace("\\", "/")`. -/
def cleanPath (path : String) : String := replaceChar '\\' '/' (strip path)

/-- The paths of a list that are not blank. -/
def cleanPaths (paths : List String) : List String := (paths.map cleanPath).filter (fun path => decide (path ≠ ""))

def contains (needle text : String) : Bool := decide (needle.toList <:+: text.toList)
def startsWith (front text : String) : Bool := decide (front.toList <+: text.toList)
def endsWith (back text : String) : Bool := decide (back.toList <:+ text.toList)

/-- A path that is no path below the repository. -/
def strayPath (path : String) : Bool :=
  decide (path = "") || startsWith "/" path || decide (path = "..") || startsWith "../" path ||
    contains "/../" ("/" ++ path ++ "/")

def relPath (path : String) : String := String.ofList (dropDots (cleanPath path).toList)

/-- `Path(path).name`. -/
def fileName (path : String) : String :=
  String.ofList ((((path.toList.splitOn '/').filter (fun part => decide (part ≠ []) && decide (part ≠ ['.']))).getLast?).getD [])

/-- `_repo_path_looks_like_test_file`. -/
def repoPathLooksLikeTestFile (path : String) : Bool :=
  let rel := relPath path
  let name := c.lower (fileName rel)
  !strayPath rel && (contains "/tests/" ("/" ++ c.lower rel ++ "/") || startsWith "test_" name ||
    ["_test.py", ".test.py", "_test.rs", ".test.ts", ".test.tsx", ".spec.ts", ".spec.tsx"].any (fun back => endsWith back name))

/-- `_changed_files_include_source_and_test`. -/
def changedFilesIncludeSourceAndTest (changedFiles : List String) : Bool :=
  let normalized := (changedFiles.map relPath).filter (fun path => !strayPath path && decide (path ≠ "__aca_temp_probe.txt"))
  normalized.any (repoPathLooksLikeTestFile c) && normalized.any (fun path => !repoPathLooksLikeTestFile c path)

/-! ## Blockers and artifacts -/

/-- What a result and an artifact say about the part of the task they belong to. -/
structure Slice where
  subtaskId : String
  subtaskTargetFiles : List String
  subtaskFiles : List String
  changedFiles : List String

/-- The failed result `_worker_failure_blocker` reports, as far as the predicates read it. -/
structure Worker extends Slice where
  failureReason : String
  preservedFailureReason : String
  partialDiffArtifact : String
  artifactsPartialDiff : String
  abandonedAfterTimeout : Bool
  stdout : String
  outputExcerpt : String
  verificationOutputExcerpt : String

structure Blocker where
  kind : String
  worker : Worker

/-- A preserved partial diff. -/
structure Artifact extends Slice where
  workerId : String
  patchPath : String
  failureReason : String

def retryableKinds : List String :=
  ["worker_incomplete_diff", "worker_no_progress", "worker_off_track", "worker_unproductive_diff", "worker_corrupt_diff",
    "carry_forward_patch_apply_failed", "worker_no_diff", "worker_reported_blocker", "engine_tool_loop_stalled",
    "engine_tool_loop_stalled_no_diff", "engine_prompt_timeout", "engine_empty_response", "engine_no_activity_response"]

def partialDiffExtraRetryKinds : List String :=
  ["worker_incomplete_diff", "worker_corrupt_diff", "worker_no_progress", "worker_off_track",
    "carry_forward_patch_apply_failed", "engine_tool_loop_stalled", "engine_prompt_timeout"]

/-- `_worker_failure_has_partial_diff`. -/
def workerFailureHasPartialDiff (b : Blocker) : Bool :=
  decide (strip b.worker.partialDiffArtifact ≠ "") || decide (strip b.worker.artifactsPartialDiff ≠ "")

/-- A partial diff with source and tests, failed for one of the reasons. -/
def verifiableDiffFailed (reasons : List String) (b : Blocker) : Bool :=
  decide (strip b.worker.failureReason ∈ reasons) && decide (strip b.kind = "worker_incomplete_diff") &&
    workerFailureHasPartialDiff b && changedFilesIncludeSourceAndTest c b.worker.changedFiles

/-- `_worker_failure_is_verifiable_diff_test_failed`. -/
def workerFailureIsVerifiableDiffTestFailed (b : Blocker) : Bool :=
  verifiableDiffFailed c ["WORKER_VERIFIABLE_DIFF_TEST_FAILED", "WORKER_VERIFIABLE_DIFF_UNTERMINATED"] b

/-- `_worker_failure_is_verifiable_diff_weak_test`. -/
def workerFailureIsVerifiableDiffWeakTest (b : Blocker) : Bool :=
  verifiableDiffFailed c ["WORKER_VERIFIABLE_DIFF_WEAK_TEST", "WORKER_VERIFIABLE_DIFF_MISALIGNED_TEST"] b

/-- `_worker_failure_is_repair_no_change_on_preserved_partial`. -/
def workerFailureIsRepairNoChangeOnPreservedPartial (b : Blocker) : Bool :=
  let preserved := strip b.worker.preservedFailureReason
  decide (strip b.kind = "worker_no_progress") && decide (strip b.worker.failureReason = "WORKER_REPAIR_NO_CHANGE") &&
    decide (preserved ∈ ["WORKER_VERIFIABLE_DIFF_TEST_FAILED", "WORKER_VERIFIABLE_DIFF_UNTERMINATED",
      "WORKER_VERIFIABLE_DIFF_WEAK_TEST", "WORKER_VERIFIABLE_DIFF_MISALIGNED_TEST", "ENGINE_PROMPT_TIMEOUT",
      "ENGINE_TOOL_LOOP_STALLED", "WORKER_OFF_TRACK_TESTLESS_DIFF", "WORKER_TEST_ONLY_DIFF"]) &&
    workerFailureHasPartialDiff b &&
    (decide (preserved ∈ ["ENGINE_PROMPT_TIMEOUT", "ENGINE_TOOL_LOOP_STALLED"]) ||
      changedFilesIncludeSourceAndTest c b.worker.changedFiles)

/-- `_worker_failure_is_incomplete_diff_with_partial`. -/
def workerFailureIsIncompleteDiffWithPartial (b : Blocker) : Bool :=
  decide (strip b.kind = "worker_incomplete_diff") &&
    decide (strip b.worker.failureReason ∈ ["WORKER_TEST_ONLY_DIFF", "ENGINE_PROMPT_TIMEOUT", "ENGINE_TOOL_LOOP_STALLED"]) &&
    workerFailureHasPartialDiff b

/-- The output of the worker, lowered. -/
def outputText (w : Worker) : String :=
  c.lower (String.intercalate "\n" [w.stdout, w.outputExcerpt, w.failureReason, w.verificationOutputExcerpt])

/-- `_worker_failure_has_import_error`. -/
def workerFailureHasImportError (b : Blocker) : Bool :=
  let text := outputText c b.worker
  (contains "importerror" text && contains "cannot import name" text) ||
    (contains "modulenotfounderror" text && contains "no module named" text)

/-- `_worker_failure_has_repairable_exception`. -/
def workerFailureHasRepairableException (b : Blocker) : Bool :=
  let text := outputText c b.worker
  [["typeerror:", "got an unexpected keyword argument"], ["nameerror:", "is not defined"],
    ["typeerror:", " positional argument", " given"], ["typeerror:", "missing", "required positional argument"],
    ["attributeerror:", "'str' object has no attribute 'get'"],
    ["attributeerror:", "'nonetype' object has no attribute 'get'"],
    ["syntaxerror:", "from __future__ imports must occur at the beginning of the file"]].any
      (fun words => words.all (fun word => contains word text))

/-- `_worker_failure_has_assertion_failure`. -/
def workerFailureHasAssertionFailure (b : Blocker) : Bool :=
  let text := outputText c b.worker
  contains "assertionerror:" text || contains "\nfail:" text || contains "failed (failures=" text

/-- `_worker_failure_is_false_missing_target_glob`. -/
def workerFailureIsFalseMissingTargetGlob (b : Blocker) : Bool :=
  let text := c.lower (String.intercalate "\n" [b.worker.stdout, b.worker.outputExcerpt, b.worker.failureReason])
  contains "glob" text && contains "no matches" text &&
    (contains "target file" text || contains "target files" text || contains "required target" text)

/-- The extra retries of a failed test, more of them where its output shows why. -/
def raisedExtraRetries (b : Blocker) (start : Nat) : Nat :=
  let imports := if workerFailureHasImportError c b then max start (workerVerifiableDiffImportErrorExtraRetries c) else start
  let exceptions := if workerFailureHasRepairableException c b then max imports (workerVerifiableDiffExceptionExtraRetries c)
    else imports
  if workerFailureHasAssertionFailure c b then max exceptions (workerVerifiableDiffAssertionExtraRetries c) else exceptions

/-- `_worker_failure_can_retry`. -/
def workerFailureCanRetry (b : Blocker) (attempt : Nat) : Bool :=
  let kind := strip b.kind
  let within := fun extra : Nat => decide (attempt < baseMaxLoops c + extra - 1)
  if kind ∉ retryableKinds then false
  else if kind = "worker_reported_blocker" then workerFailureIsFalseMissingTargetGlob c b && within 0
  else if kind = "worker_no_progress" ∧ b.worker.abandonedAfterTimeout = true then false
  else if kind ∈ ["engine_empty_response", "engine_no_activity_response"] then within 0
  else if kind = "worker_no_progress" ∧ strip b.worker.failureReason = "WORKER_REPAIR_NO_CHANGE" then
    workerFailureIsRepairNoChangeOnPreservedPartial c b &&
      within (raisedExtraRetries c b (if changedFilesIncludeSourceAndTest c b.worker.changedFiles
        then workerVerifiableDiffTestFailedExtraRetries c else workerIncompleteDiffExtraRetries c))
  else if within 0 then true
  else if kind ∉ partialDiffExtraRetryKinds then false
  else if kind ∈ ["engine_tool_loop_stalled", "engine_prompt_timeout"] ∧ workerFailureHasPartialDiff b = false then false
  else if kind = "worker_off_track" then within (workerOffTrackExtraRetries c)
  else if workerFailureIsVerifiableDiffTestFailed c b then
    within (raisedExtraRetries c b (workerVerifiableDiffTestFailedExtraRetries c))
  else if workerFailureIsVerifiableDiffWeakTest c b then
    within (workerVerifiableDiffWeakTestExtraRetries c +
      if workerFailureHasImportError c b || workerFailureHasRepairableException c b || workerFailureHasAssertionFailure c b
        then 1 else 0)
  else workerFailureIsIncompleteDiffWithPartial b && within (workerIncompleteDiffExtraRetries c)

/-! ## Retries on preserved partial diffs -/

/-- `artifact_key`. -/
def artifactKey (a : Artifact) : String :=
  if strip a.patchPath ≠ "" then "patch:" ++ strip a.patchPath
  else String.intercalate ":" [strip a.subtaskId, strip a.workerId, String.intercalate "," (a.changedFiles.map strip)]

/-- `_merge_partial_diff_artifacts_for_retry`. -/
def mergePartialDiffArtifacts (existing new : List Artifact) : List Artifact :=
  (existing ++ new).foldl
    (fun merged a => if merged.any (fun other => decide (artifactKey other = artifactKey a)) then merged else merged ++ [a]) []

/-- `_partial_diff_artifact_repair_key`. -/
def repairKey (s : Slice) : String :=
  if strip s.subtaskId ≠ "" then "subtask:" ++ strip s.subtaskId
  else
    match ([("subtask_target_files", s.subtaskTargetFiles), ("subtask_files", s.subtaskFiles),
        ("changed_files", s.changedFiles)].filter (fun field => decide (cleanPaths field.2 ≠ []))).head? with
    | some field => field.1 ++ ":" ++ String.intercalate "," (cleanPaths field.2)
    | none => ""

/-- A diff of source files only that is off track. -/
def sourceOnly (a : Artifact) : Bool :=
  decide (strip a.failureReason = "WORKER_OFF_TRACK_TESTLESS_DIFF") && decide (cleanPaths a.changedFiles ≠ []) &&
    (cleanPaths a.changedFiles).all (fun path => !repoPathLooksLikeTestFile c path)

/-- A diff of test files only. -/
def testOnly (a : Artifact) : Bool :=
  decide (strip a.failureReason = "WORKER_TEST_ONLY_DIFF") && decide (cleanPaths a.changedFiles ≠ []) &&
    (cleanPaths a.changedFiles).all (repoPathLooksLikeTestFile c)

/-- `_partial_diff_artifacts_complementary_one_sided_pair_count`. -/
def complementaryPairCount (artifacts : List Artifact) : Nat :=
  let keys := fun taken : Artifact → Bool =>
    ((artifacts.filter taken).map (fun a => repairKey a.toSlice)).filter (fun key => decide (key ≠ ""))
  ((keys (sourceOnly c)).dedup.filter (fun key => decide (key ∈ keys (testOnly c)))).length

/-- `_complementary_one_sided_partial_diff_can_retry`. -/
def complementaryCanRetry (artifacts : List Artifact) (attempt : Nat) : Bool :=
  let pairs := complementaryPairCount c artifacts
  decide (0 < pairs) && decide (attempt < baseMaxLoops c +
    (max (workerIncompleteDiffExtraRetries c) (workerOffTrackExtraRetries c) + 1 + (pairs - 1) * 2) - 1)

/-- `_partial_diff_artifacts_matching_failure_count`. -/
def matchingFailureCount (artifacts : List Artifact) (b : Blocker) (reasons : List String) : Nat :=
  (artifacts.filter (fun a => decide (strip a.failureReason ∈ reasons) &&
    (decide (strip b.worker.subtaskId = "") || decide (strip a.subtaskId = "") ||
      decide (strip a.subtaskId = strip b.worker.subtaskId)))).length

/-- `_verifiable_diff_test_failed_partial_diff_can_retry`. -/
def testFailedPartialDiffCanRetry (artifacts : List Artifact) (b : Blocker) (attempt : Nat) : Bool :=
  let extra := raisedExtraRetries c b (workerVerifiableDiffTestFailedExtraRetries c)
  let count := matchingFailureCount artifacts b
    ["WORKER_VERIFIABLE_DIFF_TEST_FAILED", "WORKER_VERIFIABLE_DIFF_UNTERMINATED"]
  decide (attempt < maxLoops c) && workerFailureIsVerifiableDiffTestFailed c b && decide (0 < extra) &&
    decide (0 < count) && decide (count ≤ extra)

/-- `_partial_diff_artifact_has_engine_empty_repair_context`. -/
def engineEmptyRepairContext (a : Artifact) : Bool :=
  changedFilesIncludeSourceAndTest c (cleanPaths a.changedFiles) || sourceOnly c a || testOnly c a

/-- `_engine_empty_response_repair_can_retry`. -/
def engineEmptyResponseRepairCanRetry (artifacts : List Artifact) (b : Blocker) (attempt used : Nat) : Bool :=
  let kind := strip b.kind
  decide (kind ∈ ["engine_empty_response", "engine_prompt_timeout"]) &&
    !(decide (kind = "engine_prompt_timeout") && decide (strip b.worker.failureReason ∉ ["", "ENGINE_PROMPT_TIMEOUT"])) &&
    artifacts.any (engineEmptyRepairContext c) && decide (used < workerEngineEmptyResponseExtraRetries c) &&
    decide (attempt < maxLoops c - 1)

/-- What has been seen of the diffs of one part of the task. -/
structure Seen where
  source : Bool
  test : Bool
  rebuild : Bool
  afterPair : Bool

def pairedRebuildReasons : List String :=
  ["WORKER_VERIFIABLE_DIFF_WEAK_TEST", "WORKER_VERIFIABLE_DIFF_MISALIGNED_TEST", "WORKER_VERIFIABLE_DIFF_TEST_FAILED",
    "WORKER_VERIFIABLE_DIFF_UNTERMINATED", "WORKER_RUNAWAY_DIFF", "WORKER_DESTRUCTIVE_DIFF"]

def Seen.add (a : Artifact) (seen : Seen) : Seen :=
  if sourceOnly c a then { seen with afterPair := seen.afterPair || (seen.source && seen.test), source := true }
  else if testOnly c a then { seen with afterPair := seen.afterPair || (seen.source && seen.test), test := true }
  else if strip a.failureReason ∈ pairedRebuildReasons ∧ changedFilesIncludeSourceAndTest c (cleanPaths a.changedFiles) = true
    then { seen with rebuild := true }
  else seen

def oneSidedReasons : List String := ["WORKER_OFF_TRACK_TESTLESS_DIFF", "WORKER_TEST_ONLY_DIFF"]

/-- The artifacts of the part of the task the worker failed at. -/
def ofWorker (artifacts : List Artifact) (b : Blocker) : List Artifact :=
  artifacts.filter (fun a => decide (repairKey a.toSlice = repairKey b.worker.toSlice))

/-- `_one_sided_repair_cycle_should_block`. -/
def oneSidedRepairCycleShouldBlock (artifacts : List Artifact) (b : Blocker) : Bool :=
  let seen := (ofWorker artifacts b).foldl (fun (seen : Seen) a => seen.add c a) ⟨false, false, false, false⟩
  decide (strip b.worker.failureReason ∈ oneSidedReasons) && decide (repairKey b.worker.toSlice ≠ "") &&
    seen.source && seen.test && (seen.rebuild || seen.afterPair)

/-- The count of one-sided diffs behind the last one that was tested and failed. -/
def followupCount (artifacts : List Artifact) : Option Nat :=
  artifacts.foldl
    (fun count a =>
      if strip a.failureReason ∈ ["WORKER_VERIFIABLE_DIFF_TEST_FAILED", "WORKER_VERIFIABLE_DIFF_UNTERMINATED"] then
        if changedFilesIncludeSourceAndTest c (cleanPaths a.changedFiles) then some 0 else count
      else if sourceOnly c a || testOnly c a then count.map (· + 1)
      else count) none

/-- `_failed_verifiable_followup_one_sided_can_retry`. -/
def failedVerifiableFollowupCanRetry (artifacts : List Artifact) (b : Blocker) : Bool :=
  let count := (followupCount c (ofWorker artifacts b)).getD 0
  decide (strip b.worker.failureReason ∈ oneSidedReasons) && decide (repairKey b.worker.toSlice ≠ "") &&
    decide (0 < count) && decide (count ≤ max 1 (workerVerifiableDiffTestFailedExtraRetries c))

/-- `_destructive_complementary_partial_diff_can_retry`. -/
def destructiveComplementaryCanRetry (artifacts : List Artifact) (b : Blocker) (attempt : Nat) : Bool :=
  decide (strip b.kind = "worker_runaway_diff") && decide (strip b.worker.failureReason = "WORKER_DESTRUCTIVE_DIFF") &&
    workerFailureHasPartialDiff b && decide (0 < complementaryPairCount c artifacts) &&
    decide ((artifacts.filter (fun a =>
      decide (strip a.failureReason ∈ ["WORKER_DESTRUCTIVE_DIFF", "WORKER_RUNAWAY_DIFF"]))).length = 1) &&
    decide (attempt < baseMaxLoops c +
      (workerRepairLoopExtraRetries c + workerComplementaryPartialDiffLoopExtraRetries c) - 1)

/-- An artifact with a patch and a reason. -/
def usefulArtifact (a : Artifact) : Bool := decide (strip a.patchPath ≠ "") && decide (strip a.failureReason ≠ "")

/-- `_stalled_no_diff_repair_can_retry`. -/
def stalledNoDiffRepairCanRetry (artifacts : List Artifact) (b : Blocker) (attempt : Nat) : Bool :=
  decide (strip b.kind = "engine_tool_loop_stalled_no_diff") && artifacts.any usefulArtifact &&
    decide (attempt < baseMaxLoops c + max 1 (workerIncompleteDiffExtraRetries c) - 1)

/-! ## The decision on failed workers -/

/-- `retry_feedback`, as to whether there is one, and `retry_allowed`. -/
structure Verdict where
  feedback : Bool
  allowed : Bool

/-- The decision, and whether it uses up a retry on empty responses. `used` counts those used
before. -/
def workerRetry (b : Blocker) (merged : List Artifact) (attempt used : Nat) : Verdict × Bool :=
  let feedback := decide (strip b.kind ∈ retryableKinds)
  let first : Verdict := ⟨feedback, feedback && workerFailureCanRetry c b attempt⟩
  let cycle := oneSidedRepairCycleShouldBlock c merged b
  let followup := cycle && failedVerifiableFollowupCanRetry c merged b
  let second : Verdict := if cycle && !followup then ⟨false, false⟩
    else if followup then { first with allowed := true } else first
  let emptied := engineEmptyResponseRepairCanRetry c merged b attempt used
  let third : Verdict :=
    if second.allowed && decide (b.kind = "engine_empty_response") && !merged.isEmpty && !emptied then ⟨false, false⟩ else second
  let fourth : Verdict :=
    if third.feedback && !third.allowed && !cycle then { third with allowed := complementaryCanRetry c merged attempt } else third
  let fifth : Verdict :=
    if fourth.feedback && !fourth.allowed && !cycle
    then { fourth with allowed := testFailedPartialDiffCanRetry c merged b attempt } else fourth
  let sixth : Verdict :=
    if !fifth.feedback && !fifth.allowed && destructiveComplementaryCanRetry c merged b attempt then ⟨true, true⟩ else fifth
  let seventh : Verdict :=
    if sixth.feedback && !sixth.allowed then { sixth with allowed := stalledNoDiffRepairCanRetry c merged b attempt } else sixth
  if seventh.feedback && !seventh.allowed then ({ seventh with allowed := emptied }, emptied) else (seventh, false)

/-! ## Attempts -/

/-- `ctx.blackboard["repair"]` and `ctx.status["repair"]`, which are written together. -/
structure RepairState where
  artifacts : List Artifact
  preserved : Bool
  source : Bool
  listed : Bool
  emptyRetries : Nat

def RepairState.initial : RepairState := ⟨[], false, false, false, 0⟩

/-- `_repair_state_has_worker_incomplete_diff`. -/
def RepairState.hasWorkerIncompleteDiff (s : RepairState) : Bool :=
  s.source || s.listed || (!s.artifacts.isEmpty && s.preserved)

/-- `_discard_partial_diff_repair_artifacts`. -/
def RepairState.discard (s : RepairState) : RepairState :=
  { s with artifacts := [], preserved := false, source := false, listed := false }

/-- What a granted retry on failed workers leaves. -/
def RepairState.keep (merged : List Artifact) (emptied : Bool) (s : RepairState) : RepairState :=
  let kept := if merged.isEmpty then s else { s with artifacts := merged, preserved := true, source := true, listed := true }
  { kept with emptyRetries := if emptied then s.emptyRetries + 1 else s.emptyRetries }

/-- `_verification_can_retry`. -/
def verificationCanRetry (s : RepairState) (attempt : Nat) : Bool :=
  decide (attempt < baseMaxLoops c - 1) || (s.hasWorkerIncompleteDiff && decide (attempt < baseMaxLoops c +
    (workerIncompleteDiffExtraRetries c + verificationRepairExtraRetries c) - 1))

/-- `_integration_can_retry`. -/
def integrationCanRetry (s : RepairState) (attempt : Nat) : Bool :=
  verificationCanRetry c s attempt || (s.hasWorkerIncompleteDiff && decide (attempt < baseMaxLoops c +
    workerIncompleteDiffExtraRetries c + integrationRejectionExtraRetries c - 1))

inductive Integration where
  | failed | rejected | passed
  deriving DecidableEq, Repr

inductive Review where
  | repairNeeded | failed | passed
  deriving DecidableEq, Repr

/-- What an attempt comes to: whether it ends before or behind its workers (coordination lost,
planning failed, nothing to do), the blocker and the new artifacts of failed workers, whether
their failure is tolerated, a blocker of the repository validation, the integration review
as far as it is not deferred, whether there is no diff, a valid repository or a proof of
earlier work, and the verification. -/
structure Attempt where
  ended : Bool
  failure : Option (Blocker × List Artifact)
  tolerated : Bool
  repoBlocker : Bool
  integration : Integration
  noDiff : Bool
  repoOk : Bool
  proof : Bool
  review : Review

inductive Turn where
  | retry (s : RepairState)
  | stop

/-- The part behind the integration review. -/
def checkAttempt (attempt : Nat) (s : RepairState) (t : Attempt) : Turn :=
  if t.noDiff && (!t.repoOk || !t.proof) then (if attempt < baseMaxLoops c - 1 then .retry s else .stop)
  else
    match t.review with
    | .repairNeeded => if verificationCanRetry c s attempt then .retry s.discard else .stop
    | .failed => .stop
    | .passed => .stop

/-- The part behind the workers. -/
def integrateAttempt (attempt : Nat) (s : RepairState) (t : Attempt) : Turn :=
  if t.repoBlocker then (if attempt < baseMaxLoops c - 1 then .retry s else .stop)
  else
    match t.integration with
    | .failed => .stop
    | .rejected => if integrationCanRetry c s attempt then .retry s.discard else .stop
    | .passed => checkAttempt c attempt s t

/-- The body of the loop. -/
def runAttempt (attempt : Nat) (s : RepairState) (t : Attempt) : Turn :=
  if t.ended then .stop
  else
    match t.failure with
    | none => integrateAttempt c attempt s t
    | some (b, new) =>
      let merged := mergePartialDiffArtifacts s.artifacts new
      let decision := workerRetry c b merged attempt s.emptyRetries
      if decision.1.feedback && decision.1.allowed then .retry (s.keep merged decision.2)
      else if t.tolerated then integrateAttempt c attempt s t
      else .stop

inductive End where
  | stopped | maxRetries
  deriving DecidableEq, Repr

/-- `for attempt in range(max_loops)`, with the block behind the loop. -/
def repairLoop (attempts : Nat → Attempt) : (left attempt : Nat) → RepairState → End
  | 0, _, _ => .maxRetries
  | left + 1, attempt, s =>
    match runAttempt c attempt s (attempts attempt) with
    | .retry s => repairLoop attempts left (attempt + 1) s
    | .stop => .stopped

end
end RepairRetries
