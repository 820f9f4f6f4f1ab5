import Mathlib.Algebra.Ring.Int.Defs
import Mathlib.Logic.Function.Basic
import TandemAgents.Calls
import TandemAgents.DiffSections
import TandemAgents.NoChangeGuard

/-!
# The guards of a progress snapshot

While a worker runs its diff is captured now and then, and a cascade of guards looks at it; the
first that holds registers an abort result for the worker. The whole capture stands in one `try`
whose handler only logs, so a branch that raises registers nothing. The local variable
`subtask_id` is assigned in the branches that use it, but for one.
-/
namespace SnapshotGuards

open Effects Calls PythonText FailedResults NoChangeGuard DiffSections

set_option maxRecDepth 20000

/-! ## The guards -/

inductive Guard where
  | destructive | oversized | testless | testOnly | unproductive
  | syntaxInvalid | weakTest | misaligned | testsFailed | unterminated
  deriving DecidableEq, Repr

namespace Guard

/-- In the order in which they are asked. -/
def cascade : List Guard :=
  [destructive, oversized, testless, testOnly, unproductive, syntaxInvalid, weakTest, misaligned, testsFailed, unterminated]

def failureReason : Guard → String
  | destructive => "WORKER_DESTRUCTIVE_DIFF"
  | oversized => "WORKER_RUNAWAY_DIFF"
  | testless => "WORKER_OFF_TRACK_TESTLESS_DIFF"
  | testOnly => "WORKER_TEST_ONLY_DIFF"
  | unproductive => "WORKER_UNPRODUCTIVE_DIFF"
  | syntaxInvalid => "WORKER_SYNTAX_INVALID_DIFF"
  | weakTest => "WORKER_VERIFIABLE_DIFF_WEAK_TEST"
  | misaligned => "WORKER_VERIFIABLE_DIFF_WEAK_TEST"
  | testsFailed => "WORKER_VERIFIABLE_DIFF_TEST_FAILED"
  | unterminated => "WORKER_VERIFIABLE_DIFF_UNTERMINATED"

def blockerKind : Guard → String
  | destructive => "worker_runaway_diff"
  | oversized => "worker_runaway_diff"
  | testless => "worker_off_track"
  | unproductive => "worker_unproductive_diff"
  | _ => "worker_incomplete_diff"

/-- The source of the snapshot. -/
def source : Guard → String
  | destructive => "worker_destructive_diff_guard"
  | oversized => "worker_runaway_diff_guard"
  | testless => "worker_off_track_guard"
  | testOnly => "worker_test_only_guard"
  | unproductive => "worker_unproductive_diff_guard"
  | syntaxInvalid => "worker_syntax_invalid_diff_guard"
  | weakTest => "worker_verifiable_diff_weak_test_guard"
  | misaligned => "worker_verifiable_diff_misaligned_test_guard"
  | testsFailed => "worker_verifiable_diff_test_failed_guard"
  | unterminated => "worker_verifiable_diff_guard"

def eventTypes : Guard → List String
  | destructive => ["worker.runaway_diff_detected"]
  | oversized => ["worker.runaway_diff_detected"]
  | testless => ["worker.off_track_detected"]
  | testOnly => ["worker.test_only_diff_detected"]
  | unproductive => ["worker.unproductive_diff_detected"]
  | syntaxInvalid => ["worker.syntax_invalid_diff_detected"]
  | weakTest => ["worker.verifiable_diff_weak_test"]
  | misaligned => ["worker.verifiable_diff_misaligned_test"]
  | testsFailed => ["worker.verifiable_diff_tests_failed"]
  | unterminated => ["worker.verifiable_diff_detected", "worker.failed"]

/-- The guards from the syntax check on show the files with those carried over from an earlier attempt. -/
def validates : Guard → Bool
  | destructive | oversized | testless | testOnly | unproductive => false
  | _ => true

end Guard

/-! ## What the dispatch keeps of its workers -/

structure WorkerSubtask where
  id : String
  executionId : String
  task : Subtask

structure Snapshot where
  workerId : String
  partialDiffArtifact : String
  changedFiles : List String
  source : String
  diffBytes : Nat
  diffLines : Nat
  deriving DecidableEq, Repr

structure AbortResult where
  workerId : String
  subtaskId : String
  partialDiffArtifact : String
  changedFiles : List String
  failureReason : String
  blockerKind : String
  subtaskFiles : List String
  subtaskTargetFiles : List String
  deriving DecidableEq, Repr

/-- The dictionaries of `dispatch_workers`; of the abort results every write is kept, the last one is current. -/
structure Board (Time Content : Type) where
  activeWorkers : List String
  startedAt : String → Option Time
  worktrees : String → Option String
  subtasks : String → Option WorkerSubtask
  startBaselines : String → Option (Baseline Content)
  overlayBaselineIgnored : List String
  progressSnapshots : String → Option Snapshot
  snapshotDigests : String → Option String
  oneSidedGuardSeenAt : String → String → Option Time
  abortResults : List (String × AbortResult)
  clearedMarkers : List String
  events : List String

/-- What a capture reads elsewhere: git's answers, the clock, the environment, and what is found in a diff. -/
structure Readings (Time Content : Type) where
  worktree : String
  files : WorktreeSync.Files Content
  worktreeChangedFiles : List String
  latestBaseline : WorkerSubtask → Option (Baseline Content)
  applyableDiff : List Char
  changedFilesDiff : List String → List Char
  workingDiff : List Char
  digest : List Char → String
  applies : List Char → Bool
  now : Time
  env : String → String
  int : String → Option Int
  float : String → Option Time
  lower : String → String
  validationFiles : WorkerSubtask → List String → Baseline Content → List String
  requiresPairedDiff : WorkerSubtask → Bool
  requiresProductionFollowup : WorkerSubtask → Bool
  unproductiveMarker : List Char → Bool
  placeholderTest : List Char → Bool
  missingFollowups : List Char → List String → WorkerSubtask → List String
  commentOnly : List Char → Bool
  missingCalls : List Char → List String → List String
  stringOracle : List Char → Bool
  tautological : List Char → Bool
  stringOnly : List Char → Bool
  syntaxErrors : List String → List String
  substantiveTest : List Char → List String → Bool
  missingSymbols : List Char → List String → List String
  testsOk : List String → Option Bool

/-! ## Settings -/

section
variable {Time Content : Type} (r : Readings Time Content)

/-- `max(least, int(raw))`, or the default where there is no number. -/
def countSetting (name : String) (least default : Int) : Int :=
  let raw := strip (r.env name)
  if raw = "" then default
  else
    match r.int raw with
    | some n => if least < n then n else least
    | none => default

/-- `_runaway_diff_max_bytes`. -/
def runawayDiffMaxBytes : Int := countSetting r "ACA_WORKER_RUNAWAY_DIFF_MAX_BYTES" 1000 1000000

/-- `_destructive_diff_max_deletions`. -/
def destructiveDiffMaxDeletions : Int := countSetting r "ACA_WORKER_DESTRUCTIVE_DIFF_MAX_DELETIONS" 25 200

variable [NatCast Time] [Zero Time] [LT Time] [DecidableLT Time]

/-- `max(0.0, float(raw))`, or the default where there is no number. -/
def secondsSetting (name : String) (default : Nat) : Time :=
  let raw := strip (r.env name)
  if raw = "" then default
  else
    match r.float raw with
    | some seconds => if 0 < seconds then seconds else 0
    | none => default

/-- `_effective_worker_testless_diff_abort_seconds` and its sibling for tests only. -/
def effectiveAbortSeconds (name : String) (default : Nat) (subtask : WorkerSubtask) : Time :=
  let base := secondsSetting r name default
  if r.requiresPairedDiff subtask then
    let paired := secondsSetting r "ACA_WORKER_PAIRED_REPAIR_ONE_SIDED_ABORT_SECONDS" 45
    if paired < base then paired else base
  else base

def testlessAbortSeconds (subtask : WorkerSubtask) : Time :=
  effectiveAbortSeconds r "ACA_WORKER_TESTLESS_DIFF_ABORT_SECONDS" 120 subtask

def testOnlyAbortSeconds (subtask : WorkerSubtask) : Time :=
  effectiveAbortSeconds r "ACA_WORKER_TEST_ONLY_DIFF_ABORT_SECONDS" 180 subtask

def commentOnlyAbortSeconds : Time := secondsSetting r "ACA_WORKER_COMMENT_ONLY_DIFF_ABORT_SECONDS" 180

def verifiableAbortSeconds : Time := secondsSetting r "ACA_WORKER_VERIFIABLE_DIFF_ABORT_SECONDS" 120

end

/-! ## Counts of a diff -/

/-- `_diff_add_delete_counts`. -/
def diffAddDeleteCounts (diffText : List Char) : Nat × Nat :=
  let lines := (splitlinesKept diffText).filter fun line => !("+++".toList.isPrefixOf line || "---".toList.isPrefixOf line)
  (lines.countP fun line => "+".toList.isPrefixOf line, lines.countP fun line => "-".toList.isPrefixOf line)

/-- `_diff_is_destructive_rewrite`. -/
def diffIsDestructiveRewrite (diffText : List Char) (maxDeletions : Int) : Bool :=
  let (additions, deletions) := diffAddDeleteCounts diffText
  decide (maxDeletions ≤ deletions) && decide (max 20 (additions * 2) < deletions)

/-- `len(text.encode("utf-8"))`. -/
def diffBytes (diffText : List Char) : Nat := (diffText.map Char.utf8Size).sum

def diffLines (diffText : List Char) : Nat := diffText.count '\n' + 1

def isBlank (text : List Char) : Bool := text.all isSpace

/-! ## Capturing the diff -/

/-- What the guards look at. -/
structure Evidence (Time Content : Type) where
  subtask : WorkerSubtask
  startedAt : Time
  baseline : Baseline Content
  changedFiles : List String
  diffText : List Char
  validationChangedFiles : List String
  validationDiffText : List Char

def noSubtask : WorkerSubtask := ⟨"", "", ⟨[], [], []⟩⟩

section
variable {Time Content : Type} (r : Readings Time Content) (wid : String) (b : Board Time Content)

/-- `_active_worker_start_baseline`: the baseline and the board that keeps it. -/
def activeWorkerStartBaseline (subtask : WorkerSubtask) : Option (Baseline Content) × Board Time Content :=
  match b.startBaselines wid with
  | some baseline => (some baseline, b)
  | none =>
    match r.latestBaseline subtask with
    | none => (none, b)
    | some baseline => (some baseline, { b with startBaselines := Function.update b.startBaselines wid (some baseline) })

/-- The diff of the files, from the first of three sources that has one. -/
def capturedDiff (files : List String) : List Char :=
  let diffText := filterDiffTextToFiles r.applyableDiff files
  if isBlank diffText then
    let diffText := r.changedFilesDiff files
    if isBlank diffText then filterDiffTextToFiles r.workingDiff files else diffText
  else diffText

/-- `_snapshot_worker_progress_diff` up to the diffs: nothing where it returns without one. -/
def intake [DecidableEq Content] : Option (Evidence Time Content) × Board Time Content :=
  if wid ∉ b.activeWorkers then (none, b)
  else
    let subtask := (b.subtasks wid).getD noSubtask
    let changedFiles := changedFilesScopedToSubtask r.worktreeChangedFiles subtask.task
    if changedFiles = [] then (none, b)
    else
      match activeWorkerStartBaseline r wid b subtask with
      | (none, b) => (none, b)
      | (some baseline, b) =>
        let fresh := freshChangedFilesSinceBaseline r.files changedFiles (some baseline)
        if fresh = [] then
          (none, { b with
            overlayBaselineIgnored := if wid ∈ b.overlayBaselineIgnored then b.overlayBaselineIgnored else b.overlayBaselineIgnored ++ [wid]
            events := if wid ∈ b.overlayBaselineIgnored then b.events else b.events ++ ["worker.overlay_baseline_ignored"] })
        else
          let diffText := capturedDiff r fresh
          if isBlank diffText then (none, b)
          else
            let validationChangedFiles := r.validationFiles subtask fresh baseline
            let validationDiffText :=
              if validationChangedFiles = fresh then diffText
              else if isBlank (capturedDiff r validationChangedFiles) then diffText
              else capturedDiff r validationChangedFiles
            (some ⟨subtask, (b.startedAt wid).getD r.now, baseline, fresh, diffText, validationChangedFiles, validationDiffText⟩, b)

/-- What taking in a diff leaves as it was. -/
structure SameWorkers (b b' : Board Time Content) : Prop where
  active : b'.activeWorkers = b.activeWorkers
  worktrees : b'.worktrees = b.worktrees
  subtasks : b'.subtasks = b.subtasks
  snapshots : b'.progressSnapshots = b.progressSnapshots
  digests : b'.snapshotDigests = b.snapshotDigests
  seen : b'.oneSidedGuardSeenAt = b.oneSidedGuardSeenAt
  aborts : b'.abortResults = b.abortResults

theorem activeWorkerStartBaseline_same (subtask : WorkerSubtask) :
    SameWorkers b (activeWorkerStartBaseline r wid b subtask).2 := by
  rw [activeWorkerStartBaseline]
  cases b.startBaselines wid with
  | some baseline => exact ⟨rfl, rfl, rfl, rfl, rfl, rfl, rfl⟩
  | none => cases r.latestBaseline subtask <;> exact ⟨rfl, rfl, rfl, rfl, rfl, rfl, rfl⟩

variable [DecidableEq Content]

theorem intake_same : SameWorkers b (intake r wid b).2 := by
  have hrefl : SameWorkers b b := ⟨rfl, rfl, rfl, rfl, rfl, rfl, rfl⟩
  rw [intake]
  split
  · exact hrefl
  · dsimp only
    split
    · exact hrefl
    · have hsame := activeWorkerStartBaseline_same r wid b ((b.subtasks wid).getD noSubtask)
      split
      · rename_i hbase
        rw [hbase] at hsame
        exact hsame
      · rename_i hbase
        rw [hbase] at hsame
        split
        · exact ⟨hsame.active, hsame.worktrees, hsame.subtasks, hsame.snapshots, hsame.digests, hsame.seen, hsame.aborts⟩
        · split <;> exact hsame

/-- The evidence is about the worker's own subtask. -/
theorem intake_subtask {e : Evidence Time Content} (h : (intake r wid b).1 = some e) :
    wid ∈ b.activeWorkers ∧ e.subtask = (b.subtasks wid).getD noSubtask := by
  rw [intake] at h
  split at h
  · cases h
  · rename_i hactive
    dsimp only at h
    split at h
    · cases h
    · split at h
      · cases h
      · split at h
        · cases h
        · split at h
          · cases h
          · cases h
            exact ⟨not_not.mp hactive, rfl⟩

end

/-! ## The conditions -/

section
variable {Time Content : Type} [NatCast Time] [Zero Time] [Sub Time] [LE Time] [LT Time] [DecidableLE Time] [DecidableLT Time]
variable (r : Readings Time Content) (wid : String) (b : Board Time Content) (e : Evidence Time Content)

/-- `max(0.0, now - then)`. -/
def elapsedSince (start : Time) : Time := if 0 < r.now - start then r.now - start else 0

def requiredTestFiles : List String := subtaskRequiredTestFiles r.lower e.subtask.task

/-- The worker has to change tests and has changed none of them. -/
def testlessActive : Bool :=
  subtaskRequiresTestChanges r.lower e.subtask.task &&
    !changedFilesSatisfyRequiredTestFiles r.lower e.validationChangedFiles (requiredTestFiles r e)

/-- `_subtask_has_required_test_only_diff`. -/
def testOnlyActive : Bool :=
  subtaskRequiresTestChanges r.lower e.subtask.task && r.requiresProductionFollowup e.subtask &&
    !e.validationChangedFiles.isEmpty && e.validationChangedFiles.all (isTestPath r.lower) &&
    changedFilesSatisfyRequiredTestFiles r.lower e.validationChangedFiles (requiredTestFiles r e)

/-- `_one_sided_guard_elapsed_seconds`: how long the guard has been seen to hold. -/
def oneSidedElapsed (key : String) (isActive : Bool) : Time :=
  if isActive then elapsedSince r ((b.oneSidedGuardSeenAt wid key).getD r.now) else 0

/-- What it keeps. -/
def markSeen (key : String) (isActive : Bool) (b : Board Time Content) : Board Time Content :=
  let first := if isActive then some ((b.oneSidedGuardSeenAt wid key).getD r.now) else none
  { b with oneSidedGuardSeenAt :=
      Function.update b.oneSidedGuardSeenAt wid (Function.update (b.oneSidedGuardSeenAt wid) key first) }

/-- Only tests were changed where tests are required, and the guard's budget is spent. -/
def testsOnlyBudget : Bool :=
  decide (0 < commentOnlyAbortSeconds r) && decide (commentOnlyAbortSeconds r ≤ elapsedSince r e.startedAt) &&
    subtaskRequiresTestChanges r.lower e.subtask.task && !e.changedFiles.isEmpty && e.changedFiles.all (isTestPath r.lower)

def isUnproductive : Bool :=
  r.unproductiveMarker e.diffText || r.placeholderTest e.diffText ||
    (decide (0 < commentOnlyAbortSeconds r) && decide (commentOnlyAbortSeconds r ≤ elapsedSince r e.startedAt) &&
      (!(r.missingFollowups e.validationDiffText e.validationChangedFiles e.subtask).isEmpty || r.commentOnly e.diffText)) ||
    (testsOnlyBudget r e && (!(r.missingCalls e.diffText e.changedFiles).isEmpty || r.stringOracle e.diffText ||
      r.tautological e.diffText || r.stringOnly e.diffText))

/-- The subtask has its source and its test, and the budget for a final result is spent. -/
def isVerifiable : Bool :=
  decide (0 < verifiableAbortSeconds r) && decide (verifiableAbortSeconds r ≤ elapsedSince r e.startedAt) &&
    subtaskHasVerifiableSourceAndTestDiff r.lower e.subtask.task e.validationChangedFiles

/-- The condition of each guard. -/
def holds : Guard → Bool
  | .destructive => diffIsDestructiveRewrite e.diffText (destructiveDiffMaxDeletions r)
  | .oversized => decide (runawayDiffMaxBytes r < diffBytes e.diffText)
  | .testless => decide (0 < testlessAbortSeconds r e.subtask) && testlessActive r e &&
      decide (testlessAbortSeconds r e.subtask ≤ oneSidedElapsed r wid b "testless" (testlessActive r e))
  | .testOnly => decide (0 < testOnlyAbortSeconds r e.subtask) && testOnlyActive r e &&
      decide (testOnlyAbortSeconds r e.subtask ≤ oneSidedElapsed r wid b "test_only" (testOnlyActive r e))
  | .unproductive => isUnproductive r e
  | .syntaxInvalid => isVerifiable r e && !(r.syntaxErrors e.validationChangedFiles).isEmpty
  | .weakTest => isVerifiable r e && !r.substantiveTest e.validationDiffText (requiredTestFiles r e)
  | .misaligned => isVerifiable r e && !(r.missingSymbols e.validationDiffText (requiredTestFiles r e)).isEmpty
  | .testsFailed => isVerifiable r e && decide (r.testsOk e.validationChangedFiles = some false)
  | .unterminated => isVerifiable r e

/-- The diff is the one of the last snapshot, or applies to the head. -/
def isJudged : Bool := decide (b.snapshotDigests wid = some (r.digest e.diffText)) || r.applies e.diffText

end

/-! ## The cascade -/

/-- `text.split(sep, 1)`: what stands in front of the separator and behind it. -/
def splitOnce (sep : List Char) : List Char → Option (List Char × List Char)
  | [] => none
  | c :: cs =>
    if sep.isPrefixOf (c :: cs) then some ([], (c :: cs).drop sep.length)
    else (splitOnce sep cs).map fun parts => (c :: parts.1, parts.2)

/-- `_abort_result_subtask_id`: without an id the name of the worktree has it. -/
def abortResultSubtaskId (subtask : WorkerSubtask) (worktree : Option String) : String :=
  let subtaskId := strip subtask.id
  if subtaskId ≠ "" then subtaskId
  else
    match splitOnce "--".toList (strip (worktree.getD "")).toList with
    | none => ""
    | some (_, rest) =>
      match splitOnce "--exec-".toList rest with
      | some (name, _) => strip (String.ofList name)
      | none => strip (String.ofList rest)

/-- The paths of `_subtask_retry_metadata`. -/
def retryPaths (paths : List String) : List String := ((paths.map strip).filter fun path => decide (path ≠ "")).eraseDups

section
variable {Time Content : Type} (wid : String)

abbrev Act (Time Content α : Type) : Type := EStateM String (Board Time Content) α

/-- `_active_worker_snapshot_still_current`. -/
def activeWorkerSnapshotStillCurrent (b : Board Time Content) (worktree subtaskId : String) : Bool :=
  if wid ∉ b.activeWorkers then false
  else if b.worktrees wid ≠ none ∧ b.worktrees wid ≠ some worktree then false
  else
    let currentSubtaskId := strip ((b.subtasks wid).getD noSubtask).id
    !(decide (subtaskId ≠ "") && decide (currentSubtaskId ≠ "") && decide (currentSubtaskId ≠ subtaskId))

def artifactPath (e : Evidence Time Content) : String :=
  let executionId := strip e.subtask.executionId
  (if executionId ≠ "" then wid ++ "-" ++ executionId else wid) ++ ".progress-partial-worker-diff.patch"

def snapshotOf (source : String) (validates : Bool) (e : Evidence Time Content) : Snapshot where
  workerId := wid
  partialDiffArtifact := artifactPath wid e
  changedFiles := if validates then e.validationChangedFiles else e.changedFiles
  source := source
  diffBytes := diffBytes (if validates then e.validationDiffText else e.diffText)
  diffLines := diffLines (if validates then e.validationDiffText else e.diffText)

/-- The snapshot and the digest are kept, then the abort result; `subtaskId` is the local variable, which may be
unassigned. -/
def register (r : Readings Time Content) (e : Evidence Time Content) (g : Guard) (subtaskId : Board Time Content → Option String) :
    Act Time Content (Option Snapshot) := do
  let snapshot := snapshotOf wid g.source g.validates e
  modify fun b => { b with
    snapshotDigests := Function.update b.snapshotDigests wid (some (r.digest e.diffText))
    progressSnapshots := Function.update b.progressSnapshots wid (some snapshot) }
  let b ← get
  let subtaskId ← orRaise "UnboundLocalError: subtask_id" (subtaskId b)
  modify fun b => { b with
    abortResults := b.abortResults ++ [(wid,
      { workerId := wid
        subtaskId := subtaskId
        partialDiffArtifact := snapshot.partialDiffArtifact
        changedFiles := snapshot.changedFiles
        failureReason := g.failureReason
        blockerKind := g.blockerKind
        subtaskFiles := retryPaths e.subtask.task.files
        subtaskTargetFiles := retryPaths e.subtask.task.targetFiles })]
    clearedMarkers := b.clearedMarkers ++ [wid]
    events := b.events ++ g.eventTypes }
  return some snapshot

variable [NatCast Time] [Zero Time] [Sub Time] [LE Time] [LT Time] [DecidableLE Time] [DecidableLT Time] (r : Readings Time Content)

/-- The guards in their order, then a plain snapshot. -/
def judge (e : Evidence Time Content) (b : Board Time Content) : Act Time Content (Option Snapshot) := do
  let ownId := strip e.subtask.id
  let worktreeId := fun b : Board Time Content => some (abortResultSubtaskId ((b.subtasks wid).getD noSubtask) (b.worktrees wid))
  if holds r wid b e .destructive then register wid r e .destructive worktreeId
  else if holds r wid b e .oversized then register wid r e .oversized worktreeId
  else do
    modify (markSeen r wid "testless" (testlessActive r e))
    modify (markSeen r wid "test_only" (testOnlyActive r e))
    if holds r wid b e .testless then register wid r e .testless fun _ => some ownId
    else if holds r wid b e .testOnly then register wid r e .testOnly fun _ => some ownId
    else if holds r wid b e .unproductive then register wid r e .unproductive fun _ => some ownId
    else if holds r wid b e .syntaxInvalid then register wid r e .syntaxInvalid fun _ => some ownId
    -- no branch before this one that has assigned the variable is left without a return
    else if holds r wid b e .weakTest then register wid r e .weakTest fun _ => none
    else if holds r wid b e .misaligned then register wid r e .misaligned fun _ => some ownId
    else if holds r wid b e .testsFailed then do
      let current ← get
      if activeWorkerSnapshotStillCurrent wid current r.worktree ownId = false then return none
      else register wid r e .testsFailed fun _ => some ownId
    else if holds r wid b e .unterminated then do
      let current ← get
      if activeWorkerSnapshotStillCurrent wid current r.worktree ownId = false then return none
      else register wid r e .unterminated fun _ => some ownId
    else if b.snapshotDigests wid = some (r.digest e.diffText) ∧ (b.progressSnapshots wid).isSome then
      return b.progressSnapshots wid
    else do
      let snapshot := snapshotOf wid "worker_progress_snapshot" false e
      modify fun b => { b with
        snapshotDigests := Function.update b.snapshotDigests wid (some (r.digest e.diffText))
        progressSnapshots := Function.update b.progressSnapshots wid (some snapshot)
        events := b.events ++ ["worker.progress_partial_diff_snapshot"] }
      return some snapshot

/-- The body of the `try`. -/
def snapshotBody [DecidableEq Content] : Act Time Content (Option Snapshot) := do
  let b ← get
  match intake r wid b with
  | (none, b) => do
    set b
    return none
  | (some e, b) => do
    set b
    if isJudged r wid b e = false then do
      modify fun b => { b with events := b.events ++ ["worker.progress_partial_diff_invalid"] }
      return b.progressSnapshots wid
    else judge wid r e b

/-- `_snapshot_worker_progress_diff`. -/
def snapshotWorkerProgressDiff [DecidableEq Content] : Act Time Content (Option Snapshot) :=
  tryCatch (snapshotBody wid r) fun _ => return none

end

/-! ## The purpose -/

section
variable {Time Content : Type} [NatCast Time] [Zero Time] [Sub Time] [LE Time] [LT Time] [DecidableLE Time] [DecidableLT Time]
  [DecidableEq Content]

/-- The worker is active, and in the worktree the capture was started for. -/
def Stays (r : Readings Time Content) (wid : String) (b : Board Time Content) : Prop :=
  wid ∈ b.activeWorkers ∧ (b.worktrees wid = none ∨ b.worktrees wid = some r.worktree)

/-- The guards are asked about the diff, and this one is the first that holds. -/
structure FirstGuard (r : Readings Time Content) (wid : String) (b : Board Time Content) (e : Evidence Time Content) (g : Guard) :
    Prop where
  taken : (intake r wid b).1 = some e
  judged : isJudged r wid b e = true
  first : Guard.cascade.find? (holds r wid b e) = some g

end

/-! ## What a capture registers -/

section
variable {Time Content : Type} {wid : String} {r : Readings Time Content} {e : Evidence Time Content} {g : Guard}
  {b : Board Time Content} {id : String}

/-- The run returns the guard's snapshot and has registered its abort result with the id. -/
structure Registered (wid : String) (e : Evidence Time Content) (g : Guard) (id : String) (b b' : Board Time Content)
    (returned : Option Snapshot) (result : AbortResult) : Prop where
  returned_eq : returned = some (snapshotOf wid g.source g.validates e)
  kept : b'.progressSnapshots wid = returned
  aborts : b'.abortResults = b.abortResults ++ [(wid, result)]
  reason : result.failureReason = g.failureReason
  subtask : result.subtaskId = id

def Registers (wid : String) (e : Evidence Time Content) (g : Guard) (id : String) (b : Board Time Content)
    (run : EStateM.Result String (Board Time Content) (Option Snapshot)) : Prop :=
  ∃ returned result b', run = .ok returned b' ∧ Registered wid e g id b b' returned result

/-- The abort result of a guard. -/
def abortResult (wid : String) (e : Evidence Time Content) (g : Guard) (subtaskId : String) : AbortResult where
  workerId := wid
  subtaskId := subtaskId
  partialDiffArtifact := artifactPath wid e
  changedFiles := if g.validates then e.validationChangedFiles else e.changedFiles
  failureReason := g.failureReason
  blockerKind := g.blockerKind
  subtaskFiles := retryPaths e.subtask.task.files
  subtaskTargetFiles := retryPaths e.subtask.task.targetFiles

/-- The board with the guard's snapshot and its digest. -/
def withSnapshot (wid : String) (r : Readings Time Content) (e : Evidence Time Content) (g : Guard) (b : Board Time Content) :
    Board Time Content :=
  { b with
    snapshotDigests := Function.update b.snapshotDigests wid (some (r.digest e.diffText))
    progressSnapshots := Function.update b.progressSnapshots wid (some (snapshotOf wid g.source g.validates e)) }

/-- The board with the guard's abort result. -/
def withAbort (wid : String) (e : Evidence Time Content) (g : Guard) (subtaskId : String) (b : Board Time Content) : Board Time Content :=
  { b with
    abortResults := b.abortResults ++ [(wid, abortResult wid e g subtaskId)]
    clearedMarkers := b.clearedMarkers ++ [wid]
    events := b.events ++ g.eventTypes }

theorem register_assigned {subtaskId : Board Time Content → Option String}
    (h : ∀ b', b'.subtasks = b.subtasks → b'.worktrees = b.worktrees → subtaskId b' = some id) :
    Registers wid e g id b (register wid r e g subtaskId b) := by
  have hrun : register wid r e g subtaskId b =
      .ok (some (snapshotOf wid g.source g.validates e)) (withAbort wid e g id (withSnapshot wid r e g b)) := by
    have hid : subtaskId (withSnapshot wid r e g b) = some id := h _ rfl rfl
    have hraise : (orRaise "UnboundLocalError: subtask_id" (subtaskId (withSnapshot wid r e g b)) : Act Time Content String)
        (withSnapshot wid r e g b) = .ok id (withSnapshot wid r e g b) := by
      rw [hid]
      rfl
    rw [register, run_modify_bind, run_get_bind]
    exact run_bind_ok hraise
  exact ⟨_, _, _, hrun, rfl, Function.update_self .., rfl, rfl, rfl⟩

/-- A branch that reads the variable unassigned raises, when it has kept the snapshot. -/
theorem register_unassigned : ∃ error b', register wid r e g (fun _ => none) b = .error error b' ∧ b'.abortResults = b.abortResults :=
  ⟨_, withSnapshot wid r e g b, rfl, rfl⟩

theorem isJudged_same {b' : Board Time Content} (h : SameWorkers b b') : isJudged r wid b' e = isJudged r wid b e := by
  simp only [isJudged, h.digests]

/-- A worker that stays on its subtask is the one the late guards check for. -/
theorem current_of_stays (h : Stays r wid b) :
    activeWorkerSnapshotStillCurrent wid b r.worktree (strip ((b.subtasks wid).getD noSubtask).id) = true := by
  have hworktree : ¬(b.worktrees wid ≠ none ∧ b.worktrees wid ≠ some r.worktree) := fun ⟨h1, h2⟩ => h.2.elim h1 h2
  rw [activeWorkerSnapshotStillCurrent, if_neg (not_not.mpr h.1), if_neg hworktree]
  simp

/-- A run without a new abort result has registered nothing. -/
theorem not_registers {run : EStateM.Result String (Board Time Content) (Option Snapshot)} {returned : Option Snapshot}
    {b' : Board Time Content} (hrun : run = .ok returned b') (haborts : b'.abortResults = b.abortResults) :
    ¬Registers wid e g id b run := by
  rintro ⟨_, result, b'', hrun', h⟩
  obtain ⟨-, rfl⟩ := EStateM.Result.ok.inj (hrun.symm.trans hrun')
  have hlength := congrArg List.length (haborts.symm.trans h.aborts)
  simp at hlength

variable [NatCast Time] [Zero Time] [Sub Time] [LE Time] [LT Time] [DecidableLE Time] [DecidableLT Time]

/-- What the cascade does when the worker stays on its subtask. -/
inductive Judged (wid : String) (r : Readings Time Content) (e : Evidence Time Content) (b : Board Time Content)
    (run : EStateM.Result String (Board Time Content) (Option Snapshot)) : Option Guard → Prop
  | registered {g : Guard} {id : String} : g ≠ .weakTest → (strip e.subtask.id ≠ "" → id = strip e.subtask.id) →
      Registers wid e g id b run → Judged wid r e b run (some g)
  | raised {error : String} {b' : Board Time Content} : run = .error error b' → b'.abortResults = b.abortResults →
      Judged wid r e b run (some .weakTest)
  | passed {returned : Option Snapshot} {b' : Board Time Content} : run = .ok returned b' → b'.abortResults = b.abortResults →
      Judged wid r e b run none

theorem judge_cases (hsub : (b.subtasks wid).getD noSubtask = e.subtask)
    (hcurrent : activeWorkerSnapshotStillCurrent wid b r.worktree (strip e.subtask.id) = true) :
    Judged wid r e b (judge wid r e b b) (Guard.cascade.find? (holds r wid b e)) := by
  have hid : strip e.subtask.id ≠ "" → abortResultSubtaskId ((b.subtasks wid).getD noSubtask) (b.worktrees wid) = strip e.subtask.id := by
    intro hne
    rw [hsub]
    exact if_pos hne
  have hworktree : ∀ g, Registers wid e g (abortResultSubtaskId ((b.subtasks wid).getD noSubtask) (b.worktrees wid)) b
      (register wid r e g (fun b => some (abortResultSubtaskId ((b.subtasks wid).getD noSubtask) (b.worktrees wid))) b) :=
    fun g => register_assigned fun b' hs hw => by rw [hs, hw]
  have hown : ∀ g b', b'.abortResults = b.abortResults →
      Registers wid e g (strip e.subtask.id) b (register wid r e g (fun _ => some (strip e.subtask.id)) b') := by
    intro g b' hsame
    have hown : Registers wid e g (strip e.subtask.id) b' (register wid r e g (fun _ => some (strip e.subtask.id)) b') :=
      register_assigned fun _ _ _ => rfl
    obtain ⟨returned, result, b'', hrun, h⟩ := hown
    exact ⟨returned, result, b'', hrun, h.returned_eq, h.kept, hsame ▸ h.aborts, h.reason, h.subtask⟩
  have hstill : ∀ isActive isActive', ¬activeWorkerSnapshotStillCurrent wid
      (markSeen r wid "test_only" isActive' (markSeen r wid "testless" isActive b)) r.worktree (strip e.subtask.id) = false :=
    fun _ _ => ne_of_eq_of_ne hcurrent (by decide)
  rw [judge]
  dsimp only
  by_cases h1 : holds r wid b e .destructive = true
  · rw [if_pos h1, Guard.cascade, List.find?_cons_of_pos h1]
    exact .registered (by decide) hid (hworktree _)
  rw [if_neg h1, Guard.cascade, List.find?_cons_of_neg h1]
  by_cases h2 : holds r wid b e .oversized = true
  · rw [if_pos h2, List.find?_cons_of_pos h2]
    exact .registered (by decide) hid (hworktree _)
  rw [if_neg h2, List.find?_cons_of_neg h2, run_modify_bind, run_modify_bind]
  by_cases h3 : holds r wid b e .testless = true
  · rw [if_pos h3, List.find?_cons_of_pos h3]
    exact .registered (by decide) (fun _ => rfl) (hown _ _ rfl)
  rw [if_neg h3, List.find?_cons_of_neg h3]
  by_cases h4 : holds r wid b e .testOnly = true
  · rw [if_pos h4, List.find?_cons_of_pos h4]
    exact .registered (by decide) (fun _ => rfl) (hown _ _ rfl)
  rw [if_neg h4, List.find?_cons_of_neg h4]
  by_cases h5 : holds r wid b e .unproductive = true
  · rw [if_pos h5, List.find?_cons_of_pos h5]
    exact .registered (by decide) (fun _ => rfl) (hown _ _ rfl)
  rw [if_neg h5, List.find?_cons_of_neg h5]
  by_cases h6 : holds r wid b e .syntaxInvalid = true
  · rw [if_pos h6, List.find?_cons_of_pos h6]
    exact .registered (by decide) (fun _ => rfl) (hown _ _ rfl)
  rw [if_neg h6, List.find?_cons_of_neg h6]
  by_cases h7 : holds r wid b e .weakTest = true
  · rw [if_pos h7, List.find?_cons_of_pos h7]
    obtain ⟨error, b', hrun, haborts⟩ := @register_unassigned Time Content wid r e .weakTest _
    exact .raised hrun haborts
  rw [if_neg h7, List.find?_cons_of_neg h7]
  by_cases h8 : holds r wid b e .misaligned = true
  · rw [if_pos h8, List.find?_cons_of_pos h8]
    exact .registered (by decide) (fun _ => rfl) (hown _ _ rfl)
  rw [if_neg h8, List.find?_cons_of_neg h8]
  by_cases h9 : holds r wid b e .testsFailed = true
  · rw [if_pos h9, List.find?_cons_of_pos h9, run_get_bind, if_neg (hstill _ _)]
    exact .registered (by decide) (fun _ => rfl) (hown _ _ rfl)
  rw [if_neg h9, List.find?_cons_of_neg h9]
  by_cases h10 : holds r wid b e .unterminated = true
  · rw [if_pos h10, List.find?_cons_of_pos h10, run_get_bind, if_neg (hstill _ _)]
    exact .registered (by decide) (fun _ => rfl) (hown _ _ rfl)
  rw [if_neg h10, List.find?_cons_of_neg h10]
  split
  · exact .passed rfl rfl
  · exact .passed rfl rfl

variable [DecidableEq Content]

omit [NatCast Time] [LE Time] [DecidableLE Time] [DecidableEq Content] in
theorem oneSidedElapsed_same {b' : Board Time Content} (h : SameWorkers b b') (key : String) (isActive : Bool) :
    oneSidedElapsed r wid b' key isActive = oneSidedElapsed r wid b key isActive := by
  rw [oneSidedElapsed, oneSidedElapsed, h.seen]

omit [DecidableEq Content] in
theorem holds_same {b' : Board Time Content} (h : SameWorkers b b') : holds r wid b' e = holds r wid b e := by
  funext g
  cases g with
  | testless => rw [holds, holds, oneSidedElapsed_same h]
  | testOnly => rw [holds, holds, oneSidedElapsed_same h]
  | _ => rfl

/-- A diff that is not judged leaves a note and no result. -/
theorem unjudged_run (hin : (intake r wid b).1 = some e) (hjudged : isJudged r wid b e = false) :
    ∃ returned b', snapshotWorkerProgressDiff wid r b = .ok returned b' ∧ b'.abortResults = b.abortResults := by
  have hsame := intake_same r wid b
  have hinvalid := (isJudged_same (e := e) hsame).trans hjudged
  have hbody : ∃ returned b', snapshotBody wid r b = .ok returned b' ∧ b'.abortResults = b.abortResults := by
    have htaken : intake r wid b = (some e, (intake r wid b).2) := Prod.ext hin rfl
    rw [snapshotBody, run_get_bind, htaken]
    dsimp only
    rw [if_pos hinvalid]
    exact ⟨_, _, rfl, hsame.aborts⟩
  obtain ⟨returned, b', hrun, haborts⟩ := hbody
  exact ⟨returned, b', run_attempt_ok hrun, haborts⟩

/-- A diff that is judged goes through the cascade. -/
theorem judged_run (hin : (intake r wid b).1 = some e) (hjudged : isJudged r wid b e = true) :
    snapshotBody wid r b = judge wid r e (intake r wid b).2 (intake r wid b).2 := by
  have hvalid := (isJudged_same (e := e) (intake_same r wid b)).trans hjudged
  have htaken : intake r wid b = (some e, (intake r wid b).2) := Prod.ext hin rfl
  have hinvalid : ¬isJudged r wid (intake r wid b).2 e = false := ne_of_eq_of_ne hvalid (by decide)
  rw [snapshotBody, run_get_bind, htaken]
  dsimp only
  rw [if_neg hinvalid]
  rfl

/-- The verdict of the first guard that holds is registered for the worker and its subtask, and its snapshot is returned. -/
def Recorded (r : Readings Time Content) (wid : String) (b : Board Time Content) : Prop :=
  Stays r wid b → ∀ e g, FirstGuard r wid b e g → ∃ id, Registers wid e g id b (snapshotWorkerProgressDiff wid r b) ∧
    (strip ((b.subtasks wid).getD noSubtask).id ≠ "" → id = strip ((b.subtasks wid).getD noSubtask).id)

/-- The first guard registers its verdict, unless it is the weak-test guard: its exception is swallowed. -/
theorem judged_registers (hstays : Stays r wid b) (hfirst : FirstGuard r wid b e g) :
    (g ≠ .weakTest ∧ ∃ id, Registers wid e g id b (snapshotWorkerProgressDiff wid r b) ∧
        (strip ((b.subtasks wid).getD noSubtask).id ≠ "" → id = strip ((b.subtasks wid).getD noSubtask).id)) ∨
      (g = .weakTest ∧ ∃ b', snapshotWorkerProgressDiff wid r b = .ok none b' ∧ b'.abortResults = b.abortResults) := by
  obtain ⟨hin, hjudged, hfind⟩ := hfirst
  have hsame := intake_same r wid b
  obtain ⟨hactive, hsubtask⟩ := intake_subtask r wid b hin
  have hsub : ((intake r wid b).2.subtasks wid).getD noSubtask = e.subtask := by rw [hsame.subtasks, hsubtask]
  have hcurrent : activeWorkerSnapshotStillCurrent wid (intake r wid b).2 r.worktree (strip e.subtask.id) = true := by
    have hstays' : Stays r wid (intake r wid b).2 := by
      rw [Stays, hsame.active, hsame.worktrees]
      exact hstays
    rw [← hsub]
    exact current_of_stays hstays'
  have hcases := judge_cases hsub hcurrent
  rw [holds_same hsame, hfind, ← judged_run hin hjudged] at hcases
  cases hcases with
  | registered hguard hid hregisters =>
    obtain ⟨returned, result, b', hrun, h⟩ := hregisters
    exact .inl ⟨hguard, _, ⟨returned, result, b', run_attempt_ok hrun,
      ⟨h.returned_eq, h.kept, hsame.aborts ▸ h.aborts, h.reason, h.subtask⟩⟩, hsubtask ▸ hid⟩
  | raised hrun haborts => exact .inr ⟨rfl, _, run_attempt_error hrun, haborts.trans hsame.aborts⟩

/-- Every verdict is recorded exactly when it is not the weak-test guard's. -/
theorem recorded_iff : Recorded r wid b ↔ (Stays r wid b → ∀ e g, FirstGuard r wid b e g → g ≠ .weakTest) := by
  constructor
  · intro hrecorded hstays e g hfirst
    obtain ⟨id, hregisters, -⟩ := hrecorded hstays e g hfirst
    rcases judged_registers hstays hfirst with ⟨hguard, -⟩ | ⟨-, b', hrun, haborts⟩
    · exact hguard
    · exact absurd hregisters (not_registers hrun haborts)
  · intro hcondition hstays e g hfirst
    rcases judged_registers hstays hfirst with ⟨-, h⟩ | ⟨hweak, -⟩
    · exact h
    · exact absurd hweak (hcondition hstays e g hfirst)

end

/-! ## A test without an assertion -/

def timeoutSubtask : WorkerSubtask where
  id := "subtask-1"
  executionId := "exec-1"
  task := ⟨["client.py", "client_test.py"], [], ["Add regression tests for the timeout"]⟩

def clientDiff : List Char :=
  ["diff --git a/client.py b/client.py\n", "--- a/client.py\n", "+++ b/client.py\n", "@@ -1 +1 @@\n", "-timeout = 5\n",
    "+timeout = 30\n", "diff --git a/client_test.py b/client_test.py\n", "--- a/client_test.py\n", "+++ b/client_test.py\n",
    "@@ -1 +1,2 @@\n", " import client\n", "+# The timeout is half a minute\n"].flatMap String.toList

/-- The source and its test are changed, in the test a comment only; the worker runs for 150 seconds. -/
def commentedTest : Readings Int Nat where
  worktree := "/worktrees/run--subtask-1"
  files := WorktreeSync.flat fun name => if name = "client.py" ∨ name = "client_test.py" then some 1 else none
  worktreeChangedFiles := ["client.py", "client_test.py"]
  latestBaseline := fun _ => none
  applyableDiff := clientDiff
  changedFilesDiff := fun _ => clientDiff
  workingDiff := clientDiff
  digest := String.ofList
  applies := fun _ => true
  now := 150
  env := fun _ => ""
  int := fun _ => none
  float := fun _ => none
  lower := fun s => String.ofList (s.toList.map asciiLower)
  validationFiles := fun _ files _ => files
  requiresPairedDiff := fun _ => false
  requiresProductionFollowup := fun _ => false
  unproductiveMarker := fun _ => false
  placeholderTest := fun _ => false
  missingFollowups := fun _ _ _ => []
  commentOnly := fun _ => false
  missingCalls := fun _ _ => []
  stringOracle := fun _ => false
  tautological := fun _ => false
  stringOnly := fun _ => false
  syntaxErrors := fun _ => []
  substantiveTest := fun _ _ => false
  missingSymbols := fun _ _ => []
  testsOk := fun _ => none

def runningBoard : Board Int Nat where
  activeWorkers := ["worker-1"]
  startedAt := fun _ => some 0
  worktrees := fun _ => some "/worktrees/run--subtask-1"
  subtasks := fun _ => some timeoutSubtask
  startBaselines := fun _ => some ⟨[], fun _ => none⟩
  overlayBaselineIgnored := []
  progressSnapshots := fun _ => none
  snapshotDigests := fun _ => none
  oneSidedGuardSeenAt := fun _ _ => none
  abortResults := []
  clearedMarkers := []
  events := []

/-- The verdict of the weak-test guard is lost: the call returns nothing and registers nothing. -/
theorem weak_test_lost : ¬Recorded commentedTest "worker-1" runningBoard := by
  have hstays : Stays commentedTest "worker-1" runningBoard := ⟨.head _, .inr rfl⟩
  have hasked : ((intake commentedTest "worker-1" runningBoard).1.map fun e =>
      (isJudged commentedTest "worker-1" runningBoard e, Guard.cascade.find? (holds commentedTest "worker-1" runningBoard e))) =
        some (true, some .weakTest) := by decide +kernel
  obtain ⟨e, he, hverdict⟩ := Option.map_eq_some_iff.mp hasked
  obtain ⟨hjudged, hfind⟩ := Prod.mk.inj hverdict
  intro hrecorded
  obtain ⟨id, hregisters, -⟩ := hrecorded hstays e .weakTest ⟨he, hjudged, hfind⟩
  rcases judged_registers hstays ⟨he, hjudged, hfind⟩ with ⟨hguard, -⟩ | ⟨-, b', hrun, haborts⟩
  · exact hguard rfl
  · exact not_registers hrun haborts hregisters

end SnapshotGuards
