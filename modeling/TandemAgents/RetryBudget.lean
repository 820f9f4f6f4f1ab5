import TandemAgents.RepairRetries

/-!
# Retries behind the last attempt

A retry that is granted in the last attempt is never made: the run is blocked for exceeding
its loop. Most predicates stay below the bound of the loop whatever the budgets are. Those
that do not are the ways a run gets there.
-/
namespace RetryBudget

open PythonText RepairRetries

set_option maxRecDepth 20000

/-- The output of a failed worker shows an error that earns a weak test one more retry. -/
def ShowsError (c : Config) (b : Blocker) : Prop :=
  (workerFailureHasImportError c b || workerFailureHasRepairableException c b || workerFailureHasAssertionFailure c b) = true

/-- The reasons for which a retry on failed workers is granted in the last attempt. -/
inductive WorkerOverrun (c : Config) (b : Blocker) (merged : List Artifact) : Prop where
  | weakTest (hcycle : oneSidedRepairCycleShouldBlock c merged b = false)
      (hweak : workerFailureIsVerifiableDiffWeakTest c b = true)
      (herror : ShowsError c b)
      (hbudget : loopExtraRetries c ≤ workerVerifiableDiffWeakTestExtraRetries c)
  | followup (hkind : strip b.kind ∈ retryableKinds) (hnot : b.kind ≠ "engine_empty_response")
      (hcycle : oneSidedRepairCycleShouldBlock c merged b = true)
      (hfollowup : failedVerifiableFollowupCanRetry c merged b = true)
  | complementary (hkind : strip b.kind ∈ retryableKinds) (hcycle : oneSidedRepairCycleShouldBlock c merged b = false)
      (hpairs : 0 < complementaryPairCount c merged)
      (hbudget : loopExtraRetries c ≤ max (workerIncompleteDiffExtraRetries c) (workerOffTrackExtraRetries c) +
        (complementaryPairCount c merged - 1) * 2)
  | testFailed (hcycle : oneSidedRepairCycleShouldBlock c merged b = false)
      (hfailed : workerFailureIsVerifiableDiffTestFailed c b = true)
      (hcount : 0 < matchingFailureCount merged b
        ["WORKER_VERIFIABLE_DIFF_TEST_FAILED", "WORKER_VERIFIABLE_DIFF_UNTERMINATED"])
      (hbudget : matchingFailureCount merged b ["WORKER_VERIFIABLE_DIFF_TEST_FAILED", "WORKER_VERIFIABLE_DIFF_UNTERMINATED"] ≤
        raisedExtraRetries c b (workerVerifiableDiffTestFailedExtraRetries c))
  | stalled (hcycle : oneSidedRepairCycleShouldBlock c merged b = false)
      (hkind : strip b.kind = "engine_tool_loop_stalled_no_diff") (huseful : merged.any usefulArtifact = true)
      (hbudget : loopExtraRetries c = 0)

/-- A rejected integration is given a retry in the last attempt. -/
structure IntegrationOverrun (c : Config) (s : RepairState) (t : Attempt) : Prop where
  repo : t.repoBlocker = false
  rejected : t.integration = .rejected
  incomplete : s.hasWorkerIncompleteDiff = true
  budget : loopExtraRetries c < workerIncompleteDiffExtraRetries c + integrationRejectionExtraRetries c

/-- What an attempt grants though it is the last one. -/
structure Overrun (c : Config) (s : RepairState) (t : Attempt) : Prop where
  running : t.ended = false
  cause : (∃ b new, t.failure = some (b, new) ∧ WorkerOverrun c b (mergePartialDiffArtifacts s.artifacts new)) ∨
    ((t.failure = none ∨ t.tolerated = true) ∧ IntegrationOverrun c s t)

/-! ## The bound of the loop -/

section
variable {c : Config}

theorem base_pos : 0 < baseMaxLoops c := Nat.succ_pos _

/-- In the last attempt a predicate bounded by extra retries asks for more of them than the
loop has. -/
theorem last_within (extra : Nat) : maxLoops c - 1 < baseMaxLoops c + extra - 1 ↔ loopExtraRetries c < extra := by
  have hbase := base_pos (c := c)
  unfold maxLoops
  omega

theorem le_foldl_max {l : List Nat} {start n : Nat} (h : n = start ∨ n ∈ l) : n ≤ l.foldl max start := by
  induction l generalizing start n with
  | nil =>
    obtain heq | hmem := h
    · exact Nat.le_of_eq heq
    · cases hmem
  | cons m l ih =>
    have hstart : max start m ≤ l.foldl max (max start m) := ih (.inl rfl)
    obtain heq | hmem := h
    · rw [heq]
      exact Nat.le_trans (Nat.le_max_left start m) hstart
    · obtain heq | htail := List.mem_cons.mp hmem
      · rw [heq]
        exact Nat.le_trans (Nat.le_max_right start m) hstart
      · exact ih (.inr htail)

theorem repairLoop_bounds : workerIncompleteDiffExtraRetries c ≤ workerRepairLoopExtraRetries c ∧
    workerOffTrackExtraRetries c ≤ workerRepairLoopExtraRetries c ∧
    workerVerifiableDiffTestFailedExtraRetries c ≤ workerRepairLoopExtraRetries c ∧
    workerVerifiableDiffWeakTestExtraRetries c ≤ workerRepairLoopExtraRetries c ∧
    workerVerifiableDiffImportErrorExtraRetries c ≤ workerRepairLoopExtraRetries c ∧
    workerVerifiableDiffExceptionExtraRetries c ≤ workerRepairLoopExtraRetries c ∧
    workerVerifiableDiffAssertionExtraRetries c ≤ workerRepairLoopExtraRetries c := by
  unfold workerRepairLoopExtraRetries
  exact ⟨le_foldl_max (by simp), le_foldl_max (by simp), le_foldl_max (by simp), le_foldl_max (by simp),
    le_foldl_max (by simp), le_foldl_max (by simp), le_foldl_max (by simp)⟩

theorem repairLoop_le : workerRepairLoopExtraRetries c ≤ loopExtraRetries c := by
  unfold loopExtraRetries
  omega

theorem raised_le {b : Blocker} {start : Nat} (h : start ≤ workerRepairLoopExtraRetries c) :
    raisedExtraRetries c b start ≤ workerRepairLoopExtraRetries c := by
  obtain ⟨-, -, -, -, himport, hexception, hassertion⟩ := repairLoop_bounds (c := c)
  unfold raisedExtraRetries
  simp only
  split_ifs <;> omega

/-! ## Predicates in the last attempt -/

theorem verificationCanRetry_last (s : RepairState) : verificationCanRetry c s (maxLoops c - 1) = false := by
  have hfirst := (last_within (c := c) 0).mp
  have hextra := (last_within (c := c) (workerIncompleteDiffExtraRetries c + verificationRepairExtraRetries c)).mp
  obtain ⟨hincomplete, -⟩ := repairLoop_bounds (c := c)
  have hno : ¬ loopExtraRetries c < workerIncompleteDiffExtraRetries c + verificationRepairExtraRetries c := by
    unfold loopExtraRetries
    omega
  have hbase : ¬ maxLoops c - 1 < baseMaxLoops c - 1 := fun h => absurd (hfirst h) (by omega)
  simp only [verificationCanRetry, hbase, decide_false, Bool.false_or, Bool.and_eq_false_imp, decide_eq_false_iff_not]
  exact fun _ h => hno (hextra h)

theorem integrationCanRetry_last (s : RepairState) : integrationCanRetry c s (maxLoops c - 1) = true ↔
    s.hasWorkerIncompleteDiff = true ∧
      loopExtraRetries c < workerIncompleteDiffExtraRetries c + integrationRejectionExtraRetries c := by
  rw [integrationCanRetry, verificationCanRetry_last, Bool.false_or, Bool.and_eq_true, decide_eq_true_eq, Nat.add_assoc,
    last_within]

theorem emptied_last (merged : List Artifact) (b : Blocker) (used : Nat) :
    engineEmptyResponseRepairCanRetry c merged b (maxLoops c - 1) used = false := by
  simp [engineEmptyResponseRepairCanRetry]

theorem destructive_last (merged : List Artifact) (b : Blocker) :
    destructiveComplementaryCanRetry c merged b (maxLoops c - 1) = false := by
  have hno : ¬ maxLoops c - 1 < baseMaxLoops c +
      (workerRepairLoopExtraRetries c + workerComplementaryPartialDiffLoopExtraRetries c) - 1 := by
    rw [last_within]
    unfold loopExtraRetries
    omega
  simp [destructiveComplementaryCanRetry, hno]

theorem complementary_last (merged : List Artifact) : complementaryCanRetry c merged (maxLoops c - 1) = true ↔
    0 < complementaryPairCount c merged ∧ loopExtraRetries c ≤
      max (workerIncompleteDiffExtraRetries c) (workerOffTrackExtraRetries c) + (complementaryPairCount c merged - 1) * 2 := by
  simp only [complementaryCanRetry, Bool.and_eq_true, decide_eq_true_eq, last_within]
  omega

theorem testFailed_last (merged : List Artifact) (b : Blocker) :
    testFailedPartialDiffCanRetry c merged b (maxLoops c - 1) = true ↔ workerFailureIsVerifiableDiffTestFailed c b = true ∧
      0 < matchingFailureCount merged b ["WORKER_VERIFIABLE_DIFF_TEST_FAILED", "WORKER_VERIFIABLE_DIFF_UNTERMINATED"] ∧
      matchingFailureCount merged b ["WORKER_VERIFIABLE_DIFF_TEST_FAILED", "WORKER_VERIFIABLE_DIFF_UNTERMINATED"] ≤
        raisedExtraRetries c b (workerVerifiableDiffTestFailedExtraRetries c) := by
  have hbase := base_pos (c := c)
  have hlast : maxLoops c - 1 < maxLoops c := by
    unfold maxLoops
    omega
  simp only [testFailedPartialDiffCanRetry, hlast, Bool.and_eq_true, decide_eq_true_eq]
  constructor
  · rintro ⟨⟨⟨⟨-, hfailed⟩, -⟩, hcount⟩, hbudget⟩
    exact ⟨hfailed, hcount, hbudget⟩
  · rintro ⟨hfailed, hcount, hbudget⟩
    exact ⟨⟨⟨⟨trivial, hfailed⟩, by omega⟩, hcount⟩, hbudget⟩

theorem stalled_last (merged : List Artifact) (b : Blocker) : stalledNoDiffRepairCanRetry c merged b (maxLoops c - 1) = true ↔
    strip b.kind = "engine_tool_loop_stalled_no_diff" ∧ merged.any usefulArtifact = true ∧ loopExtraRetries c = 0 := by
  obtain ⟨hincomplete, -⟩ := repairLoop_bounds (c := c)
  have hle := repairLoop_le (c := c)
  simp only [stalledNoDiffRepairCanRetry, Bool.and_eq_true, decide_eq_true_eq, last_within]
  constructor
  · rintro ⟨⟨hkind, huseful⟩, hbudget⟩
    exact ⟨hkind, huseful, by omega⟩
  · rintro ⟨hkind, huseful, hbudget⟩
    exact ⟨⟨hkind, huseful⟩, by omega⟩

theorem weakTest_kind {b : Blocker} (h : workerFailureIsVerifiableDiffWeakTest c b = true) :
    strip b.kind = "worker_incomplete_diff" ∧ workerFailureIsVerifiableDiffTestFailed c b = false := by
  simp only [workerFailureIsVerifiableDiffWeakTest, verifiableDiffFailed, Bool.and_eq_true, decide_eq_true_eq] at h
  obtain ⟨⟨⟨hreason, hkind⟩, -⟩, -⟩ := h
  refine ⟨hkind, ?_⟩
  have hother : strip b.worker.failureReason ∉
      ["WORKER_VERIFIABLE_DIFF_TEST_FAILED", "WORKER_VERIFIABLE_DIFF_UNTERMINATED"] := by
    simp only [List.mem_cons, List.not_mem_nil, or_false] at hreason
    obtain hreason | hreason := hreason
    · rw [hreason]
      decide
    · rw [hreason]
      decide
  simp [workerFailureIsVerifiableDiffTestFailed, verifiableDiffFailed, hother]

/-- A failed worker alone is given a retry in the last attempt where a weak test earned one more
than the budget of weak tests. -/
theorem canRetry_last (b : Blocker) : workerFailureCanRetry c b (maxLoops c - 1) = true ↔
    workerFailureIsVerifiableDiffWeakTest c b = true ∧ ShowsError c b ∧
      loopExtraRetries c ≤ workerVerifiableDiffWeakTestExtraRetries c := by
  unfold ShowsError
  have hle := repairLoop_le (c := c)
  obtain ⟨hincomplete, hoff, hfailed, hweak, -⟩ := repairLoop_bounds (c := c)
  have hnever : ∀ extra, extra ≤ workerRepairLoopExtraRetries c → decide (loopExtraRetries c < extra) = false := by
    intro extra hextra
    exact decide_eq_false (by omega)
  have hraised : ∀ start, start ≤ workerRepairLoopExtraRetries c →
      decide (loopExtraRetries c < raisedExtraRetries c b start) = false :=
    fun start hstart => hnever _ (raised_le hstart)
  have hpreserved : decide (loopExtraRetries c < raisedExtraRetries c b
      (if changedFilesIncludeSourceAndTest c b.worker.changedFiles = true then workerVerifiableDiffTestFailedExtraRetries c
        else workerIncompleteDiffExtraRetries c)) = false := hraised _ (by split <;> omega)
  cases htest : workerFailureIsVerifiableDiffWeakTest c b with
  | false =>
    simp only [workerFailureCanRetry, last_within, htest, hnever 0 (Nat.zero_le _), hnever _ hincomplete, hnever _ hoff,
      hraised _ hfailed, hpreserved, Bool.and_false, Bool.false_eq_true, false_and, if_false, ite_self]
  | true =>
    obtain ⟨hkind, hother⟩ := weakTest_kind htest
    have hmem : "worker_incomplete_diff" ∈ retryableKinds := by decide
    have hpartial : "worker_incomplete_diff" ∈ partialDiffExtraRetryKinds := by decide
    have hloop : "worker_incomplete_diff" ∉ ["engine_tool_loop_stalled", "engine_prompt_timeout"] := by decide
    have hengine : "worker_incomplete_diff" ∉ ["engine_empty_response", "engine_no_activity_response"] := by decide
    have hreported : "worker_incomplete_diff" ≠ "worker_reported_blocker" := by decide
    have hprogress : "worker_incomplete_diff" ≠ "worker_no_progress" := by decide
    have htrack : "worker_incomplete_diff" ≠ "worker_off_track" := by decide
    simp only [workerFailureCanRetry, last_within, htest, hkind, hother, hmem, hpartial, hloop, hengine, hreported,
      hprogress, htrack, hnever 0 (Nat.zero_le _), not_true_eq_false, false_and, if_false, if_true, Bool.false_eq_true,
      decide_eq_true_eq, true_and]
    cases herror : (workerFailureHasImportError c b || workerFailureHasRepairableException c b ||
      workerFailureHasAssertionFailure c b) with
    | false =>
      simp only [Bool.false_eq_true, if_false, Nat.add_zero, false_and, iff_false]
      omega
    | true =>
      simp only [if_true, true_and]
      omega

/-! ## The decision in the last attempt -/

/-- The decision on failed workers, from the answers of the predicates. -/
def answered (feedback can cycle followup emptyKind none complementary testFailed destructive stalled emptied : Bool) :
    Verdict × Bool :=
  let first : Verdict := ⟨feedback, feedback && can⟩
  let second : Verdict := if cycle && !followup then ⟨false, false⟩
    else if followup then { first with allowed := true } else first
  let third : Verdict := if second.allowed && emptyKind && !none && !emptied then ⟨false, false⟩ else second
  let fourth : Verdict :=
    if third.feedback && !third.allowed && !cycle then { third with allowed := complementary } else third
  let fifth : Verdict := if fourth.feedback && !fourth.allowed && !cycle then { fourth with allowed := testFailed } else fourth
  let sixth : Verdict := if !fifth.feedback && !fifth.allowed && destructive then ⟨true, true⟩ else fifth
  let seventh : Verdict := if sixth.feedback && !sixth.allowed then { sixth with allowed := stalled } else sixth
  if seventh.feedback && !seventh.allowed then ({ seventh with allowed := emptied }, emptied) else (seventh, false)

theorem workerRetry_eq (b : Blocker) (merged : List Artifact) (attempt used : Nat) :
    workerRetry c b merged attempt used =
      answered (decide (strip b.kind ∈ retryableKinds)) (workerFailureCanRetry c b attempt)
        (oneSidedRepairCycleShouldBlock c merged b)
        (oneSidedRepairCycleShouldBlock c merged b && failedVerifiableFollowupCanRetry c merged b)
        (decide (b.kind = "engine_empty_response")) merged.isEmpty (complementaryCanRetry c merged attempt)
        (testFailedPartialDiffCanRetry c merged b attempt) (destructiveComplementaryCanRetry c merged b attempt)
        (stalledNoDiffRepairCanRetry c merged b attempt) (engineEmptyResponseRepairCanRetry c merged b attempt used) := rfl

/-- A decision no destructive retry and no retry on an empty response takes part in. -/
theorem answered_granted (feedback can cycle follows emptyKind none complementary testFailed stalled : Bool)
    (hkind : can = true → emptyKind = false) (hnone : cycle = true → none = false) :
    let d := answered feedback can cycle (cycle && follows) emptyKind none complementary testFailed false stalled false
    (d.1.feedback && d.1.allowed) =
      (feedback && if cycle then follows && !emptyKind else can || complementary || testFailed || stalled) := by
  revert feedback can cycle follows emptyKind none complementary testFailed stalled
  decide

/-- A cycle is seen in artifacts only. -/
theorem cycle_nil (b : Blocker) : oneSidedRepairCycleShouldBlock c [] b = false := by
  simp [oneSidedRepairCycleShouldBlock, ofWorker]

/-- What is granted to failed workers in the last attempt. -/
theorem workerRetry_last (b : Blocker) (merged : List Artifact) (used : Nat) :
    ((workerRetry c b merged (maxLoops c - 1) used).1.feedback &&
      (workerRetry c b merged (maxLoops c - 1) used).1.allowed) = true ↔ WorkerOverrun c b merged := by
  have hkind : workerFailureCanRetry c b (maxLoops c - 1) = true → decide (b.kind = "engine_empty_response") = false := by
    intro hcan
    obtain ⟨hincomplete, -⟩ := weakTest_kind ((canRetry_last b).mp hcan).1
    refine decide_eq_false fun hempty => ?_
    rw [hempty] at hincomplete
    exact absurd hincomplete (by decide)
  have hnone : oneSidedRepairCycleShouldBlock c merged b = true → merged.isEmpty = false := by
    intro hcycle
    cases merged with
    | nil =>
      rw [cycle_nil] at hcycle
      cases hcycle
    | cons a rest => rfl
  have hretryable : ∀ kind, strip b.kind = kind → kind ∈ retryableKinds → strip b.kind ∈ retryableKinds :=
    fun kind hb hmem => hb ▸ hmem
  rw [workerRetry_eq, destructive_last, emptied_last, answered_granted _ _ _ _ _ _ _ _ _ hkind hnone, Bool.and_eq_true,
    decide_eq_true_eq]
  cases hcycle : oneSidedRepairCycleShouldBlock c merged b with
  | true =>
    simp only [if_true, Bool.and_eq_true, Bool.not_eq_true', decide_eq_false_iff_not]
    constructor
    · rintro ⟨hmem, hfollowup, hnot⟩
      exact .followup hmem hnot hcycle hfollowup
    · intro hover
      cases hover with
      | followup hmem hnot _ hfollowup => exact ⟨hmem, hfollowup, hnot⟩
      | weakTest hno => rw [hcycle] at hno; cases hno
      | complementary _ hno => rw [hcycle] at hno; cases hno
      | testFailed hno => rw [hcycle] at hno; cases hno
      | stalled hno => rw [hcycle] at hno; cases hno
  | false =>
    simp only [Bool.false_eq_true, if_false, Bool.or_eq_true, canRetry_last, complementary_last, testFailed_last, stalled_last]
    constructor
    · rintro ⟨hmem, ((⟨hweak, herror, hbudget⟩ | ⟨hpairs, hbudget⟩) | ⟨hfailed, hcount, hbudget⟩) | ⟨hstalled, huseful, hbudget⟩⟩
      · exact .weakTest hcycle hweak herror hbudget
      · exact .complementary hmem hcycle hpairs hbudget
      · exact .testFailed hcycle hfailed hcount hbudget
      · exact .stalled hcycle hstalled huseful hbudget
    · intro hover
      cases hover with
      | weakTest _ hweak herror hbudget =>
        exact ⟨hretryable _ (weakTest_kind hweak).1 (by decide), .inl (.inl (.inl ⟨hweak, herror, hbudget⟩))⟩
      | followup _ _ hno => rw [hcycle] at hno; cases hno
      | complementary hmem _ hpairs hbudget => exact ⟨hmem, .inl (.inl (.inr ⟨hpairs, hbudget⟩))⟩
      | testFailed _ hfailed hcount hbudget =>
        have hincomplete : strip b.kind = "worker_incomplete_diff" := by
          simp only [workerFailureIsVerifiableDiffTestFailed, verifiableDiffFailed, Bool.and_eq_true, decide_eq_true_eq] at hfailed
          exact hfailed.1.1.2
        exact ⟨hretryable _ hincomplete (by decide), .inl (.inr ⟨hfailed, hcount, hbudget⟩)⟩
      | stalled _ hstalled huseful hbudget =>
        exact ⟨hretryable _ hstalled (by decide), .inr ⟨hstalled, huseful, hbudget⟩⟩

/-! ## Runs -/

/-- An attempt grants a retry. -/
def Grants (c : Config) (attempt : Nat) (s : RepairState) (t : Attempt) : Prop := ∃ s', runAttempt c attempt s t = .retry s'

theorem checkAttempt_last (s : RepairState) (t : Attempt) : checkAttempt c (maxLoops c - 1) s t = .stop := by
  have hbase : ¬ maxLoops c - 1 < baseMaxLoops c - 1 := fun h => absurd ((last_within (c := c) 0).mp h) (by omega)
  unfold checkAttempt
  rw [if_neg hbase, verificationCanRetry_last, if_neg Bool.false_ne_true]
  split_ifs
  · rfl
  · cases t.review <;> rfl

theorem integrateAttempt_last (s : RepairState) (t : Attempt) :
    (∃ s', integrateAttempt c (maxLoops c - 1) s t = .retry s') ↔ IntegrationOverrun c s t := by
  have hbase : ¬ maxLoops c - 1 < baseMaxLoops c - 1 := fun h => absurd ((last_within (c := c) 0).mp h) (by omega)
  unfold integrateAttempt
  rw [if_neg hbase]
  cases hrepo : t.repoBlocker with
  | true =>
    simp only [if_true]
    constructor
    · rintro ⟨s', h⟩
      cases h
    · intro h
      rw [h.repo] at hrepo
      cases hrepo
  | false =>
    simp only [Bool.false_eq_true, if_false]
    cases hreview : t.integration with
    | failed =>
      constructor
      · rintro ⟨s', h⟩
        cases h
      · intro h
        rw [h.rejected] at hreview
        cases hreview
    | passed =>
      simp only [checkAttempt_last]
      constructor
      · rintro ⟨s', h⟩
        cases h
      · intro h
        rw [h.rejected] at hreview
        cases hreview
    | rejected =>
      constructor
      · rintro ⟨s', h⟩
        cases hcan : integrationCanRetry c s (maxLoops c - 1) with
        | false =>
          simp only [hcan, Bool.false_eq_true, if_false] at h
          cases h
        | true =>
          obtain ⟨hincomplete, hbudget⟩ := (integrationCanRetry_last s).mp hcan
          exact ⟨hrepo, hreview, hincomplete, hbudget⟩
      · intro h
        simp only [(integrationCanRetry_last s).mpr ⟨h.incomplete, h.budget⟩, if_true]
        exact ⟨_, rfl⟩

/-- In the last attempt a retry is granted exactly in the ways listed. -/
theorem grants_last (s : RepairState) (t : Attempt) : Grants c (maxLoops c - 1) s t ↔ Overrun c s t := by
  unfold Grants runAttempt
  cases hended : t.ended with
  | true =>
    simp only [if_true]
    constructor
    · rintro ⟨s', h⟩
      cases h
    · intro h
      rw [h.running] at hended
      cases hended
  | false =>
    simp only [Bool.false_eq_true, if_false]
    cases hfailure : t.failure with
    | none =>
      simp only [integrateAttempt_last]
      constructor
      · exact fun h => ⟨hended, .inr ⟨.inl hfailure, h⟩⟩
      · rintro ⟨-, ⟨b, new, hsome, -⟩ | ⟨-, h⟩⟩
        · rw [hfailure] at hsome
          cases hsome
        · exact h
    | some failure =>
      obtain ⟨b, new⟩ := failure
      simp only
      have hgranted := workerRetry_last (c := c) b (mergePartialDiffArtifacts s.artifacts new) s.emptyRetries
      by_cases hover : WorkerOverrun c b (mergePartialDiffArtifacts s.artifacts new)
      · rw [if_pos (hgranted.mpr hover)]
        exact ⟨fun _ => ⟨hended, .inl ⟨b, new, hfailure, hover⟩⟩, fun _ => ⟨_, rfl⟩⟩
      · rw [if_neg (mt hgranted.mp hover)]
        constructor
        · rintro ⟨s', h⟩
          cases htolerated : t.tolerated with
          | false =>
            rw [htolerated] at h
            cases h
          | true =>
            rw [htolerated, if_pos rfl] at h
            exact ⟨hended, .inr ⟨.inr htolerated, integrateAttempt_last s t |>.mp ⟨s', h⟩⟩⟩
        · rintro ⟨-, ⟨b', new', hsome, hover'⟩ | ⟨hnone | htolerated, h⟩⟩
          · rw [hfailure] at hsome
            cases hsome
            exact absurd hover' hover
          · rw [hfailure] at hnone
            cases hnone
          · rw [htolerated, if_pos rfl]
            exact (integrateAttempt_last s t).mpr h

end

section
variable (c : Config) (attempts : Nat → Attempt)

/-- The repair state an attempt of a run starts with; none, where the run ended before. -/
def stateAt : Nat → Option RepairState
  | 0 => some RepairState.initial
  | n + 1 => (stateAt n).bind fun s =>
    match runAttempt c n s (attempts n) with
    | .retry s' => some s'
    | .stop => none

/-- Every retry a run grants is made, and the run does not end behind its loop. -/
def EveryRetryUsed : Prop :=
  (∀ a s, a < maxLoops c → stateAt c attempts a = some s → Grants c a s (attempts a) → a + 1 < maxLoops c) ∧
    repairLoop c attempts (maxLoops c) 0 RepairState.initial = .stopped

variable {c attempts}

/-- The loop runs out where a state is reached behind its last attempt. -/
theorem repairLoop_stopped {left n : Nat} {s : RepairState} (h : stateAt c attempts n = some s) :
    repairLoop c attempts left n s = .stopped ↔ stateAt c attempts (n + left) = none := by
  induction left generalizing n s with
  | zero =>
    rw [Nat.add_zero, h]
    exact ⟨(fun hrun => by cases hrun), (fun hnone => by cases hnone)⟩
  | succ left ih =>
    have hshift : n + (left + 1) = n + 1 + left := by omega
    rw [repairLoop, hshift]
    have hnext : stateAt c attempts (n + 1) = match runAttempt c n s (attempts n) with
        | .retry s' => some s'
        | .stop => none := by rw [stateAt, h]; rfl
    cases hturn : runAttempt c n s (attempts n) with
    | retry s' =>
      rw [hturn] at hnext
      exact ih hnext
    | stop =>
      rw [hturn] at hnext
      have hlater : ∀ k, stateAt c attempts (n + 1 + k) = none := by
        intro k
        induction k with
        | zero => exact hnext
        | succ k ihk => rw [← Nat.add_assoc, stateAt, ihk]; rfl
      exact ⟨fun _ => hlater left, fun _ => rfl⟩

/-- In a run every granted retry is used, and the block behind the loop is not reached, unless
its last attempt overruns the loop. -/
theorem everyRetryUsed_iff (c : Config) (attempts : Nat → Attempt) : EveryRetryUsed c attempts ↔
    ∀ s, stateAt c attempts (maxLoops c - 1) = some s → ¬ Overrun c s (attempts (maxLoops c - 1)) := by
  have hpos : maxLoops c - 1 + 1 = maxLoops c := Nat.sub_add_cancel (Nat.le_add_right_of_le base_pos)
  constructor
  · intro h s hs hover
    have hlt := h.1 (maxLoops c - 1) s (by omega) hs ((grants_last s _).mpr hover)
    omega
  · intro h
    have hlast : ∀ s, stateAt c attempts (maxLoops c - 1) = some s → ¬ Grants c (maxLoops c - 1) s (attempts (maxLoops c - 1)) :=
      fun s hs hgrants => h s hs ((grants_last s _).mp hgrants)
    constructor
    · intro a s ha hs hgrants
      by_cases hmax : a + 1 < maxLoops c
      · exact hmax
      · have heq : a = maxLoops c - 1 := by omega
        subst heq
        exact absurd hgrants (hlast s hs)
    · refine (repairLoop_stopped (n := 0) rfl).mpr ?_
      rw [Nat.zero_add, ← hpos, stateAt]
      cases hs : stateAt c attempts (maxLoops c - 1) with
      | none => rfl
      | some s =>
        cases hturn : runAttempt c (maxLoops c - 1) s (attempts (maxLoops c - 1)) with
        | stop => simp only [Option.bind_some, hturn]
        | retry s' => exact absurd ⟨s', hturn⟩ (hlast s hs)

end
/-! ## A run of one attempt -/

/-- No retries and no extra retries are configured. -/
def noRetries : Config where
  env := fun _ => "0"
  int := fun text => if text = "0" then some 0 else none
  lower := fun text => String.ofList (text.toList.map asciiLower)
  maxRetries := 0

/-- A worker whose new test is weak, and fails. -/
def weakTestBlocker : Blocker where
  kind := "worker_incomplete_diff"
  worker :=
    { subtaskId := "subtask-1"
      subtaskTargetFiles := []
      subtaskFiles := []
      changedFiles := ["src/app.py", "tests/test_app.py"]
      failureReason := "WORKER_VERIFIABLE_DIFF_WEAK_TEST"
      preservedFailureReason := ""
      partialDiffArtifact := "artifacts/worker-1.patch"
      artifactsPartialDiff := ""
      abandonedAfterTimeout := false
      stdout := "AssertionError: 1 != 2"
      outputExcerpt := ""
      verificationOutputExcerpt := "" }

def weakTestArtifact : Artifact where
  subtaskId := "subtask-1"
  subtaskTargetFiles := []
  subtaskFiles := []
  changedFiles := ["src/app.py", "tests/test_app.py"]
  workerId := "worker-1"
  patchPath := "artifacts/worker-1.patch"
  failureReason := "WORKER_VERIFIABLE_DIFF_WEAK_TEST"

def weakTestAttempt : Attempt where
  ended := false
  failure := some (weakTestBlocker, [weakTestArtifact])
  tolerated := false
  repoBlocker := false
  integration := .passed
  noDiff := false
  repoOk := true
  proof := true
  review := .passed

/-- The retry is announced, and the run is blocked for exceeding its loop. -/
theorem weakTest_exceeds : repairLoop noRetries (fun _ => weakTestAttempt) (maxLoops noRetries) 0 RepairState.initial =
      .maxRetries ∧ ¬ EveryRetryUsed noRetries (fun _ => weakTestAttempt) := by
  have hrun : repairLoop noRetries (fun _ => weakTestAttempt) (maxLoops noRetries) 0 RepairState.initial = .maxRetries := by
    decide +kernel
  refine ⟨hrun, fun h => ?_⟩
  have hends := h.2
  rw [hrun] at hends
  cases hends

end RetryBudget
