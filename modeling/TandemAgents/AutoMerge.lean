import TandemAgents.PullRequests

/-!
# Checks that hide behind green ones

A request counts as ready to merge on the word of a summary, or of those entries that are
the first of their name and url and carry their outcome in `conclusion` or `status`. The
other entries are hidden.
-/
namespace AutoMerge

open PythonText JsonData PullRequests

set_option maxRecDepth 20000

variable (py : Runtime)

/-- The outcome of a check, in whichever of its three fields it stands. -/
def outcomeState (entry : Dict) : String := firstStatus py entry ["conclusion", "status", "state"]

/-- All but the checks speak for the merge. -/
structure Mergeable (pr : Dict) : Prop where
  notMerged : isMerged pr = false
  notClosed : isClosed py pr = false
  notDraft : isDraft pr = false
  notConflicting : pullRequestMergeableState py pr ≠ .conflicting
  notBehind : pullRequestMergeableState py pr ≠ .behind
  approved : pullRequestReviewsState py pr = "approved"

def AllPass (pr : Dict) : Prop := ∀ e ∈ checkEntries pr, outcomeState py e ∈ passedWords
def SomeFails (pr : Dict) : Prop := ∃ e ∈ checkEntries pr, outcomeState py e ∈ failedWords

/-- The request is open and merges without conflict. -/
structure Open (pr : Dict) : Prop where
  notMerged : isMerged pr = false
  notClosed : isClosed py pr = false
  notConflicting : pullRequestMergeableState py pr ≠ .conflicting

/-- `guarded_auto_merge` calls the merge tool. -/
def reachesMerge : Option PullRequests.AutoMerge → Bool
  | some (.merge _ _) => true
  | _ => false

/-- A request that is called ready, or is merged, is mergeable and all its checks pass; one
failing check alone makes an open one need repair. -/
structure Safe (cfg : ReviewConfig) (approvals : Option Dict) (headBranch baseRepo baseBranch : String) (pr : Dict) :
    Prop where
  ready : pullRequestLifecycleState py pr = .readyToMerge ∨
    reachesMerge (guardedAutoMerge py cfg (normalizePullRequestMetadata py pr headBranch baseRepo baseBranch)
      approvals) = true → Mergeable py pr ∧ AllPass py pr
  repair : Open py pr → SomeFails py pr → pullRequestLifecycleState py pr = .needsRepair

/-- The entries whose state is read. -/
def visible (pr : Dict) : List Dict :=
  (pullRequestCheckEntries py pr).filter (fun e => decide (readState py e ≠ ""))

/-- Another entry has its name and url, or nothing stands in `conclusion` and `status`. -/
def Hidden (pr : Dict) (e : Dict) : Prop := e ∈ checkEntries pr ∧ e ∉ visible py pr

/-- The summary of a request agrees with its entries, and where there is none, the visible
entries outweigh no hidden one. -/
structure Telling (pr : Dict) : Prop where
  summaryPasses : Mergeable py pr → overallState py pr = some "success" → AllPass py pr
  summaryFails : Open py pr → pullRequestReviewsState py pr ≠ "changes_requested" → SomeFails py pr →
    overallState py pr = none ∨ overallState py pr = some "failure"
  hiddenPasses : Mergeable py pr → overallState py pr = none → visible py pr ≠ [] →
    (∀ e ∈ visible py pr, outcomeState py e ∈ passedWords) →
    ∀ e, Hidden py pr e → outcomeState py e ∈ passedWords
  hiddenFails : Open py pr → pullRequestReviewsState py pr ≠ "changes_requested" → overallState py pr = none →
    (∃ e, Hidden py pr e ∧ outcomeState py e ∈ failedWords) → ∃ e ∈ visible py pr, outcomeState py e ∈ failedWords

/-! ## What is read of an entry -/

variable {py}

theorem statusKey_of_not {v : Json} (h : v.truthy = false) : statusKey py v = "" := by
  have hstrip : strip "" = "" := by decide
  rw [statusKey, Python.text_of_not _ h, normalizeStatusKey, hstrip, py.lower_empty]
  decide

/-- What is read is the outcome. -/
theorem outcomeState_of_read {e : Dict} (h : readState py e ≠ "") : outcomeState py e = readState py e := by
  unfold outcomeState firstStatus
  cases hc : (e.get "conclusion").truthy with
  | true =>
    have hread : readState py e = statusKey py (e.get "conclusion") := by rw [readState, Json.or_of_truthy hc]
    rw [hread] at h
    simp [h, hread]
  | false =>
    have hread : readState py e = statusKey py (e.get "status") := by rw [readState, Json.or_of_not hc]
    have hempty : statusKey py (e.get "conclusion") = "" := statusKey_of_not hc
    rw [hread] at h
    simp [hempty, h, hread]

theorem visible_spec {pr e : Dict} (h : e ∈ visible py pr) :
    e ∈ pullRequestCheckEntries py pr ∧ readState py e ≠ "" ∧ outcomeState py e = readState py e := by
  obtain ⟨hmem, hne⟩ := List.mem_filter.mp h
  have hne := of_decide_eq_true hne
  exact ⟨hmem, hne, outcomeState_of_read hne⟩

/-! ## The states of the checks -/

theorem entriesState_failure (checks : List Dict) : entriesState py checks = "failure" ↔
    ∃ e ∈ checks, readState py e ∈ failedWords := by
  unfold entriesState
  generalize readState py = read
  have hany : (checks.map read).any (fun state => decide (state ∈ failedWords)) = true ↔
      ∃ e ∈ checks, read e ∈ failedWords := by
    simp only [List.any_eq_true, List.mem_map, decide_eq_true_eq, exists_exists_and_eq_and]
  dsimp only
  rw [← hany]
  by_cases hnil : checks = []
  · simp [hnil]
  · rw [if_neg hnil]
    by_cases hfailed : (checks.map read).any (fun state => decide (state ∈ failedWords)) = true
    · rw [if_pos hfailed]
      exact iff_of_true rfl hfailed
    · rw [if_neg hfailed]
      refine iff_of_false ?_ hfailed
      split_ifs <;> decide

/-- The entries pass together when all those pass that hold a state, and there is one. -/
theorem entriesState_success (checks : List Dict) : entriesState py checks = "success" ↔
    (∃ e ∈ checks, readState py e ≠ "") ∧ ∀ e ∈ checks, readState py e ≠ "" → readState py e ∈ passedWords := by
  unfold entriesState
  generalize readState py = read
  have hany : ∀ words : List String, (checks.map read).any (fun state => decide (state ∈ words)) = true ↔
      ∃ e ∈ checks, read e ∈ words := by
    intro words
    simp only [List.any_eq_true, List.mem_map, decide_eq_true_eq, exists_exists_and_eq_and]
  -- a state that failed or is pending is known and has not passed
  have hbad : ∀ words : List String, "" ∉ words → (∀ w ∈ passedWords, w ∉ words) →
      (checks.map read).any (fun state => decide (state ∈ words)) = true →
      ¬ ∀ e ∈ checks, read e ≠ "" → read e ∈ passedWords := by
    intro words hempty hpassed hw hall
    obtain ⟨e, he, hmem⟩ := (hany words).mp hw
    have hne : read e ≠ "" := fun h => hempty (h ▸ hmem)
    exact hpassed (read e) (hall e he hne) hmem
  have hknown : ((checks.map read).filter (fun state => decide (state ≠ "")) ≠ [] ∧
      ((checks.map read).filter (fun state => decide (state ≠ ""))).all (fun state => decide (state ∈ passedWords)) =
        true) ↔ (∃ e ∈ checks, read e ≠ "") ∧ ∀ e ∈ checks, read e ≠ "" → read e ∈ passedWords := by
    simp only [ne_eq, List.filter_eq_nil_iff, List.all_eq_true, List.mem_filter, List.mem_map, decide_eq_true_eq,
      not_forall, not_not, and_imp, forall_exists_index, forall_apply_eq_imp_iff₂, exists_prop]
  dsimp only
  by_cases hnil : checks = []
  · simp [hnil]
  · rw [if_neg hnil]
    split_ifs with hfailed hpending hpassed
    · exact iff_of_false (by decide) fun h => hbad failedWords (by decide) (by decide) hfailed h.2
    · exact iff_of_false (by decide) fun h => hbad pendingWords (by decide) (by decide) hpending h.2
    · exact iff_of_true rfl (hknown.mp hpassed)
    · exact iff_of_false (by decide) fun h => hpassed (hknown.mpr h)

/-- What holds of the outcome of a visible entry, in terms of what is read. -/
theorem visible_iff {pr e : Dict} : e ∈ visible py pr ↔ e ∈ pullRequestCheckEntries py pr ∧ readState py e ≠ "" := by
  rw [visible, List.mem_filter, decide_eq_true_eq]

theorem getD_eq_iff (o : Option String) (d v : String) : o.getD d = v ↔ o = some v ∨ (o = none ∧ d = v) := by
  cases o <;> simp

theorem checksState_failure (pr : Dict) : pullRequestChecksState py pr = "failure" ↔
    overallState py pr = some "failure" ∨ (overallState py pr = none ∧
      ∃ e ∈ visible py pr, outcomeState py e ∈ failedWords) := by
  have hvis : (∃ e ∈ pullRequestCheckEntries py pr, readState py e ∈ failedWords) ↔
      ∃ e ∈ visible py pr, outcomeState py e ∈ failedWords := by
    constructor
    · rintro ⟨e, he, hf⟩
      have hne : readState py e ≠ "" := by
        intro hempty
        rw [hempty] at hf
        exact absurd hf (by decide)
      exact ⟨e, visible_iff.mpr ⟨he, hne⟩, (outcomeState_of_read hne).symm ▸ hf⟩
    · rintro ⟨e, he, hf⟩
      obtain ⟨hmem, -, hout⟩ := visible_spec he
      exact ⟨e, hmem, hout ▸ hf⟩
  rw [← hvis, ← entriesState_failure, pullRequestChecksState]
  exact getD_eq_iff _ _ _

theorem checksState_success (pr : Dict) : pullRequestChecksState py pr = "success" ↔
    overallState py pr = some "success" ∨ (overallState py pr = none ∧ visible py pr ≠ [] ∧
      ∀ e ∈ visible py pr, outcomeState py e ∈ passedWords) := by
  have hvis : ((∃ e ∈ pullRequestCheckEntries py pr, readState py e ≠ "") ∧
      ∀ e ∈ pullRequestCheckEntries py pr, readState py e ≠ "" → readState py e ∈ passedWords) ↔
      visible py pr ≠ [] ∧ ∀ e ∈ visible py pr, outcomeState py e ∈ passedWords := by
    constructor
    · rintro ⟨⟨e, he, hne⟩, hall⟩
      refine ⟨List.ne_nil_of_mem (visible_iff.mpr ⟨he, hne⟩), fun v hv => ?_⟩
      obtain ⟨hmem, hread, hout⟩ := visible_spec hv
      rw [hout]
      exact hall v hmem hread
    · rintro ⟨hne, hall⟩
      obtain ⟨e, he⟩ := List.exists_mem_of_ne_nil _ hne
      refine ⟨⟨e, visible_iff.mp he⟩, fun v hv hread => ?_⟩
      rw [← outcomeState_of_read hread]
      exact hall v (visible_iff.mpr ⟨hv, hread⟩)
  rw [← hvis, ← entriesState_success, pullRequestChecksState]
  exact getD_eq_iff _ _ _

/-! ## The lifecycle -/

theorem ready_iff (pr : Dict) : pullRequestLifecycleState py pr = .readyToMerge ↔
    Mergeable py pr ∧ pullRequestChecksState py pr = "success" := by
  unfold pullRequestLifecycleState
  dsimp only
  split_ifs with hm hc hconf hrep hrun hbehind hready
  · exact iff_of_false (fun h => by cases h) fun h => by rw [h.1.notMerged] at hm; cases hm
  · exact iff_of_false (fun h => by cases h) fun h => by rw [h.1.notClosed] at hc; cases hc
  · exact iff_of_false (fun h => by cases h) fun h => h.1.notConflicting hconf
  · refine iff_of_false (fun h => by cases h) fun h => ?_
    rw [h.1.approved, h.2] at hrep
    exact absurd hrep (by decide)
  · refine iff_of_false (fun h => by cases h) fun h => ?_
    rw [h.1.notDraft, h.2] at hrun
    exact absurd hrun (by decide)
  · exact iff_of_false (fun h => by cases h) fun h => h.1.notBehind hbehind
  · have hdraft : isDraft pr = false := Bool.eq_false_iff.mpr fun h => hrun (.inl h)
    exact iff_of_true rfl ⟨⟨Bool.eq_false_iff.mpr hm, Bool.eq_false_iff.mpr hc, hdraft, hconf, hbehind, hready.1⟩,
      hready.2⟩
  · exact iff_of_false (fun h => by cases h) fun h => hready ⟨h.1.approved, h.2⟩

theorem repair_iff {pr : Dict} (h : Open py pr) : pullRequestLifecycleState py pr = .needsRepair ↔
    pullRequestReviewsState py pr = "changes_requested" ∨ pullRequestChecksState py pr = "failure" := by
  have hm : ¬ isMerged pr = true := fun heq => by rw [h.notMerged] at heq; cases heq
  have hc : ¬ isClosed py pr = true := fun heq => by rw [h.notClosed] at heq; cases heq
  unfold pullRequestLifecycleState
  dsimp only
  rw [if_neg hm, if_neg hc, if_neg h.notConflicting]
  split_ifs with hrep
  all_goals simp [hrep]

theorem not_ready_denied {cfg : ReviewConfig} {pr : PullRequest} (h : pr.lifecycleState ≠ .readyToMerge) :
    Denial.notReadyToMerge ∈ autoMergeDenials py cfg pr := by
  unfold autoMergeDenials
  dsimp only
  iterate 5 apply List.mem_append_left
  apply List.mem_append_right
  rw [if_pos h]
  exact List.mem_singleton_self _

/-- Only a request that is ready reaches the merge tool. -/
theorem ready_of_reachesMerge {cfg : ReviewConfig} {pr : PullRequest} {approvals : Option Dict}
    (h : reachesMerge (guardedAutoMerge py cfg pr approvals) = true) : pr.lifecycleState = .readyToMerge := by
  by_contra hne
  have hden : (evaluateAutoMergeGates py cfg pr approvals).denials ≠ [] := List.ne_nil_of_mem (not_ready_denied hne)
  have hres : guardedAutoMerge py cfg pr approvals =
      some (.denied (evaluateAutoMergeGates py cfg pr approvals).denials) := if_pos hden
  rw [hres] at h
  cases h

/-! ## The condition -/

/-- Where the visible entries pass, all pass if the hidden ones do. -/
theorem allPass_of_hidden {pr : Dict} (hvis : ∀ e ∈ visible py pr, outcomeState py e ∈ passedWords)
    (hhid : ∀ e, Hidden py pr e → outcomeState py e ∈ passedWords) : AllPass py pr := by
  intro e he
  by_cases hmem : e ∈ visible py pr
  · exact hvis e hmem
  · exact hhid e ⟨he, hmem⟩

theorem allPass_of_telling {pr : Dict} (h : Telling py pr) (hm : Mergeable py pr)
    (hs : pullRequestChecksState py pr = "success") : AllPass py pr := by
  obtain hsum | ⟨hnone, hne, hvis⟩ := (checksState_success pr).mp hs
  · exact h.summaryPasses hm hsum
  · exact allPass_of_hidden hvis (h.hiddenPasses hm hnone hne hvis)

theorem failure_of_telling {pr : Dict} (h : Telling py pr) (ho : Open py pr)
    (hr : pullRequestReviewsState py pr ≠ "changes_requested") (hf : SomeFails py pr) :
    pullRequestChecksState py pr = "failure" := by
  rw [checksState_failure]
  obtain hnone | hsum := h.summaryFails ho hr hf
  · right
    refine ⟨hnone, ?_⟩
    obtain ⟨e, he, hfail⟩ := hf
    by_cases hmem : e ∈ visible py pr
    · exact ⟨e, hmem, hfail⟩
    · exact h.hiddenFails ho hr hnone ⟨e, ⟨he, hmem⟩, hfail⟩
  · exact .inl hsum

/-- The runtime on texts of ASCII letters. -/
def asciiRuntime : Runtime where
  lower := fun s => String.ofList (s.toList.map asciiLower)
  repr := fun _ => ""
  lower_empty := asciiLower_empty
  isDigit := Char.isDigit
  int := fun v => match v with
    | .int n => some n
    | _ => none

/-- An answer of `gh pr view`: the run of a workflow passed, the status of a deployment
failed. A status has neither a conclusion nor a status field. -/
def ghPayload : Dict :=
  [("number", .int 7), ("url", .str "https://github.com/acme/app/pull/7"), ("headRefName", .str "aca/fix"),
    ("baseRefName", .str "main"), ("state", .str "OPEN"), ("isDraft", .bool false), ("mergedAt", .null),
    ("reviewDecision", .str "APPROVED"),
    ("statusCheckRollup", .arr
      [.obj [("__typename", .str "CheckRun"), ("name", .str "build"), ("status", .str "COMPLETED"),
          ("conclusion", .str "SUCCESS"), ("detailsUrl", .str "https://ci/1")],
        .obj [("__typename", .str "StatusContext"), ("context", .str "ci/deploy"), ("state", .str "FAILURE"),
          ("targetUrl", .str "https://ci/2")]]),
    ("base_repo", .str "acme/app")]

def autoMergeConfig : ReviewConfig where
  policy := "auto_merge"
  autoMergeStrategy := "squash"
  autoMergeAllowedStrategies := "squash,merge"
  mergeRequiresApproval := false
  deleteBranchAfterMerge := false
  branchDeleteRequiresApproval := true
  repositorySlug := "acme/app"

end AutoMerge
