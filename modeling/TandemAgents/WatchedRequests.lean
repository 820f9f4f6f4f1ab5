import TandemAgents.GuardedRuns
import TandemAgents.PrFiles

/-!
# Pull requests under supervision

A refresh leaves a lifecycle on the blackboard, and by it the next tick decides whether it
refreshes the request again. The two sides keep lists of their own: a request that is behind
its base or in conflict, and one without a number, is none of the next tick's.
-/
namespace WatchedRequests

open PythonText JsonData PullRequests Effects IssueSpend RepairBreaker PrSupervision PrRefresh PrFiles

set_option maxRecDepth 20000

section
variable (n : Numbers) (cfg : Config)

/-- The run's status is completed or running. -/
def RunOpen (w : World) : Prop :=
  ∃ run, (w.statusFile.get "run").asDict = some run ∧ normalizeStatus n (run.get "status") ∈ ["completed", "running"]

/-- A lifecycle that is neither terminal nor with a human is one the next tick refreshes. -/
def Watched (w : World) : Prop :=
  ∀ l, (w.blackboardFile.get lifecycleKey).asDict = some l → l ≠ [] → (l.get "terminal").truthy = false →
    lifecycleState n l ≠ "needs-human" → isPrLifecycleSupervisable n w.statusFile w.blackboardFile = true

/-- What a lifecycle has to be for that. -/
def Followed (l : Dict) : Prop :=
  (l.get "terminal").truthy = true ∨ lifecycleState n l = "needs-human" ∨
    ((l.get "number").truthy = true ∧ lifecycleState n l ∈ supervisedStates) ∨
    (lifecycleState n l = "blocked" ∧ isRetryablePrLifecycleError n l = true)

/-! ## The condition -/

/-- The request has a number, and it is not 0. -/
def Numbered (pr : PullRequest) : Prop := pr.number ≠ none ∧ pr.number ≠ some 0

/-- The request as read ends in a state the next tick knows. -/
def Settles (t : Refresh) (w : World) (pr : PullRequest) : Prop :=
  let handsOver := t.persist.returns = true ∧
    (handedOver n cfg t.pass (w.metadata.getD []) (Refreshed.toDict t (.read pr))).isSome = true
  match pr.lifecycleState with
  | .merged => True
  | .blocked => True
  | .needsRebase => False
  | .conflicted => handsOver
  | .needsRepair => Numbered pr ∨ handsOver
  | .readyToMerge => Numbered pr ∨ t.persist.returns = true ∧ completesMerge n cfg t.merge pr (approvalsOf (load w)) = true
  | .running => Numbered pr
  | .waitingForReview => Numbered pr

/-- The condition on one refresh: what it meets, and the state before it. -/
def Supervises (w : World) (t : Refresh) : Prop :=
  match existingLifecycle (load w) with
  | none => True
  | some existing =>
    if existing = [] then True
    else
      match refreshPullRequestLifecycle n cfg t.fetch t.payload existing with
      | .error .crash => Watched n w
      | .error (.raised _) =>
        if t.persist.save.lands then
          (existing.get "number").truthy = true ∧ lifecycleState n existing ∉ ["needs-rebase", "conflicted"]
        else Watched n w
      | .ok (.missing _) => t.persist.save.lands = true ∨ Watched n w
      | .ok (.read pr) => if t.persist.save.lands then Settles n cfg t w pr else Watched n w

end

section
variable {n : Numbers} {cfg : Config} {runId : String} {w : World} {l : Dict} {run : Json} {t : PersistMoments}

theorem watched_iff (hw : FileShows l run w) (hl : l ≠ []) (ho : RunOpen n w) : Watched n w ↔ Followed n l := by
  obtain ⟨r, hr, hstatus⟩ := ho
  have hsup : isPrLifecycleSupervisable n w.statusFile w.blackboardFile = true ↔
      ((l.get "number").truthy = true ∧ lifecycleState n l ∈ supervisedStates) ∨
        (lifecycleState n l = "blocked" ∧ isRetryablePrLifecycleError n l = true) := by
    unfold isPrLifecycleSupervisable
    rw [hr, hw.lifecycle, Json.asDict_obj]
    simp only [hstatus, decide_true, Bool.true_and, Bool.or_eq_true, Bool.and_eq_true, decide_eq_true_eq]
  unfold Watched Followed
  rw [hw.lifecycle, Json.asDict_obj, hsup]
  constructor
  · intro h
    by_cases hterm : (l.get "terminal").truthy = true
    · exact .inl hterm
    · by_cases hhuman : lifecycleState n l = "needs-human"
      · exact .inr (.inl hhuman)
      · exact .inr (.inr (h l rfl hl (by simpa using hterm) hhuman))
  · rintro h _ ⟨⟩ _ hterm hhuman
    obtain h | h | h := h
    · rw [h] at hterm
      cases hterm
    · exact absurd h hhuman
    · exact h

/-! ## What a lifecycle has to be -/

theorem number_truthy (pr : PullRequest) (t : Refresh) :
    ((Refreshed.toDict t (.read pr)).get "number").truthy = true ↔ Numbered pr := by
  have hget : (Refreshed.toDict t (.read pr)).get "number" = pr.number.elim .null .int := rfl
  rw [hget]
  unfold Numbered
  cases pr.number with
  | none => simp [Json.truthy]
  | some k => simp [Json.truthy]

theorem strip_text (s : LifecycleState) : strip s.text = s.text := by cases s <;> decide

theorem lifecycleState_str {d : Dict} {s : String} (h : d.get "lifecycle_state" = .str s) :
    lifecycleState n d = strip s := by rw [lifecycleState, h, Python.text_str]

theorem followed_read {pr : PullRequest} (t : Refresh) (hterm : pr.terminal = decide (pr.lifecycleState ∈ [LifecycleState.merged, .blocked])) :
    Followed n (Refreshed.toDict t (.read pr)) ↔ pr.lifecycleState = .merged ∨ pr.lifecycleState = .blocked ∨
      (Numbered pr ∧ pr.lifecycleState ∉ [LifecycleState.needsRebase, .conflicted]) := by
  have hstate : lifecycleState n (Refreshed.toDict t (.read pr)) = pr.lifecycleState.text :=
    (lifecycleState_str rfl).trans (strip_text _)
  have hget : (Refreshed.toDict t (.read pr)).get "terminal" = .bool pr.terminal := rfl
  unfold Followed
  rw [number_truthy, hstate, hget, hterm]
  cases pr.lifecycleState <;> simp [Json.truthy, LifecycleState.text, supervisedStates]

theorem followed_failed (t : Refresh) (existing : Dict) (e : Exc) : Followed n (failedLifecycle n t existing e) ↔
    (existing.get "number").truthy = true ∧ lifecycleState n existing ∉ ["needs-rebase", "conflicted"] := by
  have hnumber : (failedLifecycle n t existing e).get "number" = existing.get "number" := by
    simp [failedLifecycle, update]
  have hterm : (failedLifecycle n t existing e).get "terminal" = .bool false := by simp [failedLifecycle, update]
  have hget : (failedLifecycle n t existing e).get "lifecycle_state" =
      .str (if lifecycleState n existing ∈ keptStates then lifecycleState n existing else "waiting-for-review") := by
    simp [failedLifecycle, update]
  have hwait : strip "waiting-for-review" = "waiting-for-review" := by decide
  have hstate : lifecycleState n (failedLifecycle n t existing e) =
      if lifecycleState n existing ∈ keptStates then lifecycleState n existing else "waiting-for-review" := by
    rw [lifecycleState_str hget]
    split
    · exact strip_idem _
    · exact hwait
  unfold Followed
  rw [hnumber, hterm, hstate]
  by_cases hkept : lifecycleState n existing ∈ keptStates
  · rw [if_pos hkept]
    simp only [keptStates, List.mem_cons, List.not_mem_nil, or_false] at hkept
    obtain h | h | h | h | h | h := hkept <;> simp [h, Json.truthy, supervisedStates]
  · rw [if_neg hkept]
    simp only [keptStates, List.mem_cons, List.not_mem_nil, or_false, not_or] at hkept
    simp [hkept, Json.truthy, supervisedStates]

theorem set_ne_nil (d : Dict) (key : String) (v : Json) : Dict.set d key v ≠ [] := by
  cases d with
  | nil => simp [Dict.set]
  | cons f d =>
    rw [Dict.set]
    split <;> simp

theorem followed_of_terminal {d : Dict} (h : d.get "terminal" = .bool true) : Followed n d := by
  refine .inl ?_
  rw [h]
  rfl

theorem followed_escalated {p : RepairPass} {pullRequest pr : Dict} {reason : String}
    (h : escalatedPr p pullRequest reason = some pr) : Followed n pr ∧ pr ≠ [] := by
  obtain ⟨d, -, rfl⟩ := Option.map_eq_some_iff.mp h
  refine ⟨.inr (.inl ?_), set_ne_nil _ _ _⟩
  rw [lifecycleState_str (s := "needs-human") (by simp [update])]
  decide

theorem followed_handedOver {p : RepairPass} {metadata pullRequest pr : Dict}
    (h : handedOver n cfg p metadata pullRequest = some pr) : Followed n pr ∧ pr ≠ [] := by
  unfold handedOver at h
  split at h
  · obtain ⟨⟨decision, b, reason⟩, -, hby⟩ := Option.bind_eq_some_iff.mp h
    cases decision with
    | escalate => exact followed_escalated hby
    | skip => exact followed_escalated hby
    | defer => cases hby
    | proceed => cases hby
  · cases h

theorem followed_merged (t : Merge) (pullRequest merge : Dict) : Followed n (mergedPr t pullRequest merge) :=
  followed_of_terminal (by simp [mergedPr, update])

/-- What a refresh that reads is told: that the request has no identity, or what it is. -/
theorem refreshed_cases {fetch : Moment} {payload existing : Dict} {r : Refreshed}
    (h : refreshPullRequestLifecycle n cfg fetch payload existing = .ok r) :
    (∃ lifecycle, r = .missing lifecycle ∧ lifecycle.get "terminal" = .bool true) ∨
      ∃ pr, r = .read pr ∧ pr.terminal = decide (pr.lifecycleState ∈ [LifecycleState.merged, .blocked]) := by
  unfold refreshPullRequestLifecycle at h
  split at h
  · cases h
    exact .inl ⟨_, rfl, by simp [update]⟩
  · split at h
    · cases h
    · split at h
      · cases h
      · cases h
        exact .inr ⟨_, rfl, rfl⟩

/-! ## One refresh -/

theorem watched_congr {u : World} (hb : u.blackboardFile = w.blackboardFile) (hs : u.statusFile = w.statusFile) :
    Watched n u ↔ Watched n w := by
  unfold Watched
  rw [hb, hs]

theorem existing_of_lifecycle (h : (w.blackboardFile.get lifecycleKey).asDict = some l) (hl : l ≠ []) :
    existingLifecycle (load w) = some l := by
  have hget : w.blackboardFile.get lifecycleKey = .obj l := by
    cases hv : w.blackboardFile.get lifecycleKey <;> rw [hv] at h <;> cases h
    rfl
  have htruthy : (Json.obj l).truthy = true := by simpa [Json.truthy] using hl
  unfold existingLifecycle load
  rw [hget, Json.or_of_truthy htruthy, Json.or_of_truthy htruthy]
  rfl

/-- Without a lifecycle there is nothing to watch. -/
theorem watched_of_nothing (h : ∀ l, existingLifecycle (load w) = some l → l = []) : Watched n w := by
  intro l hl hne
  exact absurd (h l (existing_of_lifecycle hl hne)) hne

/-- The request as read settles exactly when what is shown in the end is followed. -/
theorem settles_iff {t : Refresh} {pr : PullRequest} {final : Dict} (hret : t.persist.returns = true)
    (hterm : pr.terminal = decide (pr.lifecycleState ∈ [LifecycleState.merged, .blocked]))
    (hfinal : final = Refreshed.toDict t (.read pr) ∧
        pr.lifecycleState ∉ [LifecycleState.conflicted, .needsRepair, .readyToMerge] ∨
      final = (handedOver n cfg t.pass (w.metadata.getD []) (Refreshed.toDict t (.read pr))).getD
          (Refreshed.toDict t (.read pr)) ∧ pr.lifecycleState ∈ [LifecycleState.conflicted, .needsRepair] ∨
      ∃ record, final = (if completesMerge n cfg t.merge pr (approvalsOf (load w)) then
          mergedPr t.merge (Refreshed.toDict t (.read pr)) record else Refreshed.toDict t (.read pr)) ∧
        pr.lifecycleState = .readyToMerge) :
    Followed n final ↔ Settles n cfg t w pr := by
  have hread := followed_read (n := n) t hterm
  unfold Settles
  obtain ⟨rfl, hs⟩ | ⟨rfl, hs⟩ | ⟨record, rfl, hs⟩ := hfinal
  · rw [hread]
    cases hstate : pr.lifecycleState <;> simp_all
  · cases hhand : handedOver n cfg t.pass (w.metadata.getD []) (Refreshed.toDict t (.read pr)) with
    | none =>
      rw [Option.getD_none, hread]
      cases hstate : pr.lifecycleState <;> simp_all
    | some d =>
      rw [Option.getD_some]
      refine iff_of_true (followed_handedOver hhand).1 ?_
      cases hstate : pr.lifecycleState <;> simp_all
  · cases hmerge : completesMerge n cfg t.merge pr (approvalsOf (load w)) with
    | false =>
      rw [if_neg Bool.false_ne_true, hread]
      simp [hs]
    | true =>
      rw [if_pos rfl]
      refine iff_of_true (followed_merged _ _ _) ?_
      simp [hs, hret]

/-- A persisting step that stops behind its save still settles a request with a number. -/
theorem settles_stopped {t : Refresh} {pr : PullRequest} (hret : t.persist.returns = false)
    (hterm : pr.terminal = decide (pr.lifecycleState ∈ [LifecycleState.merged, .blocked])) :
    Followed n (Refreshed.toDict t (.read pr)) ↔ Settles n cfg t w pr := by
  rw [followed_read t hterm]
  unfold Settles
  cases hstate : pr.lifecycleState <;> simp [hret]

theorem runOpen_of_shows {u : World} (ho : RunOpen n w) (hu : FileShows l (w.statusFile.get "run") u) : RunOpen n u := by
  obtain ⟨r, hr, hstatus⟩ := ho
  exact ⟨r, by rw [hu.runEntry, hr], hstatus⟩

/-- The run of the status file is as before, and what is left is watched under a condition. -/
def LeavesWatched (n : Numbers) (w u : World) (condition : Prop) : Prop :=
  u.statusFile.get "run" = w.statusFile.get "run" ∧ (Watched n u ↔ condition)

theorem leavesWatched_of_shows {u : World} {condition : Prop} (ho : RunOpen n w) (hl : l ≠ [])
    (hu : FileShows l (w.statusFile.get "run") u) (h : Followed n l ↔ condition) : LeavesWatched n w u condition :=
  ⟨hu.runEntry, (watched_iff hu hl (runOpen_of_shows ho hu)).trans h⟩

theorem leavesWatched_of_kept {u : World} (hb : u.blackboardFile = w.blackboardFile) (hs : u.statusFile = w.statusFile) :
    LeavesWatched n w u (Watched n w) :=
  ⟨congrArg (fun d => d.get "run") hs, watched_congr hb hs⟩

/-- A refresh whose first save is lost. -/
theorem leavesWatched_lost {α : Type} {k : Unit → Act α} (h : t.save.lands = false) :
    LeavesWatched n w (endState ((persistPullRequestLifecycle n t l >>= k) (load w))) (Watched n w) := by
  obtain ⟨hb, hs⟩ := persistLifecycle_keeps_files (n := n) (l := l) (w := load w) (k := k) h
  exact leavesWatched_of_kept hb hs

/-- A refresh that read the request, and saved what it read. -/
theorem refreshRead_watched {t : Refresh} {pr : PullRequest} (ho : RunOpen n w) (hlands : t.persist.save.lands = true)
    (hterm : pr.terminal = decide (pr.lifecycleState ∈ [LifecycleState.merged, .blocked])) :
    LeavesWatched n w (endState (refreshRead n cfg runId t (.read pr) (load w))) (Settles n cfg t w pr) := by
  have hsame : SameRun (w.statusFile.get "run") (load w) := ⟨rfl, rfl⟩
  have hne : Refreshed.toDict t (.read pr) ≠ [] := set_ne_nil _ _ _
  unfold refreshRead
  rw [endState_persistLifecycle_bind]
  cases hret : t.persist.returns with
  | false => exact leavesWatched_of_shows ho hne (persistLifecycle_saved hsame hlands) (settles_stopped hret hterm)
  | true =>
    have hshows := (persistLifecycle_shows (n := n) (l := Refreshed.toDict t (.read pr)) hsame hret).2
    obtain ⟨final, hfile, hfinal⟩ := followUp_file n cfg runId (t := t) hshows
    rw [handedOver_persisted, approvalsOf_persisted] at hfinal
    have hfne : final ≠ [] := by
      obtain ⟨rfl, -⟩ | ⟨rfl, -⟩ | ⟨record, rfl, -⟩ := hfinal
      · exact hne
      · cases hhand : handedOver n cfg t.pass ((load w).metadata.getD []) (Refreshed.toDict t (.read pr)) with
        | none => exact hne
        | some d => exact (followed_handedOver hhand).2
      · split
        · exact set_ne_nil _ _ _
        · exact hne
    exact leavesWatched_of_shows ho hfne
      (Effects.Keeps.endState_bind (fun started => keeps_refreshResult t _ started) hfile)
      (settles_iff hret hterm hfinal)

theorem refreshFailed_watched {t : Refresh} {existing : Dict} {e : Exc} (ho : RunOpen n w)
    (hlands : t.persist.save.lands = true) : LeavesWatched n w (endState (refreshFailed n runId t existing e (load w)))
      ((existing.get "number").truthy = true ∧ lifecycleState n existing ∉ ["needs-rebase", "conflicted"]) := by
  have hsame : SameRun (w.statusFile.get "run") (load w) := ⟨rfl, rfl⟩
  exact leavesWatched_of_shows ho (set_ne_nil _ _ _)
    (Effects.Keeps.endState_bind (fun _ => Effects.Keeps.bind Keeps.call fun _ => Effects.Keeps.pure _)
      (persistLifecycle_saved hsame hlands)) (followed_failed t existing e)

theorem refreshMissing_watched {t : Refresh} {lifecycle : Dict} (ho : RunOpen n w)
    (hterm : lifecycle.get "terminal" = .bool true) (hlands : t.persist.save.lands = true) :
    LeavesWatched n w (endState (refreshRead n cfg runId t (.missing lifecycle) (load w))) True := by
  have hsame : SameRun (w.statusFile.get "run") (load w) := ⟨rfl, rfl⟩
  have hfollowed : Followed n (Refreshed.toDict t (.missing lifecycle)) := by
    refine followed_of_terminal ?_
    rw [Refreshed.toDict, Dict.get_set, if_neg (by decide), hterm]
  exact leavesWatched_of_shows ho (set_ne_nil _ _ _)
    (Effects.Keeps.endState_bind (fun _ => keeps_refreshResult t _ _) (persistLifecycle_saved hsame hlands))
    (iff_of_true hfollowed trivial)

/-- What a refresh leaves is watched exactly under the condition. -/
theorem refresh_watched (ho : RunOpen n w) (t : Refresh) :
    LeavesWatched n w (refresh n cfg runId w t) (Supervises n cfg w t) := by
  have hnothing : (∀ l, existingLifecycle (load w) = some l → l = []) → LeavesWatched n w (load w) True := fun h =>
    ⟨rfl, iff_of_true ((watched_congr rfl rfl).mpr (watched_of_nothing h)) trivial⟩
  rw [refresh_eq]
  unfold Supervises refreshExisting
  cases hex : existingLifecycle (load w) with
  | none => exact hnothing fun l hl => by rw [hex] at hl; cases hl
  | some existing =>
    by_cases hnil : existing = []
    · simp only [hnil, if_true, Option.elim_some]
      refine hnothing fun l hl => ?_
      rw [hex] at hl
      exact (Option.some.inj hl).symm.trans hnil
    · simp only [hnil, if_false, Option.elim_some]
      cases hr : refreshPullRequestLifecycle n cfg t.fetch t.payload existing with
      | error stop =>
        cases stop with
        | crash => exact leavesWatched_of_kept rfl rfl
        | raised e =>
          cases hlands : t.persist.save.lands with
          | true => exact refreshFailed_watched ho hlands
          | false => exact leavesWatched_lost hlands
      | ok r =>
        obtain ⟨lifecycle, rfl, hterm⟩ | ⟨pr, rfl, hterm⟩ := refreshed_cases hr
        · cases hlands : t.persist.save.lands with
          | true => simpa using refreshMissing_watched ho hterm hlands
          | false =>
            simp only [Bool.false_eq_true, false_or]
            exact leavesWatched_lost hlands
        · cases hlands : t.persist.save.lands with
          | true => exact refreshRead_watched ho hlands hterm
          | false => exact leavesWatched_lost hlands

/-! ## Every sequence of refreshes -/

theorem runOpen_refresh (ho : RunOpen n w) (t : Refresh) : RunOpen n (refresh n cfg runId w t) := by
  obtain ⟨r, hr, hstatus⟩ := ho
  exact ⟨r, by rw [(refresh_watched ⟨r, hr, hstatus⟩ t).1, hr], hstatus⟩

/-- However a run was refreshed before, what the next refresh leaves is watched exactly under
the condition. -/
theorem watched_iff_supervises {start : World} (ho : RunOpen n start)
    (hw : GuardedRuns.Reached (refresh n cfg runId) (fun _ _ => True) start w) (t : Refresh) :
    Watched n (refresh n cfg runId w t) ↔ Supervises n cfg w t :=
  (refresh_watched (hw.invariant ho fun _ t hs _ => runOpen_refresh hs t) t).2

end

/-! ## A request behind its base -/

/-- The computed form: there is a lifecycle the next tick leaves alone. -/
def parked (n : Numbers) (w : World) : Bool :=
  match (w.blackboardFile.get lifecycleKey).asDict with
  | some l => !l.isEmpty && !(l.get "terminal").truthy && decide (lifecycleState n l ≠ "needs-human") &&
      !isPrLifecycleSupervisable n w.statusFile w.blackboardFile
  | none => false

theorem watched_iff_not_parked {n : Numbers} {w : World} : Watched n w ↔ parked n w = false := by
  unfold Watched parked
  cases (w.blackboardFile.get lifecycleKey).asDict with
  | none => simp
  | some l => cases isPrLifecycleSupervisable n w.statusFile w.blackboardFile <;> simp

instance (n : Numbers) (w : World) : Decidable (Watched n w) := decidable_of_iff _ watched_iff_not_parked.symm

def supervisorConfig : Config where
  review := AutoMerge.autoMergeConfig
  maxRepairAttempts := 5
  repairCooldownBaseMs := 60000
  budget := none
  digests := ⟨id, id⟩
  prompt _ := ""

/-- A completed run whose request waits for its review. -/
def waitingRun : World where
  statusFile := [("run", .obj [("status", .str "completed")])]
  blackboardFile := [("pull_request_lifecycle", .obj [("number", .int 7), ("base_repo", .str "acme/app"),
    ("lifecycle_state", .str "waiting-for-review"), ("terminal", .bool false)])]
  metadata := some []

theorem waitingRun_open : RunOpen wholeNumbers waitingRun := ⟨_, rfl, by decide⟩

/-- An approved request that waits for nothing but an update of its branch. -/
def behindPayload : Dict :=
  [("number", .int 7), ("state", .str "OPEN"), ("mergeStateStatus", .str "BEHIND"), ("reviewDecision", .str "APPROVED"),
    ("checks_status", .str "SUCCESS")]

/-- The request without a review. -/
def unreviewedPayload : Dict := [("number", .int 7), ("state", .str "OPEN"), ("checks_status", .str "SUCCESS")]

/-- The branch is updated, and no tick looks at the request again. -/
theorem behind_parked : RunOpen wholeNumbers waitingRun ∧
    isPrLifecycleSupervisable wholeNumbers waitingRun.statusFile waitingRun.blackboardFile = true ∧
    pullRequestLifecycleState wholeNumbers.toRuntime behindPayload = .needsRebase ∧
    ¬ Watched wholeNumbers (refresh wholeNumbers supervisorConfig "run-1" waitingRun { payload := behindPayload }) :=
  ⟨waitingRun_open, by decide +kernel, by decide +kernel, by decide +kernel⟩

def unreviewed : Refresh := { payload := unreviewedPayload }

/-- A request that goes on waiting is refreshed again. -/
theorem unreviewed_watched : Supervises wholeNumbers supervisorConfig waitingRun unreviewed ∧
    Watched wholeNumbers (refresh wholeNumbers supervisorConfig "run-1" waitingRun unreviewed) := by
  have hwatched : Watched wholeNumbers (refresh wholeNumbers supervisorConfig "run-1" waitingRun unreviewed) := by
    decide +kernel
  exact ⟨(watched_iff_supervises waitingRun_open .init unreviewed).mp hwatched, hwatched⟩

end WatchedRequests
