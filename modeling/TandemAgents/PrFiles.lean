import TandemAgents.PrRefresh

/-!
# What a refresh leaves in the files

Which lifecycle stands on the blackboard at the end of each part of a refresh, wherever the
part stops: the one it started from, the one handed to a human, or the merged one.
-/
namespace PrFiles

open PythonText JsonData PullRequests Effects IssueSpend RepairBreaker PrSupervision PrRefresh

set_option maxRecDepth 20000

section
variable (n : Numbers) (cfg : Config)

/-- `load_status` and `load_blackboard`. -/
def load (w : World) : World := { w with blackboard := w.blackboardFile, status := w.statusFile }

/-- One refresh of a run that was just loaded. -/
def refresh (runId : String) (w : World) (t : Refresh) : World :=
  endState (refreshPrLifecycleForRun n cfg runId t (load w))

/-- The pass gets as far as its decision. -/
def reachesGate (p : RepairPass) : Bool :=
  p.collect.returns && (p.context.get "actionable").truthy && p.readBreaker.returns && p.readSpend.returns

/-- The request that goes to a human by a decision. -/
def handOverBy (p : RepairPass) (pullRequest : Dict) : Decision × Breaker × String → Option Dict
  | (.escalate, _, reason) => escalatedPr p pullRequest reason
  | (.skip, _, reason) => escalatedPr p pullRequest reason
  | _ => none

/-- The request a pass hands to a human, and saves on the blackboard. -/
def handedOver (p : RepairPass) (metadata pullRequest : Dict) : Option Dict :=
  if reachesGate p = true ∧ p.handOver.save.lands = true then
    (passDecision n cfg p metadata metadata).bind (handOverBy p pullRequest)
  else none

/-- The merge tool is reached, and it and the deletion return. -/
def merges (t : Merge) (pr : PullRequest) (approvals : Dict) : Bool :=
  match guardedAutoMerge n.toRuntime cfg.review pr (some approvals) with
  | some (.merge _ branch) => t.merge.returns && (decide (branch ≠ .requested) || t.delete.returns)
  | _ => false

/-- The request is merged, and the merge saved on the blackboard. -/
def completesMerge (t : Merge) (pr : PullRequest) (approvals : Dict) : Bool :=
  decide (n.lower (strip cfg.review.policy) = "auto_merge") && merges n cfg t pr approvals && t.persist.returns &&
    t.event.returns && t.merged.save.lands

end

theorem refresh_eq {n : Numbers} {cfg : Config} {runId : String} {w : World} {t : Refresh} :
    refresh n cfg runId w t =
      (existingLifecycle (load w)).elim (load w) fun existing => endState (refreshExisting n cfg runId t existing (load w)) :=
  endState_orRaise_bind typeError (existingLifecycle (load w)) (refreshExisting n cfg runId t) (load w)

/-! ## What the files show -/

/-- The lifecycle of the blackboard and the run of the status, on disk. -/
structure FileShows (l : Dict) (run : Json) (w : World) : Prop where
  lifecycle : w.blackboardFile.get lifecycleKey = .obj l
  runEntry : w.statusFile.get "run" = run

/-- The same in memory. -/
structure Shows (l : Dict) (run : Json) (w : World) : Prop extends FileShows l run w where
  memory : w.blackboard.get lifecycleKey = .obj l
  memoryRun : w.status.get "run" = run

section
variable {n : Numbers} {cfg : Config} {runId : String} {w : World} {l : Dict} {run : Json} {t : PersistMoments}

theorem get_lifecycle_stamped (d : Dict) (v : Json) : (d.set "updated_at_ms" v).get lifecycleKey = d.get lifecycleKey := by
  rw [Dict.get_set, if_neg (by decide)]

/-- Assignments that touch neither the lifecycle nor the run. -/
structure Aside (a : Assignments) : Prop where
  blackboard : ∀ d : Dict, (a.blackboard d).get lifecycleKey = d.get lifecycleKey
  status : ∀ d : Dict, (a.status d).get "run" = d.get "run"

theorem harmless_of_aside {a : Assignments} (h : Aside a) : Harmless (Shows l run) a where
  blackboard _ hs := { hs with memory := (h.blackboard _).trans hs.memory }
  save _ _ hs := { hs with lifecycle := (get_lifecycle_stamped _ _).trans hs.memory }
  status _ hs := { hs with memoryRun := (h.status _).trans hs.memoryRun }
  write _ hs := { hs with runEntry := hs.memoryRun }
  metadata _ hs := { hs with }

theorem aside_entry (key : String) (value : Dict) (hlife : key ≠ lifecycleKey) (hrun : key ≠ "run") :
    Aside (entryAssignments key value) where
  blackboard d := by simp [entryAssignments, hlife]
  status d := by simp [entryAssignments, hrun]

theorem aside_repair (repair : Dict) (b : Option Breaker) : Aside (repairAssignments repair b) where
  blackboard d := by simp [repairAssignments, lifecycleKey]
  status d := by simp [repairAssignments]

/-! ## Persisting a lifecycle -/

theorem lifecycle_keeps_run (url : String) (d : Dict) :
    ((lifecycleAssignments url l).status d).get "run" = d.get "run" := by
  simp [lifecycleAssignments, lifecycleKey]

theorem lifecycle_shows (url : String) (d : Dict) :
    ((lifecycleAssignments url l).blackboard d).get lifecycleKey = .obj l := by
  simp [lifecycleAssignments, lifecycleKey]

/-- The status in memory and the one on disk have the same run. -/
structure SameRun (run : Json) (w : World) : Prop where
  memory : w.status.get "run" = run
  file : w.statusFile.get "run" = run

theorem Shows.sameRun (h : Shows l run w) : SameRun run w := ⟨h.memoryRun, h.runEntry⟩

/-- The url a lifecycle is persisted with. -/
def urlOf (n : Numbers) (w : World) (l : Dict) : String :=
  strip (n.text ((l.get "url").or ((w.blackboard.get "pull_request").or (w.status.get "pull_request"))))

theorem persistLifecycle_eq (n : Numbers) (t : PersistMoments) (l : Dict) (w : World) :
    persistPullRequestLifecycle n t l w = persist t (lifecycleAssignments (urlOf n w l) l) w := rfl

theorem endState_persist (t : PersistMoments) (a : Assignments) (w : World) :
    endState (persist t a w) =
      let u := { w with blackboard := a.blackboard w.blackboard }
      let v := { u with blackboardFile := u.blackboard.set "updated_at_ms" (.int t.save.now) }
      if t.save.returns then endState (persistRest t a v) else if t.save.lands then v else u :=
  endState_effect_bind t.save _ (fun _ => persistRest t a) _

theorem lands_of_returns {m : Moment} (h : m.returns = true) : m.lands = true := by
  unfold Moment.returns at h
  unfold Moment.lands
  cases hf : m.fault <;> simp_all

/-- A save that does not land leaves both files. -/
theorem persist_lost {a : Assignments} (h : t.save.lands = false) :
    (endState (persist t a w)).blackboardFile = w.blackboardFile ∧ (endState (persist t a w)).statusFile = w.statusFile := by
  have hret : ¬ t.save.returns = true := fun hret => by
    rw [lands_of_returns hret] at h
    cases h
  rw [endState_persist]
  simp only [hret, h, Bool.false_eq_true, if_false, and_self]

/-- A save that lands shows the lifecycle, however the step goes on. -/
theorem persistLifecycle_saved (hw : SameRun run w) (h : t.save.lands = true) :
    FileShows l run (endState (persistPullRequestLifecycle n t l w)) := by
  rw [persistLifecycle_eq, endState_persist]
  have hrest : Keeps (fun u => FileShows l run u ∧ u.status.get "run" = run)
      (persistRest t (lifecycleAssignments (urlOf n w l) l)) := by
    refine Keeps.persistRest (fun s hs => ⟨⟨hs.1.lifecycle, hs.1.runEntry⟩, ?_⟩) (fun s hs => ⟨⟨hs.1.lifecycle, hs.2⟩, hs.2⟩)
      (fun s hs => ⟨⟨hs.1.lifecycle, hs.1.runEntry⟩, hs.2⟩)
    rw [lifecycle_keeps_run]
    exact hs.2
  have hsaved : FileShows l run { w with
      blackboard := (lifecycleAssignments (urlOf n w l) l).blackboard w.blackboard
      blackboardFile := ((lifecycleAssignments (urlOf n w l) l).blackboard w.blackboard).set "updated_at_ms"
        (.int t.save.now) } :=
    ⟨(get_lifecycle_stamped _ _).trans (lifecycle_shows _ _), hw.file⟩
  simp only [h, if_true]
  split
  · exact (hrest.endState ⟨hsaved, hw.memory⟩).1
  · exact hsaved

theorem persistLifecycle_shows (hw : SameRun run w) (h : t.returns = true) :
    persistPullRequestLifecycle n t l w = .ok () (persisted t (lifecycleAssignments (urlOf n w l) l) w) ∧
      Shows l run (persisted t (lifecycleAssignments (urlOf n w l) l) w) := by
  refine ⟨persist_returns h, ⟨⟨?_, ?_⟩, ?_, ?_⟩⟩
  · exact (get_lifecycle_stamped _ _).trans (lifecycle_shows _ _)
  · exact (lifecycle_keeps_run _ _).trans hw.memory
  · exact lifecycle_shows _ _
  · exact (lifecycle_keeps_run _ _).trans hw.memory


theorem endState_persistLifecycle_bind {α : Type} (k : Unit → Act α) :
    endState ((persistPullRequestLifecycle n t l >>= k) w) =
      if t.returns then endState (k () (persisted t (lifecycleAssignments (urlOf n w l) l) w))
      else endState (persistPullRequestLifecycle n t l w) :=
  endState_persist_bind t (lifecycleAssignments (urlOf n w l) l) k w

/-- A step that persists another lifecycle, and then keeps what it shows. -/
theorem persistLifecycle_then {α : Type} {pr : Dict} {k : Unit → Act α} (hw : Shows l run w)
    (hk : Keeps (Shows pr run) (k ())) :
    FileShows (if t.save.lands then pr else l) run (endState ((persistPullRequestLifecycle n t pr >>= k) w)) := by
  rw [endState_persistLifecycle_bind]
  cases hret : t.returns with
  | true =>
    have hlands : t.save.lands = true := by
      simp only [PersistMoments.returns, Bool.and_eq_true] at hret
      exact lands_of_returns hret.1.1.1
    rw [hlands]
    exact (hk.endState (persistLifecycle_shows (n := n) hw.sameRun hret).2).toFileShows
  | false =>
    cases hlands : t.save.lands with
    | true => exact persistLifecycle_saved hw.sameRun hlands
    | false =>
      obtain ⟨hblack, hstatus⟩ := persist_lost (w := w) (a := lifecycleAssignments (urlOf n w pr) pr) hlands
      exact ⟨(congrArg (fun d => d.get lifecycleKey) hblack).trans hw.lifecycle,
        (congrArg (fun d => d.get "run") hstatus).trans hw.runEntry⟩

/-! ## The repair pass -/

theorem keeps_deferPass (p : RepairPass) (repair : Dict) (b : Breaker) : Keeps (Shows l run) (deferPass p repair b) := by
  refine Effects.Keeps.bind (Keeps.persist (harmless_of_aside (aside_repair _ _))) fun _ => ?_
  exact Effects.Keeps.bind Keeps.call fun _ => Effects.Keeps.pure _

theorem keeps_proceed (p : RepairPass) (repair : Dict) (repairRunId : String) (b : Breaker) :
    Keeps (Shows l run) (proceed n cfg p repair repairRunId b) := by
  refine Effects.Keeps.bind Keeps.startComment fun _ => ?_
  refine Effects.Keeps.bind (Keeps.dispatch fun _ hs => { hs with }) fun _ => ?_
  refine Effects.Keeps.bind (Keeps.recordCoderSpend fun _ _ hs => { hs with }) fun _ => ?_
  refine Effects.Keeps.bind (Keeps.persist (harmless_of_aside (aside_repair _ _))) fun _ => ?_
  exact Effects.Keeps.bind Keeps.call fun _ => Effects.Keeps.pure _

theorem keeps_closeEscalation (p : RepairPass) (repair : Dict) (b : Breaker) (first : Bool) :
    Keeps (Shows l run) (closeEscalation p repair b first) := by
  refine Effects.Keeps.bind (Keeps.persist (harmless_of_aside (aside_repair _ _))) fun _ => ?_
  exact Effects.Keeps.bind Keeps.escalationNotice fun _ => Effects.Keeps.pure _

theorem escalatePass_file (hw : Shows l run w) (p : RepairPass) (pullRequest repair : Dict) (b : Breaker)
    (reason : String) (first : Bool) :
    FileShows ((if p.handOver.save.lands then escalatedPr p pullRequest reason else none).getD l) run
      (endState (escalatePass n p pullRequest repair b reason first w)) := by
  have hnoted : Shows l run { w with deeds := w.deeds ++ [.escalated] } := { hw with }
  change FileShows _ run (endState ((orRaise typeError (escalatedPr p pullRequest reason) >>= _) _))
  rw [endState_orRaise_bind]
  cases escalatedPr p pullRequest reason with
  | none => simpa using hnoted.toFileShows
  | some pr =>
    have hfile := persistLifecycle_then (n := n) (t := p.handOver)
      (k := fun _ => closeEscalation p (escalatedRecord p repair b reason) b first) hnoted
      (keeps_closeEscalation (l := pr) p (escalatedRecord p repair b reason) b first)
    cases hlands : p.handOver.save.lands <;> simpa [hlands] using hfile

variable (n cfg runId) in
theorem actOn_file (hw : Shows l run w) (p : RepairPass) (pullRequest repair : Dict)
    (d : Decision × Breaker × String) :
    FileShows ((if p.handOver.save.lands then handOverBy p pullRequest d else none).getD l) run
      (endState (actOn n cfg runId p pullRequest repair d w)) := by
  obtain ⟨decision, b, reason⟩ := d
  cases decision with
  | escalate => exact escalatePass_file hw p pullRequest repair b reason true
  | skip => exact escalatePass_file hw p pullRequest repair b reason false
  | defer =>
    simp only [handOverBy, ite_self, Option.getD_none]
    exact ((keeps_deferPass p repair b).endState hw).toFileShows
  | proceed =>
    simp only [handOverBy, ite_self, Option.getD_none]
    exact ((keeps_proceed p repair _ b).endState hw).toFileShows

/-- What a pass shows in the end: the request it handed over, or the one it started from. -/
theorem repairPass_file (hw : Shows l run w) (p : RepairPass) (pullRequest : Dict) :
    FileShows ((handedOver n cfg p (w.metadata.getD []) pullRequest).getD l) run
      (endState (startPrRepairPass n cfg runId p pullRequest w)) := by
  unfold startPrRepairPass handedOver reachesGate
  rw [endState_call_bind]
  cases hcollect : p.collect.returns with
  | false => simpa using hw.toFileShows
  | true =>
    cases hact : (p.context.get "actionable").truthy with
    | false =>
      have hidle : Keeps (Shows l run) (do
          persist p.persist (repairAssignments (idleRecord n cfg runId p pullRequest) none)
          return idleRecord n cfg runId p pullRequest) :=
        Effects.Keeps.bind (Keeps.persist (harmless_of_aside (aside_repair _ _))) fun _ => Effects.Keeps.pure _
      simpa using (hidle.endState hw).toFileShows
    | true =>
      simp only [if_true, endState_getMetadata_bind, endState_orRaise_bind]
      cases hbreaker : p.readBreaker.returns with
      | false => simpa using hw.toFileShows
      | true =>
        cases hspend : p.readSpend.returns with
        | false => simpa using hw.toFileShows
        | true =>
          cases hd : passDecision n cfg p (w.metadata.getD []) (w.metadata.getD []) with
          | none => simpa using hw.toFileShows
          | some d =>
            simpa using actOn_file n cfg runId hw p pullRequest (repairRecord cfg runId p pullRequest) d


/-! ## The other follow-ups -/

theorem keeps_updatePrBranch (t : Rebase) (pullRequest : Dict) :
    Keeps (Shows l run) (updatePrBranchForRun n cfg t pullRequest) := by
  have hbranch : Keeps (Shows l run) (updatePullRequestBranch n cfg t pullRequest) := by
    unfold updatePullRequestBranch
    split
    · exact Effects.Keeps.pure _
    · exact Effects.Keeps.bind Keeps.call fun _ => Effects.Keeps.pure _
  refine Effects.Keeps.bind (Keeps.catchExc hbranch fun _ => Effects.Keeps.pure _) fun answer => ?_
  refine Effects.Keeps.bind (Keeps.persist (harmless_of_aside (aside_entry _ _ (by decide) (by decide)))) fun _ => ?_
  exact Effects.Keeps.bind Keeps.call fun _ => Effects.Keeps.pure _

variable (n cfg) in
/-- A merge that is not denied leaves its record and no trace in the state; any other leaves
a record of no merge, or raises. -/
theorem guardedMerge_cases (t : Merge) (pr : PullRequest) (pullRequest approvals : Dict) (w : World) :
    (merges n cfg t pr approvals = true ∧
      ∃ record, guardedMerge n cfg t pr pullRequest approvals w = .ok record w ∧ record.get "merged" = .bool true) ∨
    (merges n cfg t pr approvals = false ∧
      ((∃ record, guardedMerge n cfg t pr pullRequest approvals w = .ok record w ∧ record.get "merged" = .bool false) ∨
        ∃ stop, guardedMerge n cfg t pr pullRequest approvals w = .error stop w)) := by
  unfold merges guardedMerge
  cases guardedAutoMerge n.toRuntime cfg.review pr (some approvals) with
  | none => exact .inr ⟨rfl, .inr ⟨_, rfl⟩⟩
  | some answer =>
    cases answer with
    | denied denials => exact .inr ⟨rfl, .inl ⟨_, rfl, rfl⟩⟩
    | pendingApproval pending => exact .inr ⟨rfl, .inl ⟨_, rfl, rfl⟩⟩
    | merge c branch =>
      cases hm : t.merge.returns with
      | false =>
        obtain ⟨stop, hstop⟩ := call_stops (w := w) hm
        exact .inr ⟨rfl, .inr ⟨stop, run_bind_error hstop⟩⟩
      | true =>
        have hmerge := fun k : Unit → Act Dict => run_bind_ok (f := k) (call_returns (w := w) hm)
        cases branch with
        | pending => exact .inl ⟨rfl, _, hmerge _, rfl⟩
        | disabled => exact .inl ⟨rfl, _, hmerge _, rfl⟩
        | requested =>
          cases hd : t.delete.returns with
          | true =>
            refine .inl ⟨rfl, _, (hmerge _).trans (run_bind_ok ((run_bind_ok (call_returns hd)).trans rfl)), rfl⟩
          | false =>
            obtain ⟨stop, hstop⟩ := call_stops (w := w) hd
            exact .inr ⟨rfl, .inr ⟨stop, (hmerge _).trans (run_bind_error (run_bind_error hstop))⟩⟩

variable (n cfg) in
/-- The answer of a merge that may have raised. -/
theorem mergeAnswer_cases (t : Merge) (pr : PullRequest) (pullRequest approvals : Dict) (w : World) :
    (∃ record, catchExc (guardedMerge n cfg t pr pullRequest approvals)
        (fun e => pure (blockedMerge n cfg pullRequest e)) w = .ok record w ∧
        record.get "merged" = .bool (merges n cfg t pr approvals)) ∨
      (merges n cfg t pr approvals = false ∧ ∃ stop, catchExc (guardedMerge n cfg t pr pullRequest approvals)
        (fun e => pure (blockedMerge n cfg pullRequest e)) w = .error stop w) := by
  obtain ⟨hm, record, hrun, hmerged⟩ | ⟨hm, ⟨record, hrun, hmerged⟩ | ⟨stop, hrun⟩⟩ :=
    guardedMerge_cases n cfg t pr pullRequest approvals w
  · exact .inl ⟨record, run_attempt_ok hrun, by rw [hm, hmerged]⟩
  · exact .inl ⟨record, run_attempt_ok hrun, by rw [hm, hmerged]⟩
  · cases stop with
    | raised e => exact .inl ⟨_, run_attempt_error hrun, by rw [hm]; rfl⟩
    | crash => exact .inr ⟨hm, _, run_attempt_error hrun⟩

theorem closeMerge_file (hw : Shows l run w) (t : Merge) (pullRequest merge : Dict) :
    FileShows (if ((merge.get "merged").truthy && t.merged.save.lands) = true then mergedPr t pullRequest merge else l) run
      (endState (closeMerge n t pullRequest merge w)) := by
  unfold closeMerge
  cases (merge.get "merged").truthy with
  | false => exact hw.toFileShows
  | true => exact persistLifecycle_then hw Keeps.call

theorem recordMerge_file (hw : Shows l run w) (t : Merge) (pullRequest merge : Dict) :
    FileShows (if ((merge.get "merged").truthy && t.persist.returns && t.event.returns && t.merged.save.lands) = true
      then mergedPr t pullRequest merge else l) run (endState (recordMerge n t pullRequest merge w)) := by
  have haside : Harmless (Shows l run) (entryAssignments "pull_request_merge" merge) :=
    harmless_of_aside (aside_entry "pull_request_merge" merge (by decide) (by decide))
  unfold recordMerge
  rw [endState_persist_bind]
  cases hp : t.persist.returns with
  | false => simpa using ((Keeps.persist haside).endState hw).toFileShows
  | true =>
    have hpersisted : Shows l run (persisted t.persist (entryAssignments "pull_request_merge" merge) w) := by
      have h := (Keeps.persist (t := t.persist) haside).endState hw
      rwa [persist_returns hp] at h
    rw [if_pos rfl, endState_call_bind]
    cases he : t.event.returns with
    | false => simpa using hpersisted.toFileShows
    | true =>
      have hend : ∀ u, endState ((closeMerge n t pullRequest merge >>= fun _ => pure (some merge)) u) =
          endState (closeMerge n t pullRequest merge u) := by
        intro u
        cases hr : closeMerge n t pullRequest merge u with
        | ok _ v => rw [run_bind_ok hr]; rfl
        | error _ v => rw [run_bind_error hr]; rfl
      rw [if_pos rfl, hend]
      simpa using closeMerge_file (n := n) hpersisted t pullRequest merge

variable (n cfg) in
/-- What a merge shows in the end: the merged request, or the one it started from. -/
theorem autoMerge_file (hw : Shows l run w) (t : Merge) (pr : PullRequest) (pullRequest : Dict) :
    ∃ record, FileShows (if completesMerge n cfg t pr (approvalsOf w) then mergedPr t pullRequest record else l) run
      (endState (maybeAutoMergePr n cfg t pr pullRequest w)) := by
  unfold maybeAutoMergePr completesMerge
  by_cases hpolicy : n.lower (strip cfg.review.policy) = "auto_merge"
  · simp only [hpolicy, ne_eq, not_true_eq_false, if_false, decide_true, Bool.true_and]
    obtain ⟨answer, hrun, hmerged⟩ | ⟨hm, stop, hrun⟩ :=
      mergeAnswer_cases n cfg t pr pullRequest (approvalsOf w) w
    · refine ⟨Dict.set answer "completed_at_ms" (.int t.completedAtMs), ?_⟩
      have hget : ((Dict.set answer "completed_at_ms" (.int t.completedAtMs)).get "merged").truthy =
          merges n cfg t pr (approvalsOf w) := by
        rw [Dict.get_set, if_neg (by decide), hmerged]
        rfl
      have hfile := recordMerge_file (n := n) hw t pullRequest (Dict.set answer "completed_at_ms" (.int t.completedAtMs))
      rw [hget] at hfile
      have hend := run_bind_ok (f := fun answer => recordMerge n t pullRequest
        (Dict.set answer "completed_at_ms" (.int t.completedAtMs))) hrun
      exact hend.symm ▸ hfile
    · refine ⟨[], ?_⟩
      have hend := run_bind_error (f := fun answer => recordMerge n t pullRequest
        (Dict.set answer "completed_at_ms" (.int t.completedAtMs))) hrun
      rw [hm]
      simp only [Bool.false_and, Bool.false_eq_true, if_false]
      exact hend.symm ▸ hw.toFileShows
  · refine ⟨[], ?_⟩
    simp only [hpolicy, ne_eq, not_false_eq_true, if_true, decide_false, Bool.false_and, Bool.false_eq_true, if_false]
    exact hw.toFileShows

theorem keeps_refreshResult {P : World → Prop} (t : Refresh) (pullRequest started : Dict) :
    Keeps P (refreshResult runId t pullRequest started) := by
  refine Effects.Keeps.bind Keeps.call fun _ => ?_
  refine Effects.Keeps.get_bind fun s _ => ?_
  exact Effects.Keeps.bind Keeps.orRaise fun _ => Effects.Keeps.pure _

/-! ## The follow-up as a whole -/

/-- The metadata behind a persisted lifecycle reads as before where a pass reads it. -/
theorem passDecision_persisted (t : PersistMoments) (url : String) (l : Dict) (p : RepairPass) :
    let metadata := (persisted t (lifecycleAssignments url l) w).metadata.getD []
    passDecision n cfg p metadata metadata = passDecision n cfg p (w.metadata.getD []) (w.metadata.getD []) := by
  cases hm : w.metadata with
  | none => simp [persisted, hm]
  | some d =>
    simp [persisted, hm, lifecycleAssignments, passDecision, loadIssueSpend, breakerKey, issueSpendKey, lifecycleKey]

theorem handedOver_persisted (t : PersistMoments) (url : String) (l d : Dict) (p : RepairPass) :
    handedOver n cfg p ((persisted t (lifecycleAssignments url l) w).metadata.getD []) d =
      handedOver n cfg p (w.metadata.getD []) d := by
  unfold handedOver
  rw [passDecision_persisted]

theorem approvalsOf_persisted (t : PersistMoments) (url : String) (l : Dict) :
    approvalsOf (persisted t (lifecycleAssignments url l) w) = approvalsOf w := by
  simp [approvalsOf, persisted, lifecycleAssignments, lifecycleKey]

variable (n cfg runId) in
theorem followUp_file {t : Refresh} {pr : PullRequest} {d : Dict} (hw : Shows d run w) :
    ∃ final, FileShows final run (endState (followUp n cfg runId t pr d w)) ∧
      (final = d ∧ pr.lifecycleState ∉ [LifecycleState.conflicted, .needsRepair, .readyToMerge] ∨
        final = (handedOver n cfg t.pass (w.metadata.getD []) d).getD d ∧
          pr.lifecycleState ∈ [LifecycleState.conflicted, .needsRepair] ∨
        ∃ record, final = (if completesMerge n cfg t.merge pr (approvalsOf w) then mergedPr t.merge d record else d) ∧
          pr.lifecycleState = .readyToMerge) := by
  unfold followUp
  cases hs : pr.lifecycleState with
  | needsRebase =>
    have hkeeps : Keeps (Shows d run) (do
        let rebase ← updatePrBranchForRun n cfg t.rebase d
        return [("rebase", Json.obj rebase)]) :=
      Effects.Keeps.bind (keeps_updatePrBranch _ _) fun _ => Effects.Keeps.pure _
    exact ⟨d, (hkeeps.endState hw).toFileShows, .inl ⟨rfl, by decide⟩⟩
  | needsRepair =>
    exact ⟨_, Effects.Keeps.endState_bind (fun _ => Effects.Keeps.pure _) (repairPass_file hw t.pass d),
      .inr (.inl ⟨rfl, by decide⟩)⟩
  | conflicted =>
    exact ⟨_, Effects.Keeps.endState_bind (fun _ => Effects.Keeps.pure _) (repairPass_file hw t.pass d),
      .inr (.inl ⟨rfl, by decide⟩)⟩
  | readyToMerge =>
    obtain ⟨record, hfile⟩ := autoMerge_file n cfg hw t.merge pr d
    exact ⟨_, Effects.Keeps.endState_bind (fun _ => Effects.Keeps.pure _) hfile, .inr (.inr ⟨record, rfl, rfl⟩)⟩
  | _ => exact ⟨d, hw.toFileShows, .inl ⟨rfl, by decide⟩⟩

/-- A refresh whose first save is lost leaves the files. -/
theorem persistLifecycle_keeps_files {α : Type} {k : Unit → Act α} (h : t.save.lands = false) :
    let u := endState ((persistPullRequestLifecycle n t l >>= k) w)
    u.blackboardFile = w.blackboardFile ∧ u.statusFile = w.statusFile := by
  have hret : t.returns = false := by
    cases hr : t.returns with
    | false => rfl
    | true =>
      simp only [PersistMoments.returns, Bool.and_eq_true] at hr
      rw [lands_of_returns hr.1.1.1] at h
      cases h
  rw [endState_persistLifecycle_bind, hret]
  exact persist_lost h

end
end PrFiles
