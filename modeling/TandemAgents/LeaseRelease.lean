import TandemAgents.LeaseHolding

/-!
# The lease at the end of a run

The wrapper gives back the lease that the status names. Between the claim and the status
that names its lease a run may be blocked or raise, and then nothing gives the lease back.
Behind that point every path out of the run reaches the release.
-/
namespace LeaseRelease

open KeyedTable PythonText CoordinationStore Statements Statements.Prog Effects RunStatus RunContext
open LeaseOperations WorkerOperations TaskOperations OperationRuns StoreHistories ReleaseCrash TaskContract TaskIntake
open CoderRun RunOnce LeaseHolding

set_option maxRecDepth 20000

/-- A run at its start: no context yet, and what an earlier run may have left on disk. -/
def start (s : Store) (statusFile : Option Status) : World := { store := s, statusFile := statusFile }

/-- The registered row and the lease of a granted claim, with the world behind it. -/
def grant (env : Env) (x : RunArgs) (w : World) : Option (Option TaskRow × Option LeaseRow × World) :=
  match prepare x w with
  | .ok none prepared =>
    match beforeClaim x prepared with
    | .ok (.inr registered) queued =>
      match claim env x queued with
      | .ok (.claimed lease _) claimed => some (registered, lease, claimed)
      | _ => none
    | _ => none
  | _ => none

/-- The run gets to its claim, which succeeds. -/
def Granted (env : Env) (x : RunArgs) (w : World) : Prop := (grant env x w).isSome = true

/-- The calls of the board step. -/
def boardSites (x : RunArgs) : List Site :=
  (if x.hasCards ∧ x.claim.task.taskId ≠ "" then
    .selectCard :: (if x.card.isSome then
      [.claimCard, .cardToTask, .classifyKind, .attachRepo, .claimedEvent, .saveBoard] else [])
  else []) ++ [.boardSnapshot]

/-- No call between the claim and the status that names its lease raises, and the remote
sync that is configured can work. -/
def HandsOver (env : Env) (x : RunArgs) : Prop :=
  (∀ site ∈ boardSites x ++ [.sourceScope, .remoteSync, .initialStatus], (x.call site).fault = none) ∧
    syncBlocked env x = none

/-- The release at the end is executed at least as far as its first update. -/
def ReleaseReached (x : RunArgs) : Prop := ∀ f ∈ (x.call .finalRelease).fault, 2 ≤ f.done

/-! ## The claim -/

theorem applyStore_leases {key : String} {state : TaskState} {now : Int} {a : Transition} (ha : a.clearClaim = false)
    (s : Store) : (applyStore key state now a s).leases = s.leases := by
  unfold applyStore
  cases s.tasks.find? key with
  | none => rfl
  | some row => simp [ha]

theorem claimStore_leases (now : Int) (a : ClaimArgs) (s : Store) : (claimStore now a s).leases = s.leases := by
  have hclear : (a.transition now).clearClaim = false := by simp only [ClaimArgs.transition]
  rw [claimStore, applyStore_leases hclear]
  rfl

/-- A granted claim answers with its lease, which is active. -/
theorem run_claimTask_granted {env : Env} {now : Int} {a : ClaimArgs} {s t : Store} {lease : Option LeaseRow}
    {row : Option TaskRow} (h : (claimTask env now a).run s = (some (.claimed lease row), t)) :
    ∃ l, lease = some l ∧ l.leaseId = a.leaseId ∧ t.activeLease? a.leaseId = some l := by
  rcases run_claimTask_cases env now a s with ⟨-, hrun⟩ | ⟨l, -, -, hrun⟩ | ⟨-, -, -, hrun⟩ | ⟨u, -, -, hi, hrun⟩ <;>
    rw [hrun] at h
  · cases h
  · cases h
  · cases h
  · obtain ⟨hres, rfl⟩ := Prod.mk.inj h
    obtain ⟨rfl, -⟩ := ClaimResult.claimed.inj (Option.some.inj hres)
    have hfind : (claimStore now a u).leases.find? a.leaseId =
        some (a.lease now (nextAttempt a.key (sweptStore now s))) := by
      rw [claimStore_leases, (insertLease_eq hi).1, Store.putLease_leases]
      exact if_pos rfl
    exact ⟨_, hfind, rfl, activeLease?_eq_some.mpr ⟨hfind, rfl⟩⟩

/-! ## The world behind the claim -/

theorem call_eq_ok {m : Moment} {w w' : World} {u : Unit} : call m w = .ok u w' ↔ m.fault = none ∧ w' = w := by
  unfold call
  cases m.fault with
  | none => simp [pure_eq_ok, eq_comm]
  | some f =>
    simp only [reduceCtorEq, false_and, iff_false]
    intro h
    cases h

/-- The wrapper knows the context, whose status names no lease yet. -/
structure Fresh (w : World) : Prop where
  registered : w.registered = true
  unnamed : w.status.leaseId = none

section
variable {α : Type}

theorem fresh_storeCall (m : Moment) (p : Sql α) : Keeps Fresh (storeCall m p) :=
  keeps_storeCall (fun _ _ h => ⟨h.registered, h.unnamed⟩) m p

/-- A preparation that goes on has built the context. -/
theorem fresh_prepare {x : RunArgs} {w w' : World} (hw : w.status.leaseId = none) (h : prepare x w = .ok none w') :
    Fresh w' := by
  simp only [prepare, bind_eq_ok, call_eq_ok] at h
  obtain ⟨_, _, ⟨-, rfl⟩, h⟩ := h
  cases hb : x.engineBlocked with
  | some b =>
    simp only [hb, bind_eq_ok, pure_eq_ok] at h
    obtain ⟨status, w₁, -, hret, -⟩ := h
    cases hret
  | none =>
    simp only [hb, bind_eq_ok, call_eq_ok] at h
    obtain ⟨_, _, ⟨-, rfl⟩, _, _, ⟨-, rfl⟩, h⟩ := h
    cases hp : x.preflightBlocked with
    | some b =>
      simp only [hp, bind_eq_ok, pure_eq_ok] at h
      obtain ⟨status, w₁, -, hret, -⟩ := h
      cases hret
    | none =>
      simp only [hp, bind_eq_ok, pure_eq_ok, modify_eq_ok] at h
      obtain ⟨_, w₁, rfl, -, rfl⟩ := h
      exact ⟨rfl, hw⟩

theorem fresh_blockRun (runId : String) (d : Documents) (b : BlockArgs) : Keeps Fresh (blockRun runId d b) :=
  keeps_blockRun (fun _ _ _ _ => fresh_storeCall _ _) (fun _ _ h => ⟨h.registered, h.unnamed⟩) runId d b

theorem fresh_blockIntake (x : RunArgs) (kind message : String) : Keeps Fresh (blockIntake x kind message) := by
  have hend : Keeps Fresh (do
      call (x.call .noteBlocked)
      blockRun x.runId x.documents
        { phase := "task_resolution", kind := kind, message := message, phaseDetail := message,
          moments := x.blockMoments .intake }) := (keeps_call _).bind fun _ => fresh_blockRun _ _ _
  refine (fresh_storeCall _ _).bind fun row => ?_
  dsimp only
  split
  · exact (keeps_swallow ((fresh_storeCall _ _).bind fun _ => Keeps.pure ())).bind fun _ => hend
  · exact hend

theorem fresh_beforeClaim (x : RunArgs) : Keeps Fresh (beforeClaim x) := by
  refine (keeps_call _).bind fun _ => (keeps_call _).bind fun _ => (keeps_call _).bind fun _ => ?_
  split
  · exact (fresh_blockIntake x _ _).bind fun _ => Keeps.pure _
  · refine (keeps_call _).bind fun _ => (fresh_storeCall _ _).bind fun row => ?_
    exact (fresh_storeCall _ _).bind fun _ => Keeps.pure _

end

theorem grant_eq_some {env : Env} {x : RunArgs} {w claimed : World} {registered : Option TaskRow}
    {lease : Option LeaseRow} (h : grant env x w = some (registered, lease, claimed)) :
    ∃ prepared queued row, prepare x w = .ok none prepared ∧ beforeClaim x prepared = .ok (.inr registered) queued ∧
      claim env x queued = .ok (.claimed lease row) claimed := by
  unfold grant at h
  split at h
  · rename_i prepared hprep
    split at h
    · rename_i reg queued hbefore
      split at h
      · rename_i row claimed' hclaim
        cases h
        exact ⟨prepared, queued, row, hprep, hbefore, hclaim⟩
      · cases h
    · cases h
  · cases h

/-- Behind a granted claim the context is fresh and the lease active. -/
theorem grant_claimed {env : Env} {x : RunArgs} {w claimed : World} {registered : Option TaskRow}
    {lease : Option LeaseRow} (h : grant env x w = some (registered, lease, claimed)) (hw : w.status.leaseId = none) :
    Fresh claimed ∧ ∃ l, lease = some l ∧ l.leaseId = x.claim.leaseId ∧
      claimed.store.activeLease? x.claim.leaseId = some l := by
  obtain ⟨prepared, queued, row, hprep, hbefore, hclaim⟩ := grant_eq_some h
  have hqueued : Fresh queued := (fresh_beforeClaim x).ok (fresh_prepare hw hprep) hbefore
  exact ⟨(fresh_storeCall _ _).ok hqueued hclaim, run_claimTask_granted (storeCall_ok hclaim).2.1⟩

/-- The rest of a run whose claim is granted. -/
theorem grant_impl {env : Env} {x : RunArgs} {w claimed : World} {registered : Option TaskRow}
    {lease : Option LeaseRow} (h : grant env x w = some (registered, lease, claimed)) :
    runOnceInternalImpl env x w = afterClaim env x registered lease claimed := by
  obtain ⟨prepared, queued, row, hprep, hbefore, hclaim⟩ := grant_eq_some h
  unfold runOnceInternalImpl
  rw [run_bind_ok hprep]
  simp only [runIntake]
  rw [run_bind_ok hbefore]
  simp only
  rw [run_bind_ok hclaim]

/-! ## Up to the hand-over -/

/-- The status of step 10. -/
def namedStatus (x : RunArgs) (registered : Option TaskRow) (lease : Option LeaseRow) : Status :=
  { initialStatus (x.call .initialStatus).now x.runId x.documents with
    coordination := some (claimEntry x registered lease) }

theorem claimBoardCard_eq_ok {x : RunArgs} {w w' : World} {u : Unit} : claimBoardCard x w = .ok u w' ↔
    (∀ site ∈ boardSites x, (x.call site).fault = none) ∧ w' = w := by
  unfold claimBoardCard boardSites
  by_cases hcards : x.hasCards ∧ x.claim.task.taskId ≠ ""
  · rw [if_pos hcards, if_pos hcards]
    cases x.card with
    | none =>
      simp [bind_eq_ok, call_eq_ok]
      grind
    | some t =>
      simp [bind_eq_ok, call_eq_ok]
      grind
  · rw [if_neg hcards, if_neg hcards]
    simp [call_eq_ok]

/-- The intake goes on exactly when the run hands over. -/
theorem handOver_eq_ok {env : Env} {x : RunArgs} {registered : Option TaskRow} {lease : Option LeaseRow}
    {w w' : World} : handOver env x registered lease w = .ok none w' ↔
      HandsOver env x ∧ w' = { w with status := namedStatus x registered lease } := by
  unfold handOver HandsOver namedStatus
  cases hsync : syncBlocked env x with
  | some b =>
    simp only [bind_eq_ok, claimBoardCard_eq_ok, call_eq_ok, pure_eq_ok, reduceCtorEq, false_and, and_false,
      exists_false]
  | none =>
    simp only [bind_eq_ok, claimBoardCard_eq_ok, call_eq_ok, pure_eq_ok, modify_eq_ok, List.forall_mem_append]
    simp
    grind

/-! ## A run that does not hand over -/

/-- The status names no lease, and the lease is active. -/
structure Unowned (id : Ident) (w : World) : Prop where
  unnamed : w.status.leaseId = none
  active : (w.store.activeLease? id).isSome = true

section
variable {id : Ident}

theorem unowned_updateRun (m : Moment) (now : Int) (runId : String) (u : RunUpdate) :
    Keeps (Unowned id) (storeCall m (updateRun now runId u)) := by
  have hactive : Keeps (fun w => (w.store.activeLease? id).isSome = true) (storeCall m (updateRun now runId u)) :=
    keeps_storeCall_each (I := fun s => (s.activeLease? id).isSome = true) (each_updateRun fun _ h => h) m
  have hunnamed : Keeps (fun w => w.status.leaseId = none) (storeCall m (updateRun now runId u)) :=
    keeps_storeCall (fun _ _ h => h) m _
  exact (hunnamed.and hactive).congr fun _ => ⟨fun h => ⟨h.unnamed, h.active⟩, fun h => ⟨h.1, h.2⟩⟩

theorem unowned_blockRun (runId : String) (d : Documents) (b : BlockArgs) : Keeps (Unowned id) (blockRun runId d b) :=
  keeps_blockRun unowned_updateRun (fun _ _ h => ⟨h.unnamed, h.active⟩) runId d b

theorem unowned_setStatus (m : Moment) (c : Changes) : Keeps (Unowned id) (setStatus m c) := by
  refine (Keeps.modify fun w h => ⟨h.unnamed, h.active⟩).bind fun _ => ?_
  exact Keeps.get_bind fun w _ => keeps_writeStatus (fun _ h => ⟨h.unnamed, h.active⟩) _

theorem unowned_claimBoardCard (x : RunArgs) : Keeps (Unowned id) (claimBoardCard x) := by
  unfold claimBoardCard
  split
  · refine (keeps_call _).bind fun _ => ?_
    split
    · refine (keeps_call _).bind fun _ => (keeps_call _).bind fun _ => (keeps_call _).bind fun _ => ?_
      refine (keeps_call _).bind fun _ => (keeps_call _).bind fun _ => (keeps_call _).bind fun _ => ?_
      exact keeps_call _
    · exact keeps_call _
  · exact keeps_call _

/-- Up to the hand-over a run that stops leaves the lease active and its status without
a name for it. -/
theorem unowned_handOver (env : Env) (x : RunArgs) (registered : Option TaskRow) (lease : Option LeaseRow) :
    Leads (Unowned id) (handOver env x registered lease) (fun o w => o ≠ none → Unowned id w)
      (fun _ => Unowned id) := by
  have hstep : ∀ {m : Act Unit} {k : Unit → Act (Option Status)}, Keeps (Unowned id) m →
      Leads (Unowned id) (k ()) (fun o w => o ≠ none → Unowned id w) (fun _ => Unowned id) →
      Leads (Unowned id) (m >>= k) (fun o w => o ≠ none → Unowned id w) (fun _ => Unowned id) :=
    fun hm hk => Leads.bind hm fun _ => hk
  refine hstep (unowned_claimBoardCard x) (hstep (keeps_call _) (hstep (keeps_call _) ?_))
  cases syncBlocked env x with
  | some b =>
    have hblock : Keeps (Unowned id) (do
        return some (← blockRun x.runId x.documents b)) := (unowned_blockRun _ _ b).bind fun _ => Keeps.pure _
    exact hblock.weaken (fun _ h => h) (fun _ _ h _ => h) (fun _ _ h => h)
  | none =>
    refine hstep (keeps_call _) ?_
    refine Leads.bind (Q := fun _ _ => True) (Leads.modify fun _ _ => trivial) fun _ => ?_
    exact Leads.pure fun _ _ hne => absurd rfl hne

theorem unowned_handleCrash (env : Env) (x : RunArgs) (detail : String) :
    Keeps (Unowned id) (handleCrash env x detail) := by
  refine Keeps.attempt (Keeps.get_bind fun w _ => ?_) fun _ => Keeps.pure _
  dsimp only
  split
  · exact keeps_blockContext unowned_updateRun unowned_setStatus _ _
  · exact unowned_blockRun _ _ _

end

/-! ## The release at the end -/

theorem holds_storeCall {id : Ident} {α : Type} (m : Moment) (p : Sql α) : Keeps (Holds id) (storeCall m p) :=
  keeps_storeCall (fun _ _ h => ⟨h.registered, h.lease⟩) m p

theorem holds_handleCrash {id : Ident} (env : Env) (x : RunArgs) (detail : String) :
    Keeps (Holds id) (handleCrash env x detail) := by
  have hwrite : ∀ (s : Status) (w : World), Holds id w → Holds id { w with statusFile := some s } :=
    fun _ _ h => ⟨h.registered, h.lease⟩
  have hset : ∀ m c, Keeps (Holds id) (setStatus m c) := fun m c =>
    (Keeps.modify fun w h => ⟨h.registered, h.lease⟩).bind fun _ =>
      Keeps.get_bind fun w _ => keeps_writeStatus (hwrite _) m
  refine Keeps.attempt (Keeps.get_bind fun w _ => ?_) fun _ => Keeps.pure _
  dsimp only
  split
  · exact keeps_blockContext (fun _ _ _ _ => holds_storeCall _ _) hset _ _
  · exact keeps_blockRun (fun _ _ _ _ => holds_storeCall _ _) (fun w s h => hwrite s w h) _ _ _

theorem endState_storeCall {α : Type} (m : Moment) (p : Sql α) (w : World) :
    (endState (storeCall m p w)).store =
      match m.fault with
      | none => (p.run w.store).2
      | some f => crash f.done p ⟨w.store, none⟩ := by
  unfold storeCall
  cases m.fault with
  | some f => rfl
  | none =>
    simp only
    cases hr : p.run w.store with
    | mk res s => cases res <;> rfl

theorem activeLease?_congr {s t : Store} {id : Ident} (h : t.leases.find? id = s.leases.find? id) :
    t.activeLease? id = s.activeLease? id := by
  simp only [Store.activeLease?, h]

/-- A closed lease is not active. -/
theorem closeLease_inactive (now : Int) (id : Ident) (status : ReleaseStatus) (reason : Option String) (s : Store) :
    (closeLease now id status reason s).activeLease? id = none := by
  simp only [Store.activeLease?, closeLease, Store.modifyLease_leases, Table.find?_modify, if_true]
  cases s.leases.find? id with
  | none => rfl
  | some l =>
    by_cases ha : l.status = .active
    · cases status <;> simp [LeaseRow.close, ha, LeaseRow.retire, ReleaseStatus.toLease]
    · simp [LeaseRow.close, ha]

/-- The release of a lease ends it when its first update is executed, and nothing else
about it matters. -/
theorem release_ends_iff (m : Moment) (id : Ident) (status : ReleaseStatus) (reason : Option String) (w : World) :
    (endState (storeCall m (releaseLease m.now id status reason) w)).store.activeLease? id = none ↔
      (∀ f ∈ m.fault, 2 ≤ f.done) ∨ w.store.activeLease? id = none := by
  rw [endState_storeCall]
  cases hf : m.fault with
  | none =>
    have hdone : ((releaseLease m.now id status reason).run w.store).2.activeLease? id = none := by
      rcases run_releaseLease m.now id status reason w.store with ⟨row, hrow, ha, he⟩ | ⟨hnone, -, -, hleases⟩
      · obtain rfl := Table.find?_key hrow
        rw [he]
        exact closeLease_inactive m.now row.leaseId status reason w.store
      · rw [activeLease?_congr (hleases id)]
        exact hnone
    simp [hdone]
  | some f =>
    cases hl : w.store.activeLease? id with
    | none =>
      have hidle := (releasePrefix_idle m.now status reason hl f.done).2 id
      have hnone : (releasePrefix m.now id status reason f.done w.store).activeLease? id = none := by
        rw [activeLease?_congr hidle]
        exact hl
      exact iff_of_true hnone (Or.inr rfl)
    | some l =>
      change (releasePrefix m.now id status reason f.done w.store).activeLease? id = none ↔ _
      rcases releasePrefix_active m.now status reason hl f.done with ⟨hn, he⟩ | ⟨hn, he⟩ | ⟨hn, -, he⟩
      · rw [he, hl]
        simp
        omega
      · rw [he, closeLease_inactive]
        simp [hn]
      · have hclosed : (releasePrefix m.now id status reason f.done w.store).activeLease? id = none := by
          rw [activeLease?_congr (congrArg (·.find? id) he)]
          exact closeLease_inactive m.now id status reason w.store
        rw [hclosed]
        simp
        omega

theorem finalRelease_ends_iff {env : Env} {x : RunArgs} {w : World} {id : Ident} (h : Holds id w)
    (crashed : Option String) (result : Option Status) :
    (finalRelease env x crashed result w).store.activeLease? id = none ↔
      ReleaseReached x ∨ w.store.activeLease? id = none := by
  unfold finalRelease
  rw [if_pos h.registered, h.lease]
  exact release_ends_iff _ _ _ _ w

theorem finalRelease_unnamed {env : Env} {x : RunArgs} {w : World} (h : w.status.leaseId = none)
    (crashed : Option String) (result : Option Status) : finalRelease env x crashed result w = w := by
  unfold finalRelease
  rw [h, ite_self]

/-! ## Every path out of the run -/

section
variable {env : Env} {x : RunArgs} {w claimed : World} {registered : Option TaskRow} {lease : Option LeaseRow}

/-- A property kept by what follows and by the crash handling is there at the end. -/
theorem runToEnd_of {P : World → Prop} {t : World} {m : Act Status} (himpl : runOnceInternalImpl env x w = m t)
    (ht : P t) (hm : Keeps P m) (hcrash : ∀ detail, Keeps P (handleCrash env x detail)) :
    P (runToEnd env x w).world := by
  have hkept := hm t ht
  unfold runToEnd
  rw [himpl]
  cases hr : m t with
  | ok status u =>
    rw [hr] at hkept
    exact hkept
  | error detail u =>
    rw [hr] at hkept
    have hend := hcrash detail u hkept
    simp only
    cases hc : handleCrash env x detail u with
    | ok status v =>
      rw [hc] at hend
      exact hend
    | error e v =>
      rw [hc] at hend
      exact hend

/-- A run that hands over reaches the end with a status that names its lease. -/
theorem grant_holds (h : grant env x w = some (registered, lease, claimed)) (hw : w.status.leaseId = none)
    (ho : HandsOver env x) : Holds x.claim.leaseId (runToEnd env x w).world := by
  obtain ⟨hfresh, l, rfl, hid, -⟩ := grant_claimed h hw
  have hnamed : Holds x.claim.leaseId { claimed with status := namedStatus x registered (some l) } := by
    refine ⟨hfresh.registered, leaseId_entry ?_ x.drawn⟩
    simp [claimEntry, hid]
  have himpl : runOnceInternalImpl env x w = (do
      startRun env x
      runSteps env x.runId x.sync
      runLater env x : Act Status) { claimed with status := namedStatus x registered (some l) } := by
    rw [grant_impl h, afterClaim, run_bind_ok (handOver_eq_ok.mpr ⟨ho, rfl⟩)]
  exact runToEnd_of himpl hnamed (holds_afterHandOver env x) (holds_handleCrash env x)

/-- A run that does not hand over reaches the end with its lease active and unnamed. -/
theorem grant_unowned (h : grant env x w = some (registered, lease, claimed)) (hw : w.status.leaseId = none)
    (ho : ¬ HandsOver env x) : Unowned x.claim.leaseId (runToEnd env x w).world := by
  obtain ⟨hfresh, l, rfl, hid, hactive⟩ := grant_claimed h hw
  have hclaimed : Unowned x.claim.leaseId claimed := ⟨hfresh.unnamed, by rw [hactive, Option.isSome_some]⟩
  have hhand := unowned_handOver env x registered (some l) claimed hclaimed
  have hcrash : ∀ detail, Keeps (Unowned x.claim.leaseId) (handleCrash env x detail) := unowned_handleCrash env x
  cases hr : handOver env x registered (some l) claimed with
  | error detail u =>
    rw [hr] at hhand
    have himpl : runOnceInternalImpl env x w = (throw detail : Act Status) u := by
      rw [grant_impl h, afterClaim, run_bind_error hr]
      rfl
    exact runToEnd_of himpl hhand (Keeps.raise detail) hcrash
  | ok o u =>
    rw [hr] at hhand
    cases o with
    | none => exact absurd (handOver_eq_ok.mp hr).1 ho
    | some status =>
      have himpl : runOnceInternalImpl env x w = (pure status : Act Status) u := by
        rw [grant_impl h, afterClaim, run_bind_ok hr]
      exact runToEnd_of himpl (hhand (Option.some_ne_none status)) (Keeps.pure status) hcrash

end

/-- When a run whose claim was granted returns, its lease is no longer active exactly
when the run got to the status that names the lease, and the release at the end came as
far as its first update or found the lease ended. -/
theorem lease_released_iff (env : Env) (x : RunArgs) (s : Store) (statusFile : Option Status)
    (h : Granted env x (start s statusFile)) :
    (runOnceInternal env x (start s statusFile)).2.store.activeLease? x.claim.leaseId = none ↔
      HandsOver env x ∧ (ReleaseReached x ∨
        (runToEnd env x (start s statusFile)).world.store.activeLease? x.claim.leaseId = none) := by
  obtain ⟨⟨registered, lease, claimed⟩, hgrant⟩ := Option.isSome_iff_exists.mp h
  have hstart : (start s statusFile).status.leaseId = none := rfl
  simp only [runOnceInternal]
  by_cases ho : HandsOver env x
  · rw [finalRelease_ends_iff (grant_holds hgrant hstart ho)]
    exact ⟨fun hr => ⟨ho, hr⟩, fun hr => hr.2⟩
  · have hend := grant_unowned hgrant hstart ho
    rw [finalRelease_unnamed hend.unnamed]
    constructor
    · intro hnone
      have hactive := hend.active
      rw [hnone] at hactive
      cases hactive
    · exact fun hr => absurd hr.1 ho

/-! ## A run whose remote sync is not enabled -/

/-- A task of a GitHub project. -/
def projectTask : Task := { taskId := "T1", source := { type := "github_project", project := "P" } }

/-- Remote sync is configured, the server is not enabled. -/
def disabledRun : RunArgs where
  claim := claimBy "a" projectTask
  drawn := by decide +kernel
  githubMcp := { enabled := false, scope := "always", remoteSync := "status_comment" }
  later := .phases [] .makeResult

/-- The same run with the server enabled. -/
def enabledRun : RunArgs := { disabledRun with githubMcp := { disabledRun.githubMcp with enabled := true } }

/-- The run is blocked behind its claim, and its lease stays active. -/
theorem disabledRun_keeps_lease : Granted sqliteEnv disabledRun (start Store.empty none) ∧
    (runOnceInternal sqliteEnv disabledRun (start Store.empty none)).2.store.activeLease? (Ident.of "lease-a") ≠ none := by
  constructor
  · unfold Granted
    decide +kernel
  · rw [← Option.isSome_iff_ne_none]
    decide +kernel

theorem enabledRun_released :
    (runOnceInternal sqliteEnv enabledRun (start Store.empty none)).2.store.activeLease? (Ident.of "lease-a") = none := by
  have hgranted : Granted sqliteEnv enabledRun (start Store.empty none) := by
    unfold Granted
    decide +kernel
  have hsites : ∀ site, (enabledRun.call site).fault = none := fun _ => rfl
  refine (lease_released_iff sqliteEnv enabledRun Store.empty none hgranted).mpr ⟨⟨fun site _ => hsites site, ?_⟩, .inl ?_⟩
  · rw [← Option.isNone_iff_eq_none]
    decide +kernel
  · intro f hf
    rw [hsites] at hf
    cases hf

end LeaseRelease
