import TandemAgents.Guarantees
import TandemAgents.RunOnce

/-!
# A run that knows its lease

Once the status of a run names the lease of its claim, no phase takes the name out of it:
the phases change other entries, or copy the entry from the lease's own row. The name is
also on disk by then, so reading the status back does not lose it either.
-/
namespace LeaseHolding

open KeyedTable PythonText CoordinationStore Statements Statements.Prog Effects RunStatus RunContext
open LeaseOperations WorkerOperations TaskOperations OperationRuns StoreHistories TaskIntake CoderRun RunOnce

set_option maxRecDepth 20000

/-- The wrapper knows the context, whose status names the lease. -/
structure Holds (id : Ident) (w : World) : Prop where
  registered : w.registered = true
  lease : w.status.leaseId = some id

/-- The status on disk names it too. -/
structure Filed (id : Ident) (w : World) : Prop extends Holds id w where
  file : ∃ f, w.statusFile = some f ∧ f.leaseId = some id

/-! ## Calls -/

section
variable {P : World → Prop} {α : Type}

theorem keeps_call (m : Moment) : Keeps P (call m) := by
  unfold call
  cases m.fault with
  | none => exact Keeps.pure ()
  | some f => exact Keeps.raise f.text

/-- A call of the store keeps what does not depend on the store. -/
theorem keeps_storeCall (hP : ∀ w s, P w → P { w with store := s }) (m : Moment) (p : Sql α) :
    Keeps P (storeCall m p) := by
  intro w hw
  unfold storeCall
  cases m.fault with
  | some f => exact hP w _ hw
  | none =>
    simp only
    cases hr : p.run w.store with
    | mk res s => cases res <;> exact hP w s hw

/-- A call of the store keeps what every write of its program keeps, also when it stops
half way. -/
theorem keeps_storeCall_each {I : Store → Prop} {p : Sql α} (hp : p.Each (Guarantee.keeps I).Respects []) (m : Moment) :
    Keeps (fun w => I w.store) (storeCall m p) := by
  intro w hw
  unfold storeCall
  cases m.fault with
  | some f => exact hp.crash f.done hw hw
  | none =>
    simp only
    have hrun := hp.run hw
    cases hr : p.run w.store with
    | mk res s =>
      rw [hr] at hrun
      cases res <;> exact hrun

theorem each_updateRun {I : Store → Prop} {now : Int} {runId : String} {u : RunUpdate}
    (hI : ∀ s, I s → I (s.modifyRun runId (u.assign now) (u.assign_runId now))) :
    (updateRun now runId u).Each (Guarantee.keeps I).Respects [] := by
  refine each_get_bind fun s => ?_
  cases s.runs.find? runId with
  | none => trivial
  | some r => exact each_update_bind (Guarantee.respects_some hI) fun _ => each_get _ _

/-- What a call of the store returns is what its program returns. -/
theorem storeCall_ok {m : Moment} {p : Sql α} {w w' : World} {a : α} (h : storeCall m p w = .ok a w') :
    m.fault = none ∧ p.run w.store = (some a, w'.store) ∧ w' = { w with store := w'.store } := by
  unfold storeCall at h
  cases hf : m.fault with
  | some f =>
    rw [hf] at h
    cases h
  | none =>
    rw [hf] at h
    simp only at h
    cases hr : p.run w.store with
    | mk res s =>
      rw [hr] at h
      cases res with
      | none => cases h
      | some b =>
        cases h
        exact ⟨rfl, rfl, rfl⟩

theorem keeps_swallow {a : Act Unit} (h : Keeps P a) : Keeps P (swallow a) := h.attempt fun _ => Keeps.pure ()

theorem keeps_writeStatus {s : Status} (hP : ∀ w, P w → P { w with statusFile := some s }) (m : Moment) :
    Keeps P (writeStatus m s) := by
  intro w hw
  unfold writeStatus
  cases m.fault with
  | none => exact hP w hw
  | some f =>
    simp only
    by_cases hd : f.done = 0
    · rw [if_pos hd]
      exact hw
    · rw [if_neg hd]
      exact hP w hw

/-- `block_run` keeps what its writes keep. -/
theorem keeps_reportBlocked (hP : ∀ m now runId u, Keeps P (storeCall m (updateRun now runId u))) (runId : String)
    (b : BlockArgs) : Keeps P (reportBlocked runId b) := by
  refine (keeps_call _).bind fun _ => (keeps_call _).bind fun _ => ?_
  split
  · exact keeps_swallow ((hP _ _ _ _).bind fun _ => Keeps.pure ())
  · exact Keeps.pure ()

theorem keeps_blockRun (hP : ∀ m now runId u, Keeps P (storeCall m (updateRun now runId u)))
    (hfile : ∀ w s, P w → P { w with statusFile := some s }) (runId : String) (d : Documents) (b : BlockArgs) :
    Keeps P (blockRun runId d b) := by
  refine (keeps_writeStatus (fun w h => hfile w _ h) _).bind fun _ => ?_
  exact (keeps_reportBlocked hP runId b).bind fun _ => Keeps.pure _

theorem keeps_blockContext (hP : ∀ m now runId u, Keeps P (storeCall m (updateRun now runId u)))
    (hset : ∀ m c, Keeps P (setStatus m c)) (runId : String) (b : BlockArgs) : Keeps P (blockContext runId b) := by
  refine (hset _ _).bind fun _ => (keeps_reportBlocked hP runId b).bind fun _ => ?_
  exact Keeps.get_bind fun w _ => Keeps.pure w.status

end

/-! ## The entry of the lease -/

theorem leaseId_text {s : Status} {id : Ident} (h : s.leaseId = some id) : id.text ≠ "" := by
  obtain ⟨-, hd⟩ := Option.filter_eq_some_iff.mp h
  simpa using hd

/-- An entry that names a lease with an id that is not empty. -/
theorem leaseId_entry {s : Status} {c : Coordination} {id : Ident} (hc : c.leaseId = some id) (hid : id.text ≠ "") :
    ({ s with coordination := some c } : Status).leaseId = some id := by
  simp [Status.leaseId, hc, hid]

theorem markMiss_leaseId {now : Int} {misses : Nat} {id : Ident} {lease : Option LeaseRow} {c : Coordination}
    (hl : ∀ l ∈ lease, l.leaseId = id) : (markMiss now misses id lease c).leaseId = some id := by
  cases lease with
  | none => rfl
  | some l =>
    have hid := hl l rfl
    simp only [markMiss, mirrorLease, hid]

/-- A heartbeat answers with the row of its own lease. -/
theorem heartbeatLease_leaseId {now ttl : Int} {id : Ident} {s t : Store} {l : LeaseRow}
    (h : (heartbeatLease now ttl id).run s = (some (some l), t)) : l.leaseId = id := by
  rw [run_plain (heartbeatLease_plain now ttl id), heartbeatLease, getLease, eff_get_bind] at h
  cases hrow : s.leases.find? id with
  | none =>
    rw [hrow] at h
    cases h
  | some row =>
    have hid : row.leaseId = id := Table.find?_key hrow
    rw [hrow] at h
    simp only [heartbeatFound, eff_updateCount_bind] at h
    split at h
    · cases h
    · simp only [heartbeatTask, eff_update_bind, getLease, eff_get] at h
      obtain ⟨hfind, -⟩ := Prod.mk.inj h
      rw [← hid]
      exact Table.find?_key (Option.some.inj hfind)

theorem getLease_leaseId {id : Ident} {s t : Store} {l : LeaseRow} (h : (getLease id).run s = (some (some l), t)) :
    l.leaseId = id := by
  obtain ⟨hfind, -⟩ := Prod.mk.inj h
  exact Table.find?_key (Option.some.inj hfind)

/-! ## What keeps the lease filed -/

section
variable {id : Ident} {α : Type}

theorem Filed.store {w : World} (h : Filed id w) (s : Store) : Filed id { w with store := s } :=
  ⟨⟨h.registered, h.lease⟩, h.file⟩

theorem Filed.entry {w : World} (h : Filed id w) {c : Coordination} (hc : c.leaseId = some id) :
    Filed id { w with status := { w.status with coordination := some c } } :=
  ⟨⟨h.registered, leaseId_entry hc (leaseId_text h.lease)⟩, h.file⟩

theorem filed_storeCall (m : Moment) (p : Sql α) : Keeps (Filed id) (storeCall m p) :=
  keeps_storeCall (fun _ s h => h.store s) m p

theorem filed_writeStatus {s : Status} (hs : s.leaseId = some id) (m : Moment) : Keeps (Filed id) (writeStatus m s) :=
  keeps_writeStatus (fun _ h => ⟨⟨h.registered, h.lease⟩, s, rfl, hs⟩) m

theorem filed_setStatus (m : Moment) (c : Changes) : Keeps (Filed id) (setStatus m c) := by
  unfold setStatus
  have hchange : ∀ w : World, Filed id w → Filed id { w with status := updateStatus m.now c w.status } :=
    fun w h => ⟨⟨h.registered, h.lease⟩, h.file⟩
  exact (Keeps.modify hchange).bind fun _ => Keeps.get_bind fun w h => filed_writeStatus h.lease m

theorem filed_reloadStatus (m : Moment) : Keeps (Filed id) (reloadStatus m) := by
  refine (keeps_call m).bind fun _ => Keeps.modify fun w h => ?_
  obtain ⟨f, hf, hid⟩ := h.file
  refine ⟨⟨h.registered, ?_⟩, f, hf, hid⟩
  simp [hf, hid]

/-- A call of the store whose answer, if it is a lease, is the run's own. -/
theorem filed_ownLease {p : Sql (Option LeaseRow)} (hp : ∀ s t l, p.run s = (some (some l), t) → l.leaseId = id)
    (m : Moment) :
    Leads (Filed id) (storeCall m p) (fun o w => Filed id w ∧ ∀ l ∈ o, l.leaseId = id) (fun _ => Filed id) := by
  intro w hw
  have hkeeps : Keeps (Filed id) (storeCall m p) := filed_storeCall m p
  have hkeep := hkeeps w hw
  cases hr : storeCall m p w with
  | error e t =>
    rw [hr] at hkeep
    exact hkeep
  | ok o t =>
    rw [hr] at hkeep
    refine ⟨hkeep, fun l hl => ?_⟩
    obtain rfl := Option.mem_def.mp hl
    exact hp _ _ l (storeCall_ok hr).2.1

theorem filed_syncStatusCoordination {lease : LeaseRow} (hl : lease.leaseId = id) (m : Moment) :
    Keeps (Filed id) (syncStatusCoordination m lease) := by
  have hentry : ∀ c : Coordination, (mirrorLease lease c).leaseId = some id := fun c => by simp [mirrorLease, hl]
  refine (Keeps.modify fun w h => h.entry (hentry _)).bind fun _ => ?_
  exact Keeps.get_bind fun w h => keeps_swallow (filed_writeStatus h.lease m)

theorem filed_heartbeatMissed (runId : String) (t : Touch) {lease : Option LeaseRow} (hl : ∀ l ∈ lease, l.leaseId = id) :
    Keeps (Filed id) (heartbeatMissed runId t id lease) := by
  unfold heartbeatMissed
  have hcount : ∀ w : World, Filed id w → Filed id { w with misses := w.misses + 1 } :=
    fun w h => ⟨⟨h.registered, h.lease⟩, h.file⟩
  have hlost : ∀ w : World, Filed id w → Filed id { w with lost := true } :=
    fun w h => ⟨⟨h.registered, h.lease⟩, h.file⟩
  refine (Keeps.modify hcount).bind fun _ => (Keeps.modify fun w h => h.entry (markMiss_leaseId hl)).bind fun _ => ?_
  refine Keeps.get_bind fun w h => (keeps_swallow (filed_writeStatus h.lease _)).bind fun _ => ?_
  split
  · refine (Keeps.modify hlost).bind fun _ => (filed_setStatus _ _).bind fun _ => ?_
    refine (keeps_swallow (keeps_call _)).bind fun _ => (filed_storeCall _ _).bind fun _ => Keeps.pure true
  · exact Keeps.pure false

theorem filed_touchRun (runId : String) (t : Touch) : Keeps (Filed id) (touchRun runId t) :=
  (filed_storeCall _ _).bind fun _ => Keeps.pure ()

theorem filed_lookupLease (m : Moment) :
    Leads (Filed id) (lookupLease m id) (fun o w => Filed id w ∧ ∀ l ∈ o, l.leaseId = id) (fun _ => Filed id) := by
  have hlook : Leads (Filed id) (storeCall m (getLease id)) (fun o w => Filed id w ∧ ∀ l ∈ o, l.leaseId = id)
      (fun _ => Filed id) := filed_ownLease (fun _ _ _ h => getLease_leaseId h) m
  refine hlook.attempt fun _ => Leads.pure fun w h => ⟨h, fun l hl => ?_⟩
  cases hl

theorem filed_touchCoordination (runId : String) (t : Touch) :
    Keeps (Filed id) (touchCoordination runId (some id) t) := by
  unfold touchCoordination
  have hreset : ∀ w : World, Filed id w → Filed id { w with misses := 0 } :=
    fun w h => ⟨⟨h.registered, h.lease⟩, h.file⟩
  refine Leads.bind (filed_ownLease (fun _ _ _ h => heartbeatLease_leaseId h) _) fun beaten => Leads.assume fun hb => ?_
  cases beaten with
  | some lease =>
    dsimp only
    split
    · refine (Keeps.modify hreset).bind fun _ => (filed_syncStatusCoordination (hb lease rfl) _).bind fun _ => ?_
      exact (filed_touchRun _ _).bind fun _ => Keeps.pure true
    · exact (filed_touchRun _ _).bind fun _ => Keeps.pure true
  | none =>
    refine Leads.bind (filed_lookupLease _) fun current => Leads.assume fun hc => ?_
    split
    · split
      · refine (Keeps.modify hreset).bind fun _ => ?_
        cases current with
        | none => exact Keeps.pure true
        | some l => exact (filed_syncStatusCoordination (hc l rfl) _).bind fun _ => Keeps.pure true
      · exact Keeps.pure true
    · split
      · refine (filed_heartbeatMissed runId t hc).bind fun closed => ?_
        split
        · exact Keeps.pure false
        · exact (filed_touchRun _ _).bind fun _ => Keeps.pure false
      · exact (filed_touchRun _ _).bind fun _ => Keeps.pure false

theorem filed_markActive (m : Moment) (runId reason : String) : Keeps (Filed id) (markActive m runId reason) := by
  refine Keeps.get_bind fun w _ => ?_
  cases taskContext runId w.status with
  | none => exact Keeps.pure ()
  | some claim => exact (filed_storeCall _ _).bind fun _ => Keeps.pure ()

/-! ## The phases -/

theorem filed_runStep (env : Env) (runId : String) (step : PhaseStep) : Keeps (Filed id) (runStep env runId step) := by
  cases step with
  | call m => exact keeps_call m
  | store m op => exact (filed_storeCall m _).bind fun _ => Keeps.pure ()
  | touch t =>
    refine Keeps.get_bind fun w h => ?_
    rw [h.lease]
    exact (filed_touchCoordination runId t).bind fun _ => Keeps.pure ()
  | edit e =>
    refine Keeps.modify fun w h => ⟨⟨h.registered, ?_⟩, h.file⟩
    have hlease := h.lease
    simp only [Status.leaseId, e.keeps] at hlease ⊢
    exact hlease
  | write m => exact Keeps.get_bind fun w h => filed_writeStatus h.lease m

theorem filed_runSteps (env : Env) (runId : String) (steps : List PhaseStep) :
    Keeps (Filed id) (runSteps env runId steps) := by
  induction steps with
  | nil => exact Keeps.pure ()
  | cons step steps ih => exact (filed_runStep env runId step).bind fun _ => ih

/-! ## The coder backend -/

theorem filed_releaseOwn (m : Moment) (status : ReleaseStatus) (reason : String) :
    Keeps (Filed id) (releaseOwn m status reason) := by
  refine Keeps.get_bind fun w _ => ?_
  cases w.status.leaseId with
  | none => exact Keeps.pure ()
  | some i => exact (filed_storeCall _ _).bind fun _ => Keeps.pure ()

theorem filed_superviseTouch (c : CoderArgs) (runId : String) (ttl : Int) (u : RunUpdate) :
    Keeps (Filed id) (superviseTouch c runId ttl u) := by
  refine (filed_storeCall _ _).bind fun existing => (filed_storeCall _ _).bind fun updated => ?_
  split
  · split
    · exact (filed_storeCall _ _).bind fun _ => Keeps.pure updated
    · exact Keeps.pure updated
  · exact Keeps.pure updated

theorem filed_applyNonTerminal (c : CoderArgs) (runId : String) (ttl : Int) (r : CoderResult) :
    Keeps (Filed id) (applyNonTerminal c runId ttl r) := by
  refine (keeps_call _).bind fun _ => (filed_setStatus _ _).bind fun _ => ?_
  refine (filed_superviseTouch c runId ttl _).bind fun _ => ?_
  exact (keeps_call _).bind fun _ => keeps_call _

theorem filed_applyTerminal (c : CoderArgs) (runId : String) (ttl : Int) (r : CoderResult) :
    Keeps (Filed id) (applyTerminal c runId ttl r) := by
  have hend : Keeps (Filed id) (do
      call (c.call .superviseFinalize)
      call (c.call .superviseEvent)) := (keeps_call _).bind fun _ => keeps_call _
  refine (keeps_call _).bind fun _ => (filed_setStatus _ _).bind fun _ => (keeps_call _).bind fun _ => ?_
  refine (filed_superviseTouch c runId ttl _).bind fun run => Keeps.get_bind fun w _ => ?_
  dsimp only
  split
  · refine (filed_storeCall _ _).bind fun _ => ?_
    split
    · exact (filed_storeCall _ _).bind fun _ => hend
    · exact hend
  · split
    · exact (filed_storeCall _ _).bind fun _ => hend
    · exact hend

theorem filed_applyCoderResult (c : CoderArgs) (runId : String) (ttl : Int) (r : CoderResult) :
    Keeps (Filed id) (applyCoderResult c runId ttl r) := by
  unfold applyCoderResult
  split
  · exact filed_applyTerminal c runId ttl r
  · exact filed_applyNonTerminal c runId ttl r

theorem filed_reportGivenUp (c : CoderArgs) (reason : String) : Keeps (Filed id) (reportGivenUp c reason) := by
  refine (keeps_call _).bind fun _ => (keeps_call _).bind fun _ => ?_
  exact (filed_releaseOwn _ _ _).bind fun _ => keeps_call _

theorem filed_giveUp (c : CoderArgs) (runId : String) (ttl : Int) (message reason : String) :
    Keeps (Filed id) (giveUp c runId ttl message reason) := by
  refine (filed_setStatus _ _).bind fun _ => Keeps.get_bind fun w h => ?_
  rw [h.lease]
  refine (filed_touchCoordination runId _).bind fun _ => (keeps_call _).bind fun _ => (keeps_call _).bind fun _ => ?_
  exact (keeps_call _).bind fun _ => filed_reportGivenUp c reason

theorem filed_startCoder (c : CoderArgs) (runId : String) (ttl : Int) :
    Keeps (Filed id) (startCoder c runId ttl) := by
  refine (filed_setStatus _ _).bind fun _ => Keeps.get_bind fun w h => ?_
  rw [h.lease]
  refine (filed_touchCoordination runId _).bind fun _ => (filed_markActive _ _ _).bind fun _ => ?_
  exact keeps_call _

theorem filed_bookResult (c : CoderArgs) (runId : String) (ttl : Int) (r : CoderResult) :
    Keeps (Filed id) (bookResult c runId ttl r) := by
  refine (filed_storeCall _ _).bind fun _ => (keeps_call _).bind fun _ => (keeps_call _).bind fun _ => ?_
  refine (keeps_call _).bind fun _ => (filed_applyCoderResult c runId ttl r).bind fun _ => ?_
  exact filed_reloadStatus _

theorem filed_runCoderBackend (env : Env) (c : CoderArgs) (runId : String) (ttl : Int) :
    Keeps (Filed id) (runCoderBackend env c runId ttl) := by
  unfold runCoderBackend
  split
  · exact (filed_setStatus _ _).bind fun _ => filed_reportGivenUp c _
  · refine (filed_startCoder c runId ttl).bind fun _ => (filed_storeCall _ _).bind fun _ => ?_
    cases c.overBudget with
    | some reason => exact filed_giveUp c runId ttl _ _
    | none =>
      refine Keeps.bind (Keeps.modify fun w h => h.store _) fun _ => ?_
      cases executeCoderRun c.py c.answers with
      | error detail => exact filed_giveUp c runId ttl _ _
      | ok r => exact filed_bookResult c runId ttl r

/-! ## From the hand-over to the end -/

theorem filed_runLater (env : Env) (x : RunArgs) : Keeps (Filed id) (runLater env x) := by
  unfold runLater
  cases x.later with
  | coder c =>
    exact (filed_runCoderBackend env c _ _).bind fun _ => Keeps.get_bind fun w _ => Keeps.pure w.status
  | phases steps finish =>
    refine (filed_runSteps env _ steps).bind fun _ => ?_
    cases finish with
    | returned status => exact Keeps.pure status
    | makeResult => exact Keeps.get_bind fun w _ => Keeps.pure w.status
    | raised text => exact Keeps.raise text

/-- The first write of the status files the lease. -/
theorem filed_firstWrite {s : Status} (hs : s.leaseId = some id) (m : Moment) :
    Leads (Holds id) (writeStatus m s) (fun _ => Filed id) (fun _ => Holds id) := by
  intro w hw
  unfold writeStatus
  cases m.fault with
  | none => exact ⟨⟨hw.registered, hw.lease⟩, s, rfl, hs⟩
  | some f => exact ⟨hw.registered, hw.lease⟩

theorem filed_startRun (env : Env) (x : RunArgs) :
    Leads (Holds id) (startRun env x) (fun _ => Filed id) (fun _ => Holds id) := by
  refine Leads.bind (Q := fun _ => Holds id) (Leads.modify fun w h => ⟨h.registered, h.lease⟩) fun _ => ?_
  refine Leads.get_bind fun w hw => ?_
  refine Leads.bind ((filed_firstWrite hw.lease _).weaken ?_ (fun _ _ h => h) (fun _ _ h => h)) fun _ => ?_
  · rintro _ rfl
    exact hw
  · refine Keeps.leads ?_ fun _ _ h => h.toHolds
    refine (filed_setStatus _ _).bind fun _ => Keeps.get_bind fun w _ => (filed_storeCall _ _).bind fun _ => ?_
    refine Keeps.get_bind fun w h => ?_
    rw [h.lease]
    refine (filed_touchCoordination _ _).bind fun _ => (filed_markActive _ _ _).bind fun _ => ?_
    exact (keeps_call _).bind fun _ => (keeps_call _).bind fun _ => keeps_call _

/-- A run whose status names the lease when the intake goes on names it at the end, on
every path. -/
theorem holds_afterHandOver (env : Env) (x : RunArgs) : Keeps (Holds id) (do
    startRun env x
    runSteps env x.runId x.sync
    runLater env x) := by
  have hphases : Leads (Filed id) (do
      runSteps env x.runId x.sync
      runLater env x) (fun _ => Holds id) (fun _ => Holds id) := by
    have hkeeps : Keeps (Filed id) (do
      runSteps env x.runId x.sync
      runLater env x) := (filed_runSteps env _ _).bind fun _ => filed_runLater env x
    exact hkeeps.weaken (fun _ h => h) (fun _ _ h => h.toHolds) (fun _ _ h => h.toHolds)
  exact Leads.bind (filed_startRun env x) fun _ => hphases

end
end LeaseHolding
