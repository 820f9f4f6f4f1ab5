import Mathlib.Data.List.TakeWhile
import TandemAgents.WatchedRequests

/-!
# How many repair runs a pull request gets

The breaker counts an attempt before the engine is told of it, and stores the count after.
What stops a pass in between leaves a repair run that nothing counts; where nothing does,
the runs created are bounded and none follows an escalation.
-/
namespace RepairBound

open PythonText JsonData PullRequests Effects IssueSpend RepairBreaker PrSupervision PrRefresh PrFiles

set_option maxRecDepth 20000

section
variable (n : Numbers) (cfg : Config) (runId : String)

/-- What happens to a run: a tick refreshes it, or another process writes its metadata. -/
inductive Event where
  | refresh (t : Refresh)
  | write (metadata : Option Dict)

def step (w : World) : Event → World
  | .refresh t => refresh n cfg runId w t
  | .write metadata => { w with metadata := metadata }

def isCreated : Deed → Bool
  | .created _ => true
  | .escalated => false

/-- The repair runs created. -/
def createdRuns (deeds : List Deed) : Nat := (deeds.filter isCreated).length

/-- The deeds behind the first escalation. -/
def afterEscalation (deeds : List Deed) : List Deed := deeds.dropWhile (fun d => decide (d ≠ .escalated))

/-- No more repair runs than attempts allowed, and none behind an escalation. -/
def Bounded (w : World) : Prop :=
  (createdRuns w.deeds : Int) ≤ cfg.gate.maxAttempts ∧ createdRuns (afterEscalation w.deeds) = 0

/-- The breaker the metadata holds. -/
def recorded (w : World) : Option Breaker :=
  (((w.metadata.getD []).get breakerKey).or (.obj [])).asDict.bind (readBreaker n)

/-- A run of which no pass was made yet. -/
structure Fresh (w : World) : Prop where
  noDeeds : w.deeds = []
  noBreaker : ((w.metadata.getD []).get breakerKey).truthy = false

end

/-! ## The condition -/

/-- The call does not end the supervisor. -/
def survives (m : Moment) : Bool :=
  match m.fault with
  | some fault => decide (fault.stop ≠ .crash)
  | none => true

/-- The step gets as far as its update of the metadata. -/
def records (t : PersistMoments) : Bool := t.save.returns && t.write.returns && t.read.returns && t.update.lands

/-- The pass creates a repair run. -/
def sends (p : RepairPass) (b : Breaker) : Bool := (decide (1 < b.attempts) || survives p.comment) && p.create.lands

/-- The responses a pass has seen when it counts what it spent. -/
def seenResponses (p : RepairPass) : Dict :=
  [("create_response", responseDict (if p.create.returns then p.createResponse else .obj [])),
    ("execute_response", responseDict (if p.create.returns && p.execute.returns then p.executeResponse else .obj []))]

section
variable (n : Numbers) (cfg : Config)

/-- The spend can be read, added up and written. -/
def spendReturns (t : SpendMoments) (coderResult metadata : Dict) : Bool :=
  ((extractUsage n coderResult).bind fun usage => accumulate n (loadIssueSpend metadata) usage 1).isSome &&
    t.load.returns && t.read.returns && t.update.returns

/-- Nothing stops the pass between the repair run and its record, and there is a row. -/
def recordsSend (p : RepairPass) (w : World) : Bool :=
  w.metadata.isSome && survives p.create && (!p.create.returns || survives p.execute) &&
    spendReturns n p.spend (seenResponses p) (w.metadata.getD []) && records p.persist

/-- Nothing stops the pass between the decision to escalate and its record, and there is a
row. -/
def recordsEscalation (p : RepairPass) (w : World) (pullRequest : Dict) (reason : String) : Bool :=
  w.metadata.isSome && (escalatedPr p pullRequest reason).isSome && p.handOver.returns && records p.persist

/-- What is decided and done is recorded. -/
def PassRecords (w : World) (p : RepairPass) (pullRequest : Dict) : Prop :=
  reachesGate p = true →
    match passDecision n cfg p (w.metadata.getD []) (w.metadata.getD []) with
    | some (.proceed, b, _) => sends p b = true → recordsSend n p w = true
    | some (.escalate, _, reason) => recordsEscalation p w pullRequest reason = true
    | _ => True

/-- A tick records what its pass does, and other writers leave the breaker as it is. -/
def Records (w : World) : Event → Prop
  | .write metadata => recorded n { w with metadata := metadata } = recorded n w
  | .refresh t => ∀ existing pr, existingLifecycle (load w) = some existing → existing ≠ [] →
      refreshPullRequestLifecycle n cfg t.fetch t.payload existing = .ok (.read pr) →
      pr.lifecycleState ∈ [LifecycleState.needsRepair, .conflicted] → t.persist.returns = true →
      PassRecords n cfg w t.pass (Refreshed.toDict t (.read pr))

end

/-! ## What leaves the breaker and the deeds -/

section
variable {n : Numbers} {cfg : Config} {runId : String} {w : World} {r : Option Breaker} {deeds : List Deed} {a : Assignments}

theorem recorded_remap {f : Dict → Dict} (hf : ∀ d : Dict, (f d).get breakerKey = d.get breakerKey) :
    recorded n (w.remap f) = recorded n w := by
  unfold recorded World.remap
  cases w.metadata with
  | none => rfl
  | some d => simp [hf]

/-- A property of the breaker recorded and of the deeds alone. -/
def OfCounts (n : Numbers) (P : World → Prop) : Prop :=
  ∀ s s', recorded n s' = recorded n s → s'.deeds = s.deeds → P s → P s'

/-- Assignments that leave the breaker. -/
theorem harmless_of_metadata {P : World → Prop} (hP : OfCounts n P)
    (hf : ∀ d : Dict, (a.metadata d).get breakerKey = d.get breakerKey) : Harmless P a where
  blackboard s hs := hP s _ rfl rfl hs
  save s _ hs := hP s _ rfl rfl hs
  status s hs := hP s _ rfl rfl hs
  write s hs := hP s _ rfl rfl hs
  metadata s hs := hP s _ (recorded_remap hf) rfl hs

theorem harmless_entry {P : World → Prop} (hP : OfCounts n P) (key : String) (value : Dict) (hkey : key ≠ breakerKey) :
    Harmless P (entryAssignments key value) :=
  harmless_of_metadata hP fun d => by simp [entryAssignments, hkey]

theorem keeps_persistLifecycle {P : World → Prop} (hP : OfCounts n P) (t : PersistMoments) (l : Dict) :
    Keeps P (persistPullRequestLifecycle n t l) :=
  Effects.Keeps.get_bind fun _ _ => Keeps.persist (harmless_of_metadata hP fun d => by
    simp [lifecycleAssignments, lifecycleKey, breakerKey])

/-! ## A pass that records its breaker -/

/-- The breaker recorded is the old one or the new one. -/
structure Counts (n : Numbers) (r : Option Breaker) (b : Breaker) (deeds : List Deed) (w : World) : Prop where
  breaker : recorded n w = r ∨ recorded n w = some b
  deeds : w.deeds = deeds

theorem ofCounts_counts {b : Breaker} : OfCounts n (Counts n r b deeds) := by
  intro s s' hr hd hs
  exact ⟨by rw [hr]; exact hs.breaker, hd.trans hs.deeds⟩

theorem recorded_repair (repair : Dict) (b : Breaker) (hrow : w.metadata.isSome = true) :
    recorded n (w.remap (repairAssignments repair (some b)).metadata) = some b := by
  obtain ⟨d, hd⟩ := Option.isSome_iff_exists.mp hrow
  have htruthy : (Json.obj b.toDict).truthy = true := rfl
  simp [recorded, World.remap, hd, repairAssignments, Json.or_of_truthy htruthy, readBreaker_toDict]

theorem harmless_repair (repair : Dict) (b : Breaker) :
    Harmless (Counts n r b deeds) (repairAssignments repair (some b)) where
  blackboard _ hs := { hs with }
  save _ _ hs := { hs with }
  status _ hs := { hs with }
  write _ hs := { hs with }
  metadata s hs := by
    refine { hs with breaker := ?_ }
    cases hrow : s.metadata.isSome with
    | true => exact .inr (recorded_repair repair b hrow)
    | false =>
      have hnone : s.metadata = none := by simpa using hrow
      have hsame : s.remap (repairAssignments repair (some b)).metadata = s := by
        unfold World.remap
        rw [hnone]
        cases s
        subst hnone
        rfl
      rw [hsame]
      exact hs.breaker

theorem keeps_counts_spend {b : Breaker} (t : SpendMoments) (coderResult : Dict) :
    Keeps (Counts n r b deeds) (recordCoderSpend n t coderResult) := by
  refine Keeps.recordCoderSpend fun s v hs => { hs with breaker := ?_ }
  rw [recorded_remap (f := fun d => d.set issueSpendKey (.obj v)) fun d => by simp [issueSpendKey, breakerKey]]
  exact hs.breaker

/-- A persisting step that records leaves its breaker in the metadata. -/
theorem persist_records {t : PersistMoments} (h : records t = true) (repair : Dict) (b : Breaker)
    (hrow : w.metadata.isSome = true) :
    recorded n (endState (persist t (repairAssignments repair (some b)) w)) = some b := by
  simp only [records, Bool.and_eq_true] at h
  obtain ⟨⟨⟨hsave, hwrite⟩, hread⟩, hupdate⟩ := h
  rw [endState_persist]
  simp only [hsave, if_true, persistRest]
  rw [endState_modify_bind, writeStatus, endState_effect_bind, if_pos hwrite, endState_getMetadata_bind, if_pos hread,
    updateMetadata, endState_effect, if_pos hupdate]
  exact recorded_repair (w := { w with }) repair b hrow

/-! ## The calls to the engine -/

/-- What `excOf` makes of a call: it returned, it raised, or it was the end. -/
inductive Attempted (m : Moment) (f : World → World) (w : World) : EStateM.Result Stop World (Option Exc) → Prop where
  | returned : m.returns = true → m.lands = true → Attempted m f w (.ok none (f w))
  | raised (e : Exc) : m.returns = false → survives m = true →
      Attempted m f w (.ok (some e) (if m.lands then f w else w))
  | ended : survives m = false → Attempted m f w (.error .crash (if m.lands then f w else w))

theorem excOf_effect (m : Moment) (f : World → World) (w : World) : Attempted m f w (excOf (effect m f) w) := by
  cases hf : m.fault with
  | none =>
    have hret : m.returns = true := by simp [Moment.returns, hf]
    have hrun : excOf (effect m f) w = .ok none (f w) := catchExc_ok (run_bind_ok (effect_returns hret))
    rw [hrun]
    exact .returned hret (lands_of_returns hret)
  | some fault =>
    have hret : m.returns = false := by simp [Moment.returns, hf]
    have heffect : effect m f w = .error fault.stop (if m.lands then f w else w) := by
      simp only [effect, Moment.lands, hf]
    cases hs : fault.stop with
    | raised e =>
      rw [hs] at heffect
      have hrun : excOf (effect m f) w = .ok (some e) (if m.lands then f w else w) :=
        catchExc_raised (run_bind_error heffect)
      rw [hrun]
      exact .raised e hret (by simp [survives, hf, hs])
    | crash =>
      rw [hs] at heffect
      have hrun : excOf (effect m f) w = .error .crash (if m.lands then f w else w) :=
        catchExc_crash (run_bind_error heffect)
      rw [hrun]
      exact .ended (by simp [survives, hf, hs])

theorem endState_excOf (m : Moment) (f : World → World) (w : World) :
    endState (excOf (effect m f) w) = if m.lands then f w else w := by
  generalize hr : excOf (effect m f) w = result
  have h := excOf_effect m f w
  rw [hr] at h
  cases h with
  | returned _ hlands => rw [if_pos hlands]; rfl
  | raised e _ _ => rfl
  | ended _ => rfl

theorem addComment_run (m : Moment) (w : World) :
    addComment m w = if survives m then .ok () w else .error .crash w := by
  cases hf : m.fault with
  | none =>
    have hret : m.returns = true := by simp [Moment.returns, hf]
    have hsurvives : survives m = true := by simp [survives, hf]
    rw [if_pos hsurvives]
    exact catchExc_ok (call_returns hret)
  | some fault =>
    have hcall : call m w = .error fault.stop w := by simp [call, effect, hf]
    cases hs : fault.stop with
    | raised e =>
      rw [hs] at hcall
      have hsurvives : survives m = true := by simp [survives, hf, hs]
      rw [if_pos hsurvives]
      exact catchExc_raised hcall
    | crash =>
      rw [hs] at hcall
      have hsurvives : ¬ survives m = true := by simp [survives, hf, hs]
      rw [if_neg hsurvives]
      exact catchExc_crash hcall

theorem startComment_run (p : RepairPass) (b : Breaker) (w : World) :
    startComment p b w = if (decide (1 < b.attempts) || survives p.comment) = true then .ok () w else .error .crash w := by
  unfold startComment
  by_cases hb : b.attempts ≤ 1
  · have hb' : decide (1 < b.attempts) = false := decide_eq_false (by omega)
    rw [if_pos hb, hb', Bool.false_or]
    exact addComment_run p.comment w
  · have hb' : decide (1 < b.attempts) = true := decide_eq_true (by omega)
    rw [if_neg hb, hb', Bool.true_or, if_pos rfl]
    rfl

/-- The state behind the call that creates the repair run. -/
def sent (p : RepairPass) (repairRunId : String) (w : World) : World :=
  if p.create.lands then { w with deeds := w.deeds ++ [.created repairRunId] } else w

theorem sent_recorded (p : RepairPass) (repairRunId : String) (w : World) :
    recorded n (sent p repairRunId w) = recorded n w := by
  unfold sent
  split <;> rfl

theorem sent_metadata (p : RepairPass) (repairRunId : String) (w : World) : (sent p repairRunId w).metadata = w.metadata := by
  unfold sent
  split <;> rfl

/-- Whatever becomes of the calls, they leave the state behind the creation. -/
theorem endState_dispatch (p : RepairPass) (repair : Dict) (repairRunId : String) (maxAttempts : Int) (b : Breaker)
    (w : World) : endState (dispatch p repair repairRunId maxAttempts b w) = sent p repairRunId w := by
  unfold dispatch
  apply Effects.Keeps.endState_bind (P := fun u => u = sent p repairRunId w) _ (endState_excOf _ _ _)
  intro created
  cases created with
  | some e => exact Effects.Keeps.pure _
  | none =>
    refine Effects.Keeps.bind (Keeps.excOf Keeps.call) fun executed => ?_
    cases executed <;> exact Effects.Keeps.pure _

/-- Calls that do not end the supervisor leave the responses they saw. -/
theorem dispatch_returns {p : RepairPass} (hcreate : survives p.create = true)
    (hexecute : (!p.create.returns || survives p.execute) = true) (repair : Dict) (repairRunId : String)
    (maxAttempts : Int) (b : Breaker) (w : World) :
    ∃ repair' c e, dispatch p repair repairRunId maxAttempts b w = .ok (repair', c, e) (sent p repairRunId w) ∧
      [("create_response", responseDict c), ("execute_response", responseDict e)] = seenResponses p := by
  have hsent := excOf_effect p.create (fun w => { w with deeds := w.deeds ++ [.created repairRunId] }) w
  generalize hr : excOf (effect p.create (fun w => { w with deeds := w.deeds ++ [.created repairRunId] })) w = created at hsent
  cases hsent with
  | ended hdead =>
    rw [hcreate] at hdead
    cases hdead
  | raised e hret _ =>
    refine ⟨_, _, _, (run_bind_ok hr).trans rfl, ?_⟩
    simp [seenResponses, hret]
  | returned hret hlands =>
    have hstate : sent p repairRunId w = { w with deeds := w.deeds ++ [.created repairRunId] } := if_pos hlands
    rw [hret, Bool.not_true, Bool.false_or] at hexecute
    have hran := excOf_effect p.execute id (sent p repairRunId w)
    generalize hx : excOf (effect p.execute id) (sent p repairRunId w) = executed at hran
    rw [← hstate] at hr
    cases hran with
    | ended hdead =>
      rw [hexecute] at hdead
      cases hdead
    | raised e hxret _ =>
      simp only [id_eq, ite_self] at hx
      refine ⟨_, _, _, (run_bind_ok hr).trans ((run_bind_ok hx).trans rfl), ?_⟩
      simp [seenResponses, hret, hxret]
    | returned hxret _ =>
      refine ⟨_, _, _, (run_bind_ok hr).trans ((run_bind_ok hx).trans rfl), ?_⟩
      simp [seenResponses, hret, hxret]

theorem recordCoderSpend_returns {t : SpendMoments} {coderResult : Dict}
    (h : spendReturns n t coderResult (w.metadata.getD []) = true) :
    ∃ spend, recordCoderSpend n t coderResult w =
      .ok spend (w.remap fun d => d.set issueSpendKey (.obj spend.toDict)) := by
  simp only [spendReturns, Bool.and_eq_true] at h
  obtain ⟨⟨⟨hsome, hload⟩, hread⟩, hupdate⟩ := h
  obtain ⟨spend, hspend⟩ := Option.isSome_iff_exists.mp hsome
  obtain ⟨usage, husage, hacc⟩ := Option.bind_eq_some_iff.mp hspend
  refine ⟨spend, ?_⟩
  unfold recordCoderSpend
  rw [husage]
  refine (run_bind_ok rfl).trans ((run_bind_ok (getMetadata_returns hload)).trans ?_)
  rw [hacc]
  refine (run_bind_ok rfl).trans ((run_bind_ok (getMetadata_returns hread)).trans ?_)
  exact (run_bind_ok (effect_returns hupdate)).trans rfl

/-! ## One pass -/

/-- What a pass leaves: the breaker recorded is the old one or the new one, and the deeds are
those it did; what it recorded as it should is the new one. -/
structure Leaves (n : Numbers) (w u : World) (b : Breaker) (deeds : List Deed) (must : Prop) : Prop extends
    Counts n (recorded n w) b (w.deeds ++ deeds) u where
  must : must → recorded n u = some b

theorem proceed_leaves (p : RepairPass) (repair : Dict) (repairRunId : String) (b : Breaker) (w : World) :
    Leaves n w (endState (proceed n cfg p repair repairRunId b w)) b (if sends p b then [.created repairRunId] else [])
      (sends p b = true ∧ recordsSend n p w = true) := by
  unfold proceed
  have hcomment := startComment_run p b w
  cases hstart : decide (1 < b.attempts) || survives p.comment with
  | false =>
    have hsends : sends p b = false := by rw [sends, hstart, Bool.false_and]
    rw [hstart, if_neg Bool.false_ne_true] at hcomment
    rw [run_bind_error hcomment, hsends]
    refine ⟨⟨.inl rfl, (List.append_nil _).symm⟩, fun h => by cases h.1⟩
  | true =>
    have hsends : sends p b = p.create.lands := by rw [sends, hstart, Bool.true_and]
    rw [hstart, if_pos rfl] at hcomment
    rw [run_bind_ok hcomment, hsends]
    have hdeeds : (sent p repairRunId w).deeds = w.deeds ++ if p.create.lands = true then [.created repairRunId] else [] := by
      unfold sent
      split <;> simp
    have hsent : Counts n (recorded n w) b (w.deeds ++ if p.create.lands = true then [.created repairRunId] else [])
        (sent p repairRunId w) := ⟨.inl (sent_recorded p repairRunId w), hdeeds⟩
    refine ⟨Effects.Keeps.endState_bind (fun d => ?_) (by rw [endState_dispatch]; exact hsent), ?_⟩
    · refine Effects.Keeps.bind (keeps_counts_spend _ _) fun spend => ?_
      refine Effects.Keeps.bind (Keeps.persist (harmless_repair _ b)) fun _ => ?_
      exact Effects.Keeps.bind Keeps.call fun _ => Effects.Keeps.pure _
    · rintro ⟨-, hrecords⟩
      simp only [recordsSend, Bool.and_eq_true] at hrecords
      obtain ⟨⟨⟨⟨hrow, hcreate⟩, hexecute⟩, hspend⟩, hpersist⟩ := hrecords
      obtain ⟨repair', c, e, hrun, hseen⟩ := dispatch_returns hcreate hexecute repair repairRunId cfg.gate.maxAttempts b w
      rw [← sent_metadata p repairRunId w] at hspend hrow
      rw [← hseen] at hspend
      obtain ⟨spend, hspent⟩ := recordCoderSpend_returns hspend
      rw [run_bind_ok hrun]
      have hrow' : ((sent p repairRunId w).remap fun d => d.set issueSpendKey (.obj spend.toDict)).metadata.isSome = true := by
        simpa [World.remap] using hrow
      have hend := persist_records (n := n) hpersist (Dict.set repair' "issue_spend" (.obj spend.toDict)) b hrow'
      change recorded n (endState ((recordCoderSpend n p.spend _ >>= _) _)) = some b
      rw [run_bind_ok hspent]
      exact Effects.Keeps.endState_bind (P := fun u => recorded n u = some b)
        (fun _ => Effects.Keeps.bind Keeps.call fun _ => Effects.Keeps.pure _) hend

theorem deferPass_leaves (p : RepairPass) (repair : Dict) (b : Breaker) (w : World) :
    Leaves n w (endState (deferPass p repair b w)) b [] False := by
  have hkeeps : Keeps (Counts n (recorded n w) b (w.deeds ++ [])) (deferPass p repair b) := by
    refine Effects.Keeps.bind (Keeps.persist (harmless_repair _ b)) fun _ => ?_
    exact Effects.Keeps.bind Keeps.call fun _ => Effects.Keeps.pure _
  exact ⟨hkeeps.endState ⟨.inl rfl, (List.append_nil _).symm⟩, fun h => h.elim⟩

theorem keeps_closeEscalation (p : RepairPass) (repair : Dict) (b : Breaker) (first : Bool) :
    Keeps (Counts n r b deeds) (closeEscalation p repair b first) := by
  refine Effects.Keeps.bind (Keeps.persist (harmless_repair _ b)) fun _ => ?_
  exact Effects.Keeps.bind Keeps.escalationNotice fun _ => Effects.Keeps.pure _

/-- The state behind a decision to escalate. -/
def noted (w : World) : World := { w with deeds := w.deeds ++ [.escalated] }

theorem escalatePass_leaves (p : RepairPass) (pullRequest repair : Dict) (b : Breaker) (reason : String) (first : Bool)
    (w : World) : Leaves n w (endState (escalatePass n p pullRequest repair b reason first w)) b [.escalated]
      (recordsEscalation p w pullRequest reason = true) := by
  have hrun : endState (escalatePass n p pullRequest repair b reason first w) =
      (escalatedPr p pullRequest reason).elim (noted w) fun pr => endState ((do
        persistPullRequestLifecycle n p.handOver pr
        closeEscalation p (escalatedRecord p repair b reason) b first) (noted w)) :=
    endState_orRaise_bind typeError (escalatedPr p pullRequest reason) _ _
  have hnoted : Counts n (recorded n w) b (w.deeds ++ [.escalated]) (noted w) := ⟨.inl rfl, rfl⟩
  rw [hrun]
  cases hpr : escalatedPr p pullRequest reason with
  | none =>
    refine ⟨hnoted, fun h => ?_⟩
    simp [recordsEscalation, hpr] at h
  | some pr =>
    refine ⟨?_, fun h => ?_⟩
    · exact Effects.Keeps.endState_bind (fun _ => keeps_closeEscalation _ _ b first)
        ((keeps_persistLifecycle ofCounts_counts p.handOver pr).endState hnoted)
    · simp only [recordsEscalation, Bool.and_eq_true] at h
      obtain ⟨⟨⟨hrow, -⟩, hhand⟩, hpersist⟩ := h
      have hrow' : ∀ url, (persisted p.handOver (lifecycleAssignments url pr) (noted w)).metadata.isSome = true :=
        fun url => by simpa [persisted, noted] using hrow
      simp only [Option.elim_some]
      rw [endState_persistLifecycle_bind, if_pos hhand]
      exact Effects.Keeps.endState_bind (P := fun u => recorded n u = some b)
        (fun _ => Effects.Keeps.bind Keeps.escalationNotice fun _ => Effects.Keeps.pure _)
        (persist_records hpersist _ b (hrow' _))

/-- The deeds of a decision. -/
def deedsOf (p : RepairPass) (repairRunId : String) : Decision × Breaker × String → List Deed
  | (.proceed, b, _) => if sends p b then [.created repairRunId] else []
  | (.defer, _, _) => []
  | _ => [.escalated]

/-- What has to be recorded of a decision is. -/
def mustRecord (n : Numbers) (p : RepairPass) (w : World) (pullRequest : Dict) : Decision × Breaker × String → Prop
  | (.proceed, b, _) => sends p b = true ∧ recordsSend n p w = true
  | (.escalate, _, reason) => recordsEscalation p w pullRequest reason = true
  | _ => False

theorem actOn_leaves (p : RepairPass) (pullRequest repair : Dict) (d : Decision × Breaker × String) (w : World) :
    Leaves n w (endState (actOn n cfg runId p pullRequest repair d w)) d.2.1
      (deedsOf p (runId ++ "-repair-" ++ toString p.repairIdMs) d) (mustRecord n p w pullRequest d) := by
  obtain ⟨decision, b, reason⟩ := d
  cases decision with
  | proceed => exact proceed_leaves p repair _ b w
  | defer => exact deferPass_leaves p repair b w
  | escalate => exact escalatePass_leaves p pullRequest repair b reason true w
  | skip =>
    have h := escalatePass_leaves (n := n) p pullRequest repair b reason false w
    exact ⟨h.toCounts, fun hmust => hmust.elim⟩

/-! ## The invariant -/

/-- The breaker recorded counts every repair run, stays below the cap, and knows of the
escalation, behind which no run was created. -/
structure Sound (n : Numbers) (cfg : Config) (b : Breaker) (w : World) : Prop where
  recorded : RepairBound.recorded n w = some b
  counted : (createdRuns w.deeds : Int) ≤ b.attempts
  capped : b.attempts ≤ cfg.gate.maxAttempts
  told : .escalated ∈ w.deeds → b.escalated = true
  ended : createdRuns (afterEscalation w.deeds) = 0

def IsSound (n : Numbers) (cfg : Config) (w : World) : Prop := ∃ b, Sound n cfg b w

theorem ofCounts_isSound : OfCounts n (IsSound n cfg) := by
  rintro s s' hr hd ⟨b, hs⟩
  exact ⟨b, hr.trans hs.recorded, hd ▸ hs.counted, hs.capped, hd ▸ hs.told, hd ▸ hs.ended⟩

theorem createdRuns_append (ds es : List Deed) : createdRuns (ds ++ es) = createdRuns ds + createdRuns es := by
  simp [createdRuns]

/-- An escalation changes nothing about the runs behind the first one. -/
theorem afterEscalation_escalated (ds : List Deed) :
    createdRuns (afterEscalation (ds ++ [.escalated])) = createdRuns (afterEscalation ds) := by
  induction ds with
  | nil => rfl
  | cons d ds ih =>
    cases d with
    | created id => exact ih
    | escalated => exact createdRuns_append (.escalated :: ds) [.escalated]

theorem afterEscalation_none {ds : List Deed} (h : .escalated ∉ ds) : createdRuns (afterEscalation ds) = 0 := by
  have hnil : afterEscalation ds = [] := by
    refine List.dropWhile_eq_nil_iff.mpr fun d hd => decide_eq_true ?_
    rintro rfl
    exact h hd
  rw [hnil]
  rfl

/-- What a pass leaves is sound, when what has to be recorded is. -/
theorem sound_of_leaves {p : RepairPass} {b₀ b : Breaker} {decision : Decision} {reason repairRunId : String} {u : World}
    {must : Prop} (hw : Sound n cfg b₀ w) (hd : Decided cfg.gate b₀ b decision)
    (hl : Leaves n w u b (deedsOf p repairRunId (decision, b, reason)) must)
    (hsend : decision = .proceed → sends p b = true → must) (hescalate : decision = .escalate → must) :
    IsSound n cfg u := by
  have hrec := hl.breaker
  have hdeeds := hl.deeds
  rw [hw.recorded] at hrec
  cases hd with
  | skip hold hnew hsame =>
    have hcount : createdRuns u.deeds = createdRuns w.deeds := by
      rw [hdeeds, createdRuns_append]
      rfl
    have hafter : createdRuns (afterEscalation u.deeds) = 0 := by
      rw [hdeeds]
      exact (afterEscalation_escalated _).trans hw.ended
    obtain hrec | hrec := hrec
    · exact ⟨b₀, hrec, hcount ▸ hw.counted, hw.capped, fun _ => hold, hafter⟩
    · exact ⟨b, hrec, hsame ▸ hcount ▸ hw.counted, hsame ▸ hw.capped, fun _ => hnew, hafter⟩
  | escalate hold hnew hsame =>
    have hcount : createdRuns u.deeds = createdRuns w.deeds := by
      rw [hdeeds, createdRuns_append]
      rfl
    have hafter : createdRuns (afterEscalation u.deeds) = 0 := by
      rw [hdeeds]
      exact (afterEscalation_escalated _).trans hw.ended
    exact ⟨b, hl.must (hescalate rfl), hsame ▸ hcount ▸ hw.counted, hsame ▸ hw.capped, fun _ => hnew, hafter⟩
  | defer hold hsame =>
    subst hsame
    have hdeeds' : u.deeds = w.deeds := hdeeds.trans (List.append_nil _)
    have hrec' : recorded n u = some b := hrec.elim id id
    exact ⟨b, hrec', hdeeds' ▸ hw.counted, hw.capped, hdeeds' ▸ hw.told, hdeeds' ▸ hw.ended⟩
  | proceed hold hless hnew hnext =>
    have hquiet : .escalated ∉ w.deeds := fun hmem => by
      rw [hw.told hmem] at hold
      cases hold
    have hcounted := hw.counted
    cases hs : sends p b with
    | true =>
      have hdeeds' : u.deeds = w.deeds ++ [.created repairRunId] := by
        rw [hdeeds, deedsOf, hs, if_pos rfl]
      have hquiet' : .escalated ∉ u.deeds := by
        rw [hdeeds']
        simpa using hquiet
      have hcount : createdRuns u.deeds = createdRuns w.deeds + 1 := by
        rw [hdeeds', createdRuns_append]
        rfl
      exact ⟨b, hl.must (hsend rfl hs), by rw [hcount]; omega, by omega, fun hmem => absurd hmem hquiet',
        afterEscalation_none hquiet'⟩
    | false =>
      have hdeeds' : u.deeds = w.deeds := by
        rw [hdeeds, deedsOf, hs, if_neg Bool.false_ne_true, List.append_nil]
      obtain hrec | hrec := hrec
      · exact ⟨b₀, hrec, hdeeds' ▸ hw.counted, hw.capped, hdeeds' ▸ hw.told, hdeeds' ▸ hw.ended⟩
      · refine ⟨b, hrec, ?_, by omega, fun hmem => absurd (hdeeds' ▸ hmem) hquiet, hdeeds' ▸ hw.ended⟩
        rw [hdeeds']
        omega

/-! ## One tick -/

theorem keeps_updatePrBranch {P : World → Prop} (hP : OfCounts n P) (t : Rebase) (pullRequest : Dict) :
    Keeps P (updatePrBranchForRun n cfg t pullRequest) := by
  have hbranch : Keeps P (updatePullRequestBranch n cfg t pullRequest) := by
    unfold updatePullRequestBranch
    split
    · exact Effects.Keeps.pure _
    · exact Effects.Keeps.bind Keeps.call fun _ => Effects.Keeps.pure _
  refine Effects.Keeps.bind (Keeps.catchExc hbranch fun _ => Effects.Keeps.pure _) fun answer => ?_
  refine Effects.Keeps.bind (Keeps.persist (harmless_entry hP _ _ (by decide))) fun _ => ?_
  exact Effects.Keeps.bind Keeps.call fun _ => Effects.Keeps.pure _

theorem keeps_guardedMerge {P : World → Prop} (t : Merge) (pr : PullRequest) (pullRequest approvals : Dict) :
    Keeps P (guardedMerge n cfg t pr pullRequest approvals) := by
  unfold guardedMerge
  split
  · exact Effects.Keeps.raise _
  · exact Effects.Keeps.pure _
  · exact Effects.Keeps.pure _
  · refine Effects.Keeps.bind Keeps.call fun _ => Effects.Keeps.bind ?_ fun _ => Effects.Keeps.pure _
    unfold branchDeletion
    split
    · exact Effects.Keeps.pure _
    · exact Effects.Keeps.bind Keeps.call fun _ => Effects.Keeps.pure _
    · exact Effects.Keeps.pure _

theorem keeps_maybeAutoMergePr {P : World → Prop} (hP : OfCounts n P) (t : Merge) (pr : PullRequest) (pullRequest : Dict) :
    Keeps P (maybeAutoMergePr n cfg t pr pullRequest) := by
  unfold maybeAutoMergePr
  split
  · exact Effects.Keeps.pure _
  · refine Effects.Keeps.get_bind fun s _ => ?_
    refine Effects.Keeps.bind (Keeps.catchExc (keeps_guardedMerge t pr pullRequest _) fun _ => Effects.Keeps.pure _)
      fun answer => ?_
    refine Effects.Keeps.bind (Keeps.persist (harmless_entry hP _ _ (by decide))) fun _ => ?_
    refine Effects.Keeps.bind Keeps.call fun _ => Effects.Keeps.bind ?_ fun _ => Effects.Keeps.pure _
    unfold closeMerge
    split
    · exact Effects.Keeps.bind (keeps_persistLifecycle hP _ _) fun _ => Keeps.call
    · exact Effects.Keeps.pure _

/-- A pass that records what it does leaves a sound state. -/
theorem startPrRepairPass_sound {p : RepairPass} {pullRequest : Dict} (hw : IsSound n cfg w)
    (hrecords : PassRecords n cfg w p pullRequest) :
    IsSound n cfg (endState (startPrRepairPass n cfg runId p pullRequest w)) := by
  unfold startPrRepairPass
  unfold PassRecords reachesGate at hrecords
  rw [endState_call_bind]
  cases hcollect : p.collect.returns with
  | false => simpa using hw
  | true =>
    cases hact : (p.context.get "actionable").truthy with
    | false =>
      have hidle : Keeps (IsSound n cfg) (do
          persist p.persist (repairAssignments (idleRecord n cfg runId p pullRequest) none)
          return idleRecord n cfg runId p pullRequest) := by
        refine Effects.Keeps.bind (Keeps.persist (harmless_of_metadata ofCounts_isSound fun d => ?_)) fun _ => Effects.Keeps.pure _
        simp [repairAssignments, breakerKey]
      simpa using hidle.endState hw
    | true =>
      simp only [if_true, endState_getMetadata_bind, endState_orRaise_bind]
      cases hbreaker : p.readBreaker.returns with
      | false => simpa using hw
      | true =>
        cases hspend : p.readSpend.returns with
        | false => simpa using hw
        | true =>
          rw [hcollect, hact, hbreaker, hspend] at hrecords
          replace hrecords := hrecords rfl
          cases hd : passDecision n cfg p (w.metadata.getD []) (w.metadata.getD []) with
          | none => simpa using hw
          | some d =>
            obtain ⟨decision, b, reason⟩ := d
            rw [hd] at hrecords
            obtain ⟨b₀, hsound⟩ := hw
            obtain ⟨state, hstate, hdecision⟩ := Option.bind_eq_some_iff.mp hd
            obtain ⟨b₁, hb₁, hdecided⟩ := repairDecision_cases hdecision
            obtain rfl : b₁ = b₀ := by
              have h : recorded n w = some b₁ := by rw [recorded, hstate]; exact hb₁
              exact Option.some.inj (h.symm.trans hsound.recorded)
            simp only [if_true, Option.elim_some]
            refine sound_of_leaves hsound hdecided (actOn_leaves p pullRequest (repairRecord cfg runId p pullRequest)
              (decision, b, reason) w) ?_ ?_
            · rintro rfl hs
              exact ⟨hs, hrecords hs⟩
            · rintro rfl
              exact hrecords

theorem passRecords_persisted {t : PersistMoments} {url : String} {l pullRequest : Dict} {p : RepairPass}
    (h : PassRecords n cfg w p pullRequest) :
    PassRecords n cfg (persisted t (lifecycleAssignments url l) w) p pullRequest := by
  have hspend : loadIssueSpend ((persisted t (lifecycleAssignments url l) w).metadata.getD []) =
      loadIssueSpend (w.metadata.getD []) := by
    cases hm : w.metadata <;> simp [persisted, hm, lifecycleAssignments, loadIssueSpend, issueSpendKey, lifecycleKey]
  have hrow : (persisted t (lifecycleAssignments url l) w).metadata.isSome = w.metadata.isSome := by
    simp [persisted]
  unfold PassRecords recordsSend recordsEscalation spendReturns at *
  rw [passDecision_persisted, hspend, hrow]
  exact h

theorem followUp_sound {t : Refresh} {pr : PullRequest} {d : Dict} (hw : IsSound n cfg w)
    (hrecords : pr.lifecycleState ∈ [LifecycleState.needsRepair, .conflicted] → PassRecords n cfg w t.pass d) :
    IsSound n cfg (endState (followUp n cfg runId t pr d w)) := by
  unfold followUp
  cases hs : pr.lifecycleState with
  | needsRebase =>
    exact (Effects.Keeps.bind (keeps_updatePrBranch ofCounts_isSound _ _) fun _ => Effects.Keeps.pure _).endState hw
  | needsRepair =>
    exact Effects.Keeps.endState_bind (fun _ => Effects.Keeps.pure _)
      (startPrRepairPass_sound hw (hrecords (by rw [hs]; decide)))
  | conflicted =>
    exact Effects.Keeps.endState_bind (fun _ => Effects.Keeps.pure _)
      (startPrRepairPass_sound hw (hrecords (by rw [hs]; decide)))
  | readyToMerge =>
    exact (Effects.Keeps.bind (keeps_maybeAutoMergePr ofCounts_isSound _ _ _) fun _ => Effects.Keeps.pure _).endState hw
  | _ => exact hw

theorem refresh_sound {t : Refresh} (hw : IsSound n cfg w) (hrecords : Records n cfg w (.refresh t)) :
    IsSound n cfg (refresh n cfg runId w t) := by
  have hload : IsSound n cfg (load w) := ofCounts_isSound w (load w) rfl rfl hw
  rw [refresh_eq]
  cases hex : existingLifecycle (load w) with
  | none => exact hload
  | some existing =>
    simp only [Option.elim_some, refreshExisting]
    by_cases hnil : existing = []
    · rw [if_pos hnil]
      exact hload
    · rw [if_neg hnil]
      cases hr : refreshPullRequestLifecycle n cfg t.fetch t.payload existing with
      | error stop =>
        cases stop with
        | crash => exact hload
        | raised e =>
          exact Effects.Keeps.endState_bind (fun _ => Effects.Keeps.bind Keeps.call fun _ => Effects.Keeps.pure _)
            ((keeps_persistLifecycle ofCounts_isSound _ _).endState hload)
      | ok refreshed =>
        cases refreshed with
        | missing lifecycle =>
          exact Effects.Keeps.endState_bind (fun _ => keeps_refreshResult t _ _)
            ((keeps_persistLifecycle ofCounts_isSound _ _).endState hload)
        | read pr =>
          change IsSound n cfg (endState ((persistPullRequestLifecycle n t.persist (Refreshed.toDict t (.read pr)) >>= _) _))
          rw [endState_persistLifecycle_bind]
          have hcounts : OfCounts n (IsSound n cfg) := ofCounts_isSound
          have hsaved := (keeps_persistLifecycle hcounts t.persist (Refreshed.toDict t (.read pr))).endState hload
          cases hret : t.persist.returns with
          | false => exact hsaved
          | true =>
            rw [persistLifecycle_eq, persist_returns hret] at hsaved
            refine Effects.Keeps.endState_bind (fun started => keeps_refreshResult t _ started) ?_
            exact followUp_sound hsaved fun hstate =>
              passRecords_persisted (hrecords existing pr hex hnil hr hstate hret)

theorem step_sound {e : Event} (hw : IsSound n cfg w) (hrecords : Records n cfg w e) : IsSound n cfg (step n cfg runId w e) := by
  cases e with
  | refresh t => exact refresh_sound hw hrecords
  | write metadata => exact ofCounts_isSound w _ hrecords rfl hw

/-! ## Every run -/

theorem repairMaxAttempts_pos (value : Int) : 0 < repairMaxAttempts value := by
  unfold repairMaxAttempts positiveOr
  split
  · assumption
  · decide

/-- Without a pass the breaker counts nothing. -/
theorem isSound_of_fresh (h : Fresh w) : IsSound n cfg w := by
  have hmissing : ∀ key, Dict.get ([] : Dict) key = .null := fun _ => rfl
  have hrecorded : recorded n w = some { lastSignature := n.text .null, reason := n.text .null } := by
    have hor : ((w.metadata.getD []).get breakerKey).or (.obj []) = .obj [] := by
      rw [Json.or, h.noBreaker, if_neg Bool.false_ne_true]
    have hint : intField n [] "attempts" = some 0 := n.int_int 0
    have hlast : intField n [] "last_attempt_ms" = some 0 := n.int_int 0
    rw [recorded, hor]
    simp only [Json.asDict, Option.bind_some, readBreaker, hint, hlast, hmissing]
    rfl
  refine ⟨_, hrecorded, ?_, (repairMaxAttempts_pos _).le, ?_, ?_⟩
  · simp [h.noDeeds, createdRuns]
  · simp [h.noDeeds]
  · simp [h.noDeeds, afterEscalation, createdRuns]

theorem bounded_of_isSound (h : IsSound n cfg w) : Bounded cfg w := by
  obtain ⟨b, hs⟩ := h
  have hcounted := hs.counted
  have hcapped := hs.capped
  exact ⟨by omega, hs.ended⟩

/-- Where every tick records what its pass did, the repair runs are bounded and stop with the
escalation. -/
theorem repairs_bounded {start : World} (hstart : Fresh start)
    (hw : GuardedRuns.Reached (step n cfg runId) (Records n cfg) start w) : Bounded cfg w :=
  bounded_of_isSound (hw.invariant (isSound_of_fresh hstart) fun _ _ => step_sound)

end

/-! ## A pass that is cut short -/

instance (cfg : Config) (w : World) : Decidable (Bounded cfg w) :=
  inferInstanceAs (Decidable (_ ∧ _))

/-- A supervisor that sends one repair pass at most. -/
def onePass : Config := { WatchedRequests.supervisorConfig with maxRepairAttempts := 1 }

/-- A request whose checks failed. -/
def failingPayload : Dict :=
  [("number", .int 7), ("state", .str "OPEN"), ("checks_status", .str "FAILURE")]

def failingFeedback : Dict := [("actionable", .bool true), ("pull_request", .obj failingPayload)]

/-- A tick that sends a repair pass. -/
def repairTick (execute : Moment) : Refresh :=
  { payload := failingPayload, pass := { context := failingFeedback, execute := execute } }

/-- A tick that ends between the repair run and its record. -/
def cutShort : Refresh := repairTick { fault := some { stop := .crash } }

/-- Two ticks, and two repair runs where one was allowed. -/
theorem cutShort_unbounded : Fresh WatchedRequests.waitingRun ∧
    (∀ ticks ∈ [[], [Event.refresh cutShort]], ∀ w, w = GuardedRuns.after (step wholeNumbers onePass "run-1")
      WatchedRequests.waitingRun ticks → isPrLifecycleSupervisable wholeNumbers w.statusFile w.blackboardFile = true) ∧
    ¬ Bounded onePass (GuardedRuns.after (step wholeNumbers onePass "run-1") WatchedRequests.waitingRun
      [.refresh cutShort, .refresh cutShort]) := by
  refine ⟨⟨rfl, rfl⟩, ?_, by decide +kernel⟩
  rintro ticks hticks w rfl
  rcases List.mem_pair.mp hticks with rfl | rfl <;> decide +kernel

theorem passRecords_of_send {n : Numbers} {cfg : Config} {w : World} {p : RepairPass} {pullRequest : Dict}
    (hsend : recordsSend n p w = true)
    (hescalate : (passDecision n cfg p (w.metadata.getD []) (w.metadata.getD [])).map Prod.fst ≠ some .escalate) :
    PassRecords n cfg w p pullRequest := by
  intro _
  split
  · exact fun _ => hsend
  · rename_i h
    rw [h] at hescalate
    exact absurd rfl hescalate
  · trivial

theorem repairTick_records : Records wholeNumbers onePass WatchedRequests.waitingRun (.refresh (repairTick {})) := by
  intro existing pr _ _ _ _ _
  exact passRecords_of_send (by decide +kernel) (by decide +kernel)

/-- A tick that sends its pass and records it. -/
theorem repairTick_bounded :
    (step wholeNumbers onePass "run-1" WatchedRequests.waitingRun (.refresh (repairTick {}))).deeds.length = 1 ∧
    Bounded onePass (step wholeNumbers onePass "run-1" WatchedRequests.waitingRun (.refresh (repairTick {}))) := by
  have hfresh : Fresh WatchedRequests.waitingRun := ⟨rfl, rfl⟩
  exact ⟨by decide +kernel, repairs_bounded hfresh (.step _ .init repairTick_records)⟩

end RepairBound
