import TandemAgents.ExternalActions

/-!
# What is left of a complete run

A call of `execute_approved_actions` lists the approved rows of its run once, up to a
limit, and at its end asks for pending, failed and executed rows. It never asks again for
approved ones, so a run is declared complete over rows that were approved meanwhile, or
that were beyond the limit.
-/
namespace CompleteRuns

open KeyedTable PythonText Statements Statements.Prog GuardedRuns ExternalActions

set_option maxRecDepth 20000

/-- What `execute_approved_actions` returns. -/
structure Answer where
  executedCount : Nat
  failedCount : Nat
  pendingCount : Nat
  results : List (Option Approval)
  complete : Bool
  deriving DecidableEq

/-- Where the call is: before its first query, with rows to execute and mark, behind the query for
pending rows, behind the one for failed rows, or done. -/
inductive Stage where
  | idle
  | executing (todo : List Approval) (results : List (Option Approval))
  | pendingSeen (pending : List Approval) (results : List (Option Approval))
  | failedSeen (pending failed : List Approval) (results : List (Option Approval))
  | returned (answer : Answer)
  deriving DecidableEq

/-- The approvals next to a call. -/
structure Watch where
  run : Run
  stage : Stage

/-- A statement of somebody else, or the next step of the call: a query, or an action that ends
in an outcome and its mark. -/
inductive Step where
  | land (e : Event)
  | work (now : Int) (outcome : CallOutcome)

/-- The rows a query of the call can list; a run without a name lists the rows of all runs. -/
def matching (runId : String) (status : ApprovalStatus) (s : Approvals) : List Approval :=
  s.rows.filter (fun r => (orNone runId).all (fun v => decide (r.runId = v)) && decide (r.status = status))

def listRows (runId : String) (status : ApprovalStatus) (s : Approvals) : List Approval :=
  listExternalActionApprovals (orNone runId) (some status) 250 s

/-- The rows the call executes, oldest first. -/
def todoRows (runId : String) (s : Approvals) : List Approval :=
  (listRows runId .approved s).insertionSort (fun a b => a.createdAtMs ≤ b.createdAtMs)

/-- The answer behind the last query. -/
def answerOf (pending failed executed : List Approval) (results : List (Option Approval)) : Answer where
  executedCount := (results.filter (fun r => r.any (fun r => decide (r.status = .executed)))).length
  failedCount := failed.length
  pendingCount := pending.length
  results := results
  complete := pending.isEmpty && failed.isEmpty && !executed.isEmpty

/-- The next step of the call. -/
def Watch.work (runId : String) (w : Watch) (now : Int) (outcome : CallOutcome) : Watch :=
  let s := w.run.approvals
  match w.stage with
  | .idle => { w with stage := .executing (todoRows runId s) [] }
  | .executing (row :: todo) results =>
    let marked := (markOutcome now row.approvalId outcome).run s
    ⟨w.run.update marked.2, .executing todo (results ++ [marked.1.join])⟩
  | .executing [] results => { w with stage := .pendingSeen (listRows runId .pending s) results }
  | .pendingSeen pending results => { w with stage := .failedSeen pending (listRows runId .failed s) results }
  | .failedSeen pending failed results =>
    { w with stage := .returned (answerOf pending failed (listRows runId .executed s) results) }
  | .returned _ => w

/-- The approvals are watched until the call returns. -/
def Watch.step (lower : String → String) (runId : String) (w : Watch) : Step → Watch
  | .land e =>
    match w.stage with
    | .returned _ => w
    | _ => { w with run := w.run.step lower e }
  | .work now outcome => w.work runId now outcome

/-- A row of the run has the status. -/
def HasStatus (runId : String) (status : ApprovalStatus) (s : Approvals) (id : String) : Prop :=
  ∃ r, s.find? id = some r ∧ r.runId = runId ∧ r.status = status

/-- The call has returned a complete run. -/
def Watch.isComplete (w : Watch) : Bool :=
  match w.stage with
  | .returned answer => answer.complete
  | _ => false

/-- A call that returns a complete run leaves no row of it pending, approved or failed. -/
def NothingLeft (runId : String) (w : Watch) : Prop :=
  w.isComplete = true → ∀ status ∈ [ApprovalStatus.pending, .approved, .failed],
    ∀ id, ¬ HasStatus runId status w.run.approvals id

/-- The call has already asked for pending rows. -/
def Stage.pastPending : Stage → Prop
  | .pendingSeen _ _ => True
  | .failedSeen _ _ _ => True
  | _ => False

/-- The call has already asked for failed rows. -/
def Stage.pastFailed : Stage → Prop
  | .failedSeen _ _ _ => True
  | _ => False

/-- The row whose failure another call is about to mark. -/
def failing (h : Run) (i : Nat) : Option String :=
  match h.executors[i]? with
  | some ⟨_, some (approvalId, .raised _)⟩ => some approvalId
  | _ => none

/-- An enqueue that leaves no row of the run pending. -/
def NotQueued (runId : String) (s : Approvals) (x : Request) : Prop :=
  (∀ r ∈ s.holder x.dedupeKey, r.runId = runId → r.status = .executed ∨ r.status = .approved) ∧
    (s.holder x.dedupeKey = none → x.runId ≠ runId)

instance (runId : String) (s : Approvals) (x : Request) : Decidable (NotQueued runId s x) := by
  unfold NotQueued
  infer_instance

/-- The statement approves and retries no row of the run; where the call has asked for pending rows
it enqueues none, and where it has asked for failed ones it marks none as failed. -/
def Quiet (lower : String → String) (runId : String) (w : Watch) : Event → Prop
  | .enqueue _ _ x => w.stage.pastPending → NotQueued runId w.run.approvals x
  | .decide _ approvalId decision _ _ => decisionStatus lower decision = .approved →
      ∀ r ∈ w.run.approvals.rows, isPendingId approvalId r = true → r.runId ≠ runId
  | .approvePending _ run _ _ => run = runId → ∀ r ∈ w.run.approvals.rows, isPendingOf runId r = false
  | .retry _ approvalId _ _ => ∀ r ∈ w.run.approvals.rows, isFailedId approvalId r = true → r.runId ≠ runId
  | .retryFailed _ run _ _ => run = runId → ∀ r ∈ w.run.approvals.rows, isFailedOf runId r = false
  | .markFailed _ approvalId _ _ => w.stage.pastFailed →
      ∀ r ∈ w.run.approvals.rows, r.approvalId = approvalId → r.runId ≠ runId
  | .markNext _ i => w.stage.pastFailed → ∀ approvalId ∈ failing w.run i,
      ∀ r ∈ w.run.approvals.rows, r.approvalId = approvalId → r.runId ≠ runId
  | _ => True

/-- At most 250 rows are approved when the call starts, and what lands during the call is quiet. -/
def Orderly (lower : String → String) (runId : String) (w : Watch) : Step → Prop
  | .work _ _ => w.stage = .idle → (matching runId .approved w.run.approvals).length ≤ 250
  | .land e => w.stage ≠ .idle → Quiet lower runId w e

instance (stage : Stage) : Decidable stage.pastPending := by
  cases stage <;> unfold Stage.pastPending <;> infer_instance

instance (stage : Stage) : Decidable stage.pastFailed := by
  cases stage <;> unfold Stage.pastFailed <;> infer_instance

instance (lower : String → String) (runId : String) : (w : Watch) → (e : Event) → Decidable (Quiet lower runId w e) :=
  fun w e => by apply @Event.casesOn (fun e => Decidable (Quiet lower runId w e)) e <;> intros <;> unfold Quiet <;> infer_instance

instance (lower : String → String) (runId : String) : (w : Watch) → (e : Step) → Decidable (Orderly lower runId w e) :=
  fun w e => by cases e <;> unfold Orderly <;> infer_instance

/-! ## Queries -/

section
variable {runId : String} {status : ApprovalStatus} {s : Approvals}

theorem mem_matching {id : String} (h : HasStatus runId status s id) :
    ∃ r ∈ matching runId status s, r.approvalId = id := by
  obtain ⟨r, hr, hrun, hstatus⟩ := h
  have hid := DedupeTable.find?_key hr
  refine ⟨r, ?_, hid⟩
  rw [matching, List.mem_filter]
  refine ⟨DedupeTable.mem_rows.mpr (hid.symm ▸ hr), ?_⟩
  unfold orNone
  split <;> simp [hrun, hstatus]

theorem listRows_perm (runId : String) (status : ApprovalStatus) (s : Approvals) : ∃ sorted : List Approval, sorted.Perm (matching runId status s) ∧ listRows runId status s = sorted.take 250 :=
  ⟨_, List.perm_insertionSort _ _, rfl⟩

/-- A query that lists nothing found no row. -/
theorem of_listRows_nil (h : listRows runId status s = []) (id : String) : ¬ HasStatus runId status s id := by
  intro hs
  obtain ⟨r, hr, _⟩ := mem_matching hs
  obtain ⟨sorted, hperm, hlist⟩ := listRows_perm runId status s
  rw [hlist] at h
  have hmem := hperm.mem_iff.mpr hr
  cases sorted with
  | nil => cases hmem
  | cons x xs => cases h

/-- Below the limit every approved row of the run is executed. -/
theorem mem_todoRows (hl : (matching runId .approved s).length ≤ 250) {id : String} (h : HasStatus runId .approved s id) :
    id ∈ (todoRows runId s).map (·.approvalId) := by
  obtain ⟨r, hr, hid⟩ := mem_matching h
  obtain ⟨sorted, hperm, hlist⟩ := listRows_perm runId .approved s
  rw [List.mem_map]
  refine ⟨r, ?_, hid⟩
  rw [todoRows, (List.perm_insertionSort _ _).mem_iff, hlist, List.take_of_length_le (by rw [hperm.length_eq]; exact hl)]
  exact hperm.mem_iff.mpr hr

end

/-! ## What lands -/

/-- No row of the run comes to the status. -/
def NoGain (runId : String) (status : ApprovalStatus) (s t : Approvals) : Prop :=
  ∀ id, HasStatus runId status t id → HasStatus runId status s id

section
variable {runId : String} {status : ApprovalStatus} {s : Approvals}

theorem NoGain.refl : NoGain runId status s s := fun _ h => h

theorem noGain_update {p : Approval → Bool} {f : Approval → Approval} {hf : ∀ r, (f r).approvalId = r.approvalId}
    {hd : ∀ r, (f r).dedupeKey = r.dedupeKey} (hrun : ∀ r, (f r).runId = r.runId)
    (h : ∀ r ∈ s.rows, p r = true → r.runId = runId → (f r).status ≠ status) :
    NoGain runId status s (s.update p f hf hd) := by
  rintro id ⟨r', hr', hrun', hstatus⟩
  rw [DedupeTable.find?_update] at hr'
  obtain ⟨r, hr, rfl⟩ := Option.map_eq_some_iff.mp hr'
  by_cases hp : p r = true
  · rw [if_pos hp] at hrun' hstatus
    have hmem := DedupeTable.mem_rows.mpr ((DedupeTable.find?_key hr).symm ▸ hr)
    exact absurd hstatus (h r hmem hp ((hrun r).symm.trans hrun'))
  · rw [if_neg hp] at hrun' hstatus
    exact ⟨r, hr, hrun', hstatus⟩

/-- An enqueue adds pending rows only. -/
theorem noGain_enqueue (now : Int) (approvalId : String) (x : Request)
    (h : status = .pending → NotQueued runId s x) :
    NoGain runId status s ((enqueueExternalActionApproval now approvalId x).run s).2 := by
  rw [run_enqueue]
  cases hi : s.insert (x.row now approvalId) (Approval.requeue now x.content)
      (Approval.requeue_approvalId now x.content) (Approval.requeue_dedupeKey now x.content) with
  | none => exact .refl
  | some t =>
    rw [Option.getD_some]
    rintro id ⟨r', hr', hrun, hstatus⟩
    rcases DedupeTable.insert_eq hi with ⟨r, hr, hfind⟩ | ⟨hnone, -, hfind⟩
    · rw [hfind] at hr'
      split at hr'
      · rename_i hid
        obtain rfl := Option.some.inj hr'
        have hrow := DedupeTable.mem_rows.mp (DedupeTable.holder_some hr).1
        by_cases hkept : r.status = .executed ∨ r.status = .approved
        · rw [Approval.requeue, if_pos hkept] at hstatus
          exact ⟨r, hid ▸ hrow, hrun, hstatus⟩
        · rw [Approval.requeue, if_neg hkept] at hstatus
          exact absurd ((h hstatus.symm).1 r hr hrun) hkept
      · exact ⟨r', hr', hrun, hstatus⟩
    · rw [hfind] at hr'
      split at hr'
      · obtain rfl := Option.some.inj hr'
        exact absurd hrun ((h hstatus.symm).2 hnone)
      · exact ⟨r', hr', hrun, hstatus⟩

/-- A mark moves the row under its id to its status. -/
theorem noGain_mark (now : Int) (approvalId : String) {st : ApprovalStatus} (result : String) (error : Option String)
    (h : st = status → ∀ r ∈ s.rows, r.approvalId = approvalId → r.runId ≠ runId) :
    NoGain runId status s ((markExternalAction now approvalId st result error).run s).2 := by
  rw [run_mark]
  refine noGain_update (fun _ => rfl) fun r hr hp hrun hst => ?_
  exact h hst r hr (of_decide_eq_true hp) hrun

/-- The statuses that the rest of the call does not ask for. -/
def Watched (stage : Stage) (status : ApprovalStatus) : Prop :=
  status = .approved ∨ (status = .pending ∧ stage.pastPending) ∨ (status = .failed ∧ stage.pastFailed)

theorem Watched.cases {stage : Stage} (h : Watched stage status) :
    status ≠ .executed ∧ status ≠ .rejected ∧ (status = .pending → stage.pastPending) ∧
      (status = .failed → stage.pastFailed) := by
  rcases h with rfl | ⟨rfl, h⟩ | ⟨rfl, h⟩
  · simp
  · simp [h]
  · simp [h]

/-- What lands quietly brings no row of the run to a status that is not asked for any more. -/
theorem noGain_land {lower : String → String} {w : Watch} {e : Event} (hq : Quiet lower runId w e)
    (hw : Watched w.stage status) : NoGain runId status w.run.approvals (w.run.step lower e).approvals := by
  obtain ⟨hexecuted, hrejected, hpending, hfailed⟩ := hw.cases
  cases e with
  | enqueue now approvalId x => exact noGain_enqueue now approvalId x fun hst => hq (hpending hst)
  | decide now approvalId decision actor reason =>
    change NoGain runId status _ ((decideExternalActionApproval lower now approvalId decision actor reason).run _).2
    rw [run_decide]
    refine noGain_update (fun _ => rfl) fun r hr hp hrun hst => ?_
    by_cases happroved : decisionStatus lower decision = .approved
    · exact hq happroved r hr hp hrun
    · rw [Approval.decide_status, decisionStatus, if_neg] at hst
      · exact hrejected hst.symm
      · intro hd
        rw [decisionStatus, if_pos hd] at happroved
        exact happroved rfl
  | approvePending now run actor reason =>
    change NoGain runId status _ ((approvePendingExternalActionApprovals now run actor reason).run _).2
    rw [run_approvePending]
    refine noGain_update (fun _ => rfl) fun r hr hp hrun _ => ?_
    obtain rfl : run = runId := (of_decide_eq_true hp).1.symm.trans hrun
    rw [hq rfl r hr] at hp
    cases hp
  | retry now approvalId actor reason =>
    change NoGain runId status _ ((retryExternalActionApproval now approvalId actor reason).run _).2
    rw [run_retry]
    exact noGain_update (fun _ => rfl) fun r hr hp hrun _ => hq r hr hp hrun
  | retryFailed now run actor reason =>
    change NoGain runId status _ ((retryFailedExternalActionApprovals now run actor reason).run _).2
    rw [run_retryFailed]
    refine noGain_update (fun _ => rfl) fun r hr hp hrun _ => ?_
    obtain rfl : run = runId := (of_decide_eq_true hp).1.symm.trans hrun
    rw [hq rfl r hr] at hp
    cases hp
  | markExecuted now approvalId result =>
    exact noGain_mark now approvalId result none fun hst => absurd hst.symm hexecuted
  | markFailed now approvalId error result =>
    exact noGain_mark now approvalId _ _ fun hst => hq (hfailed hst.symm)
  | listApproved run => exact .refl
  | execute i outcome =>
    change NoGain runId status _ (w.run.execute i outcome).approvals
    unfold Run.execute
    split <;> exact .refl
  | markNext now i =>
    change NoGain runId status _ (w.run.markNext now i).approvals
    unfold Run.markNext
    split
    · rename_i todo approvalId outcome hi
      change NoGain runId status _ ((markOutcome now approvalId outcome).run w.run.approvals).2
      rw [run_markOutcome]
      refine noGain_mark now approvalId _ _ fun hst => ?_
      cases outcome with
      | done result => exact absurd hst.symm hexecuted
      | raised error => exact hq (hfailed hst.symm) approvalId (by simp [failing, hi])
    · exact .refl

/-! ## The call -/

/-- What the call knows at each stage. -/
def Known (runId : String) (w : Watch) : Prop :=
  match w.stage with
  | .idle => True
  | .executing todo _ => ∀ id, HasStatus runId .approved w.run.approvals id → id ∈ todo.map (·.approvalId)
  | .pendingSeen pending _ => (∀ id, ¬ HasStatus runId .approved w.run.approvals id) ∧
      (pending = [] → ∀ id, ¬ HasStatus runId .pending w.run.approvals id)
  | .failedSeen pending failed _ => (∀ id, ¬ HasStatus runId .approved w.run.approvals id) ∧
      (pending = [] → ∀ id, ¬ HasStatus runId .pending w.run.approvals id) ∧
      (failed = [] → ∀ id, ¬ HasStatus runId .failed w.run.approvals id)
  | .returned _ => NothingLeft runId w

theorem Known.land {lower : String → String} {w : Watch} (hk : Known runId w) {e : Event}
    (hq : w.stage ≠ .idle → Quiet lower runId w e) : Known runId (w.step lower runId (.land e)) := by
  obtain ⟨run, stage⟩ := w
  cases stage with
  | idle => trivial
  | executing todo results =>
    intro id hid
    exact hk id (noGain_land (hq (by simp)) (.inl rfl) id hid)
  | pendingSeen pending results =>
    obtain ⟨happroved, hpending⟩ := hk
    refine ⟨fun id hid => ?_, fun hnil id hid => ?_⟩
    · exact happroved id (noGain_land (hq (by simp)) (.inl rfl) id hid)
    · exact hpending hnil id (noGain_land (hq (by simp)) (.inr (.inl ⟨rfl, trivial⟩)) id hid)
  | failedSeen pending failed results =>
    obtain ⟨happroved, hpending, hfailed⟩ := hk
    refine ⟨fun id hid => ?_, fun hnil id hid => ?_, fun hnil id hid => ?_⟩
    · exact happroved id (noGain_land (hq (by simp)) (.inl rfl) id hid)
    · exact hpending hnil id (noGain_land (hq (by simp)) (.inr (.inl ⟨rfl, trivial⟩)) id hid)
    · exact hfailed hnil id (noGain_land (hq (by simp)) (.inr (.inr ⟨rfl, trivial⟩)) id hid)
  | returned answer => exact hk

/-- The mark of an action takes its row out of the approved ones. -/
theorem approved_mark (now : Int) (approvalId : String) (outcome : CallOutcome) {id : String}
    (h : HasStatus runId .approved ((markOutcome now approvalId outcome).run s).2 id) :
    id ≠ approvalId ∧ HasStatus runId .approved s id := by
  rw [run_markOutcome, run_mark] at h
  obtain ⟨r', hr', hrun, hst⟩ := h
  rw [DedupeTable.find?_update] at hr'
  obtain ⟨r, hr, rfl⟩ := Option.map_eq_some_iff.mp hr'
  by_cases hp : r.approvalId = approvalId
  · simp only [hp, decide_true, if_true, Approval.settle_status] at hst
    cases outcome <;> cases hst
  · simp only [hp, decide_false, Bool.false_eq_true, if_false] at hrun hst
    exact ⟨fun hid => hp ((DedupeTable.find?_key hr).trans hid), r, hr, hrun, hst⟩

theorem Known.work {w : Watch} (hk : Known runId w) (now : Int) (outcome : CallOutcome)
    (hl : w.stage = .idle → (matching runId .approved w.run.approvals).length ≤ 250) :
    Known runId (w.work runId now outcome) := by
  obtain ⟨run, stage⟩ := w
  cases stage with
  | idle => exact fun id hid => mem_todoRows (hl rfl) hid
  | executing todo results =>
    cases todo with
    | nil =>
      refine ⟨fun id hid => ?_, of_listRows_nil⟩
      cases hk id hid
    | cons row todo =>
      intro id hid
      obtain ⟨hne, hbefore⟩ := approved_mark now row.approvalId outcome hid
      exact (List.mem_cons.mp (hk id hbefore)).resolve_left hne
  | pendingSeen pending results => exact ⟨hk.1, hk.2, of_listRows_nil⟩
  | failedSeen pending failed results =>
    obtain ⟨happroved, hpending, hfailed⟩ := hk
    intro hcomplete status hmem id
    simp only [Watch.isComplete, Watch.work, answerOf, Bool.and_eq_true, List.isEmpty_iff] at hcomplete
    simp only [List.mem_cons, List.not_mem_nil, or_false] at hmem
    rcases hmem with rfl | rfl | rfl
    · exact hpending hcomplete.1.1 id
    · exact happroved id
    · exact hfailed hcomplete.1.2 id
  | returned answer => exact hk

end

theorem Known.nothingLeft {runId : String} {w : Watch} (hk : Known runId w) : NothingLeft runId w := by
  obtain ⟨run, stage⟩ := w
  cases stage with
  | returned answer => exact hk
  | _ => exact fun h => by cases h

/-- A call that starts with at most 250 approved rows, and during which nothing lands that it does
not ask for any more, returns a complete run only when nothing is left. -/
theorem complete_nothing_left {lower : String → String} {runId : String} {h : Run} {w : Watch}
    (hr : Reached (Watch.step lower runId) (Orderly lower runId) ⟨h, .idle⟩ w) : NothingLeft runId w := by
  apply Known.nothingLeft
  refine hr.invariant (I := Known runId) trivial fun w e hk he => ?_
  cases e with
  | land e => exact hk.land he
  | work now outcome => exact hk.work now outcome he

/-! ## Two comments of one run -/

/-- A comment on a pull request, queued for run `r1`. -/
def commentOn (pr : String) : Request where
  runId := "r1"
  taskId := "T1"
  sourceType := "linear"
  adapter := "github_pr"
  actionType := "comment_pr"
  content := ⟨pr, "done", "medium", ""⟩
  dedupeKey := some ("r1:comment_pr:" ++ pr)

/-- The first comment is approved, the second is not. -/
def oneApproved : Run :=
  after (Run.step id) .empty [.enqueue 0 "approval-1" (commentOn "7"), .enqueue 0 "approval-2" (commentOn "8"),
    .decide 10 "approval-1" "approve" "op" ""]

/-- The second is rejected while the call executes the first. -/
def rejectedMeanwhile : List Step :=
  [.work 20 (.done "{}"), .land (.decide 30 "approval-2" "reject" "op" ""), .work 40 (.done "{}"),
    .work 50 (.done "{}"), .work 60 (.done "{}"), .work 70 (.done "{}")]

theorem rejectedMeanwhile_nothing_left :
    NothingLeft "r1" (after (Watch.step id "r1") ⟨oneApproved, .idle⟩ rejectedMeanwhile) :=
  complete_nothing_left (Reached.init.after rejectedMeanwhile (by decide +kernel))

/-- The second is approved while the call executes the first. -/
def approvedMeanwhile : List Step :=
  [.work 20 (.done "{}"), .land (.decide 30 "approval-2" "approve" "op" ""), .work 40 (.done "{}"),
    .work 50 (.done "{}"), .work 60 (.done "{}"), .work 70 (.done "{}")]

/-- The run is complete, and the second comment approved and not executed. -/
theorem approvedMeanwhile_left :
    Reached (Watch.step id "r1") (fun _ _ => True) ⟨oneApproved, .idle⟩
        (after (Watch.step id "r1") ⟨oneApproved, .idle⟩ approvedMeanwhile) ∧
      ¬ NothingLeft "r1" (after (Watch.step id "r1") ⟨oneApproved, .idle⟩ approvedMeanwhile) := by
  refine ⟨Reached.init.after approvedMeanwhile (by decide +kernel), fun h => ?_⟩
  have hcomplete : (after (Watch.step id "r1") ⟨oneApproved, .idle⟩ approvedMeanwhile).isComplete = true := by
    decide +kernel
  have hleft : ((after (Watch.step id "r1") ⟨oneApproved, .idle⟩ approvedMeanwhile).run.approvals.find?
      "approval-2").any (fun r => decide (r.runId = "r1" ∧ r.status = .approved)) = true := by decide +kernel
  obtain ⟨r, hr, hst⟩ := (Option.any_eq_true _ _).mp hleft
  exact h hcomplete .approved (by simp) "approval-2" ⟨r, hr, of_decide_eq_true hst⟩

end CompleteRuns
