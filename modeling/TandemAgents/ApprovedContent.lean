import TandemAgents.ExternalActions

/-!
# Approved means approved

What an adapter call executes should be what the row held when an operator last
approved it. An enqueue replaces the content of an approved row and leaves it
approved, and a failure mark puts any row where a retry approves it without an
operator's look at its content.
-/
namespace ApprovedContent

open KeyedTable PythonText Statements Statements.Prog GuardedRuns ExternalActions

set_option maxRecDepth 20000

/-- Every adapter call executed the content its row was last approved with. -/
def Faithful (h : Run) : Prop := ∀ c ∈ h.calls, c.approved = some c.executed

instance (h : Run) : Decidable (Faithful h) := by unfold Faithful; infer_instance

/-- The rows under an id hold the content they were last approved with. -/
def HoldsApproved (h : Run) (approvalId : String) : Prop :=
  ∀ r ∈ h.approvals.rows, r.approvalId = approvalId → h.lastApproved approvalId = some r.content

/-- The calls under way have the row listed with the content it has now, or not at all. -/
def ListedAs (h : Run) (r : Approval) : Prop :=
  ∀ e ∈ h.executors, ∀ item ∈ e.todo, item.approvalId = r.approvalId → item.content = r.content

instance (h : Run) (id : String) : Decidable (HoldsApproved h id) := by unfold HoldsApproved; infer_instance
instance (h : Run) (r : Approval) : Decidable (ListedAs h r) := by unfold ListedAs; infer_instance

/-- The row whose failure a call is about to mark. -/
def failingRow (h : Run) (i : Nat) : Option String :=
  match h.executors[i]? with
  | some ⟨_, some (approvalId, .raised _)⟩ => some approvalId
  | _ => none

/-- An enqueue leaves the content of approved rows alone, a failure is marked only on a
row that holds what it was approved with, and an approval does not change what a call
under way has listed. -/
def Careful (lower : String → String) (h : Run) : Event → Prop
  | .enqueue _ _ x => ∀ r ∈ h.approvals.holder x.dedupeKey, r.status = .approved → r.content = x.content
  | .decide _ approvalId decision _ _ => decisionStatus lower decision = .approved →
      ∀ r ∈ h.approvals.rows, isPendingId approvalId r = true → ListedAs h r
  | .approvePending _ runId _ _ => ∀ r ∈ h.approvals.rows, isPendingOf runId r = true → ListedAs h r
  | .markFailed _ approvalId _ _ => HoldsApproved h approvalId
  | .markNext _ i => ∀ approvalId ∈ failingRow h i, HoldsApproved h approvalId
  | _ => True

instance (lower : String → String) : (h : Run) → (e : Event) → Decidable (Careful lower h e) := fun h e => by
  cases e <;> unfold Careful <;> infer_instance

/-- Approved and failed rows, the rows a call has listed and the calls so far all go
back to an approval of the content they have. -/
structure Sound (h : Run) : Prop where
  rows : ∀ id r, h.approvals.find? id = some r → r.status = .approved ∨ r.status = .failed →
    h.lastApproved id = some r.content
  todo : ∀ e ∈ h.executors, ∀ item ∈ e.todo, h.lastApproved item.approvalId = some item.content
  calls : Faithful h

theorem sound_empty : Sound Run.empty where
  rows id r h := by simp [Run.empty] at h
  todo e he := by cases he
  calls c hc := by cases hc

/-! ## Operations on the queue -/

theorem noteApproved_of_pending {s t : Approvals} {known : String → Option Content} {id : String} {r r' : Approval}
    (hr : s.find? id = some r) (hr' : t.find? id = some r') (hp : r.status = .pending)
    (ha : r'.status = .approved) : noteApproved s t known id = some r'.content := by
  simp [noteApproved, hr, hr', hp, ha]

/-- The approved content of a row changes with an approval only. -/
theorem noteApproved_eq {s t : Approvals} {known : String → Option Content} {id : String}
    (h : ∀ r r', s.find? id = some r → t.find? id = some r' → r.status = .pending → r'.status ≠ .approved) :
    noteApproved s t known id = known id := by
  unfold noteApproved
  split
  · rename_i r r' hr hr'
    rw [if_neg]
    exact fun hpa => h r r' hr hr' hpa.1 hpa.2
  · rfl

/-- The invariant after a change of the queue: rows that are approved or failed after
it are approved by it or were approved with their content before. -/
theorem Sound.update {h : Run} (hs : Sound h) {t : Approvals}
    (hrows : ∀ id r', t.find? id = some r' → r'.status = .approved ∨ r'.status = .failed →
      h.lastApproved id = some r'.content ∨
        ∃ r, h.approvals.find? id = some r ∧ r.status = .pending ∧ r'.status = .approved)
    (htodo : ∀ id r r', h.approvals.find? id = some r → t.find? id = some r' → r.status = .pending →
      r'.status = .approved → ∀ e ∈ h.executors, ∀ item ∈ e.todo, item.approvalId = id →
        item.content = r'.content) : Sound (h.update t) where
  rows id r' hr' hst := by
    change noteApproved h.approvals t h.lastApproved id = some r'.content
    by_cases hnew : ∃ r, h.approvals.find? id = some r ∧ r.status = .pending ∧ r'.status = .approved
    · obtain ⟨r, hr, hp, ha⟩ := hnew
      exact noteApproved_of_pending hr hr' hp ha
    · rw [noteApproved_eq]
      · exact (hrows id r' hr' hst).resolve_right hnew
      · intro r x hr hx hp ha
        obtain rfl := Option.some.inj (hx.symm.trans hr')
        exact hnew ⟨r, hr, hp, ha⟩
  todo e he item hitem := by
    change noteApproved h.approvals t h.lastApproved item.approvalId = some item.content
    by_cases hnew : ∃ r r', h.approvals.find? item.approvalId = some r ∧ t.find? item.approvalId = some r' ∧
        r.status = .pending ∧ r'.status = .approved
    · obtain ⟨r, r', hr, hr', hp, ha⟩ := hnew
      rw [noteApproved_of_pending hr hr' hp ha, htodo _ r r' hr hr' hp ha e he item hitem rfl]
    · rw [noteApproved_eq]
      · exact hs.todo e he item hitem
      · exact fun r r' hr hr' hp ha => hnew ⟨r, r', hr, hr', hp, ha⟩
  calls := hs.calls

/-- The invariant after an `UPDATE` that leaves the content alone. -/
theorem Sound.updateWhere {h : Run} (hs : Sound h) (p : Approval → Bool) (f : Approval → Approval)
    (hf : ∀ r, (f r).approvalId = r.approvalId) (hd : ∀ r, (f r).dedupeKey = r.dedupeKey)
    (hc : ∀ r, (f r).content = r.content)
    (hst : ∀ id r, h.approvals.find? id = some r → p r = true → (f r).status = .approved ∨ (f r).status = .failed →
      h.lastApproved id = some r.content ∨ (r.status = .pending ∧ (f r).status = .approved))
    (hl : ∀ r ∈ h.approvals.rows, p r = true → r.status = .pending → (f r).status = .approved → ListedAs h r) :
    Sound (h.update (h.approvals.update p f hf hd)) := by
  refine hs.update ?_ ?_
  · intro id r' hr' hset
    rw [DedupeTable.find?_update] at hr'
    obtain ⟨r, hr, rfl⟩ := Option.map_eq_some_iff.mp hr'
    by_cases hp : p r = true
    · simp only [hp, if_true] at hset ⊢
      rw [hc]
      rcases hst id r hr hp hset with hlast | ⟨hpend, happ⟩
      · exact Or.inl hlast
      · exact Or.inr ⟨r, hr, hpend, happ⟩
    · simp only [hp, Bool.false_eq_true, if_false] at hset ⊢
      exact Or.inl (hs.rows id r hr hset)
  · intro id r r' hr hr' hpend happ e he item hitem hid
    rw [DedupeTable.find?_update, hr, Option.map_some] at hr'
    obtain rfl := Option.some.inj hr'
    by_cases hp : p r = true
    · simp only [hp, if_true] at happ ⊢
      have hkey := DedupeTable.find?_key hr
      rw [hc]
      exact hl r (DedupeTable.mem_rows.mpr (hkey ▸ hr)) hp hpend happ e he item hitem (hid.trans hkey.symm)
    · simp only [hp, Bool.false_eq_true, if_false] at happ
      rw [hpend] at happ
      cases happ

theorem Sound.enqueue {h : Run} (hs : Sound h) (now : Int) (approvalId : String) (x : Request)
    (hx : ∀ r ∈ h.approvals.holder x.dedupeKey, r.status = .approved → r.content = x.content) :
    Sound (h.update ((enqueueExternalActionApproval now approvalId x).run h.approvals).2) := by
  rw [run_enqueue]
  cases hi : h.approvals.insert (x.row now approvalId) (Approval.requeue now x.content)
      (Approval.requeue_approvalId now x.content) (Approval.requeue_dedupeKey now x.content) with
  | none =>
    refine hs.update (fun id r' hr' hset => Or.inl (hs.rows id r' hr' hset)) ?_
    intro id r r' hr hr' hp ha
    obtain rfl := Option.some.inj (hr.symm.trans hr')
    rw [hp] at ha
    cases ha
  | some t =>
    rcases DedupeTable.insert_eq hi with ⟨r, hr, hfind⟩ | ⟨-, -, hfind⟩
    · -- the row keeps its status only when it is approved or executed
      have hmem := DedupeTable.mem_rows.mp (DedupeTable.holder_some hr).1
      refine hs.update ?_ ?_
      · intro id r' hr' hset
        rw [Option.getD_some, hfind] at hr'
        split at hr'
        · rename_i hid
          obtain rfl := Option.some.inj hr'
          subst hid
          have happ : r.status = .approved := by
            by_contra hne
            unfold Approval.requeue at hset
            dsimp only at hset
            split at hset <;> simp_all
          rw [Approval.requeue_content, ← hx r hr happ]
          exact Or.inl (hs.rows _ r hmem (Or.inl happ))
        · exact Or.inl (hs.rows id r' hr' hset)
      · intro id q q' hq hq' hp ha
        rw [Option.getD_some, hfind] at hq'
        split at hq'
        · rename_i hid
          obtain rfl := Option.some.inj hq'
          rw [hid, hmem] at hq
          obtain rfl := Option.some.inj hq
          simp [Approval.requeue, hp] at ha
        · obtain rfl := Option.some.inj (hq.symm.trans hq')
          rw [hp] at ha
          cases ha
    · refine hs.update ?_ ?_
      · intro id r' hr' hset
        rw [Option.getD_some, hfind] at hr'
        split at hr'
        · obtain rfl := Option.some.inj hr'
          rcases hset with hset | hset <;> cases hset
        · exact Or.inl (hs.rows id r' hr' hset)
      · intro id q q' hq hq' hp ha
        rw [Option.getD_some, hfind] at hq'
        split at hq'
        · obtain rfl := Option.some.inj hq'
          cases ha
        · obtain rfl := Option.some.inj (hq.symm.trans hq')
          rw [hp] at ha
          cases ha

/-- A retry approves rows that failed, which hold what they were approved with. -/
theorem Sound.retry {h : Run} (hs : Sound h) (p : Approval → Bool) (hp : ∀ r, p r = true → r.status = .failed)
    (now : Int) (actor reason : String) :
    Sound (h.update (h.approvals.update p (Approval.retry now actor reason)
      (Approval.retry_approvalId now actor reason) (Approval.retry_dedupeKey now actor reason))) := by
  refine hs.updateWhere p _ _ _ (Approval.retry_content now actor reason) ?_ ?_
  · exact fun id r hr hpr _ => Or.inl (hs.rows id r hr (Or.inr (hp r hpr)))
  · intro r _ hpr hpend
    rw [hp r hpr] at hpend
    cases hpend

/-- A decision moves pending rows only. -/
theorem Sound.decide {h : Run} (hs : Sound h) (p : Approval → Bool) (hp : ∀ r, p r = true → r.status = .pending)
    (now : Int) (status : ApprovalStatus) (hst : status = .approved ∨ status = .rejected)
    (hl : status = .approved → ∀ r ∈ h.approvals.rows, p r = true → ListedAs h r) (actor reason : String) :
    Sound (h.update (h.approvals.update p (Approval.decide now status actor reason)
      (Approval.decide_approvalId now status actor reason) (Approval.decide_dedupeKey now status actor reason))) := by
  refine hs.updateWhere p _ _ _ (Approval.decide_content now status actor reason) ?_ ?_
  · intro id r _ hpr hset
    rw [Approval.decide_status] at hset ⊢
    rcases hst with rfl | rfl
    · exact Or.inr ⟨hp r hpr, rfl⟩
    · rcases hset with hset | hset <;> cases hset
  · intro r hr hpr _ happ
    exact hl happ r hr hpr

/-- A mark leaves an approved content behind when it fails a row that holds one. -/
theorem Sound.mark {h : Run} (hs : Sound h) (now : Int) (approvalId : String) (outcome : CallOutcome)
    (ho : outcome.status = .failed → HoldsApproved h approvalId) (result : String) (error : Option String) :
    Sound (h.update ((markExternalAction now approvalId outcome.status result error).run h.approvals).2) := by
  rw [run_mark]
  refine hs.updateWhere _ _ _ _ (Approval.settle_content now outcome.status result error) ?_ ?_
  · intro id r hr hpr hset
    rw [Approval.settle_status] at hset
    have hid : r.approvalId = approvalId := by simpa using hpr
    have hkey := DedupeTable.find?_key hr
    cases outcome with
    | done result => rcases hset with hset | hset <;> cases hset
    | raised error =>
      have hlast := ho rfl r (DedupeTable.mem_rows.mpr (hkey ▸ hr)) hid
      rw [← hkey, hid]
      exact Or.inl hlast
  · intro r _ _ _ happ
    rw [Approval.settle_status] at happ
    cases outcome <;> cases happ

/-! ## Calls of `execute_approved_actions` -/

theorem mem_approvedActions {runId : String} {s : Approvals} {r : Approval} (h : r ∈ approvedActions runId s) :
    s.find? r.approvalId = some r ∧ r.status = .approved := by
  simp only [approvedActions, listExternalActionApprovals, (List.perm_insertionSort _ _).mem_iff] at h
  have hmem := (List.perm_insertionSort _ _).mem_iff.mp (List.mem_of_mem_take h)
  rw [List.mem_filter] at hmem
  have hp := hmem.2
  simp only [Option.all_some, Bool.and_eq_true, decide_eq_true_eq] at hp
  exact ⟨DedupeTable.mem_rows.mp hmem.1, hp.2⟩

theorem Sound.listApproved {h : Run} (hs : Sound h) (runId : String) :
    Sound { h with executors := h.executors ++ [⟨approvedActions runId h.approvals, none⟩] } where
  rows := hs.rows
  todo e he item hitem := by
    rcases List.mem_append.mp he with he | he
    · exact hs.todo e he item hitem
    · rw [List.mem_singleton.mp he] at hitem
      obtain ⟨hf, ha⟩ := mem_approvedActions hitem
      exact hs.rows _ item hf (Or.inl ha)
  calls := hs.calls

/-- A call that forgets the head of its list, or nothing. -/
theorem Sound.setExecutor {h : Run} (hs : Sound h) (i : Nat) {e : Executor} (hi : h.executors[i]? = some e)
    (todo : List Approval) (htodo : ∀ item ∈ todo, item ∈ e.todo) (outcome : Option (String × CallOutcome)) :
    Sound { h with executors := h.executors.set i ⟨todo, outcome⟩ } where
  rows := hs.rows
  todo x hx item hitem := by
    rcases List.mem_or_eq_of_mem_set hx with hx | rfl
    · exact hs.todo x hx item hitem
    · exact hs.todo e (List.mem_of_getElem? hi) item (htodo item hitem)
  calls := hs.calls

theorem Sound.execute {h : Run} (hs : Sound h) (i : Nat) (outcome : CallOutcome) : Sound (h.execute i outcome) := by
  unfold Run.execute
  split
  · rename_i row todo hi
    have hrow := hs.todo _ (List.mem_of_getElem? hi) row List.mem_cons_self
    have hset := hs.setExecutor i hi todo (fun item hitem => List.mem_cons_of_mem _ hitem)
      (some (row.approvalId, outcome))
    refine ⟨hset.rows, hset.todo, fun c hc => ?_⟩
    rcases List.mem_append.mp hc with hc | hc
    · exact hs.calls c hc
    · rw [List.mem_singleton.mp hc]
      exact hrow
  · exact hs

theorem Sound.markNext {h : Run} (hs : Sound h) (now : Int) (i : Nat)
    (hc : ∀ approvalId ∈ failingRow h i, HoldsApproved h approvalId) : Sound (h.markNext now i) := by
  unfold Run.markNext
  split
  · rename_i todo approvalId outcome hi
    rw [run_markOutcome]
    refine Sound.setExecutor (hs.mark now approvalId outcome ?_ outcome.result outcome.error) i hi
      todo (fun item hitem => hitem) none
    intro hfail
    refine hc approvalId ?_
    cases outcome with
    | done result => cases hfail
    | raised error =>
      unfold failingRow
      rw [hi]
      rfl
  · exact hs

/-! ## Whole runs -/

theorem decisionStatus_cases (lower : String → String) (decision : String) :
    decisionStatus lower decision = .approved ∨ decisionStatus lower decision = .rejected := by
  unfold decisionStatus
  split
  · exact Or.inl rfl
  · exact Or.inr rfl

/-- A careful step keeps the invariant. -/
theorem Sound.step {lower : String → String} {h : Run} (hs : Sound h) (e : Event) (hc : Careful lower h e) :
    Sound (h.step lower e) := by
  cases e with
  | enqueue now approvalId x => exact hs.enqueue now approvalId x hc
  | decide now approvalId decision actor reason =>
    simp only [Run.step, run_decide]
    exact hs.decide _ (fun r hr => (of_decide_eq_true hr).2) now _ (decisionStatus_cases lower decision) hc actor reason
  | approvePending now runId actor reason =>
    simp only [Run.step, run_approvePending]
    exact hs.decide _ (fun r hr => (of_decide_eq_true hr).2) now _ (Or.inl rfl) (fun _ => hc) actor reason
  | retry now approvalId actor reason =>
    simp only [Run.step, run_retry]
    exact hs.retry _ (fun r hr => (of_decide_eq_true hr).2) now actor reason
  | retryFailed now runId actor reason =>
    simp only [Run.step, run_retryFailed]
    exact hs.retry _ (fun r hr => (of_decide_eq_true hr).2) now actor reason
  | markExecuted now approvalId result =>
    exact hs.mark now approvalId (.done result) (fun hfail => by cases hfail) result none
  | markFailed now approvalId error result =>
    exact hs.mark now approvalId (.raised error) (fun _ => hc) (result.getD "{}") (some error)
  | listApproved runId => exact hs.listApproved runId
  | execute i outcome => exact hs.execute i outcome
  | markNext now i => exact hs.markNext now i hc

/-- In a run of careful steps every adapter call executes the content its row was last
approved with. -/
theorem careful_runs_faithful {lower : String → String} {h : Run}
    (hr : Reached (Run.step lower) (Careful lower) Run.empty h) : Faithful h :=
  (hr.invariant sound_empty (fun _ e hs hc => hs.step e hc)).calls

/-- A comment on a pull request, queued for run `r1`. -/
def commentRequest (body : String) : Request where
  runId := "r1"
  taskId := "T1"
  sourceType := "linear"
  adapter := "github_pr"
  actionType := "comment_pr"
  content := ⟨"pr 7", body, "medium", ""⟩
  dedupeKey := some "r1:comment_pr:7"

/-- A row that is queued, approved, executed and marked, then queued again. -/
def approvedRun : List Event :=
  [.enqueue 0 "approval-1" (commentRequest "first"), .decide 10 "approval-1" "approve" "op" "",
    .listApproved "r1", .execute 0 (.done "{}"), .markNext 20 0,
    .enqueue 30 "approval-2" (commentRequest "second")]

theorem approvedRun_faithful : Faithful (after (Run.step id) Run.empty approvedRun) :=
  careful_runs_faithful (Reached.init.after approvedRun (by decide +kernel))

/-- A row whose content is replaced between its approval and its execution. -/
def replacedRun : List Event :=
  [.enqueue 0 "approval-1" (commentRequest "first"), .decide 10 "approval-1" "approve" "op" "",
    .enqueue 20 "approval-2" (commentRequest "second"), .listApproved "r1", .execute 0 (.done "{}")]

/-- The second content is executed on the approval of the first. -/
theorem replacedRun_not_faithful :
    Reached (Run.step id) (fun _ _ => True) Run.empty (after (Run.step id) Run.empty replacedRun) ∧
      ¬ Faithful (after (Run.step id) Run.empty replacedRun) :=
  ⟨Reached.init.after replacedRun (by decide +kernel), by decide +kernel⟩

end ApprovedContent
