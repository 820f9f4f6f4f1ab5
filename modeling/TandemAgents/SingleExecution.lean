import TandemAgents.ExternalActions

/-!
# An approved action is executed once

A call lists the approved rows of a run, and executes and marks them one by one. No
status says that a row is being executed, so a second call can list a row that the
first has yet to mark, and both run its action and mark it as they please.
-/
namespace SingleExecution

open KeyedTable PythonText Statements Statements.Prog GuardedRuns ExternalActions

set_option maxRecDepth 20000

/-- The row is approved. -/
def ApprovedAt (s : Approvals) (id : String) : Prop := ∃ r, s.find? id = some r ∧ r.status = .approved

instance (s : Approvals) (id : String) : Decidable (ApprovedAt s id) := by unfold ApprovedAt; infer_instance

/-- The step moves the row into approved. -/
def Enters (lower : String → String) (id : String) (h : Run) (e : Event) : Prop :=
  ¬ ApprovedAt h.approvals id ∧ ApprovedAt (h.step lower e).approvals id

instance (lower : String → String) (id : String) (h : Run) (e : Event) : Decidable (Enters lower id h e) := by
  unfold Enters; infer_instance

/-- How often the adapter was called for the row. -/
def callCount (id : String) (h : Run) : Nat := h.calls.countP (fun c => c.approvalId = id)

/-- A mark that no executor makes. -/
def strayMark : Event → Bool
  | .markExecuted _ _ _ => true
  | .markFailed _ _ _ _ => true
  | _ => false

/-- Marks come from executors: the other operations are enqueues, decisions and retries. -/
def InScope (e : Event) : Prop := strayMark e = false

instance (e : Event) : Decidable (InScope e) := by unfold InScope; infer_instance

/-- The steps of the executors behind their listing. -/
def Executes : Event → Prop
  | .execute _ _ => True
  | .markNext _ _ => True
  | _ => False

/-- Without an entry into approved in between, the adapter is called once at most. -/
def CalledOnce (lower : String → String) (A : Run → Event → Prop) (h : Run) : Prop :=
  ∀ id es, AllSteps (Run.step lower) (fun h e => A h e ∧ ¬ Enters lower id h e) h es →
    callCount id (after (Run.step lower) h es) ≤ callCount id h + 1

/-- The executors leave executed rows alone. -/
def ExecutedStays (lower : String → String) (h : Run) : Prop :=
  ∀ id r, h.approvals.find? id = some r → r.status = .executed → ∀ e, Executes e →
    (h.step lower e).approvals.find? id = some r ∧ callCount id (h.step lower e) = callCount id h

end SingleExecution

namespace ExternalActions

/-- The rows a call has yet to execute or to mark. -/
def Executor.inHand (x : Executor) : List String := (x.outcome.map Prod.fst).toList ++ x.todo.map (·.approvalId)

end ExternalActions

namespace SingleExecution

open KeyedTable PythonText Statements Statements.Prog GuardedRuns ExternalActions

/-- The run whose approved rows a new call lists. -/
def listedRun : Event → Option String
  | .listApproved runId => some runId
  | _ => none

/-- A call lists no row that another call has in hand. -/
def Alone (h : Run) (e : Event) : Prop :=
  InScope e ∧ ∀ runId ∈ listedRun e, ∀ row ∈ approvedActions runId h.approvals, ∀ x ∈ h.executors,
    row.approvalId ∉ x.inHand

instance (h : Run) (e : Event) : Decidable (Alone h e) := by unfold Alone; infer_instance

/-- The rows in hand are approved, and each is in hand once. -/
structure Sole (h : Run) : Prop where
  approved : ∀ x ∈ h.executors, ∀ id ∈ x.inHand, ApprovedAt h.approvals id
  nodup : ∀ x ∈ h.executors, x.inHand.Nodup
  apart : ∀ (i j : Nat) (x y : Executor), h.executors[i]? = some x → h.executors[j]? = some y →
    ∀ id ∈ x.inHand, id ∈ y.inHand → i = j

theorem sole_empty : Sole Run.empty where
  approved x hx := by cases hx
  nodup x hx := by cases hx
  apart i j x y hx := by simp [Run.empty] at hx

/-! ## Approved rows stay approved -/

theorem approved_update {s : Approvals} {id : String} (p : Approval → Bool) (f : Approval → Approval)
    (hf : ∀ r, (f r).approvalId = r.approvalId) (hd : ∀ r, (f r).dedupeKey = r.dedupeKey)
    (hp : ∀ r, p r = true → r.status ≠ .approved) (h : ApprovedAt s id) : ApprovedAt (s.update p f hf hd) id := by
  obtain ⟨r, hr, hst⟩ := h
  have hno : p r ≠ true := fun hpr => hp r hpr hst
  refine ⟨r, ?_, hst⟩
  rw [DedupeTable.find?_update, hr, Option.map_some, if_neg hno]

theorem isPendingId_status {id : String} {r : Approval} (h : isPendingId id r = true) : r.status = .pending := by
  simp only [isPendingId, decide_eq_true_eq] at h
  exact h.2

theorem isPendingOf_status {runId : String} {r : Approval} (h : isPendingOf runId r = true) :
    r.status = .pending := by
  simp only [isPendingOf, decide_eq_true_eq] at h
  exact h.2

theorem isFailedId_status {id : String} {r : Approval} (h : isFailedId id r = true) : r.status = .failed := by
  simp only [isFailedId, decide_eq_true_eq] at h
  exact h.2

theorem isFailedOf_status {runId : String} {r : Approval} (h : isFailedOf runId r = true) : r.status = .failed := by
  simp only [isFailedOf, decide_eq_true_eq] at h
  exact h.2

theorem approved_enqueue {s : Approvals} {id : String} (now : Int) (approvalId : String) (x : Request)
    (h : ApprovedAt s id) : ApprovedAt ((enqueueExternalActionApproval now approvalId x).run s).2 id := by
  rw [run_enqueue]
  cases hi : s.insert (x.row now approvalId) (Approval.requeue now x.content)
      (Approval.requeue_approvalId now x.content) (Approval.requeue_dedupeKey now x.content) with
  | none => exact h
  | some t =>
    obtain ⟨r, hr, hst⟩ := h
    rw [Option.getD_some]
    rcases DedupeTable.insert_eq hi with ⟨q, hq, hfind⟩ | ⟨-, hfree, hfind⟩
    · by_cases hid : id = q.approvalId
      · have hrow := DedupeTable.mem_rows.mp (DedupeTable.holder_some hq).1
        rw [hid, hrow] at hr
        obtain rfl := Option.some.inj hr
        refine ⟨q.requeue now x.content, by rw [hfind, if_pos hid], ?_⟩
        simp [Approval.requeue, hst]
      · exact ⟨r, by rw [hfind, if_neg hid, hr], hst⟩
    · have hne : id ≠ (x.row now approvalId).approvalId := by
        intro heq
        rw [heq, hfree] at hr
        cases hr
      exact ⟨r, by rw [hfind, if_neg hne, hr], hst⟩

/-- No operation but a mark moves a row out of approved. -/
theorem approved_step (lower : String → String) {h : Run} {e : Event} (hs : InScope e) (he : ¬ Executes e) {id : String}
    (ha : ApprovedAt h.approvals id) : ApprovedAt (h.step lower e).approvals id := by
  cases e with
  | enqueue now approvalId x => exact approved_enqueue now approvalId x ha
  | decide now approvalId decision actor reason =>
    exact approved_update _ _ (Approval.decide_approvalId now _ actor reason) (Approval.decide_dedupeKey now _ actor reason)
      (fun r hp hst => by simp [isPendingId_status hp] at hst) ha
  | approvePending now runId actor reason =>
    exact approved_update _ _ (Approval.decide_approvalId now _ actor reason) (Approval.decide_dedupeKey now _ actor reason)
      (fun r hp hst => by simp [isPendingOf_status hp] at hst) ha
  | retry now approvalId actor reason =>
    exact approved_update _ _ (Approval.retry_approvalId now actor reason) (Approval.retry_dedupeKey now actor reason)
      (fun r hp hst => by simp [isFailedId_status hp] at hst) ha
  | retryFailed now runId actor reason =>
    exact approved_update _ _ (Approval.retry_approvalId now actor reason) (Approval.retry_dedupeKey now actor reason)
      (fun r hp hst => by simp [isFailedOf_status hp] at hst) ha
  | markExecuted now approvalId result => cases hs
  | markFailed now approvalId error result => cases hs
  | listApproved runId => exact ha
  | execute i outcome => exact absurd trivial he
  | markNext now i => exact absurd trivial he

/-! ## Steps of the executors -/

/-- An adapter call takes the next row of a call that has nothing to mark. -/
theorem execute_cases (h : Run) (i : Nat) (outcome : CallOutcome) : h.execute i outcome = h ∨
    ∃ row todo, h.executors[i]? = some ⟨row :: todo, none⟩ ∧ h.execute i outcome =
      { h with
        executors := h.executors.set i ⟨todo, some (row.approvalId, outcome)⟩
        calls := h.calls ++ [⟨row.approvalId, row.content, h.lastApproved row.approvalId⟩] } := by
  unfold Run.execute
  split
  · rename_i row todo hi
    exact .inr ⟨row, todo, hi, rfl⟩
  · exact .inl rfl

/-- A mark writes the row that its call has executed. -/
theorem markNext_cases (h : Run) (now : Int) (i : Nat) : h.markNext now i = h ∨
    ∃ todo id outcome, h.executors[i]? = some ⟨todo, some (id, outcome)⟩ ∧
      (h.markNext now i).executors = h.executors.set i ⟨todo, none⟩ ∧ (h.markNext now i).calls = h.calls ∧
      ∀ k, (h.markNext now i).approvals.find? k = if k = id then
        (h.approvals.find? k).map (Approval.settle now outcome.status outcome.result outcome.error)
        else h.approvals.find? k := by
  unfold Run.markNext
  split
  · rename_i todo id outcome hi
    refine .inr ⟨todo, id, outcome, hi, rfl, rfl, fun k => ?_⟩
    change ((markOutcome now id outcome).run h.approvals).2.find? k = _
    rw [run_markOutcome, run_mark, DedupeTable.find?_update]
    cases hk : h.approvals.find? k with
    | none => simp
    | some r =>
      have hkey := DedupeTable.find?_key hk
      by_cases hid : k = id <;> simp [hkey, hid]
  · exact .inl rfl

/-- A call moves on with the rows it has in hand, or fewer. -/
theorem Sole.set {h h' : Run} (hs : Sole h) {i : Nat} {old new : Executor} (hi : h.executors[i]? = some old)
    (hex : h'.executors = h.executors.set i new) (hsub : List.Sublist new.inHand old.inHand)
    (hown : ∀ id ∈ new.inHand, ApprovedAt h.approvals id → ApprovedAt h'.approvals id)
    (hother : ∀ id, id ∉ old.inHand → ApprovedAt h.approvals id → ApprovedAt h'.approvals id) : Sole h' := by
  have hmem := List.mem_of_getElem? hi
  constructor
  · intro x hx id hid
    rw [hex] at hx
    obtain ⟨j, hj⟩ := List.getElem?_of_mem hx
    rcases getElem?_set_cases hj with ⟨-, rfl⟩ | ⟨hji, hj'⟩
    · exact hown id hid (hs.approved old hmem id (hsub.subset hid))
    · have hnot : id ∉ old.inHand := fun hin => hji (hs.apart j i x old hj' hi id hid hin)
      exact hother id hnot (hs.approved x (List.mem_of_getElem? hj') id hid)
  · intro x hx
    rw [hex] at hx
    rcases List.mem_or_eq_of_mem_set hx with hx | rfl
    · exact hs.nodup x hx
    · exact hsub.nodup (hs.nodup old hmem)
  · intro j k x y hx hy id hidx hidy
    rw [hex] at hx hy
    rcases getElem?_set_cases hx with ⟨rfl, rfl⟩ | ⟨hj, hx'⟩ <;> rcases getElem?_set_cases hy with ⟨rfl, rfl⟩ | ⟨hk, hy'⟩
    · rfl
    · exact absurd (hs.apart k j y old hy' hi id hidy (hsub.subset hidx)) hk
    · exact absurd (hs.apart j k x old hx' hi id hidx (hsub.subset hidy)) hj
    · exact hs.apart j k x y hx' hy' id hidx hidy

theorem approvedActions_mem {runId : String} {s : Approvals} {row : Approval} (h : row ∈ approvedActions runId s) :
    ApprovedAt s row.approvalId := by
  have hlist := (List.perm_insertionSort _ _).mem_iff.mp h
  have hfilter := (List.perm_insertionSort _ _).mem_iff.mp (List.mem_of_mem_take hlist)
  rw [List.mem_filter] at hfilter
  simp only [Option.all_some, Bool.and_eq_true, decide_eq_true_eq] at hfilter
  exact ⟨row, DedupeTable.mem_rows.mp hfilter.1, hfilter.2.2⟩

theorem approvedActions_nodup (runId : String) (s : Approvals) :
    ((approvedActions runId s).map (·.approvalId)).Nodup := by
  have hsorted : ∀ (r : Approval → Approval → Prop) [DecidableRel r] (rows : List Approval),
      (rows.map (·.approvalId)).Nodup → ((rows.insertionSort r).map (·.approvalId)).Nodup :=
    fun r _ rows hn => (List.Perm.map _ (List.perm_insertionSort r rows)).nodup_iff.mpr hn
  have htable : (s.rows.map (·.approvalId)).Nodup := s.nodup
  unfold approvedActions listExternalActionApprovals
  refine hsorted _ _ ((List.Sublist.map _ (List.take_sublist _ _)).nodup (hsorted _ _ ?_))
  exact (List.Sublist.map _ List.filter_sublist).nodup htable

/-- Every step of a run whose calls are alone keeps the rows in hand apart. -/
theorem Sole.step {h : Run} (hs : Sole h) (lower : String → String) {e : Event} (he : Alone h e) :
    Sole (h.step lower e) := by
  have hqueue : ¬ Executes e → (h.step lower e).executors = h.executors → Sole (h.step lower e) := by
    intro hno hex
    refine ⟨fun x hx id hid => ?_, fun x hx => hs.nodup x (hex ▸ hx), ?_⟩
    · rw [hex] at hx
      exact approved_step lower he.1 hno (hs.approved x hx id hid)
    · rw [hex]
      exact hs.apart
  cases e with
  | enqueue now approvalId x => exact hqueue id rfl
  | decide now approvalId decision actor reason => exact hqueue id rfl
  | approvePending now runId actor reason => exact hqueue id rfl
  | retry now approvalId actor reason => exact hqueue id rfl
  | retryFailed now runId actor reason => exact hqueue id rfl
  | markExecuted now approvalId result => cases he.1
  | markFailed now approvalId error result => cases he.1
  | listApproved runId =>
    have hnew : (⟨approvedActions runId h.approvals, none⟩ : Executor).inHand =
        (approvedActions runId h.approvals).map (·.approvalId) := rfl
    have hfresh : ∀ x ∈ h.executors, ∀ id ∈ (approvedActions runId h.approvals).map (·.approvalId), id ∉ x.inHand := by
      intro x hx id hid
      obtain ⟨row, hrow, rfl⟩ := List.mem_map.mp hid
      exact he.2 runId rfl row hrow x hx
    constructor
    · intro x hx id hid
      rcases List.mem_append.mp hx with hx | hx
      · exact hs.approved x hx id hid
      · rw [List.mem_singleton.mp hx, hnew] at hid
        obtain ⟨row, hrow, rfl⟩ := List.mem_map.mp hid
        exact approvedActions_mem hrow
    · intro x hx
      rcases List.mem_append.mp hx with hx | hx
      · exact hs.nodup x hx
      · rw [List.mem_singleton.mp hx, hnew]
        exact approvedActions_nodup runId h.approvals
    · intro j k x y hx hy id hidx hidy
      rcases getElem?_snoc_cases hx with hx | ⟨rfl, rfl⟩ <;> rcases getElem?_snoc_cases hy with hy | ⟨rfl, rfl⟩
      · exact hs.apart j k x y hx hy id hidx hidy
      · exact absurd hidx (hfresh x (List.mem_of_getElem? hx) id hidy)
      · exact absurd hidy (hfresh y (List.mem_of_getElem? hy) id hidx)
      · rfl
  | execute i outcome =>
    change Sole (h.execute i outcome)
    rcases execute_cases h i outcome with heq | ⟨row, todo, hi, heq⟩
    · rw [heq]
      exact hs
    · have hex : (h.execute i outcome).executors = h.executors.set i ⟨todo, some (row.approvalId, outcome)⟩ := by
        rw [heq]
      have hsame : (h.execute i outcome).approvals = h.approvals := by rw [heq]
      refine hs.set hi hex (List.Sublist.refl _) ?_ ?_ <;>
      · intro id _ ha
        rwa [hsame]
  | markNext now i =>
    change Sole (h.markNext now i)
    rcases markNext_cases h now i with heq | ⟨todo, id, outcome, hi, hex, -, hfind⟩
    · rw [heq]
      exact hs
    · have hnod := hs.nodup _ (List.mem_of_getElem? hi)
      have hinhand : (⟨todo, some (id, outcome)⟩ : Executor).inHand = id :: todo.map (·.approvalId) := rfl
      rw [hinhand, List.nodup_cons] at hnod
      have hkeep : ∀ k, k ≠ id → ApprovedAt h.approvals k → ApprovedAt (h.markNext now i).approvals k := by
        intro k hk hka
        obtain ⟨r, hr, hst⟩ := hka
        exact ⟨r, by rw [hfind, if_neg hk, hr], hst⟩
      refine hs.set hi hex (List.sublist_cons_self _ _) ?_ ?_
      · exact fun k hk => hkeep k fun heq => hnod.1 (heq ▸ hk)
      · exact fun k hk => hkeep k fun heq => hk (heq ▸ List.mem_cons_self)

/-! ## How often the adapter can still be called -/

/-- Without an entry into approved, a row has one call left while it is approved and none
has executed it without its mark. -/
def callsLeft (id : String) (h : Run) : Nat :=
  if ApprovedAt h.approvals id ∧ ∀ x ∈ h.executors, x.outcome.map Prod.fst ≠ some id then 1 else 0

theorem callsLeft_le_one (id : String) (h : Run) : callsLeft id h ≤ 1 := by
  unfold callsLeft
  split <;> omega

theorem callsLeft_le {id : String} {h h' : Run} (ha : ApprovedAt h'.approvals id → ApprovedAt h.approvals id)
    (hx : ∀ x ∈ h.executors, x.outcome.map Prod.fst = some id → x ∈ h'.executors) : callsLeft id h' ≤ callsLeft id h := by
  by_cases hleft : ApprovedAt h'.approvals id ∧ ∀ x ∈ h'.executors, x.outcome.map Prod.fst ≠ some id
  · have hbefore : ApprovedAt h.approvals id ∧ ∀ x ∈ h.executors, x.outcome.map Prod.fst ≠ some id :=
      ⟨ha hleft.1, fun x hmem heq => hleft.2 x (hx x hmem heq) heq⟩
    unfold callsLeft
    rw [if_pos hleft, if_pos hbefore]
  · unfold callsLeft
    rw [if_neg hleft]
    exact Nat.zero_le _

/-- The other calls stay when one moves on. -/
theorem mem_set_of_ne {h : Run} {i : Nat} {old new x : Executor} (hi : h.executors[i]? = some old)
    (hx : x ∈ h.executors) (hne : x ≠ old) : x ∈ h.executors.set i new := by
  obtain ⟨j, hj⟩ := List.getElem?_of_mem hx
  have hij : i ≠ j := by
    rintro rfl
    exact hne (Option.some.inj (hj.symm.trans hi))
  exact List.mem_of_getElem? ((List.getElem?_set_ne hij).trans hj)

theorem Sole.spends {h : Run} (hs : Sole h) (lower : String → String) {e : Event} (he : Alone h e) {id : String}
    (hn : ¬ Enters lower id h e) :
    callCount id (h.step lower e) + callsLeft id (h.step lower e) ≤ callCount id h + callsLeft id h := by
  have hback : ApprovedAt (h.step lower e).approvals id → ApprovedAt h.approvals id := by
    intro hafter
    by_contra hbefore
    exact hn ⟨hbefore, hafter⟩
  have hqueue : (h.step lower e).calls = h.calls → (∀ x ∈ h.executors, x ∈ (h.step lower e).executors) →
      callCount id (h.step lower e) + callsLeft id (h.step lower e) ≤ callCount id h + callsLeft id h := by
    intro hcalls hex
    have hcount : callCount id (h.step lower e) = callCount id h := by rw [callCount, callCount, hcalls]
    have hleft := callsLeft_le hback fun x hx _ => hex x hx
    omega
  cases e with
  | enqueue now approvalId x => exact hqueue rfl fun _ hx => hx
  | decide now approvalId decision actor reason => exact hqueue rfl fun _ hx => hx
  | approvePending now runId actor reason => exact hqueue rfl fun _ hx => hx
  | retry now approvalId actor reason => exact hqueue rfl fun _ hx => hx
  | retryFailed now runId actor reason => exact hqueue rfl fun _ hx => hx
  | markExecuted now approvalId result => cases he.1
  | markFailed now approvalId error result => cases he.1
  | listApproved runId => exact hqueue rfl fun _ hx => List.mem_append_left _ hx
  | execute i outcome =>
    change callCount id (h.execute i outcome) + callsLeft id (h.execute i outcome) ≤ _
    rcases execute_cases h i outcome with heq | ⟨row, todo, hi, heq⟩
    · rw [heq]
    · have hcount : callCount id (h.execute i outcome) = callCount id h + if row.approvalId = id then 1 else 0 := by
        rw [heq, callCount, callCount, List.countP_append]
        by_cases hid : row.approvalId = id <;> simp [hid]
      have hex : (h.execute i outcome).executors = h.executors.set i ⟨todo, some (row.approvalId, outcome)⟩ := by
        rw [heq]
      have hsame : (h.execute i outcome).approvals = h.approvals := by rw [heq]
      by_cases hid : row.approvalId = id
      · -- the row was in hand for this call only, which now has its outcome
        have hown : id ∈ (⟨row :: todo, none⟩ : Executor).inHand := hid ▸ List.mem_cons_self
        have hbefore : callsLeft id h = 1 := by
          refine if_pos ⟨hs.approved _ (List.mem_of_getElem? hi) id hown, fun x hx hmark => ?_⟩
          obtain ⟨j, hj⟩ := List.getElem?_of_mem hx
          have hin : id ∈ x.inHand := by rw [Executor.inHand, hmark]; exact List.mem_cons_self
          obtain rfl : j = i := hs.apart j i x _ hj hi id hin hown
          obtain rfl : x = ⟨row :: todo, none⟩ := Option.some.inj (hj.symm.trans hi)
          cases hmark
        have hafter : callsLeft id (h.execute i outcome) = 0 := by
          refine if_neg fun hleft => hleft.2 ⟨todo, some (row.approvalId, outcome)⟩ ?_ (congrArg some hid)
          rw [hex]
          have hlt : i < h.executors.length := (List.getElem?_eq_some_iff.mp hi).1
          exact List.mem_of_getElem? (List.getElem?_set_self hlt)
        rw [if_pos hid] at hcount
        omega
      · have hleft : callsLeft id (h.execute i outcome) ≤ callsLeft id h := by
          refine callsLeft_le (fun ha => hsame ▸ ha) fun x hx hmark => ?_
          rw [hex]
          refine mem_set_of_ne hi hx fun hold => ?_
          rw [hold] at hmark
          cases hmark
        rw [if_neg hid] at hcount
        omega
  | markNext now i =>
    change callCount id (h.markNext now i) + callsLeft id (h.markNext now i) ≤ _
    rcases markNext_cases h now i with heq | ⟨todo, k, outcome, hi, hex, hcalls, hfind⟩
    · rw [heq]
    · have hcount : callCount id (h.markNext now i) = callCount id h := by rw [callCount, callCount, hcalls]
      have hleft : callsLeft id (h.markNext now i) ≤ callsLeft id h := by
        by_cases hk : id = k
        · have hnone : callsLeft id (h.markNext now i) = 0 := by
            refine if_neg fun hleft => ?_
            obtain ⟨r, hr, hst⟩ := hleft.1
            rw [hfind, if_pos hk] at hr
            obtain ⟨q, -, rfl⟩ := Option.map_eq_some_iff.mp hr
            cases outcome <;> cases hst
          omega
        · refine callsLeft_le (fun ha => hback ha) fun x hx hmark => ?_
          rw [hex]
          refine mem_set_of_ne hi hx fun hold => hk ?_
          rw [hold] at hmark
          exact (Option.some.inj hmark).symm
      omega

theorem Sole.after {h : Run} (hs : Sole h) (lower : String → String) {id : String} (es : List Event)
    (hes : AllSteps (Run.step lower) (fun h e => Alone h e ∧ ¬ Enters lower id h e) h es) :
    callCount id (GuardedRuns.after (Run.step lower) h es) ≤ callCount id h + callsLeft id h := by
  induction es generalizing h with
  | nil => exact Nat.le_add_right _ _
  | cons e es ih =>
    have hstep := hs.spends lower hes.1.1 hes.1.2
    have hrest := ih (hs.step lower hes.1.1) hes.2
    rw [GuardedRuns.after, List.foldl_cons]
    exact hrest.trans hstep

/-- An executor leaves alone what is executed. -/
theorem Sole.executed_stays {h : Run} (hs : Sole h) (lower : String → String) : ExecutedStays lower h := by
  intro id r hr hst e he
  have hnot : ¬ ApprovedAt h.approvals id := by
    rintro ⟨q, hq, hqst⟩
    cases hr.symm.trans hq
    cases hst.symm.trans hqst
  cases e with
  | execute i outcome =>
    change (h.execute i outcome).approvals.find? id = some r ∧ callCount id (h.execute i outcome) = callCount id h
    rcases execute_cases h i outcome with heq | ⟨row, todo, hi, heq⟩
    · rw [heq]
      exact ⟨hr, rfl⟩
    · have hid : row.approvalId ≠ id := by
        rintro rfl
        exact hnot (hs.approved _ (List.mem_of_getElem? hi) _ List.mem_cons_self)
      rw [heq]
      refine ⟨hr, ?_⟩
      rw [callCount, callCount, List.countP_append]
      simp [hid]
  | markNext now i =>
    change (h.markNext now i).approvals.find? id = some r ∧ callCount id (h.markNext now i) = callCount id h
    rcases markNext_cases h now i with heq | ⟨todo, k, outcome, hi, hex, hcalls, hfind⟩
    · rw [heq]
      exact ⟨hr, rfl⟩
    · have hk : id ≠ k := by
        rintro rfl
        exact hnot (hs.approved _ (List.mem_of_getElem? hi) _ List.mem_cons_self)
      refine ⟨by rw [hfind, if_neg hk, hr], ?_⟩
      rw [callCount, callCount, hcalls]
  | _ => exact he.elim

/-- In a run whose calls list no row that another has in hand, an approved action is
executed once and an executed row stays. -/
theorem alone_executes_once (lower : String → String) {h : Run} (hr : Reached (Run.step lower) Alone Run.empty h) :
    CalledOnce lower Alone h ∧ ExecutedStays lower h := by
  have hs : Sole h := hr.invariant sole_empty fun _ e hs he => hs.step lower he
  refine ⟨fun id es hes => ?_, hs.executed_stays lower⟩
  have hafter := hs.after lower es hes
  have hone := callsLeft_le_one id h
  omega

/-! ## Runs -/

/-- A comment on a pull request. -/
def comment : Request :=
  ⟨"run-1", "T1", "github", "github", "comment_pr", ⟨"pr", "body", "low", "marker"⟩, "aca", none, some "T1:comment"⟩

/-- A call fails, an operator retries the row and a second call executes it. -/
def retried : List Event :=
  [.enqueue 0 "approval-1" comment, .decide 1 "approval-1" "approve" "op" "", .listApproved "run-1",
    .execute 0 (.raised "timeout"), .markNext 2 0, .retry 3 "approval-1" "op" "", .listApproved "run-1",
    .execute 1 (.done "{}"), .markNext 4 1]

/-- The calls are alone, the retry lets the second one in, and the row is executed. -/
theorem retried_once :
    ((after (Run.step fun s => s) Run.empty retried).approvals.find? "approval-1").any
      (fun r => decide (r.status = .executed)) = true ∧
    callCount "approval-1" (after (Run.step fun s => s) Run.empty retried) = 2 ∧
    CalledOnce (fun s => s) Alone (after (Run.step fun s => s) Run.empty retried) ∧
    ExecutedStays (fun s => s) (after (Run.step fun s => s) Run.empty retried) :=
  ⟨by decide +kernel, by decide +kernel,
    alone_executes_once (fun s => s) (Reached.init.after retried (by decide +kernel))⟩

/-- Two approvals start two calls, and both list the row. -/
def approvedTwice : List Event :=
  [.enqueue 0 "approval-1" comment, .decide 1 "approval-1" "approve" "op" "", .listApproved "run-1",
    .listApproved "run-1"]

/-- Both execute it, with no entry in between. -/
def executedTwice : List Event := [.execute 0 (.done "{}"), .markNext 2 0, .execute 1 (.raised "closed")]

/-- The action is executed twice, and the second mark moves the executed row to failed. -/
theorem two_calls_execute : ∃ h, Reached (Run.step fun s => s) (fun _ e => InScope e) Run.empty h ∧
    ¬ CalledOnce (fun s => s) (fun _ e => InScope e) h ∧
    ∃ h', Reached (Run.step fun s => s) (fun _ e => InScope e) h h' ∧ ¬ ExecutedStays (fun s => s) h' := by
  refine ⟨after (Run.step fun s => s) Run.empty approvedTwice, Reached.init.after _ (by decide +kernel), fun honce => ?_,
    after (Run.step fun s => s) (after (Run.step fun s => s) Run.empty approvedTwice) executedTwice,
    Reached.init.after _ (by decide +kernel), fun hstays => ?_⟩
  · have htwice := honce "approval-1" executedTwice (by decide +kernel)
    revert htwice
    decide +kernel
  · have hrun : ((after (Run.step fun s => s) (after (Run.step fun s => s) Run.empty approvedTwice)
        executedTwice).approvals.find? "approval-1").any (fun r => decide (r.status = .executed) &&
          decide (((after (Run.step fun s => s) (after (Run.step fun s => s) Run.empty approvedTwice)
            executedTwice).step (fun s => s) (.markNext 3 1)).approvals.find? "approval-1" ≠ some r)) = true := by
      decide +kernel
    simp only [Option.any_eq_true, Bool.and_eq_true, decide_eq_true_eq] at hrun
    obtain ⟨r, hr, hst, hne⟩ := hrun
    exact hne (hstays "approval-1" r hr hst (.markNext 3 1) trivial).1

end SingleExecution
