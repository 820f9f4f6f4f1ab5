import TandemAgents.Outbox

/-!
# Dispatched rows hold a payload that was sent

A dispatcher completes a row by its id, whatever payload the row holds by then. A row
that an enqueue has given a new payload while a dispatcher held it is so marked as
dispatched with a payload nobody sent.
-/
namespace OutboxDelivery

open KeyedTable PythonText CoordinationStore Statements Statements.Prog GuardedRuns Outbox

set_option maxRecDepth 20000

/-- Every dispatched row holds a payload that was sent for it. -/
def AllSent (h : Run) : Prop := ∀ r ∈ h.outbox.rows, r.status = .dispatched → (r.id, r.payload) ∈ h.sent

instance (h : Run) : Decidable (AllSent h) := by unfold AllSent; infer_instance

/-- No enqueue replaces the payload of a row that a tick has read and may complete. -/
def Careful (h : Run) : Event → Prop
  | .enqueue _ _ x => ∀ r ∈ h.outbox.holder x.dedupeKey, r.payload ≠ x.payload →
      ∀ t ∈ h.ticks, ∀ item ∈ t.inHand, item.id ≠ r.id
  | _ => True

instance : (h : Run) → (e : Event) → Decidable (Careful h e) := fun h e => by
  cases e <;> unfold Careful <;> infer_instance

/-- The item a tick has dispatched and is about to complete. -/
def settled : Stage → Option OutboxRow
  | .settling item result _ => if result = .dispatched then some item else none
  | .writing item _ result _ => if result = .dispatched then some item else none
  | _ => none

/-- Dispatched rows hold what was sent, rows in hand what the tick read, and what a
tick is about to complete was sent. -/
structure Delivered (h : Run) : Prop where
  rows : ∀ id r, h.outbox.find? id = some r → r.status = .dispatched → (id, r.payload) ∈ h.sent
  hand : ∀ t ∈ h.ticks, ∀ item ∈ t.inHand, ∃ r, h.outbox.find? item.id = some r ∧ r.payload = item.payload
  settled : ∀ t ∈ h.ticks, ∀ item ∈ settled t, (item.id, item.payload) ∈ h.sent

theorem delivered_empty : Delivered Run.empty where
  rows id r h := by simp [Run.empty] at h
  hand t ht := by cases ht
  settled t ht := by cases ht

theorem Delivered.allSent {h : Run} (hd : Delivered h) : AllSent h :=
  fun r hr hs => hd.rows r.id r (DedupeTable.mem_rows.mp hr) hs

/-! ## Statements that leave the payloads alone -/

/-- The payloads stay, and no row becomes dispatched. -/
structure Keeps (s t : OutboxTable) : Prop where
  after : ∀ id r, s.find? id = some r → ∃ r', t.find? id = some r' ∧ r'.payload = r.payload
  before : ∀ id r', t.find? id = some r' → r'.status = .dispatched → s.find? id = some r'

theorem Keeps.refl (s : OutboxTable) : Keeps s s := ⟨fun _ r h => ⟨r, h, rfl⟩, fun _ _ h _ => h⟩

theorem Keeps.trans {s t u : OutboxTable} (h : Keeps s t) (k : Keeps t u) : Keeps s u where
  after id r hr := by
    obtain ⟨r', hr', hp'⟩ := h.after id r hr
    obtain ⟨r'', hr'', hp''⟩ := k.after id r' hr'
    exact ⟨r'', hr'', hp''.trans hp'⟩
  before id r hr hs := h.before id r (k.before id r hr hs) hs

/-- The payloads stay under every assignment that leaves them alone. -/
theorem payload_modify (s : OutboxTable) (id : Nat) (f : OutboxRow → OutboxRow) (hf : ∀ r, (f r).id = r.id)
    (hd : ∀ r, (f r).dedupeKey = r.dedupeKey) (hp : ∀ r, (f r).payload = r.payload) (i : Nat) (r : OutboxRow)
    (hr : s.find? i = some r) : ∃ r', (s.modify id f hf hd).find? i = some r' ∧ r'.payload = r.payload := by
  rw [DedupeTable.find?_modify, hr]
  split
  · exact ⟨f r, rfl, hp r⟩
  · exact ⟨r, rfl, rfl⟩

theorem keeps_modify (s : OutboxTable) (id : Nat) (f : OutboxRow → OutboxRow) (hf : ∀ r, (f r).id = r.id)
    (hd : ∀ r, (f r).dedupeKey = r.dedupeKey) (hp : ∀ r, (f r).payload = r.payload)
    (hs : ∀ r, (f r).status ≠ .dispatched) : Keeps s (s.modify id f hf hd) where
  after := payload_modify s id f hf hd hp
  before i r' hr' hst := by
    rw [DedupeTable.find?_modify] at hr'
    split at hr'
    · obtain ⟨r, -, rfl⟩ := Option.map_eq_some_iff.mp hr'
      exact absurd hst (hs r)
    · exact hr'

theorem keeps_claimRow (now : Int) (row : OutboxRow) (s : OutboxTable) : Keeps s (claimRow now row s) :=
  keeps_modify s _ _ _ _ (OutboxRow.claim_payload now _) (fun _ h => by cases h)

theorem keeps_releaseRow (now : Int) (row : OutboxRow) (s : OutboxTable) : Keeps s (releaseRow now row s) :=
  keeps_modify s _ _ _ _ (OutboxRow.release_payload now) (fun _ h => by cases h)

theorem keeps_retryRow (now : Int) (id attempts : Nat) (error : String) (terminal : Bool) (delay : Option Int)
    (s : OutboxTable) : Keeps s (retryRow now id attempts error terminal delay s) := by
  unfold retryRow
  split
  · exact keeps_modify s _ _ _ _ (OutboxRow.fail_payload now error) (fun _ h => by cases h)
  · exact keeps_modify s _ _ _ _ (OutboxRow.postpone_payload now _ error) (fun _ h => by cases h)

theorem keeps_foldl {f : OutboxRow → OutboxTable → OutboxTable} (hf : ∀ row s, Keeps s (f row s))
    (rows : List OutboxRow) (s : OutboxTable) : Keeps s (rows.foldl (fun s row => f row s) s) := by
  induction rows generalizing s with
  | nil => exact .refl s
  | cons row rows ih => exact (hf row s).trans (ih (f row s))

/-! ## One step -/

/-- A tick moves on, next to a change of the outbox. -/
theorem Delivered.advance {h : Run} (hd : Delivered h) (i : Nat) {stage : Stage} {t : OutboxTable}
    {sent : List (Nat × String)} (hsent : ∀ p ∈ h.sent, p ∈ sent)
    (hpay : ∀ id r, h.outbox.find? id = some r → ∃ r', t.find? id = some r' ∧ r'.payload = r.payload)
    (hrows : ∀ id r, t.find? id = some r → r.status = .dispatched → (id, r.payload) ∈ sent)
    (hhand : ∀ item ∈ stage.inHand, ∃ r, t.find? item.id = some r ∧ r.payload = item.payload)
    (hset : ∀ item ∈ OutboxDelivery.settled stage, (item.id, item.payload) ∈ sent) :
    Delivered ⟨t, h.ticks.set i stage, sent⟩ where
  rows := hrows
  hand x hx item hitem := by
    rcases List.mem_or_eq_of_mem_set hx with hx | rfl
    · obtain ⟨r, hr, hp⟩ := hd.hand x hx item hitem
      obtain ⟨r', hr', hp'⟩ := hpay _ r hr
      exact ⟨r', hr', hp'.trans hp⟩
    · exact hhand item hitem
  settled x hx item hitem := by
    rcases List.mem_or_eq_of_mem_set hx with hx | rfl
    · exact hsent _ (hd.settled x hx item hitem)
    · exact hset item hitem

/-- The same next to a change that keeps the payloads. -/
theorem Delivered.advanceKeeping {h : Run} (hd : Delivered h) (i : Nat) {stage : Stage} {t : OutboxTable}
    (hk : Keeps h.outbox t)
    (hhand : ∀ item ∈ stage.inHand, ∃ r, h.outbox.find? item.id = some r ∧ r.payload = item.payload)
    (hset : ∀ item ∈ OutboxDelivery.settled stage, (item.id, item.payload) ∈ h.sent) :
    Delivered ⟨t, h.ticks.set i stage, h.sent⟩ := by
  refine hd.advance i (fun _ hp => hp) hk.after ?_ ?_ hset
  · exact fun id r hr hs => hd.rows id r (hk.before id r hr hs) hs
  · intro item hitem
    obtain ⟨r, hr, hp⟩ := hhand item hitem
    obtain ⟨r', hr', hp'⟩ := hk.after _ r hr
    exact ⟨r', hr', hp'.trans hp⟩

/-- Completing an item marks the row it is in hand for. -/
theorem Delivered.complete {h : Run} (hd : Delivered h) (i : Nat) (now : Int) {item : OutboxRow}
    {todo : List OutboxRow} (hsent : (item.id, item.payload) ∈ h.sent)
    (hitem : ∃ r, h.outbox.find? item.id = some r ∧ r.payload = item.payload)
    (htodo : ∀ x ∈ todo, ∃ r, h.outbox.find? x.id = some r ∧ r.payload = x.payload) :
    Delivered ⟨completeRow now item.id h.outbox, h.ticks.set i (.working todo), h.sent⟩ := by
  have hpay := payload_modify h.outbox item.id (OutboxRow.complete now) (OutboxRow.complete_id now)
    (OutboxRow.complete_dedupeKey now) (OutboxRow.complete_payload now)
  refine hd.advance i (fun _ hp => hp) hpay ?_ ?_ (fun _ hx => by cases hx)
  · intro id r hr hst
    unfold completeRow at hr
    rw [DedupeTable.find?_modify] at hr
    split at hr
    · rename_i hid
      subst hid
      obtain ⟨q, hq, hqp⟩ := hitem
      rw [hq, Option.map_some] at hr
      rw [← Option.some.inj hr, OutboxRow.complete_payload, hqp]
      exact hsent
    · exact hd.rows id r hr hst
  · intro x hx
    obtain ⟨r, hr, hp⟩ := htodo x hx
    obtain ⟨r', hr', hp'⟩ := hpay _ r hr
    exact ⟨r', hr', hp'.trans hp⟩

/-- A statement of a tick keeps the invariant. -/
theorem Delivered.next {h : Run} (hd : Delivered h) {e : Event} {i : Nat} {stage : Stage} {x : Effect}
    (hi : h.ticks[i]? = some stage) (hn : stage.next h.outbox h.sent e = some x) :
    Delivered ⟨x.outbox, h.ticks.set i x.stage, x.sent⟩ := by
  have hmem := List.mem_of_getElem? hi
  have hhand := hd.hand stage hmem
  have hset := hd.settled stage hmem
  unfold Stage.next at hn
  split at hn
  case h_1 =>
    obtain rfl := Option.some.inj hn
    exact hd.advanceKeeping i (.refl _) (fun _ hx => by cases hx) (fun _ hx => by cases hx)
  case h_2 now _ rows =>
    obtain rfl := Option.some.inj hn
    exact hd.advanceKeeping i (keeps_foldl (keeps_releaseRow now) rows _) (fun _ hx => by cases hx)
      (fun _ hx => by cases hx)
  case h_3 =>
    obtain rfl := Option.some.inj hn
    exact hd.advanceKeeping i (.refl _) (fun item hx => ⟨item, (mem_pendingRows hx).1, rfl⟩) (fun _ hx => by cases hx)
  case h_4 now _ rows =>
    obtain rfl := Option.some.inj hn
    refine hd.advanceKeeping i (keeps_foldl (keeps_claimRow now) rows _) ?_ (fun _ hx => by cases hx)
    intro item hx
    obtain ⟨row, hrow, rfl⟩ := List.mem_map.mp hx
    exact hhand row hrow
  case h_5 result _ item todo =>
    obtain rfl := Option.some.inj hn
    by_cases hr : result = .dispatched
    · subst hr
      refine hd.advance i (fun p hp => List.mem_append_left [(item.id, item.payload)] hp)
        (fun _ r hr => ⟨r, hr, rfl⟩) ?_ hhand ?_
      · exact fun id r hr hs => List.mem_append_left _ (hd.rows id r hr hs)
      · intro x hx
        obtain rfl := Option.some.inj hx
        exact List.mem_append_right _ List.mem_cons_self
    · simp only [hr, if_false]
      refine hd.advanceKeeping i (.refl _) ?_ ?_
      · intro x hx
        simp only [Stage.inHand, hr, if_false] at hx
        exact hhand x (List.mem_cons_of_mem _ hx)
      · intro x hx
        simp [OutboxDelivery.settled, hr] at hx
  case h_6 item result todo =>
    have htodo : ∀ x ∈ todo, ∃ r, h.outbox.find? x.id = some r ∧ r.payload = x.payload := by
      intro x hx
      refine hhand x ?_
      change x ∈ if result = .dispatched then item :: todo else todo
      split
      · exact List.mem_cons_of_mem _ hx
      · exact hx
    split at hn
    · obtain rfl := Option.some.inj hn
      exact hd.advanceKeeping i (.refl _) htodo (fun _ hx => by cases hx)
    · obtain rfl := Option.some.inj hn
      exact hd.advanceKeeping i (.refl _) hhand hset
  case h_7 now _ item row result todo =>
    obtain rfl := Option.some.inj hn
    by_cases hr : result = .dispatched
    · subst hr
      exact hd.complete i now (hset item rfl) (hhand item List.mem_cons_self)
        (fun x hx => hhand x (List.mem_cons_of_mem _ hx))
    · have htodo : ∀ x ∈ todo, ∃ r, h.outbox.find? x.id = some r ∧ r.payload = x.payload := by
        simpa [Stage.inHand, hr] using hhand
      refine hd.advanceKeeping i ?_ htodo (fun _ hx => by cases hx)
      unfold settleRow
      cases result with
      | dispatched => exact absurd rfl hr
      | failed terminal error => exact keeps_retryRow _ _ _ _ _ _ _
      | raised error => exact keeps_retryRow _ _ _ _ _ _ _
  case h_8 => cases hn

theorem Delivered.enqueue {h : Run} (hd : Delivered h) (now : Int) (id : Nat) (x : Message)
    (hc : ∀ r ∈ h.outbox.holder x.dedupeKey, r.payload ≠ x.payload → ∀ t ∈ h.ticks, ∀ item ∈ t.inHand, item.id ≠ r.id) :
    Delivered { h with outbox := ((enqueueOutbox now id x).run h.outbox).2 } := by
  rw [run_enqueueOutbox]
  cases hi : h.outbox.insert (x.row now id) (OutboxRow.requeue now x.payload) (OutboxRow.requeue_id now x.payload)
      (OutboxRow.requeue_dedupeKey now x.payload) with
  | none => exact hd
  | some t =>
    rcases DedupeTable.insert_eq hi with ⟨r, hr, hfind⟩ | ⟨-, hfree, hfind⟩
    · have hrow := DedupeTable.mem_rows.mp (DedupeTable.holder_some hr).1
      refine ⟨?_, ?_, hd.settled⟩
      · intro i q hq hs
        rw [Option.getD_some, hfind] at hq
        split at hq
        · obtain rfl := Option.some.inj hq
          cases hs
        · exact hd.rows i q hq hs
      · intro y hy item hitem
        obtain ⟨q, hq, hp⟩ := hd.hand y hy item hitem
        rw [Option.getD_some, hfind]
        by_cases hid : item.id = r.id
        · -- the row is in hand, so the enqueue brought the payload it had
          have hsame : r.payload = x.payload := by
            by_contra hne
            exact hc r hr hne y hy item hitem hid
          rw [hid, hrow] at hq
          obtain rfl := Option.some.inj hq
          rw [if_pos hid]
          exact ⟨_, rfl, hsame.symm.trans hp⟩
        · rw [if_neg hid]
          exact ⟨q, hq, hp⟩
    · refine ⟨?_, ?_, hd.settled⟩
      · intro i q hq hs
        rw [Option.getD_some, hfind] at hq
        split at hq
        · obtain rfl := Option.some.inj hq
          cases hs
        · exact hd.rows i q hq hs
      · intro y hy item hitem
        obtain ⟨q, hq, hp⟩ := hd.hand y hy item hitem
        rw [Option.getD_some, hfind]
        have hne : item.id ≠ (x.row now id).id := by
          intro he
          rw [he, hfree] at hq
          cases hq
        rw [if_neg hne]
        exact ⟨q, hq, hp⟩

/-- A careful step keeps the invariant. -/
theorem Delivered.step {h : Run} (hd : Delivered h) (e : Event) (hc : Careful h e) : Delivered (h.step e) := by
  have htick : ∀ e : Event, ∀ i, e.tick = some i → Delivered (h.step e) := by
    intro e i he
    rw [Run.step_tick he]
    cases hi : h.ticks[i]? with
    | none => exact hd
    | some stage =>
      cases hn : stage.next h.outbox h.sent e with
      | none => simpa only [Option.bind_some, hn, Option.elim_none] using hd
      | some x => simpa only [Option.bind_some, hn, Option.elim_some] using hd.next hi hn
  cases e with
  | enqueue now id x => exact hd.enqueue now id x hc
  | startTick =>
    refine ⟨hd.rows, ?_, ?_⟩
    · intro t ht item hitem
      rcases List.mem_append.mp ht with ht | ht
      · exact hd.hand t ht item hitem
      · rw [List.mem_singleton.mp ht] at hitem
        cases hitem
    · intro t ht item hitem
      rcases List.mem_append.mp ht with ht | ht
      · exact hd.settled t ht item hitem
      · rw [List.mem_singleton.mp ht] at hitem
        cases hitem
  | reapSelect now after i => exact htick _ i rfl
  | reapCommit now i => exact htick _ i rfl
  | claimSelect now limit i => exact htick _ i rfl
  | claimCommit now i => exact htick _ i rfl
  | dispatch result i => exact htick _ i rfl
  | settleSelect i => exact htick _ i rfl
  | settleUpdate now i => exact htick _ i rfl

/-- In a run of careful steps every dispatched row holds a payload that was sent. -/
theorem careful_runs_sent {h : Run} (hr : Reached Run.step Careful Run.empty h) : AllSent h :=
  (hr.invariant delivered_empty (fun _ e hd hc => hd.step e hc)).allSent

/-- A status update of task `T1`. -/
def statusMessage (payload : String) : Message := ⟨"task.status", "task", "T1", payload, some "T1:status"⟩

/-- A row that is dispatched, and queued again for a second payload. -/
def dispatchedRun : List Event :=
  [.enqueue 0 1 (statusMessage "in progress"), .startTick, .claimSelect 10 25 0, .claimCommit 10 0,
    .dispatch .dispatched 0, .settleSelect 0, .settleUpdate 20 0, .enqueue 30 2 (statusMessage "done")]

theorem dispatchedRun_sent : AllSent (after Run.step Run.empty dispatchedRun) :=
  careful_runs_sent (Reached.init.after dispatchedRun (by decide +kernel))

/-- A row whose payload is replaced between its claim and its completion. -/
def replacedRun : List Event :=
  [.enqueue 0 1 (statusMessage "in progress"), .startTick, .claimSelect 10 25 0, .claimCommit 10 0,
    .enqueue 15 2 (statusMessage "done"), .dispatch .dispatched 0, .settleSelect 0, .settleUpdate 20 0]

/-- The second payload is marked as dispatched and was never sent. -/
theorem replacedRun_not_sent :
    Reached Run.step (fun _ _ => True) Run.empty (after Run.step Run.empty replacedRun) ∧
      ¬ AllSent (after Run.step Run.empty replacedRun) :=
  ⟨Reached.init.after replacedRun (by decide +kernel), by decide +kernel⟩

end OutboxDelivery
