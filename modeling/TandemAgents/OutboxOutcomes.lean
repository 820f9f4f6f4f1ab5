import TandemAgents.Outbox

/-!
# Outcomes of outbox rows

A dispatcher completes or retries a row by its id. Nothing compares the row with the
claim the dispatcher got it from, so one that is late changes the outcome of another
that claimed the row behind it. Outcomes are kept while no row is claimed that a
dispatcher still has in hand, and none is settled under an open sweep that selected it.
-/
namespace OutboxOutcomes

open KeyedTable PythonText CoordinationStore Statements Statements.Prog GuardedRuns Outbox

set_option maxRecDepth 20000

/-- A statement, or the end of a dispatcher's process. -/
inductive Happening where
  | event (e : Event)
  | crash (tick : Nat)

/-- What a dispatcher had in hand when it stopped stays as it is in the outbox. -/
def happen (h : Run) : Happening → Run
  | .event e => h.step e
  | .crash i => { h with ticks := h.ticks.set i .ready }

/-- The row has no outcome. -/
def Unsettled (r : OutboxRow) : Prop := r.status ≠ .dispatched ∧ r.status ≠ .failed

instance (r : OutboxRow) : Decidable (Unsettled r) := by unfold Unsettled; infer_instance

/-- A row leaves its outcome only through an enqueue under its dedupe key, and a row is
settled only by the claim whose attempts it has. -/
structure OutcomeKept (h : Run) (e : Happening) : Prop where
  leaves : ∀ id r, h.outbox.find? id = some r → ¬ Unsettled r → (happen h e).outbox.find? id = some r ∨
    ∃ now k x, e = .event (.enqueue now k x) ∧ r.dedupeKey ≠ none ∧ x.dedupeKey = r.dedupeKey
  fenced : ∀ now i item row result todo, e = .event (.settleUpdate now i) →
    h.ticks[i]? = some (.writing item row result todo) → ∀ r, h.outbox.find? item.id = some r →
    (happen h e).outbox.find? item.id ≠ some r → r.attempts = item.attempts

end OutboxOutcomes

namespace Outbox.Stage

/-- The rows a tick has selected for itself and not settled. -/
def held : Stage → List OutboxRow
  | ready => []
  | reaping _ => []
  | claiming rows => rows
  | working todo => todo
  | settling item _ todo => item :: todo
  | writing item _ _ todo => item :: todo

/-- The rows an open sweep has selected. -/
def swept : Stage → List OutboxRow
  | reaping rows => rows
  | _ => []

/-- The item the next statement settles. -/
def settles : Stage → Option OutboxRow
  | writing item _ _ _ => some item
  | _ => none

end Outbox.Stage

namespace OutboxOutcomes

open KeyedTable PythonText CoordinationStore Statements Statements.Prog GuardedRuns Outbox

/-- The time and limit of a claim that selects. -/
def claimOf : Happening → Option (Int × Int)
  | .event (.claimSelect now limit _) => some (now, limit)
  | _ => none

/-- The tick that settles its item. -/
def settlerOf : Happening → Option Nat
  | .event (.settleUpdate _ i) => some i
  | _ => none

/-- A claim selects no row that a dispatcher has in hand, and no item is settled that an
open sweep has selected. -/
def OnTime (h : Run) (e : Happening) : Prop :=
  (∀ q ∈ claimOf e, ∀ row ∈ pendingRows q.1 q.2 h.outbox, ∀ t ∈ h.ticks, ∀ item ∈ t.held, item.id ≠ row.id) ∧
    ∀ i ∈ settlerOf e, ∀ item ∈ (h.ticks[i]?).bind Stage.settles, ∀ t ∈ h.ticks, ∀ row ∈ t.swept, row.id ≠ item.id

instance (h : Run) (e : Happening) : Decidable (OnTime h e) := by unfold OnTime; infer_instance

/-- The row of an item in hand is unsettled and of the claim that took it. -/
def Current (s : OutboxTable) (item : OutboxRow) : Prop :=
  ∃ r, s.find? item.id = some r ∧ r.attempts = item.attempts ∧ Unsettled r

/-- No two items in hand are of one row, all of them are current, and an open sweep has
selected unsettled rows. -/
structure OnePerRow (h : Run) : Prop where
  current : ∀ t ∈ h.ticks, ∀ item ∈ t.held, Current h.outbox item
  once : ∀ (i j : Nat) (t u : Stage), h.ticks[i]? = some t → h.ticks[j]? = some u → ∀ a ∈ t.held, ∀ b ∈ u.held, a.id = b.id → i = j
  nodup : ∀ t ∈ h.ticks, (t.held.map (·.id)).Nodup
  swept : ∀ t ∈ h.ticks, ∀ row ∈ t.swept, ∃ r, h.outbox.find? row.id = some r ∧ Unsettled r

theorem onePerRow_empty : OnePerRow Run.empty where
  current t ht := by cases ht
  once i j t u hi := by simp [Run.empty] at hi
  nodup t ht := by cases ht
  swept t ht := by cases ht

/-! ## Statements that keep rows unsettled -/

/-- Rows stay, and stay unsettled, and outside a list they keep their attempts. -/
def Calm (ids : List Nat) (s t : OutboxTable) : Prop :=
  ∀ id r, s.find? id = some r → ∃ r', t.find? id = some r' ∧ (Unsettled r → Unsettled r') ∧
    (id ∉ ids → r'.attempts = r.attempts)

theorem Calm.refl (ids : List Nat) (s : OutboxTable) : Calm ids s s := fun _ r hr => ⟨r, hr, fun h => h, fun _ => rfl⟩

theorem Calm.trans {ids : List Nat} {s t u : OutboxTable} (h : Calm ids s t) (k : Calm ids t u) : Calm ids s u := by
  intro id r hr
  obtain ⟨r', hr', hu', ha'⟩ := h id r hr
  obtain ⟨r'', hr'', hu'', ha''⟩ := k id r' hr'
  exact ⟨r'', hr'', fun hu => hu'' (hu' hu), fun hi => (ha'' hi).trans (ha' hi)⟩

theorem Calm.current {ids : List Nat} {s t : OutboxTable} (h : Calm ids s t) {item : OutboxRow}
    (hi : item.id ∉ ids) (hc : Current s item) : Current t item := by
  obtain ⟨r, hr, ha, hu⟩ := hc
  obtain ⟨r', hr', hu', ha'⟩ := h _ r hr
  exact ⟨r', hr', (ha' hi).trans ha, hu' hu⟩

/-- An update by id that leaves its row unsettled. -/
theorem calm_modify {ids : List Nat} (s : OutboxTable) (id : Nat) (f : OutboxRow → OutboxRow)
    (hf : ∀ r, (f r).id = r.id) (hd : ∀ r, (f r).dedupeKey = r.dedupeKey) (hu : ∀ r, Unsettled (f r))
    (ha : id ∈ ids ∨ ∀ r, (f r).attempts = r.attempts) : Calm ids s (s.modify id f hf hd) := by
  intro i r hr
  rw [DedupeTable.find?_modify, hr]
  by_cases hi : i = id
  · rw [if_pos hi]
    exact ⟨f r, rfl, fun _ => hu r, fun hn => ha.resolve_left (fun hmem => hn (hi ▸ hmem)) r⟩
  · rw [if_neg hi]
    exact ⟨r, rfl, fun h => h, fun _ => rfl⟩

theorem calm_foldl {ids : List Nat} {f : OutboxRow → OutboxTable → OutboxTable} {rows : List OutboxRow}
    (hf : ∀ row ∈ rows, ∀ s, Calm ids s (f row s)) (s : OutboxTable) :
    Calm ids s (rows.foldl (fun s row => f row s) s) := by
  induction rows generalizing s with
  | nil => exact .refl ids s
  | cons row rows ih =>
    have hrow := hf row List.mem_cons_self s
    exact hrow.trans (ih (fun r hr => hf r (List.mem_cons_of_mem row hr)) (f row s))

theorem unsettled_of {r : OutboxRow} (h : r.status = .pending ∨ r.status = .processing) : Unsettled r := by
  rcases h with h | h <;> simp [Unsettled, h]

theorem calm_releaseRow (now : Int) (row : OutboxRow) (s : OutboxTable) : Calm [] s (releaseRow now row s) :=
  calm_modify s _ _ _ _ (fun _ => unsettled_of (.inl rfl)) (.inr fun _ => rfl)

theorem calm_claimRow {ids : List Nat} (now : Int) {row : OutboxRow} (h : row.id ∈ ids) (s : OutboxTable) :
    Calm ids s (claimRow now row s) :=
  calm_modify s _ _ _ _ (fun _ => unsettled_of (.inr rfl)) (.inl h)

/-- An enqueue merges into the row with its dedupe key, or adds a row. -/
theorem calm_enqueue (now : Int) (id : Nat) (x : Message) (s : OutboxTable) :
    Calm [] s ((enqueueOutbox now id x).run s).2 := by
  rw [run_enqueueOutbox]
  cases hi : s.insert (x.row now id) (OutboxRow.requeue now x.payload) (OutboxRow.requeue_id now x.payload)
      (OutboxRow.requeue_dedupeKey now x.payload) with
  | none => exact .refl [] s
  | some t =>
    rw [Option.getD_some]
    intro i r hr
    rcases DedupeTable.insert_eq hi with ⟨q, hq, hfind⟩ | ⟨-, hfree, hfind⟩
    · rw [hfind]
      by_cases hid : i = q.id
      · rw [if_pos hid]
        have hrow := DedupeTable.mem_rows.mp (DedupeTable.holder_some hq).1
        rw [hid, hrow] at hr
        obtain rfl := Option.some.inj hr
        exact ⟨_, rfl, fun _ => unsettled_of (.inl rfl), fun _ => rfl⟩
      · rw [if_neg hid]
        exact ⟨r, hr, fun h => h, fun _ => rfl⟩
    · have hne : i ≠ (x.row now id).id := by
        intro heq
        rw [heq, hfree] at hr
        cases hr
      rw [hfind, if_neg hne]
      exact ⟨r, hr, fun h => h, fun _ => rfl⟩

theorem claimRow_leaves (now : Int) (row : OutboxRow) (s : OutboxTable) (id : Nat) (hid : id ≠ row.id) :
    (claimRow now row s).find? id = s.find? id := by rw [find?_claimRow, if_neg hid]

theorem releaseRow_leaves (now : Int) (row : OutboxRow) (s : OutboxTable) (id : Nat) (hid : id ≠ row.id) :
    (releaseRow now row s).find? id = s.find? id := by rw [find?_releaseRow, if_neg hid]

/-- Updates by id leave the rows alone that they do not name. -/
theorem find?_foldl {f : OutboxRow → OutboxTable → OutboxTable}
    (hf : ∀ row s id, id ≠ row.id → (f row s).find? id = s.find? id) {rows : List OutboxRow} {id : Nat}
    (hid : id ∉ rows.map (·.id)) (s : OutboxTable) :
    (rows.foldl (fun s row => f row s) s).find? id = s.find? id := by
  induction rows generalizing s with
  | nil => rfl
  | cons y ys ih =>
    rw [List.map_cons, List.mem_cons, not_or] at hid
    rw [List.foldl_cons, ih hid.2, hf y s id hid.1]

theorem find?_claims (now : Int) {rows : List OutboxRow} (hn : (rows.map (·.id)).Nodup) {row r : OutboxRow}
    (hrow : row ∈ rows) {s : OutboxTable} (hr : s.find? row.id = some r) :
    (rows.foldl (fun s row => claimRow now row s) s).find? row.id = some (r.claim now (row.attempts + 1)) := by
  induction rows generalizing s with
  | nil => cases hrow
  | cons y ys ih =>
    rw [List.map_cons, List.nodup_cons] at hn
    rw [List.foldl_cons]
    rcases List.mem_cons.mp hrow with rfl | hmem
    · rw [find?_foldl (claimRow_leaves now) hn.1, find?_claimRow, if_pos rfl, hr, Option.map_some]
    · have hne : row.id ≠ y.id := fun heq => hn.1 (heq ▸ List.mem_map_of_mem hmem)
      apply ih hn.2 hmem
      rw [claimRow_leaves now y s row.id hne, hr]

/-- What a settled item leaves of the other rows. -/
theorem find?_settleRow (now : Int) (item row : OutboxRow) (result : DispatchResult) (s : OutboxTable) {id : Nat}
    (hid : id ≠ item.id) : (settleRow now item row result s).find? id = s.find? id := by
  unfold settleRow
  cases result.retry item with
  | none =>
    change (completeRow now item.id s).find? id = _
    unfold completeRow
    rw [DedupeTable.find?_modify, if_neg hid]
  | some q =>
    change (retryRow now item.id row.attempts q.1 q.2 none s).find? id = _
    unfold retryRow
    split <;> rw [DedupeTable.find?_modify, if_neg hid]

theorem nodup_pendingRows (now limit : Int) (s : OutboxTable) : ((pendingRows now limit s).map (·.id)).Nodup := by
  have hfilter : ((s.rows.filter (fun r => decide (r.status = .pending ∧ r.nextAttemptAtMs ≤ now))).map
      OutboxRow.id).Nodup := List.Sublist.nodup (List.Sublist.map _ List.filter_sublist) s.nodup
  have hsort := (List.Perm.map OutboxRow.id (List.perm_insertionSort (fun a b : OutboxRow => a.id ≤ b.id)
    (s.rows.filter (fun r => decide (r.status = .pending ∧ r.nextAttemptAtMs ≤ now))))).nodup_iff.mpr hfilter
  exact List.Sublist.nodup (List.Sublist.map _ (List.take_sublist _ _)) hsort

theorem mem_staleClaims {now after : Int} {s : OutboxTable} {r : OutboxRow} (h : r ∈ staleClaims now after s) :
    s.find? r.id = some r ∧ Unsettled r := by
  have hmem := (List.perm_insertionSort _ _).mem_iff.mp h
  rw [List.mem_filter, decide_eq_true_eq] at hmem
  have hst := hmem.2.1
  exact ⟨DedupeTable.mem_rows.mp hmem.1, unsettled_of (.inr hst)⟩

/-! ## One step -/

/-- A tick moves on, next to a change of the outbox. -/
theorem OnePerRow.advance {h : Run} (ho : OnePerRow h) {i : Nat} {old stage : Stage} {t : OutboxTable}
    {sent : List (Nat × String)} (hi : h.ticks[i]? = some old)
    (hother : ∀ item, item.id ∉ old.held.map (·.id) → Current h.outbox item → Current t item)
    (hheld : ∀ item ∈ stage.held, Current t item) (hnodup : (stage.held.map (·.id)).Nodup)
    (hids : ∀ a ∈ stage.held, a.id ∈ old.held.map (·.id) ∨ ∀ u ∈ h.ticks, ∀ b ∈ u.held, b.id ≠ a.id)
    (hswept : ∀ u ∈ h.ticks, ∀ row ∈ u.swept, ∃ r, t.find? row.id = some r ∧ Unsettled r)
    (hnew : ∀ row ∈ stage.swept, ∃ r, t.find? row.id = some r ∧ Unsettled r) :
    OnePerRow ⟨t, h.ticks.set i stage, sent⟩ := by
  -- an item of another tick is of none of the rows of this one
  have hapart : ∀ j u, j ≠ i → h.ticks[j]? = some u → ∀ b ∈ u.held, ∀ a ∈ stage.held, b.id ≠ a.id := by
    intro j u hj hu b hb a ha heq
    rcases hids a ha with hmem | hfree
    · obtain ⟨a', ha', hid⟩ := List.mem_map.mp hmem
      exact hj (ho.once j i u old hu hi b hb a' ha' (heq.trans hid.symm))
    · exact hfree u (List.mem_of_getElem? hu) b hb heq
  constructor
  · intro u hu item hitem
    obtain ⟨j, hj⟩ := List.getElem?_of_mem hu
    rcases getElem?_set_cases hj with ⟨-, rfl⟩ | ⟨hji, hj'⟩
    · exact hheld item hitem
    · refine hother item (fun hmem => ?_) (ho.current u (List.mem_of_getElem? hj') item hitem)
      obtain ⟨a, ha, hid⟩ := List.mem_map.mp hmem
      exact hji (ho.once j i u old hj' hi item hitem a ha hid.symm)
  · intro j k u v hu hv a ha b hb hab
    rcases getElem?_set_cases hu with ⟨rfl, rfl⟩ | ⟨hj, hu'⟩ <;> rcases getElem?_set_cases hv with ⟨rfl, rfl⟩ | ⟨hk, hv'⟩
    · rfl
    · exact absurd hab.symm (hapart k v hk hv' b hb a ha)
    · exact absurd hab (hapart j u hj hu' a ha b hb)
    · exact ho.once j k u v hu' hv' a ha b hb hab
  · intro u hu
    rcases List.mem_or_eq_of_mem_set hu with hu | rfl
    · exact ho.nodup u hu
    · exact hnodup
  · intro u hu
    rcases List.mem_or_eq_of_mem_set hu with hu | rfl
    · exact hswept u hu
    · exact hnew

/-- The same next to a calm change, with no new item in hand. -/
theorem OnePerRow.advanceCalm {h : Run} (ho : OnePerRow h) {i : Nat} {old stage : Stage} {t : OutboxTable}
    {sent : List (Nat × String)} (hi : h.ticks[i]? = some old) (hc : Calm [] h.outbox t)
    (hsub : List.Sublist stage.held old.held)
    (hnew : ∀ row ∈ stage.swept, ∃ r, t.find? row.id = some r ∧ Unsettled r) :
    OnePerRow ⟨t, h.ticks.set i stage, sent⟩ := by
  have hmem := List.mem_of_getElem? hi
  have hcur : ∀ item, Current h.outbox item → Current t item := fun item => hc.current List.not_mem_nil
  refine ho.advance hi (fun item _ => hcur item) ?_ ?_ ?_ ?_ hnew
  · exact fun item hitem => hcur item (ho.current old hmem item (hsub.subset hitem))
  · exact (hsub.map _).nodup (ho.nodup old hmem)
  · exact fun a ha => .inl (List.mem_map_of_mem (hsub.subset ha))
  · intro u hu row hrow
    obtain ⟨r, hr, hun⟩ := ho.swept u hu row hrow
    obtain ⟨r', hr', hun', -⟩ := hc _ r hr
    exact ⟨r', hr', hun' hun⟩

/-- A statement of a tick keeps the invariant. -/
theorem OnePerRow.next {h : Run} (ho : OnePerRow h) {e : Event} {i : Nat} {stage : Stage} {x : Effect}
    (hi : h.ticks[i]? = some stage) (hn : stage.next h.outbox h.sent e = some x) (he : e.tick = some i)
    (ht : OnTime h (.event e)) : OnePerRow ⟨x.outbox, h.ticks.set i x.stage, x.sent⟩ := by
  have hmem := List.mem_of_getElem? hi
  have hcur := ho.current stage hmem
  have hnod := ho.nodup stage hmem
  have hnothing : ∀ (t : OutboxTable), ∀ row ∈ ([] : List OutboxRow), ∃ r, t.find? row.id = some r ∧ Unsettled r :=
    fun t row hrow => by cases hrow
  unfold Stage.next at hn
  split at hn
  case h_1 now after _ =>
    obtain rfl := Option.some.inj hn
    exact ho.advanceCalm hi (.refl _ _) (List.Sublist.refl _) fun row hrow => ⟨row, mem_staleClaims hrow⟩
  case h_2 now _ rows =>
    obtain rfl := Option.some.inj hn
    exact ho.advanceCalm hi (calm_foldl (fun row _ => calm_releaseRow now row) _) (List.Sublist.refl _) (hnothing _)
  case h_3 now limit _ =>
    obtain rfl := Option.some.inj hn
    refine ho.advance hi (fun item _ hc => hc) ?_ (nodup_pendingRows now limit _) ?_ ho.swept (hnothing _)
    · exact fun item hitem => ⟨item, (mem_pendingRows hitem).1, rfl, unsettled_of (.inl (mem_pendingRows hitem).2)⟩
    · exact fun a ha => .inr fun u hu b hb => ht.1 (now, limit) rfl a ha u hu b hb
  case h_4 now _ rows =>
    obtain rfl := Option.some.inj hn
    have hcalm : Calm (rows.map (·.id)) h.outbox (rows.foldl (fun s row => claimRow now row s) h.outbox) :=
      calm_foldl (fun row hrow => calm_claimRow now (List.mem_map_of_mem hrow)) h.outbox
    have hids : (rows.map (OutboxRow.claimed now)).map (·.id) = rows.map (·.id) := by
      simp only [List.map_map, Function.comp_def, OutboxRow.claimed_id]
    refine ho.advance hi (fun item hn hc => hcalm.current hn hc) ?_ (by rwa [Stage.held, hids]) ?_ ?_ (hnothing _)
    · intro item hitem
      obtain ⟨row, hrow, rfl⟩ := List.mem_map.mp hitem
      obtain ⟨r, hr, ha, -⟩ := hcur row hrow
      exact ⟨_, find?_claims now hnod hrow hr, rfl, unsettled_of (.inr rfl)⟩
    · intro a ha
      exact .inl (hids ▸ List.mem_map_of_mem ha)
    · intro u hu row hrow
      obtain ⟨r, hr, hun⟩ := ho.swept u hu row hrow
      obtain ⟨r', hr', hun', -⟩ := hcalm _ r hr
      exact ⟨r', hr', hun' hun⟩
  case h_5 result _ item todo =>
    obtain rfl := Option.some.inj hn
    exact ho.advanceCalm hi (.refl _ _) (List.Sublist.refl _) (hnothing _)
  case h_6 item result todo =>
    split at hn
    · obtain rfl := Option.some.inj hn
      exact ho.advanceCalm hi (.refl _ _) (List.sublist_cons_self _ _) (hnothing _)
    · obtain rfl := Option.some.inj hn
      exact ho.advanceCalm hi (.refl _ _) (List.Sublist.refl _) (hnothing _)
  case h_7 now j item row result todo =>
    obtain rfl := Option.some.inj hn
    obtain rfl : j = i := Option.some.inj he
    have hother : ∀ id, id ≠ item.id → (settleRow now item row result h.outbox).find? id = h.outbox.find? id :=
      fun id hid => find?_settleRow now item row result h.outbox hid
    have hfirst : item.id ∉ todo.map (·.id) := by
      simp only [Stage.held, List.map_cons, List.nodup_cons] at hnod
      exact hnod.1
    have hkeep : ∀ a : OutboxRow, a.id ≠ item.id → Current h.outbox a →
        Current (settleRow now item row result h.outbox) a := by
      intro a ha hc
      rwa [Current, hother a.id ha]
    refine ho.advance hi ?_ ?_ ?_ ?_ ?_ (hnothing _)
    · intro a ha hc
      have hne : a.id ≠ item.id := fun heq => ha (heq ▸ List.mem_map_of_mem List.mem_cons_self)
      exact hkeep a hne hc
    · intro a ha
      have hne : a.id ≠ item.id := fun heq => hfirst (heq ▸ List.mem_map_of_mem ha)
      exact hkeep a hne (hcur a (List.mem_cons_of_mem _ ha))
    · simp only [Stage.held, List.map_cons, List.nodup_cons] at hnod
      exact hnod.2
    · exact fun a ha => .inl (List.mem_map_of_mem (List.mem_cons_of_mem _ ha))
    · intro u hu q hq
      have hitem : item ∈ (h.ticks[j]?).bind Stage.settles := by rw [hi]; rfl
      have hne : q.id ≠ item.id := ht.2 j rfl item hitem u hu q hq
      rw [hother _ hne]
      exact ho.swept u hu q hq
  case h_8 => cases hn

theorem OnePerRow.happen {h : Run} (ho : OnePerRow h) (e : Happening) (ht : OnTime h e) :
    OnePerRow (OutboxOutcomes.happen h e) := by
  cases e with
  | crash i =>
    cases hi : h.ticks[i]? with
    | none =>
      have hset : h.ticks.set i .ready = h.ticks := List.set_eq_of_length_le (List.getElem?_eq_none_iff.mp hi)
      rw [OutboxOutcomes.happen, hset]
      exact ho
    | some old =>
      exact ho.advanceCalm hi (.refl _ _) (List.nil_sublist _) fun row hrow => by cases hrow
  | event e =>
    have htick : ∀ i, e.tick = some i → OnePerRow (h.step e) := by
      intro i he
      rw [Run.step_tick he]
      cases hi : h.ticks[i]? with
      | none => exact ho
      | some stage =>
        cases hn : stage.next h.outbox h.sent e with
        | none => simpa only [Option.bind_some, hn, Option.elim_none] using ho
        | some x => simpa only [Option.bind_some, hn, Option.elim_some] using ho.next hi hn he ht
    cases e with
    | enqueue now id x =>
      have hcalm := calm_enqueue now id x h.outbox
      refine ⟨fun t hmem item hitem => hcalm.current List.not_mem_nil (ho.current t hmem item hitem), ho.once,
        ho.nodup, fun t hmem row hrow => ?_⟩
      obtain ⟨r, hr, hun⟩ := ho.swept t hmem row hrow
      obtain ⟨r', hr', hun', -⟩ := hcalm _ r hr
      exact ⟨r', hr', hun' hun⟩
    | startTick =>
      have hnew : ∀ t ∈ h.ticks ++ [.ready], t ∈ h.ticks ∨ t = .ready := by
        intro t hmem
        simpa using hmem
      constructor
      · intro t hmem item hitem
        rcases hnew t hmem with hmem | rfl
        · exact ho.current t hmem item hitem
        · cases hitem
      · intro j k u v hu hv a ha b hb hab
        rcases getElem?_snoc_cases hu with hu | ⟨-, rfl⟩
        · rcases getElem?_snoc_cases hv with hv | ⟨-, rfl⟩
          · exact ho.once j k u v hu hv a ha b hb hab
          · cases hb
        · cases ha
      · intro t hmem
        rcases hnew t hmem with hmem | rfl
        · exact ho.nodup t hmem
        · exact List.nodup_nil
      · intro t hmem row hrow
        rcases hnew t hmem with hmem | rfl
        · exact ho.swept t hmem row hrow
        · cases hrow
    | reapSelect now after i => exact htick i rfl
    | reapCommit now i => exact htick i rfl
    | claimSelect now limit i => exact htick i rfl
    | claimCommit now i => exact htick i rfl
    | dispatch result i => exact htick i rfl
    | settleSelect i => exact htick i rfl
    | settleUpdate now i => exact htick i rfl

/-- A statement of a tick leaves rows with an outcome alone. -/
theorem OnePerRow.next_settled {h : Run} (ho : OnePerRow h) {e : Event} {i : Nat} {stage : Stage} {x : Effect}
    (hi : h.ticks[i]? = some stage) (hn : stage.next h.outbox h.sent e = some x) {id : Nat} {r : OutboxRow}
    (hr : h.outbox.find? id = some r) (hu : ¬ Unsettled r) : x.outbox.find? id = some r := by
  have hmem := List.mem_of_getElem? hi
  have hheld : id ∉ stage.held.map (·.id) := by
    intro hid
    obtain ⟨item, hitem, rfl⟩ := List.mem_map.mp hid
    obtain ⟨r', hr', -, hu'⟩ := ho.current stage hmem item hitem
    cases hr.symm.trans hr'
    exact hu hu'
  have hswept : id ∉ stage.swept.map (·.id) := by
    intro hid
    obtain ⟨row, hrow, rfl⟩ := List.mem_map.mp hid
    obtain ⟨r', hr', hu'⟩ := ho.swept stage hmem row hrow
    cases hr.symm.trans hr'
    exact hu hu'
  unfold Stage.next at hn
  split at hn
  case h_2 now _ rows =>
    obtain rfl := Option.some.inj hn
    exact (find?_foldl (releaseRow_leaves now) hswept h.outbox).trans hr
  case h_4 now _ rows =>
    obtain rfl := Option.some.inj hn
    exact (find?_foldl (claimRow_leaves now) hheld h.outbox).trans hr
  case h_6 item result todo =>
    split at hn <;>
    · obtain rfl := Option.some.inj hn
      exact hr
  case h_7 now _ item row result todo =>
    obtain rfl := Option.some.inj hn
    have hne : id ≠ item.id := fun heq => hheld (heq ▸ List.mem_map_of_mem List.mem_cons_self)
    exact (find?_settleRow now item row result h.outbox hne).trans hr
  case h_8 => cases hn
  all_goals
    obtain rfl := Option.some.inj hn
    exact hr

theorem OnePerRow.kept {h : Run} (ho : OnePerRow h) (e : Happening) : OutcomeKept h e where
  leaves id r hr hu := by
    cases e with
    | crash i => exact .inl hr
    | event e =>
      have htick : ∀ i, e.tick = some i → (h.step e).outbox.find? id = some r := by
        intro i he
        rw [Run.step_tick he]
        cases hi : h.ticks[i]? with
        | none => exact hr
        | some stage =>
          cases hn : stage.next h.outbox h.sent e with
          | none => simpa only [Option.bind_some, hn, Option.elim_none] using hr
          | some x => simpa only [Option.bind_some, hn, Option.elim_some] using ho.next_settled hi hn hr hu
      cases e with
      | enqueue now k x =>
        by_cases hsame : (OutboxOutcomes.happen h (.event (.enqueue now k x))).outbox.find? id = some r
        · exact .inl hsame
        · refine .inr ⟨now, k, x, rfl, ?_⟩
          rw [OutboxOutcomes.happen, Run.step, run_enqueueOutbox] at hsame
          cases hins : h.outbox.insert (x.row now k) (OutboxRow.requeue now x.payload)
              (OutboxRow.requeue_id now x.payload) (OutboxRow.requeue_dedupeKey now x.payload) with
          | none =>
            rw [hins] at hsame
            exact absurd hr hsame
          | some t =>
            rw [hins, Option.getD_some] at hsame
            rcases DedupeTable.insert_eq hins with ⟨q, hq, hfind⟩ | ⟨-, hfree, hfind⟩
            · obtain ⟨hrow, hkey, hded⟩ := DedupeTable.holder_some hq
              rw [hfind] at hsame
              split at hsame
              · rename_i hid
                rw [hid, DedupeTable.mem_rows.mp hrow] at hr
                obtain rfl := Option.some.inj hr
                exact ⟨by rwa [hded], hded.symm⟩
              · exact absurd hr hsame
            · rw [hfind] at hsame
              split at hsame
              · rename_i hid
                rw [hid, hfree] at hr
                cases hr
              · exact absurd hr hsame
      | startTick => exact .inl hr
      | reapSelect now after i => exact .inl (htick i rfl)
      | reapCommit now i => exact .inl (htick i rfl)
      | claimSelect now limit i => exact .inl (htick i rfl)
      | claimCommit now i => exact .inl (htick i rfl)
      | dispatch result i => exact .inl (htick i rfl)
      | settleSelect i => exact .inl (htick i rfl)
      | settleUpdate now i => exact .inl (htick i rfl)
  fenced now i item row result todo _ hi r hr _ := by
    obtain ⟨r', hr', ha, -⟩ := ho.current _ (List.mem_of_getElem? hi) item List.mem_cons_self
    cases hr.symm.trans hr'
    exact ha

/-- In a run whose steps are all on time, every step keeps the outcomes. -/
theorem onTime_keeps_outcomes {h : Run} (hr : Reached happen OnTime Run.empty h) (e : Happening) : OutcomeKept h e :=
  (hr.invariant onePerRow_empty fun _ e ho ht => ho.happen e ht).kept e

/-! ## Runs -/

/-- A status update of a task. -/
def update : Message := ⟨"task.status", "task", "T1", "done", some "T1:status"⟩

/-- A dispatcher claims a row and stops; the next one gets it from the sweep and completes it. -/
def recovered : List Happening :=
  [.event (.enqueue 0 1 update), .event .startTick, .event .startTick, .event (.claimSelect 0 1 0),
    .event (.claimCommit 0 0), .crash 0, .event (.reapSelect 300000 300 1), .event (.reapCommit 300000 1),
    .event (.claimSelect 300000 1 1), .event (.claimCommit 300000 1), .event (.dispatch .dispatched 1),
    .event (.settleSelect 1), .event (.settleUpdate 300001 1)]

/-- The run is on time, the row is dispatched, and a sweep of any later time leaves it so. -/
theorem recovered_kept : ((GuardedRuns.after happen Run.empty recovered).outbox.find? 1).any
      (fun r => decide (r.status = .dispatched ∧ r.attempts = 2)) = true ∧
    OutcomeKept (GuardedRuns.after happen Run.empty recovered) (.event (.reapSelect 900000 300 0)) :=
  ⟨by decide +kernel, onTime_keeps_outcomes (Reached.init.after recovered (by decide +kernel)) _⟩

/-- The first dispatcher is late instead: its dispatch fails when the other has completed the row. -/
def late : List Happening :=
  [.event (.enqueue 0 1 update), .event .startTick, .event .startTick, .event (.claimSelect 0 1 0),
    .event (.claimCommit 0 0), .event (.reapSelect 300000 300 1), .event (.reapCommit 300000 1),
    .event (.claimSelect 300000 1 1), .event (.claimCommit 300000 1), .event (.dispatch .dispatched 1),
    .event (.settleSelect 1), .event (.settleUpdate 300001 1), .event (.dispatch (.failed false "timeout") 0),
    .event (.settleSelect 0)]

/-- Its retry puts the dispatched row back to pending, under a claim of other attempts. -/
theorem late_retry_undoes : ∃ h, Reached happen (fun _ _ => True) Run.empty h ∧
    ¬ OutcomeKept h (.event (.settleUpdate 300002 0)) := by
  refine ⟨GuardedRuns.after happen Run.empty late, Reached.init.after late (by decide +kernel), fun hkept => ?_⟩
  have hrun : ((GuardedRuns.after happen Run.empty late).outbox.find? 1).any (fun r => decide (¬ Unsettled r) &&
      decide ((happen (GuardedRuns.after happen Run.empty late) (.event (.settleUpdate 300002 0))).outbox.find? 1 ≠
        some r)) = true := by decide +kernel
  simp only [Option.any_eq_true, Bool.and_eq_true, decide_eq_true_eq] at hrun
  obtain ⟨r, hr, hu, hne⟩ := hrun
  rcases hkept.leaves 1 r hr hu with hsame | ⟨now, k, x, he, -⟩
  · exact hne hsame
  · cases he

end OutboxOutcomes
