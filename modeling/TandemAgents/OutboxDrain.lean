import Mathlib.Algebra.Order.BigOperators.Group.List
import Mathlib.Algebra.Order.Ring.Nat
import TandemAgents.DispatchTick

/-!
# The outbox drains

With the replies of the dispatcher itself every claim of a row uses up one of its attempts or
settles it. So no row is dispatched more often than it has attempts left, and ticks that lie
far enough apart settle every row, whatever GitHub and Linear answer.
-/
namespace OutboxDrain

open KeyedTable PythonText JsonData PullRequests CoordinationStore Statements Outbox OutboxOutcomes DispatchTick

set_option maxRecDepth 20000

/-! ## Updates one by one -/

/-- Updates by id, each of which names the row it was made for. -/
theorem find?_each {f : OutboxRow → OutboxTable → OutboxTable} {g : OutboxRow → OutboxRow → OutboxRow}
    {rows : List OutboxRow} (hn : (rows.map (·.id)).Nodup)
    (hf : ∀ row ∈ rows, ∀ s id, (f row s).find? id = if id = row.id then (s.find? id).map (g row) else s.find? id)
    (s : OutboxTable) (id : Nat) : (rows.foldl (fun s row => f row s) s).find? id =
      (s.find? id).map ((rows.find? fun row => decide (row.id = id)).elim (fun r => r) g) := by
  induction rows generalizing s with
  | nil => simp
  | cons row rows ih =>
    rw [List.map_cons, List.nodup_cons] at hn
    have hrow := hf row List.mem_cons_self s id
    rw [List.foldl_cons, ih hn.2 (fun r hr => hf r (List.mem_cons_of_mem row hr)), hrow]
    by_cases hid : id = row.id
    · have hnone : (rows.find? fun r => decide (r.id = id)) = none := by
        rw [List.find?_eq_none]
        intro r hr heq
        exact hn.1 (hid ▸ of_decide_eq_true heq ▸ List.mem_map_of_mem hr)
      rw [if_pos hid, hnone, List.find?_cons_of_pos (by simp [hid])]
      cases s.find? id <;> rfl
    · rw [if_neg hid, List.find?_cons_of_neg (by simpa using fun h => hid h.symm)]

/-! ## What a tick does to a row -/

/-- The same where the updates are made for rows as they stand in the table. -/
theorem find?_selected {f : OutboxRow → OutboxTable → OutboxTable} {g : OutboxRow → OutboxRow → OutboxRow}
    {rows : List OutboxRow} {s : OutboxTable} (hn : (rows.map (·.id)).Nodup) (hrows : ∀ r ∈ rows, s.find? r.id = some r)
    (hf : ∀ row s id, (f row s).find? id = if id = row.id then (s.find? id).map (g row) else s.find? id) (id : Nat) :
    (rows.foldl (fun s row => f row s) s).find? id = (s.find? id).map fun r => if r ∈ rows then g r r else r := by
  rw [find?_each hn (fun row _ => hf row)]
  cases hrow : s.find? id with
  | none => rfl
  | some r =>
    have hid : r.id = id := DedupeTable.find?_key hrow
    rw [Option.map_some, Option.map_some]
    cases hfind : rows.find? fun row => decide (row.id = id) with
    | none =>
      have hnot : r ∉ rows := by
        intro hmem
        rw [List.find?_eq_none] at hfind
        exact hfind r hmem (decide_eq_true hid)
      rw [if_neg hnot]
      rfl
    | some row =>
      have hmem := List.mem_of_find?_eq_some hfind
      have hkey : row.id = id := by simpa using List.find?_some hfind
      have hsame := hrows row hmem
      rw [hkey, hrow] at hsame
      obtain rfl := Option.some.inj hsame
      rw [if_pos hmem]
      rfl

/-- The claims the sweep takes back. -/
def isStale (a : Asked) (r : OutboxRow) : Prop :=
  r.status = .processing ∧ r.updatedAtMs ≤ a.reapedAt - secondsToMs defaultOutboxStaleAfterSeconds defaultOutboxStaleAfterSeconds

instance (a : Asked) (r : OutboxRow) : Decidable (isStale a r) := by unfold isStale; infer_instance

/-- A row behind the sweep. -/
def swept (a : Asked) (r : OutboxRow) : OutboxRow := if isStale a r then r.release a.reapedAt else r

theorem find?_reaped (a : Asked) (o : OutboxTable) (id : Nat) :
    (reapedOutbox a o).find? id = (o.find? id).map (swept a) := by
  have hmem : ∀ r, r ∈ staleClaims a.reapedAt defaultOutboxStaleAfterSeconds o ↔ o.find? r.id = some r ∧ isStale a r := by
    intro r
    rw [staleClaims, (List.perm_insertionSort _ _).mem_iff, List.mem_filter, DedupeTable.mem_rows, decide_eq_true_eq]
    rfl
  have hnodup : ((staleClaims a.reapedAt defaultOutboxStaleAfterSeconds o).map (·.id)).Nodup := by
    rw [staleClaims, ((List.perm_insertionSort _ _).map _).nodup_iff]
    exact (List.filter_sublist.map _).nodup o.nodup
  rw [reapedOutbox, run_reapStaleOutboxClaims,
    find?_selected hnodup (fun r hr => ((hmem r).mp hr).1) (find?_releaseRow a.reapedAt)]
  cases hrow : o.find? id with
  | none => rfl
  | some r =>
    have hfound : o.find? r.id = some r := (DedupeTable.find?_key hrow).symm ▸ hrow
    have hiff : r ∈ staleClaims a.reapedAt defaultOutboxStaleAfterSeconds o ↔ isStale a r :=
      (hmem r).trans ⟨fun h => h.2, fun h => ⟨hfound, h⟩⟩
    simp only [Option.map_some, swept, hiff]

/-- The rows the claim of a tick selects. -/
abbrev chosen (a : Asked) (o : OutboxTable) : List OutboxRow := pendingRows a.claimedAt a.limit (reapedOutbox a o)

theorem find?_claimed (a : Asked) (o : OutboxTable) (id : Nat) : (claimedOutbox a o).find? id =
    ((reapedOutbox a o).find? id).map fun r => if r ∈ chosen a o then r.claim a.claimedAt (r.attempts + 1) else r := by
  rw [claimedOutbox, run_claimPendingOutbox]
  exact find?_selected (nodup_pendingRows _ _ _) (fun r hr => (mem_pendingRows hr).1) (find?_claimRow a.claimedAt) id

/-- What an operation makes of the row it names. -/
def effect (now : Int) (c : Call) (r : OutboxRow) : OutboxRow :=
  match c.op with
  | .complete => r.complete now
  | .retry true => r.fail now c.error
  | .retry false => r.postpone now (now + waitSeconds r.attempts none * 1000) c.error

theorem find?_run (now : Int) (c : Call) (s : OutboxTable) {id : Nat} (hid : c.id = (id : Int)) (id' : Nat) :
    (c.run now s).find? id' = if id' = id then (s.find? id').map (effect now c) else s.find? id' := by
  obtain ⟨op, n, error⟩ := c
  obtain rfl : n = (id : Int) := hid
  have hnat : Int.toNat? (id : Int) = some id := rfl
  cases hrow : s.find? id with
  | none =>
    have hsame : Call.run now ⟨op, id, error⟩ s = s := by
      cases op <;> simp only [Call.run, hnat, run_completeOutbox, run_retryOutbox, hrow]
    rw [hsame]
    split
    · rename_i heq
      rw [heq, hrow]
      rfl
    · rfl
  | some row =>
    cases op with
    | complete =>
      simp only [Call.run, hnat, run_completeOutbox, hrow, completeRow, DedupeTable.find?_modify]
      rfl
    | retry terminal =>
      cases terminal with
      | true =>
        simp only [Call.run, hnat, run_retryOutbox, hrow, retryRow, if_true, DedupeTable.find?_modify]
        rfl
      | false =>
        simp only [Call.run, hnat, run_retryOutbox, hrow, retryRow, Bool.false_eq_true, if_false, DedupeTable.find?_modify]
        split
        · rename_i heq
          rw [heq, hrow]
          rfl
        · rfl

/-- The settlement of one row of the batch. -/
def settleOne (py : Runtime) (m : Meets) (errors : List (String × String)) (row : OutboxRow) (s : OutboxTable) : OutboxTable :=
  (callFor py m errors row).elim s fun c => c.run (m.settledAt row) s

/-- What it makes of a row under its id. -/
def outcome (py : Runtime) (m : Meets) (errors : List (String × String)) (row r : OutboxRow) : OutboxRow :=
  (callFor py m errors row).elim r fun c => effect (m.settledAt row) c r

/-- The replies are the ones of the dispatcher. -/
def Own (py : Runtime) (m : Meets) : Prop := ∃ q, m.dispatch = dispatchOutboxItem py q

/-- What the dispatcher relies on: `int` of an integer, `lower` of a lower-case word. -/
structure Laws (py : Runtime) : Prop where
  int : ∀ n, py.int (.int n) = some n
  lower : py.lower "dispatched" = "dispatched"

section
variable {py : Runtime} {m : Meets} {errors : List (String × String)} (hpy : Laws py) (hm : Own py m)
include hpy hm

/-- A row is settled by a call of its own, and put back only with attempts left. -/
theorem callFor_own (errors : List (String × String)) {row : OutboxRow} (hid : row.id < 2 ^ 63) : ∃ op error,
    callFor py m errors row = some ⟨op, row.id, error⟩ ∧ (op = .retry false → row.attempts < defaultOutboxMaxAttempts) := by
  rcases @callFor_spec py m errors row with ⟨-, error, hcall⟩ | ⟨result, hreply, hcall⟩
  · refine ⟨_, error, hcall, fun hop => ?_⟩
    have hterminal : ¬ defaultOutboxMaxAttempts ≤ row.attempts := by simpa using hop
    omega
  · obtain ⟨q, hq⟩ := hm
    have hown : OwnReply row result := by
      apply replies_dispatchOutboxItem py q row result
      unfold replied at hreply
      split at hreply
      · cases hreply
      · rw [hq] at hreply
        cases hd : dispatchOutboxItem py q row with
        | error e => simp [hd, Except.toOption] at hreply
        | ok x => simpa [hd, Except.toOption] using hreply
    rw [replyId_own hpy.int hown hid, Option.map_some] at hcall
    exact ⟨_, _, hcall, fun hop => absurd hop (replyOp_own hpy.lower hown)⟩

theorem find?_settleOne {row : OutboxRow} (hid : row.id < 2 ^ 63) (s : OutboxTable) (id : Nat) :
    (settleOne py m errors row s).find? id =
      if id = row.id then (s.find? id).map (outcome py m errors row) else s.find? id := by
  obtain ⟨op, error, hcall, -⟩ := callFor_own hpy hm errors hid
  have hrun := find?_run (m.settledAt row) ⟨op, row.id, error⟩ s rfl id
  unfold settleOne outcome
  rw [hcall]
  exact hrun

theorem outbox_settleAll {rows : List OutboxRow} (hids : ∀ row ∈ rows, row.id < 2 ^ 63) (t : Tick) :
    (settleAll py m errors rows t).1.outbox = rows.foldl (fun s row => settleOne py m errors row s) t.outbox := by
  induction rows generalizing t with
  | nil => rfl
  | cons row rows ih =>
    obtain ⟨op, error, hcall, -⟩ := callFor_own hpy hm errors (hids row List.mem_cons_self)
    rw [settleAll, List.foldl_cons]
    have hone : settleOne py m errors row t.outbox = Call.run (m.settledAt row) ⟨op, row.id, error⟩ t.outbox := by
      rw [settleOne, hcall]
      rfl
    rw [callFor] at hcall
    obtain ⟨⟨c, item⟩, hsettle, rfl⟩ := Option.map_eq_some_iff.mp hcall
    rw [hsettle, hone, ih fun r hr => hids r (List.mem_cons_of_mem row hr)]
    rfl

end

/-! ## A tick seen from a row -/

/-- The outbox where the process of a tick ends behind `k` rows of its batch. -/
def stoppedTick (py : Runtime) (m : Meets) (a : Asked) (k : Nat) (o : OutboxTable) : OutboxTable :=
  (settleAll py m (connectorErrors m (claimedRows a o)) ((claimedRows a o).take k) { outbox := claimedOutbox a o }).1.outbox

/-- A whole tick. -/
def tick (py : Runtime) (m : Meets) (a : Asked) (o : OutboxTable) : OutboxTable :=
  (dispatchOutboxTick py m a o).2.outbox

theorem tick_eq (py : Runtime) (m : Meets) (a : Asked) (o : OutboxTable) :
    tick py m a o = stoppedTick py m a (claimedRows a o).length o := by
  unfold tick dispatchOutboxTick stoppedTick
  rw [List.take_length]
  by_cases hempty : claimedRows a o = []
  · rw [if_pos hempty, hempty]
    rfl
  · rw [if_neg hempty]

/-- A claimed row is the one that stands in the outbox under its id. -/
theorem claim_of_id {a : Asked} {o : OutboxTable} {id : Nat} {r : OutboxRow} (hr : o.find? id = some r) {row : OutboxRow}
    (hrow : row ∈ claimedRows a o) (heq : row.id = id) :
    swept a r ∈ chosen a o ∧ row = (swept a r).claimed a.claimedAt := by
  rw [claimedRows_eq] at hrow
  obtain ⟨x, hx, rfl⟩ := List.mem_map.mp hrow
  have hfound := (mem_pendingRows hx).1
  have hid : x.id = id := heq
  rw [hid, find?_reaped, hr, Option.map_some] at hfound
  obtain rfl := Option.some.inj hfound
  exact ⟨hx, rfl⟩

theorem find?_of_claimed {a : Asked} {o : OutboxTable} {row : OutboxRow} (hrow : row ∈ claimedRows a o) :
    ∃ r, o.find? row.id = some r := by
  rw [claimedRows_eq] at hrow
  obtain ⟨x, hx, rfl⟩ := List.mem_map.mp hrow
  have hfound := (mem_pendingRows hx).1
  rw [find?_reaped] at hfound
  obtain ⟨r, hr, -⟩ := Option.map_eq_some_iff.mp hfound
  exact ⟨r, hr⟩

/-- The ids the database draws. -/
def Drawn (o : OutboxTable) : Prop := ∀ id r, o.find? id = some r → id < 2 ^ 63

/-- What a settlement at a time leaves of a row. -/
inductive SettledFrom (now : Int) (r : OutboxRow) : OutboxRow → Prop
  | done {r' : OutboxRow} (hattempts : r'.attempts = r.attempts + 1) (hsettled : ¬ Unsettled r') : SettledFrom now r r'
  | again {r' : OutboxRow} (hattempts : r'.attempts = r.attempts + 1) (hleft : r'.attempts < defaultOutboxMaxAttempts)
      (hstatus : r'.status = .pending) (hupdated : r'.updatedAtMs = now) (hnext : r'.nextAttemptAtMs ≤ now + 300000) :
      SettledFrom now r r'

section
variable {py : Runtime} {m : Meets} (hpy : Laws py) (hm : Own py m)
include hpy hm

theorem settledFrom_outcome {errors : List (String × String)} {now : Int} {r : OutboxRow} (hid : r.id < 2 ^ 63) :
    SettledFrom (m.settledAt (r.claimed now)) r
      (outcome py m errors (r.claimed now) (r.claim now (r.attempts + 1))) := by
  have hid' : (r.claimed now).id < 2 ^ 63 := hid
  obtain ⟨op, error, hcall, hlast⟩ := callFor_own hpy hm errors hid'
  rw [outcome, hcall, Option.elim_some, effect]
  rcases op with _ | ⟨_ | _⟩
  · exact .done rfl (by simp [Unsettled, OutboxRow.complete])
  · -- put back: its wait is at most the five minutes of a stale claim
    have hleft : r.attempts + 1 < defaultOutboxMaxAttempts := hlast rfl
    refine .again rfl hleft rfl rfl ?_
    have hwait : waitSeconds (r.attempts + 1) none ≤ 300 := by
      simp only [waitSeconds, Option.getD_none]
      omega
    simp only [OutboxRow.postpone, OutboxRow.claim]
    omega
  · exact .done rfl (by simp [Unsettled, OutboxRow.fail])

variable {a : Asked} {o : OutboxTable} {k : Nat}

/-- The settlements behind a claim. -/
theorem outcomes_stoppedTick (hids : Drawn o) (id : Nat) : (stoppedTick py m a k o).find? id =
    ((claimedOutbox a o).find? id).map ((((claimedRows a o).take k).find? fun row => decide (row.id = id)).elim
      (fun r => r) (outcome py m (connectorErrors m (claimedRows a o)))) := by
  have hbelow : ∀ row ∈ (claimedRows a o).take k, row.id < 2 ^ 63 := by
    intro row hrow
    obtain ⟨r, hr⟩ := find?_of_claimed (List.mem_of_mem_take hrow)
    exact hids _ r hr
  have hnodup : (((claimedRows a o).take k).map (·.id)).Nodup :=
    ((List.take_sublist k _).map _).nodup (nodup_claimedRows a o)
  rw [stoppedTick, outbox_settleAll hpy hm hbelow]
  exact find?_each hnodup (fun row hrow s i => find?_settleOne hpy hm (hbelow row hrow) s i) (claimedOutbox a o) id

theorem find?_stoppedTick_none {id : Nat} (hids : Drawn o) (hr : o.find? id = none) :
    (stoppedTick py m a k o).find? id = none := by
  rw [outcomes_stoppedTick hpy hm hids, find?_claimed, find?_reaped, hr]
  rfl

/-- A row is not claimed, is claimed and left in hand, or is settled. -/
theorem find?_stoppedTick (hids : Drawn o) {id : Nat} {r : OutboxRow} (hr : o.find? id = some r) :
    (swept a r ∉ chosen a o ∧ (stoppedTick py m a k o).find? id = some (swept a r)) ∨
    (swept a r ∈ chosen a o ∧ (swept a r).claimed a.claimedAt ∉ (claimedRows a o).take k ∧
      (stoppedTick py m a k o).find? id = some ((swept a r).claim a.claimedAt ((swept a r).attempts + 1))) ∨
    ∃ r', swept a r ∈ chosen a o ∧ (swept a r).claimed a.claimedAt ∈ (claimedRows a o).take k ∧
      (stoppedTick py m a k o).find? id = some r' ∧
      SettledFrom (m.settledAt ((swept a r).claimed a.claimedAt)) (swept a r) r' := by
  have hreaped : (reapedOutbox a o).find? id = some (swept a r) := by rw [find?_reaped, hr, Option.map_some]
  have hid : (swept a r).id = id := DedupeTable.find?_key hreaped
  have hclaimed : (claimedOutbox a o).find? id = some (if swept a r ∈ chosen a o then
      (swept a r).claim a.claimedAt ((swept a r).attempts + 1) else swept a r) := by
    rw [find?_claimed, hreaped, Option.map_some]
  have htick := outcomes_stoppedTick hpy hm (a := a) (k := k) hids id
  rw [hclaimed, Option.map_some] at htick
  cases hfind : ((claimedRows a o).take k).find? fun row => decide (row.id = id) with
  | none =>
    rw [hfind] at htick
    by_cases hchosen : swept a r ∈ chosen a o
    · rw [if_pos hchosen] at htick
      refine .inr (.inl ⟨hchosen, fun hmem => ?_, htick⟩)
      rw [List.find?_eq_none] at hfind
      exact hfind _ hmem (decide_eq_true hid)
    · rw [if_neg hchosen] at htick
      exact .inl ⟨hchosen, htick⟩
  | some row =>
    have hmem := List.mem_of_find?_eq_some hfind
    have hkey : row.id = id := by simpa using List.find?_some hfind
    obtain ⟨hchosen, rfl⟩ := claim_of_id hr (List.mem_of_mem_take hmem) hkey
    rw [hfind, if_pos hchosen] at htick
    exact .inr (.inr ⟨_, hchosen, hmem, htick, settledFrom_outcome hpy hm (hid.symm ▸ hids id r hr)⟩)

end

/-! ## The budget of a row -/

theorem unsettled_swept {a : Asked} {r : OutboxRow} : Unsettled (swept a r) ↔ Unsettled r := by
  unfold swept
  split
  · rename_i hstale
    exact iff_of_true (unsettled_of (.inl rfl)) (unsettled_of (.inr hstale.1))
  · rfl

theorem attempts_swept (a : Asked) (r : OutboxRow) : (swept a r).attempts = r.attempts := by
  unfold swept
  split <;> rfl

/-- The claims a row can still have: one for each attempt below the last, and one if it is unsettled. -/
def chances (r : OutboxRow) : Nat := (defaultOutboxMaxAttempts - 1 - r.attempts) + if Unsettled r then 1 else 0

theorem chances_swept (a : Asked) (r : OutboxRow) : chances (swept a r) = chances r := by
  unfold chances
  rw [attempts_swept, if_congr unsettled_swept rfl rfl]

/-- A settlement uses up a chance. -/
theorem SettledFrom.chances_lt {now : Int} {r r' : OutboxRow} (h : SettledFrom now r r') (hu : Unsettled r) :
    chances r' < chances r := by
  unfold chances
  rw [if_pos hu]
  cases h with
  | done hattempts hsettled =>
    rw [if_neg hsettled]
    omega
  | again hattempts hleft hstatus =>
    rw [if_pos (unsettled_of (.inl hstatus)), hattempts]
    have hmax : defaultOutboxMaxAttempts = 5 := rfl
    omega

/-- What happens to an outbox next to its dispatchers: enqueues under the ids the database draws,
ticks, ticks whose process ends behind `k` rows of the batch, and sweeps. -/
inductive Turn where
  | enqueue (now : Int) (id : Fin (2 ^ 63)) (x : Message)
  | tick (m : Meets) (a : Asked)
  | stopped (m : Meets) (a : Asked) (k : Nat)
  | sweep (a : Asked)

namespace Turn

def run (py : Runtime) : Turn → OutboxTable → OutboxTable
  | enqueue now id x, o => ((enqueueOutbox now id x).run o).2
  | tick m a, o => OutboxDrain.tick py m a o
  | stopped m a k, o => stoppedTick py m a k o
  | sweep a, o => reapedOutbox a o

def Own (py : Runtime) : Turn → Prop
  | tick m _ => OutboxDrain.Own py m
  | stopped m _ _ => OutboxDrain.Own py m
  | _ => True

/-- The turn claims the row. -/
def claims (id : Nat) : Turn → OutboxTable → Bool
  | tick _ a, o => decide (id ∈ (claimedRows a o).map (·.id))
  | stopped _ a _, o => decide (id ∈ (claimedRows a o).map (·.id))
  | _, _ => false

/-- The turn is an enqueue of the row, which adds it or takes it up again. -/
def enqueues (id : Nat) : Turn → OutboxTable → Bool
  | enqueue _ new x, o => decide (id = (o.holder x.dedupeKey).elim new.val (·.id))
  | _, _ => false

/-- The turn claims the row, and its process ends before it is settled. -/
def loses (id : Nat) : Turn → OutboxTable → Bool
  | stopped _ a k, o => decide (id ∈ (claimedRows a o).map (·.id) ∧ id ∉ ((claimedRows a o).take k).map (·.id))
  | _, _ => false

/-- The number of turns of a run with a property. -/
def count (py : Runtime) (p : Turn → OutboxTable → Bool) : List Turn → OutboxTable → Nat
  | [], _ => 0
  | t :: ts, o => (p t o).toNat + count py p ts (t.run py o)

def runAll (py : Runtime) (ts : List Turn) (o : OutboxTable) : OutboxTable := ts.foldl (fun o t => t.run py o) o

end Turn

/-- The chances of the row under an id; one that is not there will have all of them but that of its enqueue. -/
def chancesAt (o : OutboxTable) (id : Nat) : Nat := (o.find? id).elim (defaultOutboxMaxAttempts - 1) chances

theorem drawn_of_find? {o o' : OutboxTable} (h : Drawn o) (hnone : ∀ id, o.find? id = none → o'.find? id = none) :
    Drawn o' := by
  intro id r hr
  cases hrow : o.find? id with
  | none =>
    rw [hnone id hrow] at hr
    cases hr
  | some r' => exact h id r' hrow

theorem chances_requeue_le (now : Int) (payload : String) (r : OutboxRow) :
    chances (r.requeue now payload) ≤ chances r + 1 := by
  have hattempts : (r.requeue now payload).attempts = r.attempts := rfl
  unfold chances
  rw [hattempts]
  split <;> split <;> omega

/-- An enqueue gives its row one chance. -/
theorem enqueue_step (now : Int) (new : Fin (2 ^ 63)) (x : Message) {o : OutboxTable} (hids : Drawn o) :
    Drawn ((enqueueOutbox now new x).run o).2 ∧ ∀ id, chancesAt ((enqueueOutbox now new x).run o).2 id ≤
      chancesAt o id + ((Turn.enqueue now new x).enqueues id o).toNat := by
  rw [run_enqueueOutbox]
  cases hi : o.insert (x.row now new) (OutboxRow.requeue now x.payload) (OutboxRow.requeue_id now x.payload)
      (OutboxRow.requeue_dedupeKey now x.payload) with
  | none => exact ⟨hids, fun id => Nat.le_add_right _ _⟩
  | some t =>
    rw [Option.getD_some]
    rcases DedupeTable.insert_eq hi with ⟨q, hq, hfind⟩ | ⟨hnone, hfree, hfind⟩
    · have hrow := DedupeTable.mem_rows.mp (DedupeTable.holder_some hq).1
      have hlands : ∀ id, (Turn.enqueue now new x).enqueues id o = decide (id = q.id) := by
        intro id
        have hq' : o.holder x.dedupeKey = some q := hq
        rw [Turn.enqueues, hq']
        rfl
      refine ⟨drawn_of_find? hids fun id hid => ?_, fun id => ?_⟩
      · rw [hfind]
        split
        · rename_i heq
          rw [heq, hrow] at hid
          cases hid
        · exact hid
      · rw [chancesAt, hfind, hlands]
        by_cases heq : id = q.id
        · rw [if_pos heq, chancesAt, heq, hrow, decide_eq_true rfl]
          exact chances_requeue_le now x.payload q
        · rw [if_neg heq]
          exact Nat.le_add_right _ _
    · have hkey : (x.row now new).id = new.val := rfl
      rw [hkey] at hfree hfind
      have hlands : ∀ id, (Turn.enqueue now new x).enqueues id o = decide (id = new.val) := by
        intro id
        have hnone' : o.holder x.dedupeKey = none := hnone
        rw [Turn.enqueues, hnone']
        rfl
      refine ⟨fun id r hr => ?_, fun id => ?_⟩
      · rw [hfind] at hr
        split at hr
        · rename_i heq
          exact heq ▸ new.isLt
        · exact hids id r hr
      · rw [chancesAt, hfind, hlands]
        by_cases heq : id = new.val
        · rw [if_pos heq, chancesAt, heq, decide_eq_true rfl]
          rw [hfree]
          exact Nat.le_refl 5
        · rw [if_neg heq]
          exact Nat.le_add_right _ _

section
variable {py : Runtime} (hpy : Laws py)
include hpy

/-- A tick takes a chance from every row it claims, unless it stops with the row in hand. -/
theorem stopped_step {m : Meets} (hm : Own py m) (a : Asked) (k : Nat) {o : OutboxTable} (hids : Drawn o) :
    Drawn (stoppedTick py m a k o) ∧ ∀ id,
      ((Turn.stopped m a k).claims id o).toNat + chancesAt (stoppedTick py m a k o) id ≤
        chancesAt o id + ((Turn.stopped m a k).loses id o).toNat := by
  refine ⟨drawn_of_find? hids fun id => find?_stoppedTick_none hpy hm hids, fun id => ?_⟩
  have hmem : ∀ {rows : List OutboxRow} {row : OutboxRow}, row ∈ rows → row.id = id → id ∈ rows.map (·.id) :=
    fun hrow heq => List.mem_map.mpr ⟨_, hrow, heq⟩
  cases hr : o.find? id with
  | none =>
    have hclaims : id ∉ (claimedRows a o).map (·.id) := by
      intro hin
      obtain ⟨row, hrow, heq⟩ := List.mem_map.mp hin
      obtain ⟨r, hfound⟩ := find?_of_claimed hrow
      rw [heq, hr] at hfound
      cases hfound
    rw [Turn.claims, decide_eq_false hclaims, chancesAt, find?_stoppedTick_none hpy hm hids hr, chancesAt, hr]
    simp
  | some r =>
    have hid : (swept a r).id = id := by
      have hreaped : (reapedOutbox a o).find? id = some (swept a r) := by rw [find?_reaped, hr, Option.map_some]
      exact DedupeTable.find?_key hreaped
    rw [chancesAt, chancesAt, hr, Option.elim_some]
    rcases find?_stoppedTick hpy hm (a := a) (k := k) hids hr with
      ⟨hchosen, hrow⟩ | ⟨hchosen, hhand, hrow⟩ | ⟨r', hchosen, htake, hrow, hsettled⟩
    · have hclaims : id ∉ (claimedRows a o).map (·.id) := by
        intro hin
        obtain ⟨row, hrow', heq⟩ := List.mem_map.mp hin
        exact hchosen (claim_of_id hr hrow' heq).1
      rw [Turn.claims, decide_eq_false hclaims, hrow, Option.elim_some, chances_swept]
      simp
    · have hloses : (Turn.stopped m a k).loses id o = true := by
        have hclaimed : (swept a r).claimed a.claimedAt ∈ claimedRows a o := by
          rw [claimedRows_eq]
          exact List.mem_map_of_mem hchosen
        refine decide_eq_true ⟨hmem hclaimed hid, fun hin => ?_⟩
        obtain ⟨row, hrow', heq⟩ := List.mem_map.mp hin
        rw [(claim_of_id hr (List.mem_of_mem_take hrow') heq).2] at hrow'
        exact hhand hrow'
      have hle : chances ((swept a r).claim a.claimedAt ((swept a r).attempts + 1)) ≤ chances (swept a r) := by
        have hunsettled : Unsettled (swept a r) := unsettled_of (.inl (mem_pendingRows hchosen).2)
        have hclaim : Unsettled ((swept a r).claim a.claimedAt ((swept a r).attempts + 1)) := unsettled_of (.inr rfl)
        have hattempts : ((swept a r).claim a.claimedAt ((swept a r).attempts + 1)).attempts = (swept a r).attempts + 1 := rfl
        rw [chances, chances, if_pos hunsettled, if_pos hclaim, hattempts]
        omega
      rw [hloses, hrow, Option.elim_some]
      rw [chances_swept] at hle
      have hone := Bool.toNat_le ((Turn.stopped m a k).claims id o)
      simp only [Bool.toNat_true]
      omega
    · have hlt := hsettled.chances_lt (unsettled_of (.inl (mem_pendingRows hchosen).2))
      rw [chances_swept] at hlt
      rw [hrow, Option.elim_some]
      have hone := Bool.toNat_le ((Turn.stopped m a k).claims id o)
      omega

/-- What a claim takes and an enqueue gives. -/
theorem turn_step {t : Turn} (ht : t.Own py) {o : OutboxTable} (hids : Drawn o) : Drawn (t.run py o) ∧ ∀ id,
    (t.claims id o).toNat + chancesAt (t.run py o) id ≤
      chancesAt o id + (t.enqueues id o).toNat + (t.loses id o).toNat := by
  cases t with
  | enqueue now new x =>
    obtain ⟨hdrawn, hstep⟩ := enqueue_step now new x hids
    refine ⟨hdrawn, fun id => ?_⟩
    have h := hstep id
    simp only [Turn.claims, Turn.loses, Turn.run, Bool.toNat_false]
    omega
  | tick m a =>
    have hwhole : (Turn.tick m a).run py o = stoppedTick py m a (claimedRows a o).length o := tick_eq py m a o
    obtain ⟨hdrawn, hstep⟩ := stopped_step hpy ht a (claimedRows a o).length hids
    rw [hwhole]
    refine ⟨hdrawn, fun id => ?_⟩
    have h := hstep id
    have hnone : (Turn.stopped m a (claimedRows a o).length).loses id o = false := by
      rw [Turn.loses, List.take_length]
      exact decide_eq_false fun h => h.2 h.1
    rw [hnone] at h
    exact Nat.le_trans h (Nat.le_add_right _ _)
  | stopped m a k =>
    obtain ⟨hdrawn, hstep⟩ := stopped_step hpy ht a k hids
    refine ⟨hdrawn, fun id => ?_⟩
    have h := hstep id
    simp only [Turn.enqueues, Turn.run, Bool.toNat_false]
    omega
  | sweep a =>
    have hrow : ∀ id, ((Turn.sweep a).run py o).find? id = (o.find? id).map (swept a) := find?_reaped a o
    refine ⟨drawn_of_find? hids fun id hid => by rw [hrow, hid, Option.map_none], fun id => ?_⟩
    have hsame : chancesAt ((Turn.sweep a).run py o) id = chancesAt o id := by
      rw [chancesAt, chancesAt, hrow]
      cases o.find? id with
      | none => rfl
      | some r => exact chances_swept a r
    rw [hsame]
    simp only [Turn.claims, Bool.toNat_false]
    omega

/-- Over a run a row is claimed no more often than its chances, its enqueues and the processes that
ended with it in hand allow. -/
theorem count_claims_le (ts : List Turn) (hown : ∀ t ∈ ts, t.Own py) {o : OutboxTable} (hids : Drawn o) (id : Nat) :
    Turn.count py (Turn.claims id) ts o + chancesAt (Turn.runAll py ts o) id ≤
      chancesAt o id + Turn.count py (Turn.enqueues id) ts o + Turn.count py (Turn.loses id) ts o := by
  induction ts generalizing o with
  | nil => simp [Turn.count, Turn.runAll]
  | cons t ts ih =>
    obtain ⟨hdrawn, hstep⟩ := turn_step hpy (hown t List.mem_cons_self) hids
    have hrest := ih (fun t' ht' => hown t' (List.mem_cons_of_mem t ht')) hdrawn
    have h := hstep id
    have hall : Turn.runAll py (t :: ts) o = Turn.runAll py ts (t.run py o) := rfl
    simp only [Turn.count, hall]
    omega

/-- In every run of enqueues, ticks, broken ticks and sweeps, at any times and whatever GitHub and Linear
answer, a row is claimed at most four times more than it was enqueued and left in hand. -/
theorem retry_budget (ts : List Turn) (hown : ∀ t ∈ ts, t.Own py) (id : Nat) :
    Turn.count py (Turn.claims id) ts .empty ≤
      4 + Turn.count py (Turn.enqueues id) ts .empty + Turn.count py (Turn.loses id) ts .empty := by
  have hdrawn : Drawn .empty := fun id r hr => by simp at hr
  have hle := count_claims_le hpy ts hown hdrawn id
  have hstart : chancesAt .empty id = 4 := rfl
  omega

end

/-! ## Draining -/

/-- A tick and the time by which it is through. -/
structure Round where
  meets : Meets
  asked : Asked
  endedAt : Int

def drain (py : Runtime) (rounds : List Round) (o : OutboxTable) : OutboxTable :=
  rounds.foldl (fun o r => tick py r.meets r.asked o) o

/-- Each tick begins at least five minutes behind the end of the one before. -/
def Spaced : Int → List Round → Prop
  | _, [] => True
  | since, r :: rs => since + 300000 ≤ r.asked.reapedAt ∧ r.asked.reapedAt ≤ r.asked.claimedAt ∧
      r.asked.claimedAt ≤ r.endedAt ∧ (∀ row, r.meets.settledAt row ≤ r.endedAt) ∧ Spaced r.endedAt rs

/-- What is unsettled was written by then, and waits at most five minutes more. -/
def Old (since : Int) (o : OutboxTable) : Prop := ∀ id r, o.find? id = some r → Unsettled r →
  r.nextAttemptAtMs ≤ since + 300000 ∧ r.updatedAtMs ≤ since

/-- The claims a row that is not settled can still have. -/
def left (r : OutboxRow) : Nat := if Unsettled r then chances r else 0

def leftAt (o : OutboxTable) (id : Nat) : Nat := (o.find? id).elim 0 left

def backlog (o : OutboxTable) : Nat := (o.rows.map left).sum

theorem backlog_eq (o : OutboxTable) : backlog o = ((o.rows.map (·.id)).map (leftAt o)).sum := by
  rw [backlog, List.map_map]
  congr 1
  apply List.map_congr_left
  intro r hr
  rw [Function.comp_apply, leftAt, DedupeTable.mem_rows.mp hr, Option.elim_some]

theorem left_pos {r : OutboxRow} (h : Unsettled r) : 0 < left r := by
  rw [left, if_pos h, chances, if_pos h]
  exact Nat.succ_pos _

theorem left_swept (a : Asked) (r : OutboxRow) : left (swept a r) = left r := by
  rw [left, left, chances_swept, if_congr unsettled_swept rfl rfl]

theorem SettledFrom.left_lt {now : Int} {r r' : OutboxRow} (h : SettledFrom now r r') (hu : Unsettled r) :
    left r' < left r := by
  have hlt := h.chances_lt hu
  rw [left, left, if_pos hu]
  split
  · exact hlt
  · exact Nat.zero_lt_of_lt hlt

/-- Five minutes on, everything unsettled can be claimed. -/
theorem ready_of_old {since : Int} {o : OutboxTable} (h : Old since o) {a : Asked} (hreap : since + 300000 ≤ a.reapedAt)
    (hclaim : a.reapedAt ≤ a.claimedAt) {id : Nat} {r : OutboxRow} (hr : o.find? id = some r) (hu : Unsettled r) :
    (swept a r).status = .pending ∧ (swept a r).nextAttemptAtMs ≤ a.claimedAt ∧ (swept a r).updatedAtMs ≤ a.reapedAt := by
  obtain ⟨hnext, hupdated⟩ := h id r hr hu
  have hms : secondsToMs defaultOutboxStaleAfterSeconds defaultOutboxStaleAfterSeconds = 300000 := by decide
  unfold swept
  split
  · exact ⟨rfl, hclaim, Int.le_refl _⟩
  · rename_i hstale
    refine ⟨?_, by omega, by omega⟩
    have hnot : r.status ≠ .processing := fun hst => hstale ⟨hst, by omega⟩
    obtain ⟨hdispatched, hfailed⟩ := hu
    cases hst : r.status with
    | pending => rfl
    | processing => exact absurd hst hnot
    | dispatched => exact absurd hst hdispatched
    | failed => exact absurd hst hfailed

/-- A claim selects a row, where there is one that is pending and due. -/
theorem pendingRows_ne_nil {now limit : Int} {s : OutboxTable} {r : OutboxRow} (hr : s.find? r.id = some r)
    (hst : r.status = .pending) (hnext : r.nextAttemptAtMs ≤ now) : pendingRows now limit s ≠ [] := by
  have hmem : r ∈ (s.rows.filter (fun r => decide (r.status = .pending ∧ r.nextAttemptAtMs ≤ now))).insertionSort
      (fun a b => a.id ≤ b.id) := by
    rw [(List.perm_insertionSort _ _).mem_iff, List.mem_filter, decide_eq_true_eq]
    exact ⟨DedupeTable.mem_rows.mpr hr, hst, hnext⟩
  unfold pendingRows
  intro hnil
  rcases List.take_eq_nil_iff.mp hnil with hzero | hempty
  · have hone : 1 ≤ max 1 limit := Int.le_max_left 1 limit
    omega
  · rw [hempty] at hmem
    cases hmem

section
variable {py : Runtime} (hpy : Laws py) {m : Meets} (hm : Own py m)
include hpy hm

theorem drawn_tick {a : Asked} {o : OutboxTable} (hids : Drawn o) : Drawn (tick py m a o) :=
  (turn_step hpy (t := .tick m a) hm hids).1

theorem find?_tick_none {a : Asked} {o : OutboxTable} (hids : Drawn o) {id : Nat} (h : o.find? id = none) :
    (tick py m a o).find? id = none := by
  rw [tick_eq]
  exact find?_stoppedTick_none hpy hm hids h

/-- A whole tick settles what it claims. -/
theorem find?_tick {a : Asked} {o : OutboxTable} (hids : Drawn o) {id : Nat} {r : OutboxRow} (hr : o.find? id = some r) :
    (swept a r ∉ chosen a o ∧ (tick py m a o).find? id = some (swept a r)) ∨
    ∃ r', swept a r ∈ chosen a o ∧ (tick py m a o).find? id = some r' ∧
      SettledFrom (m.settledAt ((swept a r).claimed a.claimedAt)) (swept a r) r' := by
  rw [tick_eq]
  rcases find?_stoppedTick hpy hm (a := a) (k := (claimedRows a o).length) hids hr with
    hleft | ⟨hchosen, hhand, -⟩ | ⟨r', hchosen, -, hrow, hsettled⟩
  · exact .inl hleft
  · rw [List.take_length, claimedRows_eq] at hhand
    exact absurd (List.mem_map_of_mem hchosen) hhand
  · exact .inr ⟨r', hchosen, hrow, hsettled⟩

theorem leftAt_tick_le {a : Asked} {o : OutboxTable} (hids : Drawn o) (id : Nat) :
    leftAt (tick py m a o) id ≤ leftAt o id := by
  cases hr : o.find? id with
  | none => rw [leftAt, find?_tick_none hpy hm hids hr, leftAt, hr]
  | some r =>
    rw [leftAt, leftAt, hr, Option.elim_some, ← left_swept a]
    rcases find?_tick hpy hm (a := a) hids hr with ⟨-, hrow⟩ | ⟨r', hchosen, hrow, hsettled⟩
    · rw [hrow, Option.elim_some]
    · rw [hrow, Option.elim_some]
      exact Nat.le_of_lt (hsettled.left_lt (unsettled_of (.inl (mem_pendingRows hchosen).2)))

/-- What is left gets less, as long as there is an unsettled row. -/
theorem sum_leftAt_lt {since : Int} {a : Asked} {o : OutboxTable} (hids : Drawn o) (hold : Old since o)
    (hreap : since + 300000 ≤ a.reapedAt) (hclaim : a.reapedAt ≤ a.claimedAt) {ids : List Nat}
    (hcover : ∀ id r, o.find? id = some r → id ∈ ids) {id : Nat} {r : OutboxRow} (hr : o.find? id = some r)
    (hu : Unsettled r) : (ids.map (leftAt (tick py m a o))).sum < (ids.map (leftAt o)).sum := by
  obtain ⟨hst, hnext, -⟩ := ready_of_old hold hreap hclaim hr hu
  have hreaped : (reapedOutbox a o).find? id = some (swept a r) := by rw [find?_reaped, hr, Option.map_some]
  have hid : (swept a r).id = id := DedupeTable.find?_key hreaped
  have hsome : chosen a o ≠ [] := pendingRows_ne_nil (hid.symm ▸ hreaped) hst hnext
  obtain ⟨x, hx⟩ := List.exists_mem_of_ne_nil _ hsome
  -- the claimed row, which need not be the one that is known to be unsettled
  have hfound := (mem_pendingRows hx).1
  rw [find?_reaped] at hfound
  obtain ⟨y, hy, rfl⟩ := Option.map_eq_some_iff.mp hfound
  apply List.sum_lt_sum
  · exact fun i _ => leftAt_tick_le hpy hm hids i
  · refine ⟨_, hcover _ y hy, ?_⟩
    rcases find?_tick hpy hm (a := a) hids hy with ⟨hnot, -⟩ | ⟨y', -, hrow, hsettled⟩
    · exact absurd hx hnot
    · rw [leftAt, leftAt, hrow, hy, Option.elim_some, Option.elim_some, ← left_swept a y]
      exact hsettled.left_lt (unsettled_of (.inl (mem_pendingRows hx).2))

/-- Behind a tick the outbox is as old as its end. -/
theorem old_tick {since endedAt : Int} {a : Asked} {o : OutboxTable} (hids : Drawn o) (hold : Old since o)
    (hreap : since + 300000 ≤ a.reapedAt) (hclaim : a.reapedAt ≤ a.claimedAt) (hend : a.claimedAt ≤ endedAt)
    (hsettle : ∀ row, m.settledAt row ≤ endedAt) : Old endedAt (tick py m a o) := by
  intro id r' hr' hu'
  cases hr : o.find? id with
  | none =>
    rw [find?_tick_none hpy hm hids hr] at hr'
    cases hr'
  | some r =>
    rcases find?_tick hpy hm (a := a) hids hr with ⟨-, hrow⟩ | ⟨x, -, hrow, hsettled⟩
    · rw [hr'] at hrow
      obtain rfl := Option.some.inj hrow
      obtain ⟨-, hnext, hupdated⟩ := ready_of_old hold hreap hclaim hr (unsettled_swept.mp hu')
      exact ⟨by omega, by omega⟩
    · rw [hr'] at hrow
      obtain rfl := Option.some.inj hrow
      have hat := hsettle ((swept a r).claimed a.claimedAt)
      cases hsettled with
      | done _ hdone => exact absurd hu' hdone
      | again _ _ _ hupdated hnext => exact ⟨by omega, by omega⟩

end

theorem drain_settles {py : Runtime} (hpy : Laws py) (ids : List Nat) (rounds : List Round)
    (hown : ∀ r ∈ rounds, Own py r.meets) {since : Int} (hspaced : Spaced since rounds) {o : OutboxTable} (hids : Drawn o)
    (hold : Old since o) (hcover : ∀ id r, o.find? id = some r → id ∈ ids)
    (henough : (ids.map (leftAt o)).sum ≤ rounds.length) :
    ∀ id r, (drain py rounds o).find? id = some r → ¬ Unsettled r := by
  induction rounds generalizing o since with
  | nil =>
    intro id r hr hu
    have hzero : leftAt o id = 0 := by
      have hsum := Nat.le_zero.mp henough
      rw [List.sum_eq_zero_iff] at hsum
      exact hsum _ (List.mem_map_of_mem (hcover id r hr))
    have hpos := left_pos hu
    have hr' : o.find? id = some r := hr
    rw [leftAt, hr', Option.elim_some] at hzero
    omega
  | cons x xs ih =>
    obtain ⟨hreap, hclaim, hend, hsettle, hrest⟩ := hspaced
    have hm := hown x List.mem_cons_self
    refine ih (o := tick py x.meets x.asked o) (fun r hr => hown r (List.mem_cons_of_mem x hr)) hrest
      (drawn_tick hpy hm hids) (old_tick hpy hm hids hold hreap hclaim hend hsettle) ?_ ?_
    · intro id r' hr'
      cases hr : o.find? id with
      | none =>
        rw [find?_tick_none hpy hm hids hr] at hr'
        cases hr'
      | some r => exact hcover id r hr
    · rw [List.length_cons] at henough
      by_cases hany : ∃ id r, o.find? id = some r ∧ Unsettled r
      · obtain ⟨id, r, hr, hu⟩ := hany
        have hlt := sum_leftAt_lt hpy hm (a := x.asked) hids hold hreap hclaim hcover hr hu
        omega
      · -- nothing is left, and a tick leaves it so
        have hle : (ids.map (leftAt (tick py x.meets x.asked o))).sum ≤ (ids.map (leftAt o)).sum :=
          List.sum_le_sum fun i _ => leftAt_tick_le hpy hm hids i
        have hzero : (ids.map (leftAt o)).sum = 0 := by
          rw [List.sum_eq_zero_iff]
          intro n hn
          obtain ⟨i, -, rfl⟩ := List.mem_map.mp hn
          rw [leftAt]
          cases hr : o.find? i with
          | none => rfl
          | some r => exact if_neg fun hu => hany ⟨i, r, hr, hu⟩
        omega

/-- Ticks that lie five minutes apart settle every row of an outbox within as many rounds as its
unsettled rows have claims left, whatever GitHub and Linear answer. -/
theorem outbox_drained {py : Runtime} (hpy : Laws py) (rounds : List Round) (hown : ∀ r ∈ rounds, Own py r.meets)
    (since : Int) (hspaced : Spaced since rounds) (o : OutboxTable) (hids : Drawn o) (hold : Old since o)
    (henough : backlog o ≤ rounds.length) :
    ∀ r ∈ (drain py rounds o).rows, r.status = .dispatched ∨ r.status = .failed := by
  intro r hr
  have hcover : ∀ id r, o.find? id = some r → id ∈ o.rows.map (·.id) := by
    intro id r hfound
    have hid : r.id = id := DedupeTable.find?_key hfound
    exact List.mem_map.mpr ⟨r, DedupeTable.mem_rows.mpr (hid.symm ▸ hfound), hid⟩
  rw [backlog_eq] at henough
  have hsettled := drain_settles hpy (o.rows.map (·.id)) rounds hown hspaced hids hold hcover henough r.id r
    (DedupeTable.mem_rows.mp hr)
  by_contra hnot
  rw [not_or] at hnot
  exact hsettled hnot

/-- A dispatcher that reaches neither GitHub nor Linear. -/
def offline : Meets where
  connect := fun _ => none
  dispatch := dispatchOutboxItem tickRuntime {
    payload := fun _ => [("task", .obj [])]
    dict := fun _ => .error ""
    issueCommentBody := fun _ _ => "done"
    linearCommentBody := fun _ _ => "done"
    updateProjectItemStatus := fun _ _ => .error "connection refused"
    addIssueComment := fun _ _ => .error "connection refused"
    createPullRequestMetadata := fun _ _ _ _ => .error "connection refused"
    linearUpdateIssue := fun _ _ => .error "connection refused"
    linearAddComment := fun _ _ => .error "connection refused"
    linearCommentMarkerPresent := fun _ _ => .error "connection refused" }
  settledAt := fun _ => 2000

theorem offline_own : Own tickRuntime offline := ⟨_, rfl⟩

theorem tickRuntime_laws : Laws tickRuntime := ⟨fun _ => rfl, by decide⟩

/-- A comment that no connection lets through is claimed five times. -/
theorem retry_budget_offline :
    (let ts := [.enqueue 0 1 ⟨"github_issue.comment", "task", "ISSUE-7", "", none⟩] ++
      (List.range 6).map fun n => Turn.tick offline ⟨100000 * n, 100000 * n, 25⟩
     Turn.count tickRuntime (Turn.claims 1) ts .empty = 5 ∧
     Turn.count tickRuntime (Turn.claims 1) ts .empty ≤
      4 + Turn.count tickRuntime (Turn.enqueues 1) ts .empty + Turn.count tickRuntime (Turn.loses 1) ts .empty) := by
  refine ⟨by decide +kernel, retry_budget tickRuntime_laws _ (fun t ht => ?_) 1⟩
  rcases List.mem_append.mp ht with hone | htick
  · rw [List.mem_singleton.mp hone]
    trivial
  · obtain ⟨n, -, rfl⟩ := List.mem_map.mp htick
    exact offline_own

/-- The comment on its last attempt, and one a dead dispatcher had in hand. -/
def strandedOutbox : OutboxTable :=
  ⟨⟨[comment, { comment with id := 2, status := .processing, attempts := 1 }], by decide⟩, by decide⟩

/-- Offline ticks of one row each, that take at most a minute. -/
def offlineRound (n : Nat) : Round where
  meets := { offline with settledAt := fun _ => 400000 * n + 350000 }
  asked := ⟨400000 * n + 300000, 400000 * n + 300000, 1⟩
  endedAt := 400000 * n + 360000

theorem spaced_offline (k n : Nat) {since : Int} (h : since ≤ 400000 * n) :
    Spaced since ((List.range' n k).map offlineRound) := by
  induction k generalizing n since with
  | zero => trivial
  | succ k ih =>
    rw [List.range'_succ, List.map_cons]
    have hnext : (offlineRound n).endedAt ≤ 400000 * ((n + 1 : Nat) : Int) := by
      simp only [offlineRound]
      omega
    refine ⟨?_, Int.le_refl _, ?_, fun _ => ?_, ih (n + 1) hnext⟩ <;> simp only [offlineRound] <;> omega

theorem outbox_drained_offline :
    backlog strandedOutbox = 5 ∧
    ∀ r ∈ (drain tickRuntime ((List.range' 0 5).map offlineRound) strandedOutbox).rows,
      r.status = .dispatched ∨ r.status = .failed := by
  have hrow : ∀ id r, strandedOutbox.find? id = some r →
      r = comment ∨ r = { comment with id := 2, status := .processing, attempts := 1 } := by
    intro id r hr
    have hid : r.id = id := DedupeTable.find?_key hr
    have hmem : r ∈ strandedOutbox.rows := DedupeTable.mem_rows.mpr (hid.symm ▸ hr)
    simpa [strandedOutbox] using hmem
  refine ⟨by decide, outbox_drained tickRuntime_laws _ (fun r hr => ?_) 0 (spaced_offline 5 0 (by decide)) strandedOutbox
    (fun id r hr => ?_) (fun id r hr _ => ?_) (by decide)⟩
  · obtain ⟨n, -, rfl⟩ := List.mem_map.mp hr
    exact ⟨_, rfl⟩
  · have hid : r.id = id := DedupeTable.find?_key hr
    rcases hrow id r hr with rfl | rfl <;> rw [← hid] <;> decide
  · rcases hrow id r hr with rfl | rfl <;> decide

end OutboxDrain
