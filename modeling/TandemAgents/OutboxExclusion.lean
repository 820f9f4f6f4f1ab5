import Mathlib.Data.Fintype.Basic
import TandemAgents.Outbox
import TandemAgents.SelectedUpdates
import TandemAgents.StoreSessions

/-!
# Claims of outbox rows

Any number of outbox operations run at once, each a session of its own. A claim selects
pending rows and updates them by id. Under SQLite no two claims are open at once. Under
Postgres they can be, and both may then select the same rows and return them.
-/
namespace OutboxExclusion

open KeyedTable PythonText CoordinationStore Statements Statements.Prog Outbox
open StoreSessions (isolation)

set_option maxRecDepth 20000

variable {ι : Type}

/-- A call of an operation on the outbox. -/
inductive OutboxOp where
  | enqueueOutbox (now : Int) (id : Nat) (x : Message)
  | claimPendingOutbox (now limit : Int)
  | completeOutbox (now : Int) (id : Nat)
  | retryOutbox (now : Int) (id : Nat) (error : String) (terminal : Bool) (delaySeconds : Option Int)
  | reapStaleOutboxClaims (now staleAfterSeconds : Int)

/-- What a call returns. -/
inductive Reply where
  | row (r : Option OutboxRow)
  | rows (rs : List OutboxRow)

def OutboxOp.prog : OutboxOp → OutboxSql Reply
  | .enqueueOutbox now id x => do return .row (← Outbox.enqueueOutbox now id x)
  | .claimPendingOutbox now limit => do return .rows (← Outbox.claimPendingOutbox now limit)
  | .completeOutbox now id => do return .row (← Outbox.completeOutbox now id)
  | .retryOutbox now id error terminal delay => do return .row (← Outbox.retryOutbox now id error terminal delay)
  | .reapStaleOutboxClaims now after => do return .rows (← Outbox.reapStaleOutboxClaims now after)

abbrev OutboxConfig (ι : Type) := Config ι OutboxTable Nat Reply

/-- Every call before its first statement, on any outbox. -/
def start (db : OutboxTable) (P : ι → OutboxOp) : OutboxConfig ι := .init db (fun i => (P i).prog)

abbrev OutboxRuns [DecidableEq ι] (backend : Backend) (A : OutboxConfig ι → ι → OutboxConfig ι → Prop) :
    OutboxConfig ι → OutboxConfig ι → Prop := Runs (isolation backend) A

/-- No condition on the steps. -/
def anyCall (_ : OutboxConfig ι) (_ : ι) (_ : OutboxConfig ι) : Prop := True

instance anyCall.decidable (c : OutboxConfig ι) (i : ι) (d : OutboxConfig ι) : Decidable (anyCall c i d) := isTrue trivial

/-- The rows a claim selects. -/
def OutboxOp.select : OutboxOp → OutboxTable → List OutboxRow
  | .claimPendingOutbox now limit => pendingRows now limit
  | _ => fun _ => []

/-- A transaction of the outbox, in the words of the library. -/
theorem updateSelected_eq (select : OutboxTable → List OutboxRow) (f : OutboxRow → OutboxTable → OutboxTable)
    (result : OutboxRow → OutboxRow) : (do return Reply.rows (← updateSelected select f result) : OutboxSql Reply) =
      updateEach select (fun row => [row.id]) f (fun rows => Reply.rows (rows.map result)) := by
  simp only [updateSelected, updateEach, updateRest, beginTransaction_bind, commitTransaction_bind, beginTx_bind,
    bind_assoc, pure_def, ret_bind, commit_bind]
  rfl

/-! ## What a call does to the rows -/

/-- The row is there and pending. -/
def Pending (s : OutboxTable) (id : Nat) : Prop := ∃ r, s.find? id = some r ∧ r.status = .pending

/-- The row is there and not pending. -/
def Taken (s : OutboxTable) (id : Nat) : Prop := ∃ r, s.find? id = some r ∧ r.status ≠ .pending

instance (s : OutboxTable) (id : Nat) : Decidable (Taken s id) := by unfold Taken; infer_instance

/-- The calls that can put a row back to pending. -/
def OutboxOp.PutsBack (id : Nat) : OutboxOp → Prop
  | .enqueueOutbox _ _ _ => True
  | .claimPendingOutbox _ _ => False
  | .completeOutbox _ _ => False
  | .retryOutbox _ id' _ terminal _ => id' = id ∧ terminal = false
  | .reapStaleOutboxClaims _ _ => True

/-- Rows stay, and only some calls make one pending. -/
structure RowEffect (o : OutboxOp) (s t : OutboxTable) : Prop where
  stays : ∀ id, (s.find? id).isSome → (t.find? id).isSome
  back : ∀ id, Taken s id → Pending t id → o.PutsBack id

theorem not_taken_pending {s : OutboxTable} {id : Nat} (h : Pending s id) : ¬ Taken s id := by
  obtain ⟨r, hr, hst⟩ := h
  rintro ⟨r', hr', hst'⟩
  cases hr.symm.trans hr'
  exact hst' hst

theorem taken_or_pending {s : OutboxTable} {id : Nat} (h : (s.find? id).isSome) : Taken s id ∨ Pending s id := by
  obtain ⟨r, hr⟩ := Option.isSome_iff_exists.mp h
  by_cases hst : r.status = .pending
  · exact .inr ⟨r, hr, hst⟩
  · exact .inl ⟨r, hr, hst⟩

theorem Taken.isSome {s : OutboxTable} {id : Nat} (h : Taken s id) : (s.find? id).isSome := by
  obtain ⟨r, hr, -⟩ := h
  rw [hr]
  rfl

theorem RowEffect.refl (o : OutboxOp) (s : OutboxTable) : RowEffect o s s where
  stays _ h := h
  back _ h k := absurd h (not_taken_pending k)

theorem RowEffect.trans {o : OutboxOp} {s t u : OutboxTable} (h : RowEffect o s t) (k : RowEffect o t u) :
    RowEffect o s u where
  stays id hs := k.stays id (h.stays id hs)
  back id hs hu := by
    have hmid := taken_or_pending (h.stays id hs.isSome)
    cases hmid with
    | inl ht => exact k.back id ht hu
    | inr ht => exact h.back id hs ht

/-- An update by id that makes its row pending only where the call may. -/
theorem rowEffect_modify {o : OutboxOp} (s : OutboxTable) (id : Nat) (f : OutboxRow → OutboxRow)
    (hf : ∀ r, (f r).id = r.id) (hd : ∀ r, (f r).dedupeKey = r.dedupeKey)
    (hback : ∀ r, (f r).status = .pending → o.PutsBack id) : RowEffect o s (s.modify id f hf hd) where
  stays i hs := by
    rw [DedupeTable.find?_modify]
    split
    · rwa [Option.isSome_map]
    · exact hs
  back i hs hu := by
    obtain ⟨r', hr', hst⟩ := hu
    rw [DedupeTable.find?_modify] at hr'
    split at hr'
    · rename_i hi
      obtain ⟨r, -, rfl⟩ := Option.map_eq_some_iff.mp hr'
      exact hi ▸ hback r hst
    · exact absurd hs (not_taken_pending ⟨r', hr', hst⟩)

/-- An enqueue keeps every row, whatever it merges into. -/
theorem rowEffect_insert {now : Int} {id : Nat} {x : Message} {s t : OutboxTable}
    (h : s.insert (x.row now id) (OutboxRow.requeue now x.payload) (OutboxRow.requeue_id now x.payload)
      (OutboxRow.requeue_dedupeKey now x.payload) = some t) : RowEffect (.enqueueOutbox now id x) s t where
  stays i hs := by
    cases DedupeTable.insert_eq h with
    | inl hmerge =>
      obtain ⟨r, -, hfind⟩ := hmerge
      rw [hfind]
      split
      · rfl
      · exact hs
    | inr hnew =>
      obtain ⟨-, -, hfind⟩ := hnew
      rw [hfind]
      split
      · rfl
      · exact hs
  back _ _ _ := trivial

def rowGuarantee (o : OutboxOp) : Guarantee OutboxTable where
  rel _ := RowEffect o
  refl _ := RowEffect.refl o
  trans _ _ _ _ h k := h.trans k
  more _ _ _ _ h := h

theorem each_updateSelected {o : OutboxOp} {select : OutboxTable → List OutboxRow}
    {f : OutboxRow → OutboxTable → OutboxTable} {result : OutboxRow → OutboxRow}
    (hf : ∀ row s, RowEffect o s (f row s)) :
    (do return Reply.rows (← updateSelected select f result) : OutboxSql Reply).Each (rowGuarantee o).Respects [] := by
  rw [updateSelected_eq]
  exact each_updateEach fun seen row => Guarantee.respects_some (G := rowGuarantee o) (hf row)

/-- The guarantee of each call. -/
theorem each_prog (o : OutboxOp) : o.prog.Each (rowGuarantee o).Respects [] := by
  cases o with
  | enqueueOutbox now id x =>
    refine Each.bind ?_ fun _ _ _ => trivial
    exact Each.bind (each_insertRow _ fun s t ht => rowEffect_insert ht) fun _ _ _ => each_get _ _
  | claimPendingOutbox now limit =>
    exact each_updateSelected fun row s => rowEffect_modify s _ _ _ _ fun r hr => by cases hr
  | completeOutbox now id =>
    refine Each.bind (each_get_bind fun s => ?_) fun _ _ _ => trivial
    split
    · trivial
    · refine each_update_bind (Guarantee.respects_some fun t => ?_) fun _ => trivial
      exact rowEffect_modify t _ _ _ _ fun r hr => by cases hr
  | retryOutbox now id error terminal delay =>
    refine Each.bind (each_get_bind fun s => ?_) fun _ _ _ => trivial
    split
    · trivial
    · refine each_update_bind (Guarantee.respects_some fun t => ?_) fun _ => trivial
      unfold retryRow
      cases terminal with
      | true => exact rowEffect_modify t _ _ _ _ fun r hr => by cases hr
      | false => exact rowEffect_modify t _ _ _ _ fun r _ => ⟨rfl, rfl⟩
  | reapStaleOutboxClaims now after =>
    exact each_updateSelected fun row s => rowEffect_modify s _ _ _ _ fun r _ => trivial

theorem taken_claimRow (now : Int) (row : OutboxRow) {s : OutboxTable} {id : Nat}
    (h : Taken s id ∨ id = row.id ∧ (s.find? id).isSome) : Taken (claimRow now row s) id := by
  have hsome : (s.find? id).isSome := h.elim Taken.isSome And.right
  obtain ⟨r, hr⟩ := Option.isSome_iff_exists.mp hsome
  have hfind := find?_claimRow now row s id
  rw [hr] at hfind
  by_cases hid : id = row.id
  · rw [if_pos hid] at hfind
    exact ⟨_, hfind, fun hst => by cases hst⟩
  · rw [if_neg hid] at hfind
    obtain ⟨r', hr', hst⟩ := h.resolve_right fun hn => hid hn.1
    cases hr.symm.trans hr'
    exact ⟨r, hfind, hst⟩

/-- The updates of a claim leave its rows taken, and taken rows as well. -/
theorem taken_foldl (now : Int) {rows : List OutboxRow} {s : OutboxTable} {id : Nat}
    (h : Taken s id ∨ id ∈ rows.map (·.id) ∧ (s.find? id).isSome) :
    Taken (rows.foldl (fun s row => claimRow now row s) s) id := by
  induction rows generalizing s with
  | nil => exact h.resolve_right fun hn => by cases hn.1
  | cons row rows ih =>
    rw [List.foldl_cons]
    apply ih
    by_cases hrow : Taken s id ∨ id = row.id ∧ (s.find? id).isSome
    · exact .inl (taken_claimRow now row hrow)
    · have hlist := h.resolve_left fun ht => hrow (.inl ht)
      have hne : id ≠ row.id := fun heq => hrow (.inr ⟨heq, hlist.2⟩)
      have htail : id ∈ rows.map (·.id) := by
        have hmem := hlist.1
        rw [List.map_cons] at hmem
        exact (List.mem_cons.mp hmem).resolve_left hne
      refine .inr ⟨htail, ?_⟩
      rw [find?_claimRow, if_neg hne]
      exact hlist.2

/-! ## Claims among other calls -/

/-- The rows a call has returned. -/
def returnedRows (x : Session OutboxTable Nat Reply) : List OutboxRow :=
  match x.prog with
  | some (.ret (.rows rs)) => rs
  | _ => []

/-- A claim has returned the row. -/
def Returned (P : ι → OutboxOp) (c : OutboxConfig ι) (i : ι) (id : Nat) : Prop :=
  (∃ now limit, P i = .claimPendingOutbox now limit) ∧ id ∈ (returnedRows (c.session i)).map (·.id)

section
variable [DecidableEq ι] {backend : Backend} {A : OutboxConfig ι → ι → OutboxConfig ι → Prop} {db : OutboxTable}
  {P : ι → OutboxOp} {c d : OutboxConfig ι} {i j : ι}

/-- On Postgres a claim finds no row that another open claim has selected. -/
def NoOverlap (backend : Backend) (P : ι → OutboxOp) (c : OutboxConfig ι) (i : ι) (_ : OutboxConfig ι) : Prop :=
  backend = .postgres → Apart OutboxRow.id (fun i => (P i).select) c i

instance NoOverlap.decidable [Fintype ι] (backend : Backend) (P : ι → OutboxOp) (c : OutboxConfig ι) (i : ι)
    (d : OutboxConfig ι) : Decidable (NoOverlap backend P c i d) := by
  unfold NoOverlap
  infer_instance

theorem guarded_runs (h : OutboxRuns backend A (start db P) c) : AllGuarded (fun i => rowGuarantee (P i)) c :=
  allGuarded_runs (fun i => each_prog (P i)) h

theorem claim_updating {now limit : Int} (hi : P i = .claimPendingOutbox now limit)
    (h : OutboxRuns backend A (start db P) c) :
    (c.session i).Updating (P i).select (fun row => [row.id]) (claimRow now)
      (fun rows => Reply.rows (rows.map (OutboxRow.claimed now))) := by
  have hprog : (P i).prog = updateEach (P i).select (fun row => [row.id]) (claimRow now)
      (fun rows => Reply.rows (rows.map (OutboxRow.claimed now))) := by
    rw [hi]
    exact updateSelected_eq _ _ _
  exact updating_runs (p := fun i => (P i).prog) hprog h

/-- The selections of open claims share no row. -/
theorem disjoint_runs (h : OutboxRuns backend (NoOverlap backend P) (start db P) c) :
    DisjointSelections OutboxRow.id (fun i => (P i).select) c := by
  have hstep : ∀ c i d, OutboxRuns backend (NoOverlap backend P) (start db P) c →
      Step (isolation backend) c i d → NoOverlap backend P c i d → Apart OutboxRow.id (fun i => (P i).select) c i := by
    intro c i d hr _ hn
    cases backend with
    | sqlite => exact (oneWriter_runs hr).apart i
    | postgres => exact hn rfl
  induction h with
  | refl => exact fun i j _ x hx => by cases hx
  | @step c d i hr hs hn ih =>
    refine ih.step ?_ hs (hstep c i d hr hs hn)
    cases hi : P i with
    | claimPendingOutbox now limit =>
      have hupd := claim_updating hi hr
      rw [hi] at hupd
      exact hupd.selection_step hs
    | _ => exact .inl (by simp only [OutboxOp.select, Session.selected_nothing])

/-- A row that an open claim has selected is in the outbox. -/
theorem selected_found {now limit : Int} (hi : P i = .claimPendingOutbox now limit)
    (h : OutboxRuns backend A (start db P) c) :
    ∀ r ∈ (c.session i).selected (P i).select, (c.db.find? r.id).isSome := by
  induction h with
  | refl => exact fun r hr => by cases hr
  | @step c d k hr hs _ ih =>
    have hstays := ((guarded_runs hr).step hs).2.stays
    intro r hmem
    rcases hs.session i with ⟨-, hsame⟩ | ⟨rfl, -⟩
    · rw [hsame] at hmem
      exact hstays _ (ih r hmem)
    · rcases (claim_updating hi hr).selection_step hs with heq | hnone | ⟨-, heq⟩
      · rw [heq] at hmem
        exact hstays _ (ih r hmem)
      · rw [Session.selected_closed hnone] at hmem
        cases hmem
      · rw [heq, hi] at hmem
        exact hstays _ (by rw [(mem_pendingRows hmem).1]; rfl)

/-- What a claim commits and returns. -/
theorem claim_commits (h : OutboxRuns backend A (start db P) c) (hc : Commits c i d) {id : Nat}
    (hret : Returned P d i id) : (c.session i).tx.isSome ∧ 2 ≤ (c.session i).seen.length ∧
      id ∈ ((c.session i).selected (P i).select).map (·.id) ∧ Taken d.db id := by
  obtain ⟨⟨now, limit, hi⟩, hid⟩ := hret
  obtain ⟨hopen, hlen, hdb, hprog, -⟩ := (claim_updating hi h).commits hc
  have hsel : id ∈ ((c.session i).selected (P i).select).map (·.id) := by
    simpa only [returnedRows, hprog, List.map_map, Function.comp_def, OutboxRow.claimed_id] using hid
  refine ⟨hopen, hlen, hsel, ?_⟩
  obtain ⟨r, hr, rfl⟩ := List.mem_map.mp hsel
  rw [hdb]
  exact taken_foldl now (.inr ⟨hsel, selected_found hi h r hr⟩)

/-- Between the two claims of a row some call puts it back to pending. -/
def PutBack (backend : Backend) (A : OutboxConfig ι → ι → OutboxConfig ι → Prop) (P : ι → OutboxOp)
    (c d : OutboxConfig ι) (id : Nat) : Prop :=
  ∃ e k e', OutboxRuns backend A c e ∧ Step (isolation backend) e k e' ∧ OutboxRuns backend A e' d ∧
    Taken e.db id ∧ Pending e'.db id ∧ (P k).PutsBack id

/-- No row is returned by two claims, unless it was put back to pending in between. -/
def ClaimedOnce (backend : Backend) (A : OutboxConfig ι → ι → OutboxConfig ι → Prop) (db : OutboxTable)
    (P : ι → OutboxOp) : Prop :=
  ∀ i j id c₀ c₁ c₂ c₃, i ≠ j → OutboxRuns backend A (start db P) c₀ → Commits c₀ i c₁ → A c₀ i c₁ →
    Returned P c₁ i id → OutboxRuns backend A c₁ c₂ → Commits c₂ j c₃ → Returned P c₃ j id → PutBack backend A P c₁ c₂ id

/-- Claims are exclusive on SQLite, and on Postgres in every run whose claims do not overlap. -/
theorem claimedOnce (backend : Backend) (db : OutboxTable) (P : ι → OutboxOp) :
    ClaimedOnce backend (NoOverlap backend P) db P := by
  intro i j id c₀ c₁ c₂ c₃ hij h₀ hci hA hri h₁ hcj hrj
  obtain ⟨-, -, hsel, htaken⟩ := claim_commits h₀ hci hri
  have hr₁ : OutboxRuns backend (NoOverlap backend P) (start db P) c₁ := h₀.step i hci.step hA
  obtain ⟨hopen, hlen, hselj, -⟩ := claim_commits (hr₁.trans h₁) hcj hrj
  obtain ⟨⟨now, limit, hj⟩, -⟩ := hrj
  have hsame : c₁.session j = c₀.session j := by
    have hs : Step (isolation backend) c₀ i c₁ := hci.step
    rcases hs.session j with ⟨-, heq⟩ | ⟨heq, -⟩
    · exact heq
    · exact absurd heq.symm hij
  rcases (claim_updating hj hr₁).selected_by h₁ hlen hopen with heq | ⟨e, he, he', heq⟩
  · -- both had selected the row before the first claim committed
    rw [heq, hsame] at hselj
    obtain ⟨r, hr, hrid⟩ := List.mem_map.mp hsel
    obtain ⟨r', hr', hrid'⟩ := List.mem_map.mp hselj
    exact absurd (hrid.trans hrid'.symm) (disjoint_runs h₀ i j hij r hr r' hr')
  · rw [heq, hj] at hselj
    obtain ⟨r, hr, rfl⟩ := List.mem_map.mp hselj
    have hpending : Pending e.db r.id := ⟨r, mem_pendingRows hr⟩
    obtain ⟨d, k, d', hd, hs, -, hd', hI, hn⟩ :=
      he.exists_last (I := fun c => Taken c.db r.id) htaken fun ht => not_taken_pending hpending ht
    have heffect := ((guarded_runs (hr₁.trans hd)).step hs).2
    have hback : Pending d'.db r.id := (taken_or_pending (heffect.stays _ hI.isSome)).resolve_left hn
    exact ⟨d, k, d', hd, hs, hd'.trans he', hI, hback, heffect.back _ hI hback⟩

end

/-! ## Runs -/

/-- An outbox with one pending row. -/
def onePending : OutboxTable :=
  ((Outbox.enqueueOutbox 0 1 ⟨"github.comment", "task", "T1", "done", some "T1:done"⟩).run .empty).2

/-- A claim, a sweep when the claim is stale, and another claim. -/
def reclaim : Fin 3 → OutboxOp
  | 0 => .claimPendingOutbox 0 1
  | 1 => .reapStaleOutboxClaims 300000 300
  | 2 => .claimPendingOutbox 300000 1

/-- On Postgres the second claim returns the row again, behind the sweep that put it back. -/
theorem reclaim_once : ∃ c₁ c₂ c₃, Commits c₂ 2 c₃ ∧ Returned reclaim c₁ 0 1 ∧ Returned reclaim c₃ 2 1 ∧
    PutBack .postgres (NoOverlap .postgres reclaim) reclaim c₁ c₂ 1 := by
  have hrun : (follow (isolation .postgres) (NoOverlap .postgres reclaim) (start onePending reclaim) [0, 0, 0]).any
      (fun c₀ => (c₀.session 0).atCommit &&
        (follow (isolation .postgres) (NoOverlap .postgres reclaim) c₀ [0]).any (fun c₁ =>
          decide (1 ∈ (returnedRows (c₁.session 0)).map (·.id)) &&
          (follow (isolation .postgres) (NoOverlap .postgres reclaim) c₁ [1, 1, 1, 1, 2, 2, 2]).any (fun c₂ =>
            (c₂.session 2).atCommit && (follow (isolation .postgres) (NoOverlap .postgres reclaim) c₂ [2]).any
              (fun c₃ => decide (1 ∈ (returnedRows (c₃.session 2)).map (·.id)))))) = true := by decide +kernel
  simp only [Option.any_eq_true, Bool.and_eq_true, decide_eq_true_eq] at hrun
  obtain ⟨c₀, h₀, hat₀, c₁, h₁, hret₁, c₂, h₂, hat₂, c₃, h₃, hret₃⟩ := hrun
  have hc₁ := commits_of_follow hat₀ h₁
  have hc₃ := commits_of_follow hat₂ h₃
  have hfirst : Returned reclaim c₁ 0 1 := ⟨⟨0, 1, rfl⟩, hret₁⟩
  have hsecond : Returned reclaim c₃ 2 1 := ⟨⟨300000, 1, rfl⟩, hret₃⟩
  exact ⟨c₁, c₂, c₃, hc₃, hfirst, hsecond, claimedOnce .postgres onePending reclaim 0 2 1 c₀ c₁ c₂ c₃ (by decide)
    (follow_runs h₀) hc₁ (follow_one h₁).2.1 hfirst (follow_runs h₂) hc₃ hsecond⟩

/-- Two dispatchers claim at once. -/
def twoClaims : Fin 2 → OutboxOp
  | 0 => .claimPendingOutbox 0 1
  | 1 => .claimPendingOutbox 0 1

/-- On Postgres both return the one pending row, and nothing puts it back in between. -/
theorem overlapping_claims : ¬ ClaimedOnce .postgres anyCall onePending twoClaims := by
  have hrun : (follow (isolation .postgres) anyCall (start onePending twoClaims) [0, 0, 1, 1, 0]).any
      (fun c₀ => (c₀.session 0).atCommit && (follow (isolation .postgres) anyCall c₀ [0]).any (fun c₁ =>
          decide (1 ∈ (returnedRows (c₁.session 0)).map (·.id)) &&
          (follow (isolation .postgres) anyCall c₁ [1]).any (fun c₂ =>
            (c₂.session 1).atCommit && (follow (isolation .postgres) anyCall c₂ [1]).any
              (fun c₃ => decide (1 ∈ (returnedRows (c₃.session 1)).map (·.id)))))) = true := by decide +kernel
  simp only [Option.any_eq_true, Bool.and_eq_true, decide_eq_true_eq] at hrun
  obtain ⟨c₀, h₀, hat₀, c₁, h₁, hret₁, c₂, h₂, hat₂, c₃, h₃, hret₃⟩ := hrun
  have hc₁ := commits_of_follow hat₀ h₁
  have hc₃ := commits_of_follow hat₂ h₃
  intro hall
  obtain ⟨e, k, e', -, -, -, -, -, hback⟩ := hall 0 1 1 c₀ c₁ c₂ c₃ (by decide) (follow_runs h₀) hc₁ trivial
    ⟨⟨0, 1, rfl⟩, hret₁⟩ (follow_runs h₂) hc₃ ⟨⟨0, 1, rfl⟩, hret₃⟩
  have hclaims : ∀ k, ¬ (twoClaims k).PutsBack 1 := Fin.forall_fin_two.mpr ⟨id, id⟩
  exact hclaims k hback

end OutboxExclusion
