import Mathlib.Algebra.Ring.Int.Defs
import TandemAgents.GuardedRuns
import TandemAgents.PrSupervision

/-!
# The ledger of the coder spend

The spend of an issue stands in the metadata of its run. Whoever changes the metadata reads
the run, changes a copy and writes the whole copy back, each in a transaction of its own, so
that the calls of several processes interleave. Claiming or starting the run replaces the
metadata without reading it.
-/
namespace SpendLedger

open PythonText JsonData PullRequests IssueSpend RepairBreaker PrSupervision GuardedRuns

set_option maxRecDepth 20000

/-- The callers of `update_run` that write metadata, with what they write. -/
inductive Writer where
  | touchCoordination (supervision : Option Json)
  | persistPullRequestLifecycle (prUrl : String) (pullRequest : Dict)
  | persistPullRequestMerge (merge : Dict)
  | updatePrBranch (result : Dict)
  | persistRepair (repair : Dict) (breaker : Option Breaker)

/-- What a writer makes of the metadata it read. -/
def Writer.assign : Writer → Dict → Dict
  | .touchCoordination (some supervision), metadata => metadata.set "coder_supervision" supervision
  | .touchCoordination none, metadata => metadata
  | .persistPullRequestLifecycle prUrl pullRequest, metadata => (lifecycleAssignments prUrl pullRequest).metadata metadata
  | .persistPullRequestMerge merge, metadata => (entryAssignments "pull_request_merge" merge).metadata metadata
  | .updatePrBranch result, metadata => (entryAssignments "pull_request_rebase" result).metadata metadata
  | .persistRepair repair breaker, metadata => (repairAssignments repair breaker).metadata metadata

/-- What a writer hands to `update_run`: `_touch_coordination` passes `None` for `{}`. -/
def Writer.handed (r : Writer) (metadata : Dict) : Option Dict :=
  match r with
  | .touchCoordination _ => if r.assign metadata = [] then none else some (r.assign metadata)
  | _ => some (r.assign metadata)

/-- The `UPDATE` of `update_run`, which does nothing without a row. -/
def updateRun (row metadata : Option Dict) : Option Dict :=
  match metadata with
  | some d => row.map fun _ => d
  | none => row

/-- How far a call has come. -/
inductive Call where
  | recordCoderSpend (coderResult : Dict)
  | accumulated (loaded : Dict) (usage : Usage) (spend : Spend)
  | spending (loaded metadata : Dict) (usage : Usage) (spend : Spend)
  | writer (r : Writer)
  | writing (r : Writer) (metadata : Dict)
  | over

/-- A call has not read anything yet. -/
def Call.begins : Call → Bool
  | .recordCoderSpend _ => true
  | .writer _ => true
  | _ => false

/-- The metadata of the run's row, where there is one, the calls, and the usages of the calls
of `record_coder_spend` whose update is done. -/
structure Ledger where
  metadata : Option Dict := none
  calls : List Call := []
  completed : List Usage := []

/-- `dict((coordination.get_run(run_id) or {}).get("metadata") or {})`. -/
def Ledger.read (l : Ledger) : Dict := l.metadata.getD []

inductive Event where
  | call (c : Call)
  | step (i : Nat)
  | replace (task repo : Dict)

section
variable (n : Numbers)

/-- The usage of a result, and the spend with it. -/
def spendWith (metadata coderResult : Dict) : Option (Usage × Spend) := do
  let usage ← extractUsage n coderResult
  let spend ← accumulate n (loadIssueSpend metadata) usage 1
  return (usage, spend)

/-- The next transaction of a call; a call whose numbers cannot be read raises. -/
def advance (l : Ledger) (i : Nat) : Call → Ledger
  | .recordCoderSpend coderResult =>
    match spendWith n l.read coderResult with
    | some (usage, spend) => { l with calls := l.calls.set i (.accumulated l.read usage spend) }
    | none => { l with calls := l.calls.set i .over }
  | .accumulated loaded usage spend => { l with calls := l.calls.set i (.spending loaded l.read usage spend) }
  | .spending _ metadata usage spend =>
    { metadata := updateRun l.metadata (some (metadata.set issueSpendKey (.obj spend.toDict)))
      calls := l.calls.set i .over
      completed := l.completed ++ [usage] }
  | .writer r => { l with calls := l.calls.set i (.writing r l.read) }
  | .writing r metadata => { l with metadata := updateRun l.metadata (r.handed metadata), calls := l.calls.set i .over }
  | .over => l

/-- The upserts of `claim_task` and `record_run_start` write `{"task": task, "repo": repo}`. -/
def replaced (task repo : Dict) : Dict := [("task", .obj task), ("repo", .obj repo)]

def step (l : Ledger) : Event → Ledger
  | .call c => if c.begins then { l with calls := l.calls ++ [c] } else l
  | .step i => (l.calls[i]?).elim l (advance n l i)
  | .replace task repo => { l with metadata := some (replaced task repo) }

/-- The spend stored. -/
def Ledger.spend (l : Ledger) : Dict := loadIssueSpend l.read

/-- The ledger agrees with the calls. -/
structure Accounted (l : Ledger) : Prop where
  executions : intField n l.spend "coder_executions" = some (l.completed.length : Int)
  tokens : intField n l.spend "total_tokens" = some (l.completed.map Usage.totalTokens).sum

/-- `budget_status` reports the budget exhausted. -/
def exhausted (budget : Option Budget) (l : Ledger) : Bool := (budgetStatus n l.spend budget).any Prod.fst

/-- A run of which nothing was spent yet. -/
structure Fresh (l : Ledger) : Prop where
  noSpend : (l.read.get issueSpendKey).asDict = none
  noCalls : l.calls = []
  noUsages : l.completed = []

/-- The update of a call meets the spend that the call has read. -/
def Current (l : Ledger) : Call → Prop
  | .spending loaded _ _ _ => l.metadata.isSome = true ∧ l.spend = loadIssueSpend loaded
  | .writing r metadata => (r.handed metadata).isSome = true → l.spend = loadIssueSpend metadata
  | _ => True

/-- No update is stale, and the metadata is replaced only where no spend is recorded. -/
def Careful (l : Ledger) : Event → Prop
  | .step i => ∀ c, l.calls[i]? = some c → Current l c
  | .replace _ _ => (l.read.get issueSpendKey).asDict = none
  | .call _ => True

end

/-! ## What is read back -/

section
variable {n : Numbers}

theorem loadIssueSpend_none {metadata : Dict} (h : (metadata.get issueSpendKey).asDict = none) :
    loadIssueSpend metadata = emptySpend.toDict := by
  simp only [loadIssueSpend, h]

theorem loadIssueSpend_of_get {d e : Dict} (h : d.get issueSpendKey = e.get issueSpendKey) :
    loadIssueSpend d = loadIssueSpend e := by
  simp only [loadIssueSpend, h]

theorem loadIssueSpend_set (metadata : Dict) (s : Spend) :
    loadIssueSpend (metadata.set issueSpendKey (.obj s.toDict)) = s.toDict := by
  simp only [loadIssueSpend, Dict.get_set, if_true, Json.asDict]
  rfl

theorem int_or (n : Numbers) (v : Int) : n.int ((Json.int v).or (.int 0)) = some v := by
  rw [Json.or]
  split
  · exact n.int_int v
  · rename_i h
    have hzero : v = 0 := by simpa [Json.truthy] using h
    rw [hzero]
    exact n.int_int 0

theorem tokens_toDict (n : Numbers) (s : Spend) : intField n s.toDict "total_tokens" = some s.totalTokens := int_or n _

theorem executions_toDict (n : Numbers) (s : Spend) : intField n s.toDict "coder_executions" = some s.coderExecutions :=
  int_or n _

/-- A cost is read back as it is, but for the sign of zero. -/
theorem cost_toDict (n : Numbers) (s : Spend) :
    ∃ x, floatField n s.toDict "cost_usd" = some x ∧ ∀ m, n.ge s.costUsd m = true → n.ge x m = true := by
  have hfield : floatField n s.toDict "cost_usd" = n.float ((Json.float s.costUsd).or (.float "0.0")) := rfl
  rw [hfield, Json.or]
  split
  · exact ⟨_, n.float_float _, fun _ h => h⟩
  · rename_i h
    refine ⟨_, n.float_float _, fun m hm => ?_⟩
    have hzero : s.costUsd = "0.0" ∨ s.costUsd = "-0.0" := by
      by_contra hno
      simp [Json.truthy] at h
      tauto
    obtain hz | hz := hzero
    · rwa [hz] at hm
    · rw [hz] at hm
      exact n.ge_negZero hm

/-- No writer touches the spend. -/
theorem assign_spend (r : Writer) (metadata : Dict) :
    (r.assign metadata).get issueSpendKey = metadata.get issueSpendKey := by
  cases r with
  | touchCoordination supervision => cases supervision <;> simp [Writer.assign, issueSpendKey]
  | persistPullRequestLifecycle => simp [Writer.assign, lifecycleAssignments, lifecycleKey, issueSpendKey]
  | persistPullRequestMerge => simp [Writer.assign, entryAssignments, issueSpendKey]
  | updatePrBranch => simp [Writer.assign, entryAssignments, issueSpendKey]
  | persistRepair repair breaker => cases breaker <;> simp [Writer.assign, repairAssignments, breakerKey, issueSpendKey]

theorem handed_spend {r : Writer} {metadata d : Dict} (h : r.handed metadata = some d) :
    loadIssueSpend d = loadIssueSpend metadata := by
  obtain rfl : r.assign metadata = d := by
    unfold Writer.handed at h
    split at h
    · split at h
      · cases h
      · exact Option.some.inj h
    · exact Option.some.inj h
  exact loadIssueSpend_of_get (assign_spend r metadata)

/-! ## Usages -/

/-- Neither part of a usage is negative. -/
structure Counted (n : Numbers) (u : Usage) : Prop where
  tokens : 0 ≤ u.totalTokens
  cost : n.ge u.costUsd "0.0" = true

theorem ge_maxFloat {a b m : String} (h : n.ge a m = true) : n.ge (maxFloat n a b) m = true := by
  unfold maxFloat
  split
  · exact n.ge_of_lt h (by assumption)
  · exact h

theorem widen_counted {u v : Usage} {container : Dict} (hu : Counted n u) (h : widen n u container = some v) :
    Counted n v := by
  obtain ⟨more, -, rfl⟩ := Option.map_eq_some_iff.mp h
  have htokens := hu.tokens
  exact ⟨by simp only []; omega, ge_maxFloat hu.cost⟩

theorem extractUsage_counted {coderResult : Dict} {u : Usage} (h : extractUsage n coderResult = some u) : Counted n u := by
  have hfold : ∀ (containers : List Dict) (start : Usage), Counted n start →
      containers.foldlM (widen n) start = some u → Counted n u := by
    intro containers
    induction containers with
    | nil =>
      intro start hstart h
      cases h
      exact hstart
    | cons container containers ih =>
      intro start hstart h
      obtain ⟨next, hnext, hrest⟩ := Option.bind_eq_some_iff.mp h
      exact ih next (widen_counted hstart hnext) hrest
  exact hfold _ _ ⟨le_rfl, n.ge_refl_zero⟩ h

/-! ## The budget -/

/-- A whole number has reached its cap. -/
def IntOver (n : Numbers) (d : Dict) (key : String) (cap : Int) : Prop :=
  0 < cap ∧ ∃ v, intField n d key = some v ∧ cap ≤ v

/-- An axis has reached its cap. -/
def Over (n : Numbers) (d : Dict) (b : Budget) : Prop :=
  IntOver n d "total_tokens" b.maxTokens ∨
    (positive n b.maxCostUsd = true ∧ ∃ x, floatField n d "cost_usd" = some x ∧ n.ge x b.maxCostUsd = true) ∨
    IntOver n d "coder_executions" b.maxCoderExecutions

theorem intAxis_over {d : Dict} {name key : String} {cap : Int} {reasons : List String}
    (h : intAxis n d name key cap = some reasons) (hne : reasons ≠ []) : IntOver n d key cap := by
  unfold intAxis at h
  split at h
  · rename_i hcap
    obtain ⟨v, hv, rfl⟩ := Option.map_eq_some_iff.mp h
    refine ⟨hcap, v, hv, ?_⟩
    by_contra hlt
    simp [hlt] at hne
  · cases h
    exact absurd rfl hne

theorem costAxis_over {d : Dict} {cap : String} {reasons : List String} (h : costAxis n d cap = some reasons)
    (hne : reasons ≠ []) :
    positive n cap = true ∧ ∃ x, floatField n d "cost_usd" = some x ∧ n.ge x cap = true := by
  unfold costAxis at h
  split at h
  · rename_i hcap
    obtain ⟨x, hx, rfl⟩ := Option.map_eq_some_iff.mp h
    refine ⟨hcap, x, hx, ?_⟩
    by_contra hlt
    simp [hlt] at hne
  · cases h
    exact absurd rfl hne

theorem over_of_exhausted {d : Dict} {b : Budget} (h : (budgetStatus n d (some b)).any Prod.fst = true) : Over n d b := by
  cases hstatus : budgetStatus n d (some b) with
  | none =>
    rw [hstatus] at h
    cases h
  | some status => ?_
  rw [hstatus, Option.any_some] at h
  obtain ⟨reasons, hreasons, rfl⟩ := Option.map_eq_some_iff.mp hstatus
  obtain ⟨tokens, htokens, hrest⟩ := Option.bind_eq_some_iff.mp hreasons
  obtain ⟨cost, hcost, hrest⟩ := Option.bind_eq_some_iff.mp hrest
  obtain ⟨executions, hexecutions, hall⟩ := Option.bind_eq_some_iff.mp hrest
  cases hall
  have hne : tokens ++ cost ++ executions ≠ [] := by
    intro hnil
    rw [hnil] at h
    cases h
  by_cases ht : tokens = []
  · by_cases hc : cost = []
    · refine .inr (.inr (intAxis_over hexecutions fun he => hne ?_))
      rw [ht, hc, he]
      rfl
    · exact .inr (.inl (costAxis_over hcost hc))
  · exact .inl (intAxis_over htokens ht)

theorem intAxis_read {d : Dict} {key : String} {v : Int} (hv : intField n d key = some v) (name : String) (cap : Int) :
    ∃ reasons, intAxis n d name key cap = some reasons ∧ (IntOver n d key cap → reasons ≠ []) := by
  unfold intAxis
  split
  · refine ⟨_, congrArg _ hv, ?_⟩
    rintro ⟨-, v', hv', hle⟩
    cases hv.symm.trans hv'
    simp [hle]
  · rename_i hcap
    exact ⟨[], rfl, fun h => absurd h.1 hcap⟩

theorem costAxis_read {d : Dict} {x : String} (hx : floatField n d "cost_usd" = some x) (cap : String) :
    ∃ reasons, costAxis n d cap = some reasons ∧ (positive n cap = true → n.ge x cap = true → reasons ≠ []) := by
  unfold costAxis
  split
  · refine ⟨_, congrArg _ hx, fun _ hge => ?_⟩
    simp [hge]
  · rename_i hcap
    exact ⟨[], rfl, fun h => absurd h hcap⟩

/-- A spend that was stored can be held against every budget. -/
theorem exhausted_of_over {s : Spend} {b : Budget} (h : Over n s.toDict b) :
    (budgetStatus n s.toDict (some b)).any Prod.fst = true := by
  obtain ⟨x, hx, -⟩ := cost_toDict n s
  obtain ⟨tokens, htokens, htokensOver⟩ := intAxis_read (tokens_toDict n s) "tokens" b.maxTokens
  obtain ⟨cost, hcost, hcostOver⟩ := costAxis_read hx b.maxCostUsd
  obtain ⟨executions, hexecutions, hexecutionsOver⟩ :=
    intAxis_read (executions_toDict n s) "coder_executions" b.maxCoderExecutions
  have hreasons : budgetReasons n s.toDict b = some (tokens ++ cost ++ executions) := by
    simp [budgetReasons, htokens, hcost, hexecutions]
  have hne : tokens ++ cost ++ executions ≠ [] := by
    obtain ht | ⟨hpos, y, hy, hge⟩ | he := h
    · simp [htokensOver ht]
    · cases hx.symm.trans hy
      simp [hcostOver hpos hge]
    · simp [hexecutionsOver he]
  rw [budgetStatus, hreasons]
  simpa using hne

theorem accumulate_eq {d : Dict} {u : Usage} {s : Spend} (h : accumulate n d u 1 = some s) :
    ∃ tokens cost executions, intField n d "total_tokens" = some tokens ∧ floatField n d "cost_usd" = some cost ∧
      intField n d "coder_executions" = some executions ∧
      s = ⟨tokens + u.totalTokens, n.add cost u.costUsd, executions + 1⟩ := by
  obtain ⟨tokens, htokens, h⟩ := Option.bind_eq_some_iff.mp h
  obtain ⟨cost, hcost, h⟩ := Option.bind_eq_some_iff.mp h
  obtain ⟨executions, hexecutions, h⟩ := Option.bind_eq_some_iff.mp h
  cases h
  exact ⟨tokens, cost, executions, htokens, hcost, hexecutions, rfl⟩

/-- What is spent on top leaves no axis below its cap again. -/
theorem over_accumulate {d : Dict} {u : Usage} {s : Spend} {b : Budget} (hu : Counted n u)
    (h : accumulate n d u 1 = some s) (ho : Over n d b) : Over n s.toDict b := by
  obtain ⟨tokens, cost, executions, htokens, hcost, hexecutions, rfl⟩ := accumulate_eq h
  have hmore := hu.tokens
  obtain ⟨hcap, v, hv, hle⟩ | ⟨hpos, x, hx, hge⟩ | ⟨hcap, v, hv, hle⟩ := ho
  · cases htokens.symm.trans hv
    exact .inl ⟨hcap, _, tokens_toDict n _, by simp only []; omega⟩
  · cases hcost.symm.trans hx
    obtain ⟨y, hy, hkeeps⟩ := cost_toDict n ⟨tokens + u.totalTokens, n.add cost u.costUsd, executions + 1⟩
    exact .inr (.inl ⟨hpos, y, hy, hkeeps _ (n.ge_add hge hu.cost)⟩)
  · cases hexecutions.symm.trans hv
    exact .inr (.inr ⟨hcap, _, executions_toDict n _, by simp only []; omega⟩)

/-! ## One step -/

/-- The calls under way have added a usage to the spend they loaded. -/
def Added (n : Numbers) : Call → Prop
  | .accumulated loaded usage spend => Counted n usage ∧ accumulate n (loadIssueSpend loaded) usage 1 = some spend
  | .spending loaded _ usage spend => Counted n usage ∧ accumulate n (loadIssueSpend loaded) usage 1 = some spend
  | _ => True

def AllAdded (n : Numbers) (l : Ledger) : Prop := ∀ c ∈ l.calls, Added n c

theorem step_call (n : Numbers) (l : Ledger) (c : Call) :
    step n l (.call c) = if c.begins then { l with calls := l.calls ++ [c] } else l := rfl

theorem step_at {l : Ledger} {i : Nat} {c : Call} (h : l.calls[i]? = some c) : step n l (.step i) = advance n l i c := by
  rw [step, h, Option.elim_some]

theorem step_beyond {l : Ledger} {i : Nat} (h : l.calls[i]? = none) : step n l (.step i) = l := by
  rw [step, h, Option.elim_none]

/-- What a step does to the ledger. -/
inductive Moved (n : Numbers) (l l' : Ledger) : Prop where
  | same : l'.spend = l.spend → l'.completed = l.completed → Moved n l l'
  | spent (u : Usage) (s : Spend) : Counted n u → accumulate n l.spend u 1 = some s → l'.spend = s.toDict →
      l'.completed = l.completed ++ [u] → Moved n l l'

variable {l : Ledger}

theorem allAdded_set {i : Nat} {c : Call} {m : Option Dict} {us : List Usage} (h : AllAdded n l) (hc : Added n c) :
    AllAdded n ⟨m, l.calls.set i c, us⟩ := fun c' hc' =>
  (List.mem_or_eq_of_mem_set hc').elim (h c') fun heq => heq ▸ hc

theorem spendWith_added {metadata coderResult : Dict} {u : Usage} {s : Spend}
    (h : spendWith n metadata coderResult = some (u, s)) : Added n (.accumulated metadata u s) := by
  obtain ⟨u', hu, h⟩ := Option.bind_eq_some_iff.mp h
  obtain ⟨s', hs, h⟩ := Option.bind_eq_some_iff.mp h
  cases h
  exact ⟨extractUsage_counted hu, hs⟩

theorem allAdded_step (h : AllAdded n l) (e : Event) : AllAdded n (step n l e) := by
  cases e with
  | call c =>
    rw [step_call]
    split
    · rename_i hbegins
      intro c' hc'
      obtain hc' | hc' := List.mem_append.mp hc'
      · exact h c' hc'
      · obtain rfl := List.mem_singleton.mp hc'
        cases c' <;> trivial
    · exact h
  | replace task repo => exact h
  | step i =>
    cases hc : l.calls[i]? with
    | none => rwa [step_beyond hc]
    | some c =>
      have hadded := h c (List.mem_of_getElem? hc)
      have hover : Added n .over := trivial
      rw [step_at hc]
      cases c with
      | recordCoderSpend coderResult =>
        simp only [advance]
        cases hs : spendWith n l.read coderResult with
        | none => exact allAdded_set h hover
        | some us => exact allAdded_set h (spendWith_added hs)
      | accumulated loaded usage spend =>
        have hspending : Added n (.spending loaded l.read usage spend) := hadded
        exact allAdded_set h hspending
      | spending => exact allAdded_set h hover
      | writer r =>
        have hwriting : Added n (.writing r l.read) := trivial
        exact allAdded_set h hwriting
      | writing => exact allAdded_set h hover
      | «over» => exact h

/-- A write of what another writer makes of the spend stored leaves the spend. -/
theorem updateRun_spend {r : Writer} {metadata : Dict}
    (hcurrent : (r.handed metadata).isSome = true → l.spend = loadIssueSpend metadata) :
    loadIssueSpend ((updateRun l.metadata (r.handed metadata)).getD []) = l.spend := by
  cases hd : r.handed metadata with
  | none => rfl
  | some d =>
    have hsame := hcurrent (by rw [hd]; rfl)
    cases hrow : l.metadata with
    | none => rw [updateRun, Ledger.spend, Ledger.read, hrow]; rfl
    | some row => rw [hsame, ← handed_spend hd]; rfl

theorem step_moved (h : AllAdded n l) {e : Event} (hcareful : Careful l e) : Moved n l (step n l e) := by
  cases e with
  | call c =>
    rw [step_call]
    split <;> exact .same rfl rfl
  | replace task repo =>
    have hnone : (step n l (.replace task repo)).spend = emptySpend.toDict := rfl
    exact .same (hnone.trans (loadIssueSpend_none hcareful).symm) rfl
  | step i =>
    cases hc : l.calls[i]? with
    | none =>
      rw [step_beyond hc]
      exact .same rfl rfl
    | some c =>
      have hadded := h c (List.mem_of_getElem? hc)
      have hcurrent := hcareful c hc
      rw [step_at hc]
      cases c with
      | recordCoderSpend coderResult =>
        simp only [advance]
        cases spendWith n l.read coderResult <;> exact .same rfl rfl
      | accumulated => exact .same rfl rfl
      | spending loaded metadata usage spend =>
        obtain ⟨row, hrow⟩ := Option.isSome_iff_exists.mp hcurrent.1
        refine .spent usage spend hadded.1 (by rw [hcurrent.2]; exact hadded.2) ?_ rfl
        rw [advance, hrow]
        exact loadIssueSpend_set metadata spend
      | writer => exact .same rfl rfl
      | writing r metadata => exact .same (updateRun_spend hcurrent) rfl
      | «over» => exact .same rfl rfl

theorem Moved.accounted {l' : Ledger} (h : Moved n l l') (ha : Accounted n l) : Accounted n l' := by
  cases h with
  | same hspend hcompleted => exact ⟨hspend ▸ hcompleted ▸ ha.executions, hspend ▸ hcompleted ▸ ha.tokens⟩
  | spent u s _ hs hspend hcompleted =>
    obtain ⟨tokens, cost, executions, htokens, -, hexecutions, rfl⟩ := accumulate_eq hs
    cases htokens.symm.trans ha.tokens
    cases hexecutions.symm.trans ha.executions
    refine ⟨?_, ?_⟩
    · rw [hspend, executions_toDict, hcompleted, List.length_append]
      rfl
    · rw [hspend, tokens_toDict, hcompleted, List.map_append, List.sum_append]
      simp

theorem Moved.exhausted {l' : Ledger} (h : Moved n l l') {budget : Option Budget} (he : exhausted n budget l = true) :
    exhausted n budget l' = true := by
  cases h with
  | same hspend _ => rwa [SpendLedger.exhausted, hspend]
  | spent u s hu hs hspend _ =>
    unfold SpendLedger.exhausted at *
    rw [hspend]
    cases budget with
    | none => cases he
    | some b => exact exhausted_of_over (over_accumulate hu hs (over_of_exhausted he))

/-! ## Every interleaving -/

theorem accounted_of_fresh (h : Fresh l) : Accounted n l := by
  have hspend : l.spend = emptySpend.toDict := loadIssueSpend_none h.noSpend
  exact ⟨by rw [hspend, h.noUsages]; exact executions_toDict n _, by rw [hspend, h.noUsages]; exact tokens_toDict n _⟩

/-- Where no update is stale and the metadata is replaced only before the first spend, the
ledger agrees with the calls that are done, and an exhausted budget stays exhausted. -/
theorem spend_accounted {start l' : Ledger} (hstart : Fresh start) (hl : Reached (step n) Careful start l)
    (hl' : Reached (step n) Careful l l') (budget : Option Budget) :
    Accounted n l' ∧ (exhausted n budget l = true → exhausted n budget l' = true) := by
  have hadded : AllAdded n start := by
    intro c hc
    rw [hstart.noCalls] at hc
    cases hc
  have hstep : ∀ s e, AllAdded n s ∧ Accounted n s → Careful s e → AllAdded n (step n s e) ∧ Accounted n (step n s e) :=
    fun _ e h hcareful => ⟨allAdded_step h.1 e, (step_moved h.1 hcareful).accounted h.2⟩
  have hsound := hl.invariant ⟨hadded, accounted_of_fresh hstart⟩ hstep
  refine ⟨(hl'.invariant hsound hstep).2, fun he => ?_⟩
  have hkept := hl'.invariant (I := fun s => AllAdded n s ∧ exhausted n budget s = true) ⟨hsound.1, he⟩
    fun _ e h hcareful => ⟨allAdded_step h.1 e, (step_moved h.1 hcareful).exhausted h.2⟩
  exact hkept.2

end

/-! ## A lost update -/

/-- A run that was claimed and has spent nothing. -/
def claimedRun : Ledger := { metadata := some (replaced [("task_id", .str "t-1")] [("slug", .str "acme/app")]) }

theorem claimedRun_fresh : Fresh claimedRun := ⟨rfl, rfl, rfl⟩

/-- One execution is allowed. -/
def oneExecution : Budget := { maxTokens := 0, maxCostUsd := "0.0", maxCoderExecutions := 1 }

/-- What the engine reports of an execution. -/
def reportedUsage : Dict := [("usage", .obj [("total_tokens", .int 40), ("cost_usd", .int 2)])]

/-- A call of `record_coder_spend` from its start to its end. -/
def spendAlone (i : Nat) : List Event := [.call (.recordCoderSpend reportedUsage), .step i, .step i, .step i]

/-- A supervisor reads the run before a call of `record_coder_spend` and writes it back after. -/
def staleWrite : List Event :=
  [.call (.writer (.touchCoordination (some (.str "supervised")))), .step 0] ++ spendAlone 1 ++ [.step 0]

/-- The run is claimed again after a call of `record_coder_spend`. -/
def claimedAgain : List Event := spendAlone 0 ++ [.replace [("task_id", .str "t-1")] [("slug", .str "acme/app")]]

/-- The state after a list of events. -/
def afterEvents (es : List Event) : Ledger := GuardedRuns.after (step wholeNumbers) claimedRun es

/-- One overlap, or one more claim, and an exhausted budget is free again. -/
theorem spend_lost :
    (exhausted wholeNumbers (some oneExecution) (afterEvents staleWrite.dropLast) = true ∧
      ¬ Accounted wholeNumbers (afterEvents staleWrite) ∧
      exhausted wholeNumbers (some oneExecution) (afterEvents staleWrite) = false) ∧
    exhausted wholeNumbers (some oneExecution) (afterEvents claimedAgain.dropLast) = true ∧
      ¬ Accounted wholeNumbers (afterEvents claimedAgain) ∧
      exhausted wholeNumbers (some oneExecution) (afterEvents claimedAgain) = false :=
  ⟨⟨by decide +kernel, fun h => absurd h.executions (by decide +kernel), by decide +kernel⟩,
    by decide +kernel, fun h => absurd h.executions (by decide +kernel), by decide +kernel⟩

/-- A call that nothing interrupts is a careful one. -/
theorem spendAlone_careful : AllSteps (step wholeNumbers) Careful claimedRun (spendAlone 0) := by
  refine ⟨trivial, ?_, ?_, ?_, trivial⟩
  · intro c hc
    obtain rfl := Option.some.inj hc
    trivial
  · intro c hc
    obtain rfl := Option.some.inj hc
    trivial
  · intro c hc
    obtain rfl := Option.some.inj hc
    exact ⟨rfl, rfl⟩

/-- A call that nothing interrupts is counted, and exhausts the budget. -/
theorem spendAlone_accounted : exhausted wholeNumbers (some oneExecution) (afterEvents (spendAlone 0)) = true ∧
    Accounted wholeNumbers (afterEvents (spendAlone 0)) :=
  ⟨by decide +kernel, (spend_accounted claimedRun_fresh .init (Reached.init.after _ spendAlone_careful) none).1⟩

end SpendLedger
