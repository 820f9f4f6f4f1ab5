import Mathlib.Data.Fintype.Basic
import TandemAgents.Interference
import TandemAgents.LeaseEffects

/-!
# Operations as sessions of the store

Any number of operations run at once, each a session of its own. SQLite's
`BEGIN IMMEDIATE` keeps other writers out; Postgres runs each statement on what is
committed when it starts, and a claim holds the advisory lock of its task.
-/
namespace StoreSessions

open KeyedTable PythonText TaskContract CoordinationStore Statements Statements.Prog
open LeaseOperations WorkerOperations TaskOperations OperationRuns StoreHistories LeaseEffects

set_option maxRecDepth 20000

variable {ι : Type}

/-- What `_begin_transaction` gets from each database. -/
def isolation : Backend → Isolation
  | .sqlite => .exclusive
  | .postgres => .readCommitted

abbrev StoreConfig (ι : Type) := Config ι Store RowName Outcome

/-- Every operation before its first statement, on the empty store. -/
def start (env : Env) (P : ι → Op) : StoreConfig ι := .init Store.empty (fun i => (P i).prog env)

abbrev StoreRuns [DecidableEq ι] (env : Env) (A : StoreConfig ι → ι → StoreConfig ι → Prop) :
    StoreConfig ι → StoreConfig ι → Prop := Runs (isolation env.backend) A

/-- No condition on the steps. -/
def anyStep (_ : StoreConfig ι) (_ : ι) (_ : StoreConfig ι) : Prop := True

instance anyStep.decidable (c : StoreConfig ι) (i : ι) (d : StoreConfig ι) : Decidable (anyStep c i d) := isTrue trivial

/-- `short_id` draws no lease id twice. -/
def FreshLeases (P : ι → Op) : Prop :=
  ∀ i j now now' a b, P i = .claimTask now a → P j = .claimTask now' b → a.leaseId = b.leaseId → i = j

/-- The lease id an operation draws. -/
def newLease : Op → Option Ident
  | .claimTask _ a => some a.leaseId
  | _ => none

theorem freshLeases_of {P : ι → Op} (h : ∀ i j, (newLease (P i)).isSome → newLease (P i) = newLease (P j) → i = j) :
    FreshLeases P := by
  intro i j now now' a b hi hj hid
  have hnew : newLease (P i) = some a.leaseId := by rw [hi, newLease]
  exact h i j (by rw [hnew]; rfl) (by rw [hnew, hj, newLease, hid])

/-- A Postgres store. -/
def postgresEnv : Env := { sqliteEnv with backend := .postgres }

/-! ## The transactions among the operations -/

/-- The advisory lock of a claim. -/
def claimLock (env : Env) (key : String) : Option Int :=
  match env.backend with
  | .postgres => some (env.hashtext key)
  | .sqlite => none

/-- A claim behind its lock. -/
def sweepAndDecide (env : Env) (now : Int) (a : ClaimArgs) : Sql ClaimResult := do
  reapExpiredLeasesLocked now
  reapStaleWorkersLocked now defaultWorkerStaleAfterSeconds
  decideClaim env now a

def claimBody (env : Env) (now : Int) (a : ClaimArgs) : Sql Outcome := do return .claim (← sweepAndDecide env now a)

def reapBody (now : Int) : Sql Outcome := do
  let rows ← get (expiredLeases now)
  forEach (reapExpiredLease now) rows
  commitTransaction
  return .leases rows

theorem claim_opens (env : Env) (now : Int) (a : ClaimArgs) :
    ((Op.claimTask now a).prog env).Opens (claimLock env a.key) (claimBody env now a) := by
  unfold claimLock Op.prog claimTask lockTaskKey
  cases env.backend <;> rfl

theorem reap_opens (env : Env) (now : Int) :
    ((Op.reapExpiredLeases now).prog env).Opens none (reapBody now) := by
  simp only [Opens, Op.prog, reapExpiredLeases, reapBody, beginTransaction_bind, beginTx_bind, bind_assoc, pure_def,
    ret_bind]

theorem decideClaim_inTx (env : Env) (now : Int) (a : ClaimArgs) : (decideClaim env now a).InTx := by
  refine InTx.get_bind fun s => InTx.get_bind fun t => ?_
  dsimp only
  split
  · trivial
  · refine InTx.get_bind fun u => ?_
    split
    · exact fun _ => trivial
    · exact InTx.get_bind fun v => InTx.of_plain (writeClaim_plain now a _) fun _ _ _ => trivial

theorem claimBody_inTx (env : Env) (now : Int) (a : ClaimArgs) : (claimBody env now a).InTx := by
  refine InTx.bind_readOnly ?_ fun _ => trivial
  refine InTx.of_plain (reapExpiredLeasesLocked_plain now) fun _ => ?_
  exact InTx.of_plain (reapStaleWorkersLocked_plain now _) fun _ => decideClaim_inTx env now a

theorem reapBody_inTx (now : Int) : (reapBody now).InTx :=
  InTx.get_bind fun _ => InTx.of_plain (Plain.forEach (reapExpiredLease_plain now) _) fun _ => trivial

section
variable [DecidableEq ι] {env : Env} {A : StoreConfig ι → ι → StoreConfig ι → Prop} {P : ι → Op} {c : StoreConfig ι}

theorem guarded_runs (h : StoreRuns env A (start env P) c) : AllGuarded (fun i => leaseGuarantee (P i)) c :=
  allGuarded_runs (fun i => each_prog env (P i)) h

theorem claim_bracketed {i : ι} {now : Int} {a : ClaimArgs} (hi : P i = .claimTask now a)
    (h : StoreRuns env A (start env P) c) : (c.session i).Bracketed (claimLock env a.key) (claimBody env now a) :=
  bracketed_runs (hi ▸ claim_opens env now a) (claimBody_inTx env now a) h

theorem reap_bracketed {i : ι} {now : Int} (hi : P i = .reapExpiredLeases now)
    (h : StoreRuns env A (start env P) c) : (c.session i).Bracketed none (reapBody now) :=
  bracketed_runs (hi ▸ reap_opens env now) (reapBody_inTx now) h

/-- What a session reads as expired is so in the committed store, but for what it writes
to the lease itself. -/
theorem dueAt_view {i : ι} {id : Ident} {t : Int} (h : StoreRuns env A (start env P) c)
    (hbeat : ∀ now ttl, P i ≠ .heartbeatLease now ttl id) (hins : ∀ now b, P i = .claimTask now b → b.leaseId ≠ id)
    (hdue : DueAt t ((c.session i).view c.db) id) : DueAt t c.db id := by
  obtain ⟨l', hl', ha, he⟩ := hdue
  rcases ((guarded_runs h i).view c.db).moved id l' hl' with ⟨n, b, hi, hb, -⟩ | ⟨l, hl, hm⟩
  · exact absurd hb (hins n b hi)
  · refine ⟨l, hl, hm.active ha, ?_⟩
    rcases hm.expiry with hsame | ⟨n, ttl, hi, -⟩
    · rwa [← hsame]
    · exact absurd hi (hbeat n ttl)

/-- No two active leases share a task. -/
theorem uniqueActive_runs (h : StoreRuns env A (start env P) c) : UniqueActive c.db :=
  guarded_db_invariant (G := fun i => leaseGuarantee (P i)) (fun i => each_prog env (P i))
    (fun _ _ hl => by cases hl) (fun _ _ _ _ hst => hst.unique) h

/-- A lease is not in the store before its claim has committed. -/
theorem claim_over {i : ι} {now : Int} {a : ClaimArgs} (hfresh : FreshLeases P) (hi : P i = .claimTask now a)
    (h : StoreRuns env A (start env P) c) {l : LeaseRow} (hl : c.db.leases.find? a.leaseId = some l) :
    (c.session i).Over := by
  induction h generalizing l with
  | refl => cases hl
  | @step d e j hr hs _ ih =>
    cases hold : d.db.leases.find? a.leaseId with
    | some m => exact (ih hold).step hs
    | none =>
      rcases ((guarded_runs hr).step hs).2.moved _ _ hl with ⟨now', b, hj, hid, -⟩ | ⟨m, hm, -⟩
      · obtain rfl : j = i := hfresh j i _ _ _ _ hj hi hid
        rcases (claim_bracketed hi hr).changes (claimBody_inTx env now a) hs with hdb | ⟨-, ho⟩
        · rw [hdb, hold] at hl
          cases hl
        · exact ho
      · cases hold.symm.trans hm

end
end StoreSessions
