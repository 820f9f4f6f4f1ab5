import Mathlib.Logic.Function.Basic

/-!
# Programs as sequences of database statements

A program reads a shared state with queries, changes it with statements that the
database may refuse, and brackets statements in transactions. A continuation sees
the state its statement found, so a row count is read off the state before the
update. Two sequential readings are given: `eff` for what the statements do one
after the other, and `go` for what is left in the database when an unfinished
transaction is rolled back.
-/
namespace Statements

set_option maxRecDepth 20000

/-- `σ` is the shared state, `ρ` names the rows a statement writes, `α` is the
result. `lock` takes a lock that the end of the transaction gives back. -/
inductive Prog (σ ρ : Type) (α : Type) where
  | ret (a : α)
  | query (k : σ → Prog σ ρ α)
  | exec (rows : σ → List ρ) (f : σ → Option σ) (k : σ → Prog σ ρ α)
  | beginTx (k : Prog σ ρ α)
  | lock (h : Int) (k : Prog σ ρ α)
  | commit (k : Prog σ ρ α)

variable {σ ρ α β γ : Type}

namespace Prog

protected def bind : Prog σ ρ α → (α → Prog σ ρ β) → Prog σ ρ β
  | ret a, g => g a
  | query k, g => query (fun s => (k s).bind g)
  | exec rows f k, g => exec rows f (fun s => (k s).bind g)
  | beginTx k, g => beginTx (k.bind g)
  | lock h k, g => lock h (k.bind g)
  | commit k, g => commit (k.bind g)

instance : Monad (Prog σ ρ) where
  pure := ret
  bind := Prog.bind

@[simp] theorem pure_def (a : α) : (pure a : Prog σ ρ α) = ret a := rfl
@[simp] theorem ret_bind (a : α) (g : α → Prog σ ρ β) : (ret a >>= g) = g a := rfl
@[simp] theorem query_bind (k : σ → Prog σ ρ α) (g : α → Prog σ ρ β) :
    (query k >>= g) = query (fun s => k s >>= g) := rfl
@[simp] theorem exec_bind (rows : σ → List ρ) (f : σ → Option σ) (k : σ → Prog σ ρ α)
    (g : α → Prog σ ρ β) : (exec rows f k >>= g) = exec rows f (fun s => k s >>= g) := rfl
@[simp] theorem beginTx_bind (k : Prog σ ρ α) (g : α → Prog σ ρ β) :
    (beginTx k >>= g) = beginTx (k >>= g) := rfl
@[simp] theorem lock_bind (h : Int) (k : Prog σ ρ α) (g : α → Prog σ ρ β) :
    (lock h k >>= g) = lock h (k >>= g) := rfl
@[simp] theorem commit_bind (k : Prog σ ρ α) (g : α → Prog σ ρ β) :
    (commit k >>= g) = commit (k >>= g) := rfl

theorem bind_assoc (p : Prog σ ρ α) (f : α → Prog σ ρ β) (g : β → Prog σ ρ γ) :
    (p >>= f) >>= g = p >>= fun a => f a >>= g := by
  induction p with
  | ret a => rfl
  | query k ih => exact congrArg query (funext ih)
  | exec rows u k ih => exact congrArg (exec rows u) (funext ih)
  | beginTx k ih => exact congrArg beginTx ih
  | lock h k ih => exact congrArg (lock h) ih
  | commit k ih => exact congrArg commit ih

/-- A `SELECT`: its result is a function of the state it finds. -/
def get (q : σ → α) : Prog σ ρ α := query (fun s => ret (q s))

/-- An `UPDATE` that cannot be refused. -/
def update (rows : σ → List ρ) (f : σ → σ) : Prog σ ρ Unit :=
  exec rows (fun s => some (f s)) (fun _ => ret ())

/-- An `UPDATE` whose row count the program looks at. -/
def updateCount (rows : σ → List ρ) (count : σ → Nat) (f : σ → σ) : Prog σ ρ Nat :=
  exec rows (fun s => some (f s)) (fun s => ret (count s))

/-- An `INSERT` that a constraint of the database may refuse. -/
def insertRow (rows : σ → List ρ) (f : σ → Option σ) : Prog σ ρ Unit :=
  exec rows f (fun _ => ret ())

def beginTransaction : Prog σ ρ Unit := beginTx (ret ())
def advisoryLock (h : Int) : Prog σ ρ Unit := lock h (ret ())
def commitTransaction : Prog σ ρ Unit := commit (ret ())

/-- `for x in xs: body x`. -/
def forEach (body : β → Prog σ ρ Unit) : List β → Prog σ ρ Unit
  | [] => ret ()
  | x :: xs => do
    body x
    forEach body xs

/-! ## The statements one after the other -/

/-- Result and final state, with no regard to transaction brackets. The result is
`none` when the database refuses a statement. -/
def eff : Prog σ ρ α → σ → Option α × σ
  | ret a, s => (some a, s)
  | query k, s => (k s).eff s
  | exec _ f k, s => match f s with
    | none => (none, s)
    | some t => (k s).eff t
  | beginTx k, s => k.eff s
  | lock _ k, s => k.eff s
  | commit k, s => k.eff s

@[simp] theorem eff_ret (a : α) (s : σ) : (ret a : Prog σ ρ α).eff s = (some a, s) := rfl
@[simp] theorem eff_query (k : σ → Prog σ ρ α) (s : σ) : (query k).eff s = (k s).eff s := rfl
theorem eff_exec (rows : σ → List ρ) (f : σ → Option σ) (k : σ → Prog σ ρ α) (s : σ) :
    (exec rows f k).eff s = match f s with
      | none => (none, s)
      | some t => (k s).eff t := rfl
@[simp] theorem eff_beginTx (k : Prog σ ρ α) (s : σ) : (beginTx k).eff s = k.eff s := rfl
@[simp] theorem eff_lock (h : Int) (k : Prog σ ρ α) (s : σ) : (lock h k).eff s = k.eff s := rfl
@[simp] theorem eff_commit (k : Prog σ ρ α) (s : σ) : (commit k).eff s = k.eff s := rfl

theorem eff_bind (p : Prog σ ρ α) (g : α → Prog σ ρ β) (s : σ) :
    (p >>= g).eff s = match p.eff s with
      | (some a, t) => (g a).eff t
      | (none, t) => (none, t) := by
  induction p generalizing s with
  | ret a => rfl
  | query k ih => exact ih s s
  | exec rows f k ih =>
    rw [exec_bind, eff_exec, eff_exec]
    cases f s with
    | none => rfl
    | some t => exact ih s t
  | beginTx k ih => exact ih s
  | lock h k ih => exact ih s
  | commit k ih => exact ih s

@[simp] theorem eff_get_bind (q : σ → α) (g : α → Prog σ ρ β) (s : σ) :
    ((get q : Prog σ ρ α) >>= g).eff s = (g (q s)).eff s := rfl
@[simp] theorem eff_update_bind (rows : σ → List ρ) (f : σ → σ) (g : Unit → Prog σ ρ β) (s : σ) :
    (update rows f >>= g).eff s = (g ()).eff (f s) := rfl
@[simp] theorem eff_updateCount_bind (rows : σ → List ρ) (n : σ → Nat) (f : σ → σ)
    (g : Nat → Prog σ ρ β) (s : σ) :
    (updateCount rows n f >>= g).eff s = (g (n s)).eff (f s) := rfl
@[simp] theorem eff_get (q : σ → α) (s : σ) : (get q : Prog σ ρ α).eff s = (some (q s), s) := rfl
@[simp] theorem eff_update (rows : σ → List ρ) (f : σ → σ) (s : σ) :
    (update rows f).eff s = (some (), f s) := rfl

/-- A loop whose body is never refused folds the body over the rows. -/
theorem eff_forEach (body : β → Prog σ ρ Unit) (step : β → σ → σ)
    (h : ∀ x s, (body x).eff s = (some (), step x s)) (xs : List β) (s : σ) :
    (forEach body xs).eff s = (some (), xs.foldl (fun s x => step x s) s) := by
  induction xs generalizing s with
  | nil => rfl
  | cons x xs ih =>
    rw [forEach, eff_bind, h]
    exact ih (step x s)

/-! ## What is committed -/

/-- A database connection: the committed state, and what the open transaction sees. -/
structure Conn (σ : Type) where
  db : σ
  tx : Option σ

namespace Conn

def view (c : Conn σ) : σ := c.tx.getD c.db

/-- A statement changes the open transaction's state, or commits on its own. -/
def put (c : Conn σ) (s : σ) : Conn σ :=
  match c.tx with
  | none => ⟨s, none⟩
  | some _ => ⟨c.db, some s⟩

@[simp] theorem view_put (c : Conn σ) (s : σ) : (c.put s).view = s := by
  cases c with
  | mk db tx => cases tx <;> rfl

@[simp] theorem put_view (c : Conn σ) : c.put c.view = c := by
  cases c with
  | mk db tx => cases tx <;> rfl

@[simp] theorem put_put (c : Conn σ) (s t : σ) : (c.put s).put t = c.put t := by
  cases c with
  | mk db tx => cases tx <;> rfl

end Conn

def go : Prog σ ρ α → Conn σ → Option α × Conn σ
  | ret a, c => (some a, c)
  | query k, c => (k c.view).go c
  | exec _ f k, c => match f c.view with
    | none => (none, c)
    | some t => (k c.view).go (c.put t)
  | beginTx k, c => k.go ⟨c.db, some c.db⟩
  | lock _ k, c => k.go c
  | commit k, c => k.go ⟨c.view, none⟩

/-- Run a program on a fresh connection and close it: what a transaction has not
committed by then is rolled back. -/
def run (p : Prog σ ρ α) (s : σ) : Option α × σ := ((p.go ⟨s, none⟩).1, (p.go ⟨s, none⟩).2.db)

/-- What is committed when the process dies after `n` statements. -/
def crash : Nat → Prog σ ρ α → Conn σ → σ
  | 0, _, c => c.db
  | _ + 1, ret _, c => c.db
  | n + 1, query k, c => crash n (k c.view) c
  | n + 1, exec _ f k, c => match f c.view with
    | none => c.db
    | some t => crash n (k c.view) (c.put t)
  | n + 1, beginTx k, c => crash n k ⟨c.db, some c.db⟩
  | n + 1, lock _ k, c => crash n k c
  | n + 1, commit k, c => crash n k ⟨c.view, none⟩

section
variable (n : Nat) (c : Conn σ)

@[simp] theorem crash_zero (p : Prog σ ρ α) : crash 0 p c = c.db := rfl
@[simp] theorem crash_ret (a : α) : crash n (ret a : Prog σ ρ α) c = c.db := by cases n <;> rfl
@[simp] theorem crash_get (q : σ → α) : crash n (get q : Prog σ ρ α) c = c.db := by
  cases n with
  | zero => rfl
  | succ n => exact crash_ret n c (q c.view)
@[simp] theorem crash_get_bind (q : σ → α) (g : α → Prog σ ρ β) :
    crash (n + 1) (get q >>= g) c = crash n (g (q c.view)) c := rfl
@[simp] theorem crash_update_bind (rows : σ → List ρ) (f : σ → σ) (g : Unit → Prog σ ρ β) :
    crash (n + 1) (update rows f >>= g) c = crash n (g ()) (c.put (f c.view)) := rfl
@[simp] theorem crash_updateCount_bind (rows : σ → List ρ) (m : σ → Nat) (f : σ → σ)
    (g : Nat → Prog σ ρ β) :
    crash (n + 1) (updateCount rows m f >>= g) c = crash n (g (m c.view)) (c.put (f c.view)) := rfl
end

/-- No transaction bracket occurs. -/
def Plain : Prog σ ρ α → Prop
  | ret _ => True
  | query k => ∀ s, (k s).Plain
  | exec _ _ k => ∀ s, (k s).Plain
  | beginTx _ => False
  | lock _ k => k.Plain
  | commit _ => False

theorem Plain.bind {p : Prog σ ρ α} {g : α → Prog σ ρ β} (hp : p.Plain) (hg : ∀ a, (g a).Plain) :
    (p >>= g).Plain := by
  induction p with
  | ret a => exact hg a
  | query k ih => exact fun s => ih s (hp s)
  | exec rows f k ih => exact fun s => ih s (hp s)
  | beginTx k ih => exact hp.elim
  | lock h k ih => exact ih hp
  | commit k ih => exact hp.elim

theorem Plain.forEach {body : β → Prog σ ρ Unit} (h : ∀ x, (body x).Plain) (xs : List β) :
    (forEach body xs).Plain := by
  induction xs with
  | nil => trivial
  | cons x xs ih => exact (h x).bind (fun _ => ih)

theorem go_bind (p : Prog σ ρ α) (g : α → Prog σ ρ β) (c : Conn σ) :
    (p >>= g).go c = match p.go c with
      | (some a, d) => (g a).go d
      | (none, d) => (none, d) := by
  induction p generalizing c with
  | ret a => rfl
  | query k ih => exact ih c.view c
  | exec rows f k ih =>
    change (match f c.view with
      | none => (none, c)
      | some t => (k c.view >>= g).go (c.put t)) = _
    cases h : f c.view with
    | none => simp only [go, h]
    | some t => simpa only [go, h] using ih c.view (c.put t)
  | beginTx k ih => exact ih _
  | lock h k ih => exact ih c
  | commit k ih => exact ih _

/-- Without brackets a connection follows the statements, inside a transaction or
outside one. -/
theorem go_plain (p : Prog σ ρ α) (hp : p.Plain) (c : Conn σ) :
    p.go c = ((p.eff c.view).1, c.put (p.eff c.view).2) := by
  induction p generalizing c with
  | ret a => simp [go, eff]
  | query k ih => exact ih c.view (hp c.view) c
  | exec rows f k ih =>
    rw [eff_exec]
    cases h : f c.view with
    | none => simp [go, h]
    | some t => simpa only [go, h, Conn.view_put, Conn.put_put] using ih c.view (hp c.view) (c.put t)
  | beginTx k ih => exact hp.elim
  | lock l k ih => exact ih hp c
  | commit k ih => exact hp.elim

/-- A program without brackets commits each of its statements. -/
theorem run_plain {p : Prog σ ρ α} (hp : p.Plain) (s : σ) : p.run s = p.eff s := by
  simp [run, go_plain p hp, Conn.view, Conn.put]

/-- A bracket-free part of a program that the database does not refuse. -/
theorem go_plain_bind {p : Prog σ ρ α} (hp : p.Plain) (g : α → Prog σ ρ β) {c : Conn σ} {a : α}
    {t : σ} (h : p.eff c.view = (some a, t)) : (p >>= g).go c = (g a).go (c.put t) := by
  rw [go_bind, go_plain p hp, h]

@[simp] theorem beginTransaction_bind (g : Unit → Prog σ ρ β) : (beginTransaction >>= g) = beginTx (g ()) := rfl
@[simp] theorem commitTransaction_bind (g : Unit → Prog σ ρ β) : (commitTransaction >>= g) = commit (g ()) := rfl

theorem go_beginTx (k : Prog σ ρ α) (c : Conn σ) : (beginTx k).go c = k.go ⟨c.db, some c.db⟩ := rfl
theorem go_commit (k : Prog σ ρ α) (c : Conn σ) : (commit k).go c = k.go ⟨c.view, none⟩ := rfl
@[simp] theorem go_ret (a : α) (c : Conn σ) : (ret a : Prog σ ρ α).go c = (some a, c) := rfl
@[simp] theorem go_get_bind (q : σ → α) (g : α → Prog σ ρ β) (c : Conn σ) :
    (get q >>= g).go c = (g (q c.view)).go c := rfl

/-- A transaction around bracket-free statements commits what they do. -/
theorem run_transaction {p : Prog σ ρ α} (hp : p.Plain) {g : α → Prog σ ρ β} (hg : ∀ a, (g a).Plain)
    {s t : σ} {a : α} (h : p.eff s = (some a, t)) :
    (beginTransaction >>= fun _ => p >>= fun a => commitTransaction >>= fun _ => g a).run s = (g a).eff t := by
  have hgo : (beginTransaction >>= fun _ => p >>= fun a => commitTransaction >>= fun _ => g a).go ⟨s, none⟩ =
      (g a).go ⟨t, none⟩ := by
    rw [beginTransaction_bind, go_beginTx, go_plain_bind hp _ (c := ⟨s, some s⟩) h]
    rfl
  rw [run, hgo, go_plain _ (hg a)]
  rfl

end Prog
end Statements
