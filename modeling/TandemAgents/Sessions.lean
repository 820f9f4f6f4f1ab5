import Mathlib.Data.Fintype.Defs
import Mathlib.Logic.Function.Basic
import TandemAgents.Statements

/-!
# Sessions on one database

Programs of statements interleaved on one committed state. Outside a transaction a
statement commits at once; inside one its writes are kept aside, hold their rows, and
are applied to the state committed by then. Every statement reads what is committed
when it starts, and the session's own writes. Under `exclusive` a transaction keeps
all other writers out from its start, under `readCommitted` writers wait for rows
and advisory locks only. A session can stop at any point.
-/
namespace Statements

set_option maxRecDepth 20000

inductive Isolation where
  | exclusive | readCommitted
  deriving DecidableEq, Repr

variable {ι σ ρ α β : Type}

/-- A program under way; `prog` is `none` once it was refused or stopped. `seen` lists
what its statements saw. -/
structure Session (σ ρ α : Type) where
  prog : Option (Prog σ ρ α)
  tx : Option (σ → σ)
  held : List ρ
  locks : List Int
  seen : List σ

structure Config (ι σ ρ α : Type) where
  db : σ
  session : ι → Session σ ρ α

namespace Session

def start (p : Prog σ ρ α) : Session σ ρ α := ⟨some p, none, [], [], []⟩

/-- The committed state under the session's own writes. -/
def view (x : Session σ ρ α) (db : σ) : σ :=
  match x.tx with
  | none => db
  | some w => w db

/-- The end of a transaction. -/
def close (x : Session σ ρ α) : Session σ ρ α := { x with tx := none, held := [], locks := [] }

/-- A session that stopped. -/
def drop (x : Session σ ρ α) : Session σ ρ α := { x.close with prog := none }

/-- The session behind a statement that saw `s`. -/
def goOn (x : Session σ ρ α) (p : Prog σ ρ α) (s : σ) : Session σ ρ α :=
  { x with prog := some p, seen := x.seen ++ [s] }

/-- The writes kept aside, and one more. -/
def andThen (w : σ → σ) (f : σ → Option σ) (s : σ) : σ := (f (w s)).getD (w s)

/-- The next statement. A result returned inside a transaction rolls it back. -/
def advance (x : Session σ ρ α) (db : σ) : Option (σ × Session σ ρ α) :=
  match x.prog with
  | none => none
  | some (.ret _) => if x.tx.isSome then some (db, x.close) else none
  | some (.query k) => some (db, x.goOn (k (x.view db)) (x.view db))
  | some (.exec rows f k) =>
    match f (x.view db) with
    | none => some (db, x.drop)
    | some t =>
      match x.tx with
      | none => some (t, x.goOn (k db) db)
      | some w => some (db, { x.goOn (k (w db)) (w db) with
          tx := some (andThen w f), held := x.held ++ rows (w db) })
  | some (.beginTx k) => some (db, { x.goOn k (x.view db) with tx := some id })
  | some (.lock h k) => some (db, { x.goOn k (x.view db) with locks := h :: x.locks })
  | some (.commit k) => some (x.view db, { x.close with prog := some k, seen := x.seen ++ [x.view db] })

@[simp] theorem start_tx (p : Prog σ ρ α) : (start p).tx = none := rfl
@[simp] theorem start_prog (p : Prog σ ρ α) : (start p).prog = some p := rfl
@[simp] theorem start_locks (p : Prog σ ρ α) : (start p).locks = [] := rfl
@[simp] theorem start_seen (p : Prog σ ρ α) : (start p).seen = [] := rfl
@[simp] theorem close_tx (x : Session σ ρ α) : x.close.tx = none := rfl
@[simp] theorem close_prog (x : Session σ ρ α) : x.close.prog = x.prog := rfl
@[simp] theorem close_locks (x : Session σ ρ α) : x.close.locks = [] := rfl
@[simp] theorem close_seen (x : Session σ ρ α) : x.close.seen = x.seen := rfl
@[simp] theorem drop_tx (x : Session σ ρ α) : x.drop.tx = none := rfl
@[simp] theorem drop_prog (x : Session σ ρ α) : x.drop.prog = none := rfl
@[simp] theorem drop_locks (x : Session σ ρ α) : x.drop.locks = [] := rfl
@[simp] theorem drop_seen (x : Session σ ρ α) : x.drop.seen = x.seen := rfl
@[simp] theorem goOn_prog (x : Session σ ρ α) (p : Prog σ ρ α) (s : σ) : (x.goOn p s).prog = some p := rfl
@[simp] theorem goOn_tx (x : Session σ ρ α) (p : Prog σ ρ α) (s : σ) : (x.goOn p s).tx = x.tx := rfl
@[simp] theorem goOn_locks (x : Session σ ρ α) (p : Prog σ ρ α) (s : σ) : (x.goOn p s).locks = x.locks := rfl
@[simp] theorem goOn_seen (x : Session σ ρ α) (p : Prog σ ρ α) (s : σ) : (x.goOn p s).seen = x.seen ++ [s] := rfl

theorem andThen_some {w : σ → σ} {f : σ → Option σ} {s t : σ} (h : f (w s) = some t) : andThen w f s = t := by
  rw [andThen, h, Option.getD_some]
theorem andThen_none {w : σ → σ} {f : σ → Option σ} {s : σ} (h : f (w s) = none) : andThen w f s = w s := by
  rw [andThen, h, Option.getD_none]
theorem view_none {x : Session σ ρ α} (h : x.tx = none) (db : σ) : x.view db = db := by simp only [view, h]
theorem view_some {x : Session σ ρ α} {w : σ → σ} (h : x.tx = some w) (db : σ) : x.view db = w db := by
  simp only [view, h]

/-- What the next statement can be and do. -/
inductive Advance (x : Session σ ρ α) (db : σ) : σ → Session σ ρ α → Prop where
  | rollback {a : α} : x.prog = some (.ret a) → Advance x db db x.close
  | query {k : σ → Prog σ ρ α} : x.prog = some (.query k) →
      Advance x db db (x.goOn (k (x.view db)) (x.view db))
  | refused {rows : σ → List ρ} {f : σ → Option σ} {k : σ → Prog σ ρ α} : x.prog = some (.exec rows f k) →
      f (x.view db) = none → Advance x db db x.drop
  | autocommit {rows : σ → List ρ} {f : σ → Option σ} {k : σ → Prog σ ρ α} {t : σ} :
      x.prog = some (.exec rows f k) → x.tx = none → f db = some t → Advance x db t (x.goOn (k db) db)
  | write {rows : σ → List ρ} {f : σ → Option σ} {k : σ → Prog σ ρ α} {w : σ → σ} {t : σ} :
      x.prog = some (.exec rows f k) → x.tx = some w → f (w db) = some t →
      Advance x db db { x.goOn (k (w db)) (w db) with
        tx := some (andThen w f), held := x.held ++ rows (w db) }
  | beginTx {k : Prog σ ρ α} : x.prog = some (.beginTx k) →
      Advance x db db { x.goOn k (x.view db) with tx := some id }
  | lock {h : Int} {k : Prog σ ρ α} : x.prog = some (.lock h k) →
      Advance x db db { x.goOn k (x.view db) with locks := h :: x.locks }
  | commit {k : Prog σ ρ α} : x.prog = some (.commit k) →
      Advance x db (x.view db) { x.close with prog := some k, seen := x.seen ++ [x.view db] }

theorem advance_cases {x y : Session σ ρ α} {db db' : σ} (h : x.advance db = some (db', y)) :
    Advance x db db' y := by
  unfold advance at h
  cases hp : x.prog with
  | none => simp [hp] at h
  | some p =>
    cases p with
    | ret a =>
      simp only [hp] at h
      split at h
      · obtain ⟨rfl, rfl⟩ := Prod.mk.inj (Option.some.inj h)
        exact .rollback hp
      · cases h
    | query k =>
      simp only [hp] at h
      obtain ⟨rfl, rfl⟩ := Prod.mk.inj (Option.some.inj h)
      exact .query hp
    | exec rows f k =>
      simp only [hp] at h
      cases hf : f (x.view db) with
      | none =>
        simp only [hf] at h
        obtain ⟨rfl, rfl⟩ := Prod.mk.inj (Option.some.inj h)
        exact .refused hp hf
      | some t =>
        simp only [hf] at h
        cases htx : x.tx with
        | none =>
          simp only [htx] at h
          obtain ⟨rfl, rfl⟩ := Prod.mk.inj (Option.some.inj h)
          exact .autocommit hp htx (view_none htx db ▸ hf)
        | some w =>
          simp only [htx] at h
          obtain ⟨rfl, rfl⟩ := Prod.mk.inj (Option.some.inj h)
          exact .write hp htx (view_some htx db ▸ hf)
    | beginTx k =>
      simp only [hp] at h
      obtain ⟨rfl, rfl⟩ := Prod.mk.inj (Option.some.inj h)
      exact .beginTx hp
    | lock l k =>
      simp only [hp] at h
      obtain ⟨rfl, rfl⟩ := Prod.mk.inj (Option.some.inj h)
      exact .lock hp
    | commit k =>
      simp only [hp] at h
      obtain ⟨rfl, rfl⟩ := Prod.mk.inj (Option.some.inj h)
      exact .commit hp

theorem Advance.seen_prefix {x y : Session σ ρ α} {db db' : σ} (h : x.Advance db db' y) : x.seen <+: y.seen := by
  cases h with
  | rollback hp => exact List.prefix_refl _
  | refused hp hf => exact List.prefix_refl _
  | _ => exact List.prefix_append _ _

theorem Advance.of_query {x y : Session σ ρ α} {db db' : σ} {k : σ → Prog σ ρ α} (h : x.Advance db db' y)
    (hp : x.prog = some (.query k)) : db' = db ∧ y = x.goOn (k (x.view db)) (x.view db) := by
  cases h with
  | query hq =>
    cases hp.symm.trans hq
    exact ⟨rfl, rfl⟩
  | _ hq => cases hp.symm.trans hq

theorem Advance.of_update {x y : Session σ ρ α} {db db' : σ} {rows : σ → List ρ} {f : σ → σ} {k : σ → Prog σ ρ α}
    (h : x.Advance db db' y) (hp : x.prog = some (.exec rows (fun s => some (f s)) k)) (htx : x.tx = none) :
    db' = f db ∧ y = x.goOn (k db) db := by
  cases h with
  | refused hq hf =>
    cases hp.symm.trans hq
    cases hf
  | autocommit hq _ hf =>
    cases hp.symm.trans hq
    exact ⟨(Option.some.inj hf).symm, rfl⟩
  | write hq hw _ => cases htx.symm.trans hw
  | _ hq => cases hp.symm.trans hq

/-- The statement a session is at would be refused on the present state. -/
def Refused (x : Session σ ρ α) (db : σ) : Prop :=
  ∃ rows f k, x.prog = some (.exec rows f k) ∧ f (x.view db) = none

instance Refused.decidable (x : Session σ ρ α) (db : σ) : Decidable (x.Refused db) :=
  match hp : x.prog with
  | some (.exec rows f k) => decidable_of_iff ((f (x.view db)).isNone = true) (by
      rw [Option.isNone_iff_eq_none]
      constructor
      · exact fun hf => ⟨rows, f, k, hp, hf⟩
      · rintro ⟨rows', f', k', hp', hf⟩
        cases hp.symm.trans hp'
        exact hf)
  | none => isFalse (by rintro ⟨_, _, _, hp', -⟩; cases hp.symm.trans hp')
  | some (.ret _) => isFalse (by rintro ⟨_, _, _, hp', -⟩; cases hp.symm.trans hp')
  | some (.query _) => isFalse (by rintro ⟨_, _, _, hp', -⟩; cases hp.symm.trans hp')
  | some (.beginTx _) => isFalse (by rintro ⟨_, _, _, hp', -⟩; cases hp.symm.trans hp')
  | some (.lock _ _) => isFalse (by rintro ⟨_, _, _, hp', -⟩; cases hp.symm.trans hp')
  | some (.commit _) => isFalse (by rintro ⟨_, _, _, hp', -⟩; cases hp.symm.trans hp')

/-- The next statement is a `COMMIT`. -/
def atCommit (x : Session σ ρ α) : Bool :=
  match x.prog with
  | some (.commit _) => true
  | _ => false

theorem atCommit_prog {x : Session σ ρ α} (h : x.atCommit = true) : ∃ k, x.prog = some (.commit k) := by
  unfold atCommit at h
  split at h
  · rename_i k hp
    exact ⟨k, hp⟩
  · cases h

end Session

variable [DecidableEq ι]

def Config.put (c : Config ι σ ρ α) (i : ι) (db : σ) (x : Session σ ρ α) : Config ι σ ρ α :=
  ⟨db, Function.update c.session i x⟩

@[simp] theorem Config.put_db (c : Config ι σ ρ α) (i : ι) (db : σ) (x : Session σ ρ α) : (c.put i db x).db = db := rfl
@[simp] theorem Config.put_self (c : Config ι σ ρ α) (i : ι) (db : σ) (x : Session σ ρ α) :
    (c.put i db x).session i = x := Function.update_self ..
theorem Config.put_other (c : Config ι σ ρ α) {i j : ι} (h : j ≠ i) (db : σ) (x : Session σ ρ α) :
    (c.put i db x).session j = c.session j := Function.update_of_ne h ..

/-- All sessions at the start of their programs. -/
def Config.init (db : σ) (p : ι → Prog σ ρ α) : Config ι σ ρ α := ⟨db, fun i => .start (p i)⟩

/-- No other session keeps the next statement of `i` waiting. -/
def Enabled (mode : Isolation) (c : Config ι σ ρ α) (i : ι) : Prop :=
  match (c.session i).prog with
  | some (.exec rows _ _) =>
    match mode with
    | .exclusive => (c.session i).tx.isNone → ∀ j, j ≠ i → (c.session j).tx.isNone
    | .readCommitted => ∀ j, j ≠ i → ∀ r ∈ rows ((c.session i).view c.db), r ∉ (c.session j).held
  | some (.beginTx _) => mode = .exclusive → ∀ j, j ≠ i → (c.session j).tx.isNone
  | some (.lock h _) => ∀ j, j ≠ i → h ∉ (c.session j).locks
  | _ => True

/-- One statement of a session, or the end of its process. -/
inductive Step (mode : Isolation) (c : Config ι σ ρ α) (i : ι) : Config ι σ ρ α → Prop where
  | advance {db : σ} {x : Session σ ρ α} : Enabled mode c i → (c.session i).advance c.db = some (db, x) →
      Step mode c i (c.put i db x)
  | stop : Step mode c i (c.put i c.db (c.session i).drop)

/-- Steps that each meet a condition. -/
inductive Runs (mode : Isolation) (A : Config ι σ ρ α → ι → Config ι σ ρ α → Prop) (c : Config ι σ ρ α) :
    Config ι σ ρ α → Prop where
  | refl : Runs mode A c c
  | step {d e : Config ι σ ρ α} (i : ι) : Runs mode A c d → Step mode d i e → A d i e → Runs mode A c e

theorem Runs.invariant {mode : Isolation} {A : Config ι σ ρ α → ι → Config ι σ ρ α → Prop} {c d : Config ι σ ρ α}
    (h : Runs mode A c d) {I : Config ι σ ρ α → Prop} (hc : I c)
    (hstep : ∀ d i e, I d → Step mode d i e → A d i e → I e) : I d := by
  induction h with
  | refl => exact hc
  | step i _ hs ha ih => exact hstep _ i _ ih hs ha

theorem Runs.trans {mode : Isolation} {A : Config ι σ ρ α → ι → Config ι σ ρ α → Prop} {c d e : Config ι σ ρ α}
    (h : Runs mode A c d) (k : Runs mode A d e) : Runs mode A c e := by
  induction k with
  | refl => exact h
  | step i _ hs ha ih => exact ih.step i hs ha

/-- Either all steps of a run meet a further condition or one of them is the first not to. -/
theorem Runs.meets_or {mode : Isolation} {A B : Config ι σ ρ α → ι → Config ι σ ρ α → Prop} {c d : Config ι σ ρ α}
    (h : Runs mode A c d) : Runs mode B c d ∨
      ∃ e i f, Runs mode B c e ∧ Step mode e i f ∧ ¬ B e i f ∧ Runs mode A f d := by
  induction h with
  | refl => exact .inl .refl
  | @step d e i _ hs ha ih =>
    rcases ih with hB | ⟨d', j, e', hB, hs', hn, hA⟩
    · by_cases hb : B d i e
      · exact .inl (hB.step i hs hb)
      · exact .inr ⟨d, i, e, hB, hs, hb, .refl⟩
    · exact .inr ⟨d', j, e', hB, hs', hn, hA.step i hs ha⟩

/-- The conditions on the steps may be weakened. -/
theorem Runs.mono {mode : Isolation} {A B : Config ι σ ρ α → ι → Config ι σ ρ α → Prop} {c d : Config ι σ ρ α}
    (h : Runs mode A c d) (hAB : ∀ e i f, A e i f → B e i f) : Runs mode B c d := by
  induction h with
  | refl => exact .refl
  | step i _ hs ha ih => exact ih.step i hs (hAB _ _ _ ha)

/-- What a step ends was ended by a step of the run. -/
theorem Runs.exists_last {mode : Isolation} {A : Config ι σ ρ α → ι → Config ι σ ρ α → Prop} {c d : Config ι σ ρ α}
    (h : Runs mode A c d) {I : Config ι σ ρ α → Prop} (hc : I c) (hd : ¬ I d) :
    ∃ e i f, Runs mode A c e ∧ Step mode e i f ∧ A e i f ∧ Runs mode A f d ∧ I e ∧ ¬ I f := by
  induction h with
  | refl => exact absurd hc hd
  | @step d e i hr hs ha ih =>
    by_cases hI : I d
    · exact ⟨d, i, e, hr, hs, ha, .refl, hI, hd⟩
    · obtain ⟨d', j, e', hr', hs', ha', hrest, hI', hn⟩ := ih hI
      exact ⟨d', j, e', hr', hs', ha', hrest.step i hs ha, hI', hn⟩

/-! ## Schedules -/

section
variable [Fintype ι] [DecidableEq ρ]

instance Enabled.decidable (mode : Isolation) (c : Config ι σ ρ α) (i : ι) : Decidable (Enabled mode c i) := by
  unfold Enabled
  cases (c.session i).prog with
  | none => exact isTrue trivial
  | some p =>
    cases p with
    | exec rows f k => cases mode <;> (dsimp only; infer_instance)
    | ret a => exact isTrue trivial
    | query k => exact isTrue trivial
    | beginTx k => dsimp only; infer_instance
    | lock h k => dsimp only; infer_instance
    | commit k => exact isTrue trivial

/-- The configuration after the next statements of the sessions of a list. -/
def follow (mode : Isolation) (A : Config ι σ ρ α → ι → Config ι σ ρ α → Prop) [∀ c i d, Decidable (A c i d)] :
    Config ι σ ρ α → List ι → Option (Config ι σ ρ α)
  | c, [] => some c
  | c, i :: is =>
    match (c.session i).advance c.db with
    | none => none
    | some (db, x) => if Enabled mode c i ∧ A c i (c.put i db x) then follow mode A (c.put i db x) is else none

theorem follow_one {mode : Isolation} {A : Config ι σ ρ α → ι → Config ι σ ρ α → Prop}
    [∀ c i d, Decidable (A c i d)] {c d : Config ι σ ρ α} {i : ι} (h : follow mode A c [i] = some d) :
    Step mode c i d ∧ A c i d ∧ ∃ db x, (c.session i).advance c.db = some (db, x) ∧ d = c.put i db x := by
  rw [follow] at h
  cases hx : (c.session i).advance c.db with
  | none =>
    rw [hx] at h
    cases h
  | some y =>
    simp only [hx] at h
    split at h
    · rename_i hen
      obtain rfl := Option.some.inj h
      exact ⟨.advance hen.1 hx, hen.2, y.1, y.2, rfl, rfl⟩
    · cases h

theorem follow_runs {mode : Isolation} {A : Config ι σ ρ α → ι → Config ι σ ρ α → Prop}
    [∀ c i d, Decidable (A c i d)] {c d : Config ι σ ρ α} {is : List ι} (h : follow mode A c is = some d) :
    Runs mode A c d := by
  induction is generalizing c with
  | nil =>
    obtain rfl := Option.some.inj h
    exact .refl
  | cons i is ih =>
    rw [follow] at h
    cases hx : (c.session i).advance c.db with
    | none =>
      rw [hx] at h
      cases h
    | some y =>
      simp only [hx] at h
      split at h
      · rename_i hen
        exact (Runs.refl.step i (.advance hen.1 hx) hen.2).trans (ih h)
      · cases h

end

end Statements
