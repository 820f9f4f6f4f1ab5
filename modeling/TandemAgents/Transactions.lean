import TandemAgents.Guarantees

/-!
# Programs that are one transaction

A program that opens a transaction, takes its lock and writes changes the committed
state at its `COMMIT` and at no other step. Under `exclusive` nothing else changes it
while a transaction is open.
-/
namespace Statements

set_option maxRecDepth 20000

variable {ι σ ρ α β : Type}

namespace Prog

/-- Queries and a result. -/
def ReadOnly : Prog σ ρ α → Prop
  | ret _ => True
  | query k => ∀ s, (k s).ReadOnly
  | exec _ _ _ => False
  | beginTx _ => False
  | lock _ _ => False
  | commit _ => False

/-- The rest of a transaction: behind its `COMMIT` it only reads. -/
def InTx : Prog σ ρ α → Prop
  | ret _ => True
  | query k => ∀ s, (k s).InTx
  | exec _ _ k => ∀ s, (k s).InTx
  | beginTx _ => False
  | lock _ k => k.InTx
  | commit k => k.ReadOnly

theorem ReadOnly.bind {p : Prog σ ρ α} {g : α → Prog σ ρ β} (hp : p.ReadOnly) (hg : ∀ a, (g a).ReadOnly) :
    (p >>= g).ReadOnly := by
  induction p with
  | ret a => exact hg a
  | query k ih => exact fun s => ih s (hp s)
  | exec rows f k ih => exact hp.elim
  | beginTx k ih => exact hp.elim
  | lock h k ih => exact hp.elim
  | commit k ih => exact hp.elim

theorem ReadOnly.inTx {p : Prog σ ρ α} (hp : p.ReadOnly) : p.InTx := by
  induction p with
  | ret a => trivial
  | query k ih => exact fun s => ih s (hp s)
  | exec rows f k ih => exact hp.elim
  | beginTx k ih => exact hp.elim
  | lock h k ih => exact hp.elim
  | commit k ih => exact hp.elim

theorem InTx.get_bind {q : σ → α} {g : α → Prog σ ρ β} (h : ∀ s, (g (q s)).InTx) : (get q >>= g).InTx := h

/-- The part before the `COMMIT` has no bracket of its own. -/
theorem InTx.of_plain {p : Prog σ ρ α} {g : α → Prog σ ρ β} (hp : p.Plain) (hg : ∀ a, (g a).InTx) :
    (p >>= g).InTx := by
  induction p with
  | ret a => exact hg a
  | query k ih => exact fun s => ih s (hp s)
  | exec rows f k ih => exact fun s => ih s (hp s)
  | beginTx k ih => exact hp.elim
  | lock h k ih => exact ih hp
  | commit k ih => exact hp.elim

/-- A result computed from that of a transaction is read behind its `COMMIT`. -/
theorem InTx.bind_readOnly {p : Prog σ ρ α} {g : α → Prog σ ρ β} (hp : p.InTx) (hg : ∀ a, (g a).ReadOnly) :
    (p >>= g).InTx := by
  induction p with
  | ret a => exact (hg a).inTx
  | query k ih => exact fun s => ih s (hp s)
  | exec rows f k ih => exact fun s => ih s (hp s)
  | beginTx k ih => exact hp.elim
  | lock h k ih => exact ih hp
  | commit k ih => exact ReadOnly.bind hp hg

/-- A transaction that takes the lock `own`, when there is one. -/
def Opens (own : Option Int) (p k : Prog σ ρ α) : Prop :=
  match own with
  | none => p = beginTx k
  | some h => p = beginTx (lock h k)

end Prog

namespace Session

/-- No transaction, and none to come. -/
def Over (x : Session σ ρ α) : Prop := x.tx = none ∧ ∀ p, x.prog = some p → p.ReadOnly

/-- The transaction is open and holds its lock. -/
def Inside (own : Option Int) (x : Session σ ρ α) : Prop := x.tx.isSome ∧ ∀ h, own = some h → h ∈ x.locks

/-- The stages of a program that is one transaction. -/
inductive Bracketed (own : Option Int) (body : Prog σ ρ α) (x : Session σ ρ α) : Prop where
  | waiting {p : Prog σ ρ α} : x.prog = some p → p.Opens own body → x.tx = none → x.locks = [] → x.seen = [] →
      Bracketed own body x
  | locking {h : Int} : own = some h → x.prog = some (.lock h body) → x.tx = some id → x.locks = [] →
      Bracketed own body x
  | inside {p : Prog σ ρ α} : x.prog = some p → p.InTx → x.Inside own → Bracketed own body x
  | ended : x.Over → Bracketed own body x

section
variable {own : Option Int} {body : Prog σ ρ α} {x y : Session σ ρ α} {db db' : σ}

theorem bracketed_start {p : Prog σ ρ α} (hp : p.Opens own body) : (start p).Bracketed own body :=
  .waiting rfl hp rfl rfl rfl

theorem over_drop (x : Session σ ρ α) : x.drop.Over := ⟨rfl, fun p hp => by cases hp⟩

/-- A session that is over reads. -/
theorem Over.advance (h : x.Over) (ha : x.Advance db db' y) : db' = db ∧ y.Over := by
  cases ha with
  | rollback hp => exact ⟨rfl, rfl, h.2⟩
  | query hp => exact ⟨rfl, h.1, fun p hq => Option.some.inj hq ▸ h.2 _ hp _⟩
  | refused hp hf => exact (h.2 _ hp).elim
  | autocommit hp htx hf => exact (h.2 _ hp).elim
  | write hp htx hf => exact (h.2 _ hp).elim
  | beginTx hp => exact (h.2 _ hp).elim
  | lock hp => exact (h.2 _ hp).elim
  | commit hp => exact (h.2 _ hp).elim

theorem Inside.advance {p : Prog σ ρ α} (hprog : x.prog = some p) (hp : p.InTx) (hin : x.Inside own)
    (ha : x.Advance db db' y) : y.Bracketed own body ∧ (db' = db ∨ y.Over) := by
  have hsome : ∀ q, x.prog = some q → q.InTx := fun q hq => by rwa [Option.some.inj (hq.symm.trans hprog)]
  cases ha with
  | @rollback a hq =>
    refine ⟨.ended ⟨rfl, fun q hq' => ?_⟩, .inl rfl⟩
    rw [close_prog, hq] at hq'
    obtain rfl := Option.some.inj hq'
    trivial
  | query hq => exact ⟨.inside rfl (hsome _ hq _) hin, .inl rfl⟩
  | refused hq hf => exact ⟨.ended (over_drop x), .inl rfl⟩
  | autocommit hq htx hf =>
    rw [Inside, htx] at hin
    cases hin.1
  | write hq htx hf => exact ⟨.inside rfl (hsome _ hq _) ⟨rfl, hin.2⟩, .inl rfl⟩
  | beginTx hq => exact (hsome _ hq).elim
  | @lock l k hq =>
    have hk : k.InTx := hsome (.lock l k) hq
    exact ⟨.inside rfl hk ⟨hin.1, fun h hh => List.mem_cons_of_mem l (hin.2 h hh)⟩, .inl rfl⟩
  | @commit k hq =>
    have hover : Over { x.close with prog := some k, seen := x.seen ++ [x.view db] } :=
      ⟨rfl, fun q hq' => Option.some.inj hq' ▸ hsome _ hq⟩
    exact ⟨.ended hover, .inr hover⟩

/-- A transaction changes the committed state by the step that ends it. -/
theorem Bracketed.advance (h : x.Bracketed own body) (hbody : body.InTx) (ha : x.Advance db db' y) :
    y.Bracketed own body ∧ (db' = db ∨ x.Inside own ∧ y.Over) := by
  cases h with
  | @waiting p hp hopen htx hlocks hseen =>
    cases own with
    | none =>
      obtain rfl : p = .beginTx body := hopen
      cases ha with
      | beginTx hq =>
        cases hp.symm.trans hq
        exact ⟨.inside rfl hbody ⟨rfl, fun h hh => by cases hh⟩, .inl rfl⟩
      | _ hq => cases hp.symm.trans hq
    | some l =>
      obtain rfl : p = .beginTx (.lock l body) := hopen
      cases ha with
      | beginTx hq =>
        cases hp.symm.trans hq
        exact ⟨.locking rfl rfl rfl hlocks, .inl rfl⟩
      | _ hq => cases hp.symm.trans hq
  | @locking l hown hp htx hlocks =>
    cases ha with
    | lock hq =>
      cases hp.symm.trans hq
      have hopen : x.tx.isSome := by rw [htx]; rfl
      refine ⟨.inside rfl hbody ⟨hopen, fun h hh => ?_⟩, .inl rfl⟩
      cases hown.symm.trans hh
      exact List.mem_cons_self
    | _ hq => cases hp.symm.trans hq
  | inside hp hk hin =>
    obtain ⟨hy, hdb⟩ := Inside.advance hp hk hin ha
    exact ⟨hy, hdb.imp_right (fun ho => ⟨hin, ho⟩)⟩
  | ended ho =>
    obtain ⟨hdb, hy⟩ := ho.advance ha
    exact ⟨.ended hy, .inl hdb⟩

/-- All that an open transaction has seen is related to the committed state. -/
def Recalls (K : σ → σ → Prop) (x : Session σ ρ α) (db : σ) : Prop := x.tx.isSome → ∀ s ∈ x.seen, K db s

/-- It is enough that what the transaction sees now is. -/
theorem Recalls.advance {K : σ → σ → Prop} (h : x.Recalls K db) (hb : x.Bracketed own body) (hview : K db (x.view db))
    (ha : x.Advance db db' y) : y.Recalls K db' := by
  have hsnoc : x.tx.isSome → ∀ s ∈ x.seen ++ [x.view db], K db s := by
    intro hx s hs
    rcases List.mem_append.mp hs with hs | hs
    · exact h hx s hs
    · rw [List.mem_singleton.mp hs]
      exact hview
  cases ha with
  | rollback hp => exact fun hx => by cases hx
  | query hp => exact fun hx => hsnoc hx
  | refused hp hf => exact fun hx => by cases hx
  | autocommit hp htx hf =>
    intro hx
    rw [goOn_tx, htx] at hx
    cases hx
  | write hp htx hf =>
    rw [view_some htx] at hsnoc
    exact fun _ => hsnoc (by rw [htx]; rfl)
  | @beginTx k hp =>
    cases hb with
    | waiting hq ho htx hlocks hseen =>
      intro _ s hs
      change s ∈ x.seen ++ [x.view db] at hs
      rw [hseen, List.nil_append, List.mem_singleton] at hs
      rw [hs]
      exact hview
    | locking ho hq htx hlocks => cases hp.symm.trans hq
    | inside hq hk hin =>
      cases hp.symm.trans hq
      exact hk.elim
    | ended ho => exact (ho.2 _ hp).elim
  | lock hp => exact fun hx => hsnoc hx
  | commit hp => exact fun hx => by cases hx

end

/-- Only a `BEGIN` opens a transaction. -/
theorem Advance.open_tx {x y : Session σ ρ α} {db db' : σ} (ha : x.Advance db db' y) (hy : y.tx.isSome) :
    x.tx.isSome ∨ ∃ k, x.prog = some (.beginTx k) := by
  cases ha with
  | rollback hp => cases hy
  | query hp => exact .inl hy
  | refused hp hf => cases hy
  | autocommit hp htx hf => exact .inl hy
  | write hp htx hf => exact .inl (by rw [htx]; rfl)
  | @beginTx k hp => exact .inr ⟨k, hp⟩
  | lock hp => exact .inl hy
  | commit hp => cases hy

/-- A lock comes from its statement. -/
theorem Advance.lock_mem {x y : Session σ ρ α} {db db' : σ} (ha : x.Advance db db' y) {h : Int} (hy : h ∈ y.locks) :
    h ∈ x.locks ∨ ∃ k, x.prog = some (.lock h k) := by
  cases ha with
  | rollback hp => cases hy
  | query hp => exact .inl hy
  | refused hp hf => cases hy
  | autocommit hp htx hf => exact .inl hy
  | write hp htx hf => exact .inl hy
  | beginTx hp => exact .inl hy
  | @lock l k hp =>
    rcases List.mem_cons.mp hy with rfl | hy
    · exact .inr ⟨k, hp⟩
    · exact .inl hy
  | commit hp => cases hy

end Session

/-! ## Several sessions -/

variable [DecidableEq ι]

/-- One session's step, seen from a session that may be another one. -/
theorem Step.session {mode : Isolation} {c d : Config ι σ ρ α} {i : ι} (hs : Step mode c i d) (j : ι) :
    (j ≠ i ∧ d.session j = c.session j) ∨
      (j = i ∧ ((c.session i).Advance c.db d.db (d.session j) ∨ (d.session j = (c.session i).drop ∧ d.db = c.db))) := by
  by_cases hj : j = i
  · subst hj
    refine .inr ⟨rfl, ?_⟩
    cases hs with
    | advance _ ha =>
      rw [Config.put_self]
      exact .inl (Session.advance_cases ha)
    | stop =>
      rw [Config.put_self]
      exact .inr ⟨rfl, rfl⟩
  · refine .inl ⟨hj, ?_⟩
    cases hs with
    | advance _ ha => exact Config.put_other c hj _ _
    | stop => exact Config.put_other c hj _ _

/-- The open transactions are one at most. -/
def OneWriter (c : Config ι σ ρ α) : Prop :=
  ∀ i j, (c.session i).tx.isSome → (c.session j).tx.isSome → i = j

/-- No lock is held twice. -/
def DisjointLocks (c : Config ι σ ρ α) : Prop :=
  ∀ i j h, h ∈ (c.session i).locks → h ∈ (c.session j).locks → i = j

section
variable {mode : Isolation} {c d : Config ι σ ρ α} {i : ι}

omit [DecidableEq ι] in
theorem oneWriter_init (db : σ) (p : ι → Prog σ ρ α) : OneWriter (.init db p) := fun _ _ h => by cases h

theorem OneWriter.step (h : OneWriter c) (hs : Step .exclusive c i d) : OneWriter d := by
  -- the session that steps opens a transaction only where no other is open
  have hself : (d.session i).tx.isSome → ∀ j, j ≠ i → (c.session j).tx.isSome → False := by
    intro hi j hj hjtx
    cases hs with
    | @advance db x hen ha =>
      rw [Config.put_self] at hi
      rcases (Session.advance_cases ha).open_tx hi with hsome | ⟨k, hk⟩
      · exact hj (h j i hjtx hsome)
      · rw [Enabled, hk] at hen
        have hnone : (c.session j).tx.isNone := hen rfl j hj
        simp only [Option.isNone_iff_eq_none] at hnone
        rw [hnone] at hjtx
        cases hjtx
    | stop =>
      rw [Config.put_self] at hi
      cases hi
  intro j k hj hk
  rcases hs.session j with ⟨hji, hj'⟩ | ⟨rfl, -⟩ <;> rcases hs.session k with ⟨hki, hk'⟩ | ⟨rfl, -⟩
  · exact h j k (hj' ▸ hj) (hk' ▸ hk)
  · exact (hself hk j hji (hj' ▸ hj)).elim
  · exact (hself hj k hki (hk' ▸ hk)).elim
  · rfl

/-- While a transaction is open no other session changes the committed state. -/
theorem OneWriter.frame (h : OneWriter c) {j : ι} (hj : (c.session j).tx.isSome) (hij : i ≠ j)
    (hs : Step .exclusive c i d) : d.db = c.db := by
  have hnone : (c.session i).tx = none := by
    cases hi : (c.session i).tx with
    | none => rfl
    | some w => exact absurd (h i j (by rw [hi]; rfl) hj) hij
  cases hs with
  | stop => rfl
  | @advance db x hen ha =>
    have hadv := Session.advance_cases ha
    cases hadv with
    | autocommit hp htx hf =>
      rw [Enabled, hp] at hen
      have hj' := hen (by rw [hnone]; rfl) j hij.symm
      simp only [Option.isNone_iff_eq_none] at hj'
      rw [hj'] at hj
      cases hj
    | commit hp => exact Session.view_none hnone c.db
    | _ => rfl

omit [DecidableEq ι] in
theorem disjointLocks_init (db : σ) (p : ι → Prog σ ρ α) : DisjointLocks (.init db p) := fun _ _ _ h => by cases h

theorem DisjointLocks.step (h : DisjointLocks c) (hs : Step mode c i d) : DisjointLocks d := by
  have hself : ∀ l, l ∈ (d.session i).locks → ∀ j, j ≠ i → l ∈ (c.session j).locks → False := by
    intro l hl j hj hjl
    cases hs with
    | @advance db x hen ha =>
      rw [Config.put_self] at hl
      rcases (Session.advance_cases ha).lock_mem hl with hmem | ⟨k, hk⟩
      · exact hj (h j i l hjl hmem)
      · rw [Enabled, hk] at hen
        exact hen j hj hjl
    | stop =>
      rw [Config.put_self] at hl
      cases hl
  intro j k l hj hk
  rcases hs.session j with ⟨hji, hj'⟩ | ⟨rfl, -⟩ <;> rcases hs.session k with ⟨hki, hk'⟩ | ⟨rfl, -⟩
  · exact h j k l (hj' ▸ hj) (hk' ▸ hk)
  · exact (hself l hk j hji (hj' ▸ hj)).elim
  · exact (hself l hj k hki (hk' ▸ hk)).elim
  · rfl

/-- A transaction goes through its stages whatever the other sessions do. -/
theorem Session.Bracketed.step {own : Option Int} {body : Prog σ ρ α} {j : ι}
    (h : (c.session j).Bracketed own body) (hbody : body.InTx) (hs : Step mode c i d) :
    (d.session j).Bracketed own body := by
  rcases hs.session j with ⟨-, hj⟩ | ⟨rfl, ha | ⟨hx, -⟩⟩
  · rwa [hj]
  · exact (h.advance hbody ha).1
  · rw [hx]
    exact .ended (Session.over_drop _)

theorem Session.Over.step {j : ι} (h : (c.session j).Over) (hs : Step mode c i d) : (d.session j).Over := by
  rcases hs.session j with ⟨-, hj⟩ | ⟨rfl, ha | ⟨hx, -⟩⟩
  · rwa [hj]
  · exact (h.advance ha).2
  · rw [hx]
    exact Session.over_drop _

/-- The committed state changes only by a step from inside the transaction. -/
theorem Session.Bracketed.changes {own : Option Int} {body : Prog σ ρ α} (h : (c.session i).Bracketed own body)
    (hbody : body.InTx) (hs : Step mode c i d) : d.db = c.db ∨ (c.session i).Inside own ∧ (d.session i).Over := by
  rcases hs.session i with ⟨hne, -⟩ | ⟨-, ha | ⟨-, hdb⟩⟩
  · exact absurd rfl hne
  · exact (h.advance hbody ha).2
  · exact .inl hdb

theorem Session.Recalls.step {K : σ → σ → Prop} {own : Option Int} {body : Prog σ ρ α} {j : ι}
    (h : (c.session j).Recalls K c.db) (hb : (c.session j).Bracketed own body)
    (hview : K c.db ((c.session j).view c.db)) (hs : Step mode c i d)
    (hother : j ≠ i → (c.session j).tx.isSome → ∀ s, K c.db s → K d.db s) : (d.session j).Recalls K d.db := by
  rcases hs.session j with ⟨hji, hj⟩ | ⟨rfl, ha | ⟨hx, -⟩⟩
  · rw [hj]
    exact fun hopen s hmem => hother hji hopen s (h hopen s hmem)
  · exact h.advance hb hview ha
  · rw [hx]
    exact fun hopen => by cases hopen

end

/-- The step is the `COMMIT` of the session. -/
def Commits (c : Config ι σ ρ α) (i : ι) (d : Config ι σ ρ α) : Prop :=
  ∃ k db x, (c.session i).prog = some (.commit k) ∧ (c.session i).advance c.db = some (db, x) ∧ d = c.put i db x

theorem Commits.step {mode : Isolation} {c d : Config ι σ ρ α} {i : ι} (h : Commits c i d) : Step mode c i d := by
  obtain ⟨k, db, x, hp, ha, rfl⟩ := h
  refine .advance ?_ ha
  rw [Enabled, hp]
  trivial

theorem commits_of_follow [Fintype ι] [DecidableEq ρ] {mode : Isolation}
    {A : Config ι σ ρ α → ι → Config ι σ ρ α → Prop} [∀ c i d, Decidable (A c i d)] {c d : Config ι σ ρ α} {i : ι}
    (hp : (c.session i).atCommit = true) (h : follow mode A c [i] = some d) : Commits c i d := by
  obtain ⟨k, hk⟩ := Session.atCommit_prog hp
  obtain ⟨-, -, db, x, ha, hd⟩ := follow_one h
  exact ⟨k, db, x, hk, ha, hd⟩

/-- A transaction commits what it sees, and is over. -/
theorem Commits.result {c d : Config ι σ ρ α} {i : ι} {own : Option Int} {body : Prog σ ρ α}
    (hb : (c.session i).Bracketed own body) (h : Commits c i d) :
    (∃ k, (c.session i).prog = some (.commit k)) ∧ (c.session i).Inside own ∧ d.db = (c.session i).view c.db ∧
      (d.session i).Over := by
  obtain ⟨k, db, x, hp, ha, rfl⟩ := h
  have hin : ∃ p, (c.session i).prog = some p ∧ p.InTx ∧ (c.session i).Inside own := by
    cases hb with
    | @waiting p hq hopen _ _ _ =>
      cases own with
      | none =>
        obtain rfl : p = .beginTx body := hopen
        cases hq.symm.trans hp
      | some l =>
        obtain rfl : p = .beginTx (.lock l body) := hopen
        cases hq.symm.trans hp
    | locking _ hq _ _ => cases hq.symm.trans hp
    | @inside p hq hk hin => exact ⟨p, hq, hk, hin⟩
    | ended ho => exact (ho.2 _ hp).elim
  obtain ⟨p, hq, hk, hin⟩ := hin
  cases hq.symm.trans hp
  refine ⟨⟨k, hp⟩, hin, ?_⟩
  rw [Config.put_self, Config.put_db]
  cases Session.advance_cases ha with
  | commit hp' =>
    cases hp'.symm.trans hp
    exact ⟨rfl, rfl, fun p hq => Option.some.inj hq ▸ hk⟩
  | _ hp' => cases hp'.symm.trans hp

/-! ## Whole runs -/

section
variable {mode : Isolation} {A : Config ι σ ρ α → ι → Config ι σ ρ α → Prop} {db : σ} {p : ι → Prog σ ρ α}
  {c : Config ι σ ρ α} {own : Option Int} {body : Prog σ ρ α} {i : ι}

theorem oneWriter_runs (h : Runs .exclusive A (.init db p) c) : OneWriter c :=
  h.invariant (oneWriter_init db p) fun _ _ _ hd hs _ => hd.step hs

theorem disjointLocks_runs (h : Runs mode A (.init db p) c) : DisjointLocks c :=
  h.invariant (disjointLocks_init db p) fun _ _ _ hd hs _ => hd.step hs

theorem bracketed_runs (hp : (p i).Opens own body) (hbody : body.InTx) (h : Runs mode A (.init db p) c) :
    (c.session i).Bracketed own body :=
  h.invariant (I := fun c => (c.session i).Bracketed own body) (Session.bracketed_start hp)
    fun _ _ _ hd hs _ => hd.step hbody hs

theorem recalls_runs {K : σ → σ → Prop} (hp : (p i).Opens own body) (hbody : body.InTx)
    (hview : ∀ c, Runs mode A (.init db p) c → K c.db ((c.session i).view c.db))
    (hother : ∀ c j d, Runs mode A (.init db p) c → i ≠ j → (c.session i).tx.isSome → Step mode c j d →
      ∀ s, K c.db s → K d.db s)
    (h : Runs mode A (.init db p) c) : (c.session i).Recalls K c.db := by
  induction h with
  | refl => exact fun hopen => by cases hopen
  | @step d e j hr hs _ ih =>
    exact ih.step (bracketed_runs hp hbody hr) (hview d hr) hs fun hij hopen => hother d j e hr hij hopen hs

end
end Statements
