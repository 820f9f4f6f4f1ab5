import TandemAgents.Transactions

/-!
# Transactions under interference

While a transaction is open, other sessions commit. `Safe` says what the transaction
gets to when all they do is related by a rely: whatever a statement finds is what the
one before left, changed as the rely allows. The writes kept aside must carry the rely
over, since they are applied to a state that is committed later.
-/
namespace Statements

set_option maxRecDepth 20000

variable {ι σ ρ α β : Type}

/-- What the other sessions may do, in any number of steps. -/
structure Rely (σ : Type) where
  rel : σ → σ → Prop
  refl : ∀ s, rel s s
  trans : ∀ s t u, rel s t → rel t u → rel s u

/-- A write that succeeds on a state does so on a later one, with a later outcome. -/
def Rely.Carries (R : Rely σ) (f : σ → Option σ) : Prop :=
  ∀ s t u, R.rel s t → f s = some u → ∃ v, f t = some v ∧ R.rel u v

theorem Rely.carries_some {R : Rely σ} {f : σ → σ} (h : ∀ s t, R.rel s t → R.rel (f s) (f t)) :
    R.Carries (fun s => some (f s)) := by
  intro s t u hst hu
  exact ⟨f t, rfl, Option.some.inj hu ▸ h s t hst⟩

/-- A write that carries the rely over, and a property with it. -/
structure Rely.Keeps (R : Rely σ) (J : σ → Prop) (f : σ → Option σ) : Prop where
  carries : R.Carries f
  keeps : ∀ s, J s → ∃ t, f s = some t ∧ J t

theorem Rely.keeps_some {R : Rely σ} {J : σ → Prop} {f : σ → σ} (h : ∀ s t, R.rel s t → R.rel (f s) (f t))
    (hJ : ∀ s, J s → J (f s)) : R.Keeps J (fun s => some (f s)) :=
  ⟨R.carries_some h, fun s hs => ⟨f s, rfl, hJ s hs⟩⟩

/-- `Q` is what a result comes with, `C` what a `COMMIT` commits; when `strict`, no
statement is refused. -/
structure Aim (σ : Type) where
  rely : Rely σ
  strict : Prop
  commits : σ → Prop

namespace Prog

def Safe (M : Aim σ) (Q : α → σ → Prop) : Prog σ ρ α → σ → Prop
  | ret a, s => ∀ t, M.rely.rel s t → Q a t
  | query k, s => ∀ t, M.rely.rel s t → (k t).Safe M Q t
  | exec _ f k, s => M.rely.Carries f ∧
      ∀ t, M.rely.rel s t → (M.strict → f t ≠ none) ∧ ∀ u, f t = some u → (k t).Safe M Q u
  | beginTx _, _ => False
  | lock _ k, s => k.Safe M Q s
  | commit _, s => ∀ t, M.rely.rel s t → M.commits t

section
variable {M : Aim σ} {Q : α → σ → Prop} {s t : σ}

theorem Safe.stable {p : Prog σ ρ α} (h : p.Safe M Q s) (hst : M.rely.rel s t) : p.Safe M Q t := by
  induction p with
  | ret a => exact fun u hu => h u (M.rely.trans _ _ _ hst hu)
  | query k ih => exact fun u hu => h u (M.rely.trans _ _ _ hst hu)
  | exec rows f k ih => exact ⟨h.1, fun u hu => h.2 u (M.rely.trans _ _ _ hst hu)⟩
  | beginTx k ih => exact h.elim
  | lock l k ih => exact ih h
  | commit k ih => exact fun u hu => h u (M.rely.trans _ _ _ hst hu)

theorem Safe.weaken {p : Prog σ ρ α} {Q' : α → σ → Prop} (h : p.Safe M Q s) (hQ : ∀ a t, Q a t → Q' a t) :
    p.Safe M Q' s := by
  induction p generalizing s with
  | ret a => exact fun t ht => hQ a t (h t ht)
  | query k ih => exact fun t ht => ih t (h t ht)
  | exec rows f k ih => exact ⟨h.1, fun t ht => ⟨(h.2 t ht).1, fun u hu => ih t ((h.2 t ht).2 u hu)⟩⟩
  | beginTx k ih => exact h.elim
  | lock l k ih => exact ih h
  | commit k ih => exact h

theorem Safe.bind {p : Prog σ ρ α} {g : α → Prog σ ρ β} {Q' : β → σ → Prop} (h : p.Safe M Q s)
    (hg : ∀ a t, Q a t → (g a).Safe M Q' t) : (p >>= g).Safe M Q' s := by
  induction p generalizing s with
  | ret a => exact hg a s (h s (M.rely.refl s))
  | query k ih => exact fun t ht => ih t (h t ht)
  | exec rows f k ih => exact ⟨h.1, fun t ht => ⟨(h.2 t ht).1, fun u hu => ih t ((h.2 t ht).2 u hu)⟩⟩
  | beginTx k ih => exact h.elim
  | lock l k ih => exact ih h
  | commit k ih => exact h

/-- A loop keeps an invariant about the rows it still has to take. -/
theorem Safe.forEach {body : β → Prog σ ρ Unit} {J : List β → σ → Prop}
    (hJ : ∀ xs s t, M.rely.rel s t → J xs s → J xs t)
    (hbody : ∀ x xs s, J (x :: xs) s → (body x).Safe M (fun _ => J xs) s) {xs : List β} (h : J xs s) :
    (forEach body xs).Safe M (fun _ => J []) s := by
  induction xs generalizing s with
  | nil => exact fun t ht => hJ [] s t ht h
  | cons x xs ih => exact (hbody x xs s h).bind fun _ t ht => ih ht

theorem safe_get_bind {q : σ → β} {g : β → Prog σ ρ α} (h : ∀ t, M.rely.rel s t → (g (q t)).Safe M Q t) :
    (get q >>= g).Safe M Q s := h

theorem safe_update {rows : σ → List ρ} {f : σ → σ} {J : σ → Prop}
    (hf : ∀ s t, M.rely.rel s t → M.rely.rel (f s) (f t)) (hJ : ∀ s t, M.rely.rel s t → J s → J t)
    (h : ∀ t, M.rely.rel s t → J (f t)) : (update rows f : Prog σ ρ Unit).Safe M (fun _ => J) s := by
  refine ⟨Rely.carries_some hf, fun t ht => ⟨fun _ => Option.some_ne_none _, fun u hu v hv => ?_⟩⟩
  obtain rfl := Option.some.inj hu
  exact hJ _ _ hv (h t ht)

/-- A program whose writes all keep a property that the rely keeps. -/
theorem safe_of_each {J : σ → Prop} (hJ : ∀ s t, M.rely.rel s t → J s → J t) {p : Prog σ ρ α} (hp : p.Plain)
    (seen : List σ) (h : p.Each (fun _ f => M.rely.Keeps J f) seen) (hs : J s) : p.Safe M (fun _ => J) s := by
  induction p generalizing s seen with
  | ret a => exact fun t ht => hJ s t ht hs
  | query k ih => exact fun t ht => ih t (hp t) _ (h t) (hJ s t ht hs)
  | exec rows f k ih =>
    refine ⟨h.1.carries, fun t ht => ?_⟩
    obtain ⟨u, hu, hJu⟩ := h.1.keeps t (hJ s t ht hs)
    refine ⟨fun _ => hu ▸ Option.some_ne_none u, fun u' hu' => ?_⟩
    obtain rfl := Option.some.inj (hu.symm.trans hu')
    exact ih t (hp t) _ (h.2 t) hJu
  | beginTx k ih => exact hp.elim
  | lock l k ih => exact ih hp _ (h s) hs
  | commit k ih => exact hp.elim

end
end Prog

namespace Session

/-- The rest of an open transaction is safe, and so are its writes on what is committed later. -/
def Shielded (M : Aim σ) (x : Session σ ρ α) (db : σ) : Prop :=
  ∃ p w, x.prog = some p ∧ x.tx = some w ∧ p.Safe M (fun _ _ => True) (w db) ∧
    ∀ s t, M.rely.rel db s → M.rely.rel s t → M.rely.rel (w s) (w t)

section
variable {M : Aim σ} {own : Option Int} {body : Prog σ ρ α} {x y : Session σ ρ α} {db db' : σ}

theorem shielded_begin {k : Prog σ ρ α} (hprog : x.prog = some k) (htx : x.tx = some id)
    (hk : k.Safe M (fun _ _ => True) db) : x.Shielded M db :=
  ⟨k, id, hprog, htx, hk, fun _ _ _ h => h⟩

/-- Other sessions commit. -/
theorem Shielded.rely (h : x.Shielded M db) (hr : M.rely.rel db db') : x.Shielded M db' := by
  obtain ⟨p, w, hp, hw, hsafe, hmono⟩ := h
  refine ⟨p, w, hp, hw, hsafe.stable (hmono db db' (M.rely.refl db) hr), ?_⟩
  exact fun s t hs hst => hmono s t (M.rely.trans _ _ _ hr hs) hst

/-- No statement of a strictly shielded transaction is refused. -/
theorem Shielded.not_refused (h : x.Shielded M db) (hs : M.strict) : ¬ x.Refused db := by
  rintro ⟨rows, f, k, hp, hf⟩
  obtain ⟨p, w, hp', hw, hsafe, -⟩ := h
  cases hp'.symm.trans hp
  rw [view_some hw] at hf
  exact (hsafe.2 (w db) (M.rely.refl _)).1 hs hf

theorem Shielded.commit {k : Prog σ ρ α} (h : x.Shielded M db) (hk : x.prog = some (.commit k)) :
    M.commits (x.view db) := by
  obtain ⟨p, w, hp, hw, hsafe, -⟩ := h
  cases hp.symm.trans hk
  rw [view_some hw]
  exact hsafe (w db) (M.rely.refl _)

theorem Shielded.advance (h : x.Shielded M db) (ha : x.Advance db db' y) (hy : y.tx.isSome) : y.Shielded M db' := by
  obtain ⟨p, w, hp, hw, hsafe, hmono⟩ := h
  have hrefl := M.rely.refl (w db)
  cases ha with
  | rollback hq => cases hy
  | query hq =>
    cases hp.symm.trans hq
    rw [view_some hw]
    exact ⟨_, w, rfl, hw, hsafe (w db) hrefl, hmono⟩
  | refused hq hf => cases hy
  | autocommit hq htx hf => cases hw.symm.trans htx
  | @write rows f k v t hq htx hf =>
    cases hp.symm.trans hq
    cases hw.symm.trans htx
    refine ⟨_, _, rfl, rfl, ?_, ?_⟩
    · rw [andThen_some hf]
      exact (hsafe.2 (w db) hrefl).2 t hf
    · intro s s' hs hss
      -- the write succeeds on both states, since it did on the one committed now
      obtain ⟨u, hu, -⟩ := hsafe.1 (w db) (w s) t (hmono db s (M.rely.refl db) hs) hf
      obtain ⟨u', hu', hrel⟩ := hsafe.1 (w s) (w s') u (hmono s s' hs hss) hu
      rw [andThen_some hu, andThen_some hu']
      exact hrel
  | beginTx hq =>
    cases hp.symm.trans hq
    exact hsafe.elim
  | lock hq =>
    cases hp.symm.trans hq
    exact ⟨_, w, rfl, hw, hsafe, hmono⟩
  | commit hq => cases hy

theorem Over.not_inside (h : x.Over) : ¬ x.Inside own := by
  intro hin
  rw [Inside, h.1] at hin
  cases hin.1

/-- The body starts when the transaction holds what it waits for. -/
theorem Bracketed.shielded_advance (hb : x.Bracketed own body) (hsafe : ∀ s, body.Safe M (fun _ _ => True) s)
    (h : x.Inside own → x.Shielded M db) (ha : x.Advance db db' y) (hy : y.Inside own) : y.Shielded M db' := by
  cases hb with
  | @waiting p hp hopen htx hlocks hseen =>
    cases own with
    | none =>
      obtain rfl : p = .beginTx body := hopen
      cases ha with
      | beginTx hq =>
        cases hp.symm.trans hq
        exact shielded_begin rfl rfl (hsafe db)
      | _ hq => cases hp.symm.trans hq
    | some l =>
      obtain rfl : p = .beginTx (.lock l body) := hopen
      cases ha with
      | beginTx hq =>
        have hmem : l ∈ x.locks := hy.2 l rfl
        rw [hlocks] at hmem
        cases hmem
      | _ hq => cases hp.symm.trans hq
  | @locking l hown hp htx hlocks =>
    cases ha with
    | lock hq =>
      cases hp.symm.trans hq
      exact shielded_begin rfl htx (hsafe db)
    | _ hq => cases hp.symm.trans hq
  | inside hp hk hin => exact (h hin).advance ha hy.1
  | ended ho => exact absurd hy (ho.advance ha).2.not_inside

/-- A transaction that waits or is over is at no write. -/
theorem Bracketed.not_refused (hb : x.Bracketed own body) (hs : M.strict) (h : x.Inside own → x.Shielded M db) :
    ¬ x.Refused db := by
  rintro ⟨rows, f, k, hp, hf⟩
  cases hb with
  | @waiting p hq hopen htx hlocks hseen =>
    cases own with
    | none =>
      obtain rfl : p = .beginTx body := hopen
      cases hp.symm.trans hq
    | some l =>
      obtain rfl : p = .beginTx (.lock l body) := hopen
      cases hp.symm.trans hq
  | locking hown hq htx hlocks => cases hp.symm.trans hq
  | inside hq hk hin => exact (h hin).not_refused hs ⟨rows, f, k, hp, hf⟩
  | ended ho => exact (ho.2 _ hp).elim

end
end Session

variable [DecidableEq ι]

/-- One step, by the transaction or by a session that keeps to the rely. -/
theorem Session.Bracketed.shielded_step {M : Aim σ} {own : Option Int} {body : Prog σ ρ α} {mode : Isolation}
    {c d : Config ι σ ρ α} {i j : ι} (hb : (c.session j).Bracketed own body)
    (hsafe : ∀ s, body.Safe M (fun _ _ => True) s)
    (h : (c.session j).Inside own → (c.session j).Shielded M c.db) (hs : Step mode c i d)
    (hrely : j ≠ i → (c.session j).Inside own → M.rely.rel c.db d.db) :
    (d.session j).Inside own → (d.session j).Shielded M d.db := by
  intro hin
  rcases hs.session j with ⟨hji, hj⟩ | ⟨rfl, ha | ⟨hx, -⟩⟩
  · rw [hj] at hin ⊢
    exact (h hin).rely (hrely hji hin)
  · exact hb.shielded_advance hsafe h ha hin
  · rw [hx] at hin
    exact absurd hin (Session.over_drop _).not_inside

end Statements
