import Mathlib.Order.Defs.PartialOrder
import Mathlib.Logic.Relation

/-!
# Calls on a state that others change

A program makes calls, each of which reads and changes a shared state in one piece; between
them everyone else is at work. The states are ordered by what can come later, and a program is
safe where every call moves the state forward and keeps the invariant, however much later than
the call before it comes. A call whose caller is gone may still take effect.
-/
namespace SharedCalls

set_option maxRecDepth 20000

variable {σ ε ε' α β : Type}

inductive Prog (σ ε α : Type) where
  | ret (a : α)
  | raise (e : ε)
  /-- The call makes the change `f`, and the program goes on with the state it met. -/
  | call (f : σ → σ) (k : σ → Prog σ ε α)

namespace Prog

def bind (g : α → Prog σ ε β) : Prog σ ε α → Prog σ ε β
  | ret a => g a
  | raise e => raise e
  | call f k => call f fun s => (k s).bind g

instance : Monad (Prog σ ε) where
  pure := ret
  bind p g := p.bind g

/-- `except ... raise ... from`. -/
def mapError (g : ε → ε') : Prog σ ε α → Prog σ ε' α
  | ret a => ret a
  | raise e => raise (g e)
  | call f k => call f fun s => (k s).mapError g

/-- A check in front of what follows. -/
def ofExcept : Except ε α → Prog σ ε α
  | .ok a => ret a
  | .error e => raise e

/-- A call that changes nothing. -/
def look (g : σ → Except ε α) : Prog σ ε α := call id fun s => ofExcept (g s)

/-- What a program comes to when nobody else is at work. -/
def exec : Prog σ ε α → σ → Except ε α × σ
  | ret a, s => (.ok a, s)
  | raise e, s => (.error e, s)
  | call f k, s => (k s).exec (f s)

theorem exec_bind_ok {p : Prog σ ε α} {g : α → Prog σ ε β} {s t : σ} {a : α} (h : p.exec s = (.ok a, t)) :
    (p >>= g).exec s = (g a).exec t := by
  induction p generalizing s with
  | ret b =>
    obtain ⟨hb, rfl⟩ := Prod.mk.inj h
    rw [← Except.ok.inj hb]
    rfl
  | raise e => cases (Prod.mk.inj h).1
  | call f k ih => exact ih s h

theorem exec_mapError_ok {p : Prog σ ε α} {g : ε → ε'} {s t : σ} {a : α} (h : p.exec s = (.ok a, t)) :
    (p.mapError g).exec s = (.ok a, t) := by
  induction p generalizing s with
  | ret b =>
    obtain ⟨hb, rfl⟩ := Prod.mk.inj h
    rw [← Except.ok.inj hb]
    rfl
  | raise e => cases (Prod.mk.inj h).1
  | call f k ih => exact ih s h

theorem exec_ofExcept_ok {x : Except ε α} {a : α} {s : σ} (h : x = .ok a) :
    (ofExcept x : Prog σ ε α).exec s = (.ok a, s) := by rw [h]; rfl

theorem exec_look_ok {g : σ → Except ε α} {a : α} {s : σ} (h : g s = .ok a) : (look g).exec s = (.ok a, s) :=
  exec_ofExcept_ok h

section
variable [Preorder σ]

/-- The change moves every later state of the invariant forward, and keeps the invariant. -/
def Harmless (J : σ → Prop) (f : σ → σ) (s : σ) : Prop := ∀ t, s ≤ t → J t → t ≤ f t ∧ J (f t)

theorem Harmless.later {J : σ → Prop} {f : σ → σ} {s t : σ} (h : Harmless J f s) (hst : s ≤ t) : Harmless J f t :=
  fun u hu => h u (le_trans hst hu)

theorem harmless_id (J : σ → Prop) (s : σ) : Harmless J id s := fun t _ hJ => ⟨le_refl t, hJ⟩

/-- Every call is harmless, and what is returned holds from then on. -/
def Safe (J : σ → Prop) (Q : α → σ → Prop) : Prog σ ε α → σ → Prop
  | ret a, s => ∀ t, s ≤ t → J t → Q a t
  | raise _, _ => True
  | call f k, s => Harmless J f s ∧ ∀ t, s ≤ t → J t → (k t).Safe J Q (f t)

variable {J : σ → Prop} {Q : α → σ → Prop} {Q' : β → σ → Prop} {s t : σ}

theorem Safe.later {p : Prog σ ε α} (h : p.Safe J Q s) (hst : s ≤ t) : p.Safe J Q t := by
  cases p with
  | ret a => exact fun u hu => h u (le_trans hst hu)
  | raise e => trivial
  | call f k => exact ⟨h.1.later hst, fun u hu => h.2 u (le_trans hst hu)⟩

theorem Safe.bind {p : Prog σ ε α} {g : α → Prog σ ε β} (h : p.Safe J Q s)
    (hg : ∀ a t, s ≤ t → (∀ u, t ≤ u → J u → Q a u) → (g a).Safe J Q' t) : (p >>= g).Safe J Q' s := by
  induction p generalizing s with
  | ret a => exact hg a s (le_refl s) h
  | raise e => trivial
  | call f k ih =>
    refine ⟨h.1, fun t ht hJ => ih t (h.2 t ht hJ) fun a u hu => hg a u (le_trans ht (le_trans (h.1 t ht hJ).1 hu))⟩

theorem Safe.weaken {p : Prog σ ε α} {Q'' : α → σ → Prop} (h : p.Safe J Q s) (hQ : ∀ a t, s ≤ t → J t → Q a t → Q'' a t) :
    p.Safe J Q'' s := by
  induction p generalizing s with
  | ret a => exact fun t ht hJ => hQ a t ht hJ (h t ht hJ)
  | raise e => trivial
  | call f k ih =>
    exact ⟨h.1, fun t ht hJ => ih t (h.2 t ht hJ) fun a u hu => hQ a u (le_trans ht (le_trans (h.1 t ht hJ).1 hu))⟩

theorem Safe.mapError {p : Prog σ ε α} {g : ε → ε'} (h : p.Safe J Q s) : (p.mapError g).Safe J Q s := by
  induction p generalizing s with
  | ret a => exact h
  | raise e => trivial
  | call f k ih => exact ⟨h.1, fun t ht hJ => ih t (h.2 t ht hJ)⟩

theorem safe_ret {a : α} (h : ∀ t, s ≤ t → J t → Q a t) : (pure a : Prog σ ε α).Safe J Q s := h

theorem safe_ofExcept_bind {x : Except ε α} {g : α → Prog σ ε β} (h : ∀ a, x = .ok a → (g a).Safe J Q' s) :
    (ofExcept x >>= g).Safe J Q' s := by
  cases x with
  | ok a => exact h a rfl
  | error e => trivial

/-- What was read is so at that state, which is a later one. -/
theorem safe_look_bind {g : σ → Except ε α} {k : α → Prog σ ε β}
    (h : ∀ t, s ≤ t → J t → ∀ a, g t = .ok a → (k a).Safe J Q' t) : (look g >>= k).Safe J Q' s :=
  ⟨harmless_id J s, fun t ht hJ => safe_ofExcept_bind fun a ha => h t ht hJ a ha⟩

end

end Prog

/-! ## Programs next to each other -/

/-- The state, the programs at work on it, and the changes still under way whose caller is gone. -/
structure World (σ ε α : Type) where
  state : σ
  programs : List (Prog σ ε α)
  late : List (σ → σ)

/-- One step: a program is started or makes its call, or it ends in the middle of one, a change that
was under way arrives (and may arrive again), or someone else is at work. -/
inductive Step (starts : Prog σ ε α → Prop) (other : σ → σ → Prop) : World σ ε α → World σ ε α → Prop
  | start {w : World σ ε α} (p : Prog σ ε α) (hp : starts p) : Step starts other w { w with programs := w.programs ++ [p] }
  | call {w : World σ ε α} (i : Nat) (f : σ → σ) (k : σ → Prog σ ε α) (hi : w.programs[i]? = some (.call f k)) :
      Step starts other w { w with state := f w.state, programs := w.programs.set i (k w.state) }
  | lose {w : World σ ε α} (i : Nat) (f : σ → σ) (k : σ → Prog σ ε α) (e : ε)
      (hi : w.programs[i]? = some (.call f k)) :
      Step starts other w { w with programs := w.programs.set i (.raise e), late := w.late ++ [f] }
  | arrive {w : World σ ε α} (f : σ → σ) (hf : f ∈ w.late) : Step starts other w { w with state := f w.state }
  | others {w : World σ ε α} (t : σ) (ht : other w.state t) : Step starts other w { w with state := t }

/-- A program that runs on its own to its end. -/
theorem reaches_exec {starts : Prog σ ε α → Prop} {other : σ → σ → Prop} {p : Prog σ ε α} {s t : σ} {a : α}
    (h : p.exec s = (.ok a, t)) (late : List (σ → σ)) :
    Relation.ReflTransGen (Step starts other) ⟨s, [p], late⟩ ⟨t, [.ret a], late⟩ := by
  induction p generalizing s with
  | ret b =>
    obtain ⟨hb, rfl⟩ := Prod.mk.inj h
    rw [← Except.ok.inj hb]
  | raise e => cases (Prod.mk.inj h).1
  | call f k ih => exact .head (.call 0 f k rfl) (ih s h)

section
variable [Preorder σ] {J : σ → Prop} {Q : α → σ → Prop} {starts : Prog σ ε α → Prop} {other : σ → σ → Prop}

structure Sound (J : σ → Prop) (Q : α → σ → Prop) (w : World σ ε α) : Prop where
  invariant : J w.state
  safe : ∀ p ∈ w.programs, p.Safe J Q w.state
  late : ∀ f ∈ w.late, Prog.Harmless J f w.state

/-- The state moves on, and at most one program is another. -/
theorem Sound.advance {w : World σ ε α} (h : Sound J Q w) {t : σ} (hle : w.state ≤ t) (hJ : J t)
    {programs : List (Prog σ ε α)} (hp : ∀ p ∈ programs, p ∈ w.programs ∨ p.Safe J Q t) : Sound J Q ⟨t, programs, w.late⟩ where
  invariant := hJ
  safe p hmem := (hp p hmem).elim (fun hold => (h.safe p hold).later hle) fun hnew => hnew
  late f hf := (h.late f hf).later hle

theorem Sound.step {w w' : World σ ε α} (h : Sound J Q w) (hs : Step starts other w w')
    (hstart : ∀ p, starts p → ∀ s, J s → p.Safe J Q s) (hother : ∀ s t, other s t → J s → s ≤ t ∧ J t) : Sound J Q w' := by
  cases hs with
  | start p hp =>
    refine h.advance (le_refl _) h.invariant fun q hq => ?_
    rcases List.mem_append.mp hq with hold | hnew
    · exact .inl hold
    · exact .inr (List.mem_singleton.mp hnew ▸ hstart p hp _ h.invariant)
  | call i f k hi =>
    obtain ⟨hharmless, hk⟩ := h.safe _ (List.mem_of_getElem? hi)
    obtain ⟨hle, hJ⟩ := hharmless _ (le_refl _) h.invariant
    refine h.advance hle hJ fun q hq => ?_
    rcases List.mem_or_eq_of_mem_set hq with hold | rfl
    · exact .inl hold
    · exact .inr (hk _ (le_refl _) h.invariant)
  | lose i f k e hi =>
    obtain ⟨hharmless, -⟩ := h.safe _ (List.mem_of_getElem? hi)
    refine ⟨h.invariant, fun q hq => ?_, fun g hg => ?_⟩
    · rcases List.mem_or_eq_of_mem_set hq with hold | rfl
      · exact h.safe q hold
      · trivial
    · rcases List.mem_append.mp hg with hold | hnew
      · exact h.late g hold
      · exact List.mem_singleton.mp hnew ▸ hharmless
  | arrive f hf =>
    obtain ⟨hle, hJ⟩ := h.late f hf _ (le_refl _) h.invariant
    exact h.advance hle hJ fun q hq => .inl hq
  | others t ht =>
    obtain ⟨hle, hJ⟩ := hother _ t ht h.invariant
    exact h.advance hle hJ fun q hq => .inl hq

/-- What is safe on its own is so in every run next to others. -/
theorem Sound.run {w w' : World σ ε α} (h : Sound J Q w) (hs : Relation.ReflTransGen (Step starts other) w w')
    (hstart : ∀ p, starts p → ∀ s, J s → p.Safe J Q s) (hother : ∀ s t, other s t → J s → s ≤ t ∧ J t) : Sound J Q w' := by
  induction hs with
  | refl => exact h
  | tail _ hstep ih => exact ih.step hstep hstart hother

theorem Sound.returned {w : World σ ε α} (h : Sound J Q w) {a : α} (ha : .ret a ∈ w.programs) : Q a w.state :=
  h.safe _ ha _ (le_refl _) h.invariant

end

/-! ## One program at a time -/

section
variable {τ : Type} {π : σ → τ} {G : τ → τ → Prop} {Q : α → τ → Prop} {Q' : β → τ → Prop} {x : τ}

/-- A program on its way, next to others who leave alone what `π` shows of the state. -/
inductive Partly (π : σ → τ) : Prog σ ε α → σ → Prog σ ε α → σ → Prop
  | here (p : Prog σ ε α) (s : σ) : Partly π p s p s
  | others {p q : Prog σ ε α} {s t u : σ} (h : π s = π t) (hrest : Partly π p t q u) : Partly π p s q u
  | call {f : σ → σ} {k : σ → Prog σ ε α} {s u : σ} {q : Prog σ ε α} (hrest : Partly π (k s) (f s) q u) :
      Partly π (.call f k) s q u

namespace Prog

/-- Every call changes what is shown by a step of `G`, and `Q` says what is returned. -/
def Fits (π : σ → τ) (G : τ → τ → Prop) (Q : α → τ → Prop) : Prog σ ε α → τ → Prop
  | ret a, x => Q a x
  | raise _, _ => True
  | call f k, x => ∀ s, π s = x → G x (π (f s)) ∧ (k s).Fits π G Q (π (f s))

theorem Fits.bind {p : Prog σ ε α} {g : α → Prog σ ε β} (h : p.Fits π G Q x)
    (hg : ∀ a y, Q a y → (g a).Fits π G Q' y) : (p >>= g).Fits π G Q' x := by
  induction p generalizing x with
  | ret a => exact hg a x h
  | raise e => trivial
  | call f k ih => exact fun s hs => ⟨(h s hs).1, ih s (h s hs).2⟩

theorem Fits.weaken {p : Prog σ ε α} {Q'' : α → τ → Prop} (h : p.Fits π G Q x) (hQ : ∀ a y, Q a y → Q'' a y) :
    p.Fits π G Q'' x := by
  induction p generalizing x with
  | ret a => exact hQ a x h
  | raise e => trivial
  | call f k ih => exact fun s hs => ⟨(h s hs).1, ih s (h s hs).2⟩

theorem fits_ofExcept_bind {r : Except ε α} {g : α → Prog σ ε β} (h : ∀ a, r = .ok a → (g a).Fits π G Q' x) :
    (ofExcept r >>= g).Fits π G Q' x := by
  cases r with
  | ok a => exact h a rfl
  | error e => trivial

theorem fits_ofExcept {r : Except ε α} (h : ∀ a, r = .ok a → Q a x) : (ofExcept r : Prog σ ε α).Fits π G Q x := by
  cases r with
  | ok a => exact h a rfl
  | error e => trivial

theorem fits_look (hG : ∀ y, G y y) {g : σ → Except ε α} (h : ∀ s, π s = x → ∀ a, g s = .ok a → Q a x) :
    (look g).Fits π G Q x := by
  intro s hs
  refine ⟨hs ▸ hG _, ?_⟩
  rw [id_eq, hs]
  exact fits_ofExcept fun a ha => h s hs a ha

theorem fits_look_bind (hG : ∀ y, G y y) {g : σ → Except ε α} {k : α → Prog σ ε β}
    (h : ∀ s, π s = x → ∀ a, g s = .ok a → (k a).Fits π G Q' x) : (look g >>= k).Fits π G Q' x := by
  intro s hs
  refine ⟨hs ▸ hG _, ?_⟩
  rw [id_eq, hs]
  exact fits_ofExcept_bind fun a ha => h s hs a ha

theorem fits_call_bind {f : σ → σ} {k : Unit → Prog σ ε β}
    (h : ∀ s, π s = x → G x (π (f s)) ∧ (k ()).Fits π G Q' (π (f s))) :
    ((call f fun _ => ret ()) >>= k).Fits π G Q' x := h

end Prog

theorem Partly.fits {p q : Prog σ ε α} {s t : σ} (h : Partly π p s q t) (hp : p.Fits π G Q (π s)) :
    Relation.ReflTransGen G (π s) (π t) ∧ q.Fits π G Q (π t) := by
  induction h with
  | here p s => exact ⟨.refl, hp⟩
  | others heq hrest ih => exact heq ▸ ih (heq ▸ hp)
  | call hrest ih =>
    obtain ⟨hstep, hk⟩ := hp _ rfl
    obtain ⟨hsteps, hq⟩ := ih hk
    exact ⟨.head hstep hsteps, hq⟩

/-- A program that nobody disturbs. -/
theorem partly_exec (π : σ → τ) (p : Prog σ ε α) (s : σ) : ∃ q, Partly π p s q (p.exec s).2 := by
  induction p generalizing s with
  | ret a => exact ⟨_, .here _ s⟩
  | raise e => exact ⟨_, .here _ s⟩
  | call f k ih =>
    obtain ⟨q, hq⟩ := ih s (f s)
    exact ⟨q, .call hq⟩

/-- Programs one after the other, each of which may be left behind anywhere. -/
def Turns (π : σ → τ) (starts : Prog σ ε α → Prop) : σ → σ → Prop :=
  Relation.ReflTransGen fun s t => ∃ p q, starts p ∧ Partly π p s q t

theorem Turns.exec {starts : Prog σ ε α → Prop} {p : Prog σ ε α} (hp : starts p) (s : σ) : Turns π starts s (p.exec s).2 := by
  obtain ⟨q, hq⟩ := partly_exec π p s
  exact .single ⟨p, q, hp, hq⟩

/-- An invariant that comes with a preorder of what it has been. -/
theorem Turns.keeps {starts : Prog σ ε α → Prop} {J : τ → Prop} {K : τ → τ → Prop} (hrefl : ∀ y, K y y)
    (htrans : ∀ y z w, K y z → K z w → K y w)
    (hstart : ∀ p, starts p → ∀ y, J y → p.Fits π (fun y z => J y → K y z ∧ J z) (fun _ _ => True) y)
    {s t : σ} (h : Turns π starts s t) (hs : J (π s)) : K (π s) (π t) ∧ J (π t) := by
  have hsteps : ∀ {y z}, Relation.ReflTransGen (fun y z => J y → K y z ∧ J z) y z → J y → K y z ∧ J z := by
    intro y z hyz hJ
    induction hyz with
    | refl => exact ⟨hrefl y, hJ⟩
    | tail _ hstep ih => exact ⟨htrans _ _ _ ih.1 (hstep ih.2).1, (hstep ih.2).2⟩
  induction h with
  | refl => exact ⟨hrefl _, hs⟩
  | tail _ hturn ih =>
    obtain ⟨p, q, hp, hpartly⟩ := hturn
    obtain ⟨hK, hJ⟩ := hsteps (hpartly.fits (hstart p hp _ ih.2)).1 ih.2
    exact ⟨htrans _ _ _ ih.1 hK, hJ⟩

end

end SharedCalls
