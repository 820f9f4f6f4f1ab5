import Mathlib.Logic.Basic

/-!
# Programs that may raise

A program over a state returns or raises, and what it did to the state before it raised
stays. A property of states is carried through a program from its parts; one that every
part keeps is kept on every path out of the program, whichever part raises.
-/
namespace Effects

set_option maxRecDepth 20000

variable {ε σ α β : Type}

/-- The state a program ends in, on either way out. -/
def endState : EStateM.Result ε σ α → σ
  | .ok _ s => s
  | .error _ s => s

def isOk : EStateM.Result ε σ α → Bool
  | .ok _ _ => true
  | .error _ _ => false

theorem isOk_iff {r : EStateM.Result ε σ α} : isOk r = true ↔ ∃ a s, r = .ok a s := by
  cases r <;> simp [isOk]

/-- From a state with `P` the program returns with `Q` or raises with `R`. -/
def Leads (P : σ → Prop) (m : EStateM ε σ α) (Q : α → σ → Prop) (R : ε → σ → Prop) : Prop :=
  ∀ s, P s → match m s with
    | .ok a t => Q a t
    | .error e t => R e t

/-- Whichever way the program ends, `P` still holds. -/
def Keeps (P : σ → Prop) (m : EStateM ε σ α) : Prop := Leads P m (fun _ => P) (fun _ => P)

/-! ## Runs of composed programs -/

theorem run_bind_ok {m : EStateM ε σ α} {f : α → EStateM ε σ β} {s t : σ} {a : α} (h : m s = .ok a t) :
    (m >>= f) s = f a t := by
  change EStateM.bind m f s = f a t
  simp only [EStateM.bind, h]

theorem run_bind_error {m : EStateM ε σ α} {f : α → EStateM ε σ β} {s t : σ} {e : ε} (h : m s = .error e t) :
    (m >>= f) s = .error e t := by
  change EStateM.bind m f s = .error e t
  simp only [EStateM.bind, h]

theorem run_modify_bind (f : σ → σ) (k : Unit → EStateM ε σ α) (s : σ) :
    ((modify f : EStateM ε σ Unit) >>= k) s = k () (f s) := rfl

theorem run_get_bind (k : σ → EStateM ε σ α) (s : σ) : ((get : EStateM ε σ σ) >>= k) s = k s s := rfl

theorem run_attempt_ok {m : EStateM ε σ α} {k : ε → EStateM ε σ α} {s t : σ} {a : α} (h : m s = .ok a t) :
    tryCatch m k s = .ok a t := by
  change EStateM.tryCatch m k s = .ok a t
  delta EStateM.tryCatch
  rw [h]

theorem run_attempt_error {m : EStateM ε σ α} {k : ε → EStateM ε σ α} {s t : σ} {e : ε} (h : m s = .error e t) :
    tryCatch m k s = k e t := by
  change EStateM.tryCatch m k s = k e t
  delta EStateM.tryCatch
  rw [h]
  rfl

/-- A composed program returns when both of its parts do. -/
theorem bind_eq_ok {m : EStateM ε σ α} {f : α → EStateM ε σ β} {s u : σ} {b : β} :
    (m >>= f) s = .ok b u ↔ ∃ a t, m s = .ok a t ∧ f a t = .ok b u := by
  constructor
  · intro h
    cases hm : m s with
    | ok a t => exact ⟨a, t, rfl, by rw [← h, run_bind_ok hm]⟩
    | error e t =>
      rw [run_bind_error hm] at h
      cases h
  · rintro ⟨a, t, hm, hf⟩
    rw [run_bind_ok hm, hf]

theorem pure_eq_ok {a b : α} {s t : σ} : (pure a : EStateM ε σ α) s = .ok b t ↔ a = b ∧ s = t :=
  EStateM.Result.ok.injEq a s b t ▸ Iff.rfl

theorem modify_eq_ok {g : σ → σ} {s t : σ} {u : Unit} : (modify g : EStateM ε σ Unit) s = .ok u t ↔ g s = t :=
  ⟨fun h => (EStateM.Result.ok.inj h).2, fun h => h ▸ rfl⟩

/-! ## Rules -/

section
variable {P P' : σ → Prop} {Q Q' : α → σ → Prop} {R R' : ε → σ → Prop} {S : β → σ → Prop}
  {m : EStateM ε σ α} {f : α → EStateM ε σ β}

theorem Leads.pure {a : α} (h : ∀ s, P s → Q a s) : Leads P (pure a) Q R := fun s hs => h s hs

theorem Leads.raise {e : ε} (h : ∀ s, P s → R e s) : Leads P (throw e) Q R := fun s hs => h s hs

theorem Leads.bind (hm : Leads P m Q R) (hf : ∀ a, Leads (Q a) (f a) S R) : Leads P (m >>= f) S R := by
  intro s hs
  have h := hm s hs
  cases hr : m s with
  | ok a t =>
    rw [hr] at h
    rw [run_bind_ok hr]
    exact hf a t h
  | error e t =>
    rw [hr] at h
    rw [run_bind_error hr]
    exact h

/-- `try ... except`. -/
theorem Leads.attempt {k : ε → EStateM ε σ α} (hm : Leads P m Q R) (hk : ∀ e, Leads (R e) (k e) Q R') :
    Leads P (tryCatch m k) Q R' := by
  intro s hs
  have h := hm s hs
  cases hr : m s with
  | ok a t =>
    rw [hr] at h
    rw [run_attempt_ok hr]
    exact h
  | error e t =>
    rw [hr] at h
    rw [run_attempt_error hr]
    exact hk e t h

theorem Leads.weaken (h : Leads P m Q R) (hP : ∀ s, P' s → P s) (hQ : ∀ a s, Q a s → Q' a s)
    (hR : ∀ e s, R e s → R' e s) : Leads P' m Q' R' := by
  intro s hs
  have h' := h s (hP s hs)
  cases hr : m s with
  | ok a t =>
    rw [hr] at h'
    exact hQ a t h'
  | error e t =>
    rw [hr] at h'
    exact hR e t h'

theorem Leads.modify {g : σ → σ} {T : Unit → σ → Prop} (h : ∀ s, P s → T () (g s)) :
    Leads P (modify g : EStateM ε σ Unit) T R := fun s hs => h s hs

theorem Leads.get_bind {k : σ → EStateM ε σ β} (h : ∀ s, P s → Leads (fun t => t = s) (k s) S R) :
    Leads P (get >>= k) S R := fun s hs => h s hs s rfl

/-- What the precondition says apart from the state. -/
theorem Leads.assume {φ : Prop} (h : φ → Leads P m Q R) : Leads (fun s => P s ∧ φ) m Q R :=
  fun s hs => h hs.2 s hs.1

theorem Leads.ok (h : Leads P m Q R) {s t : σ} {a : α} (hs : P s) (hr : m s = .ok a t) : Q a t := by
  have h' := h s hs
  rw [hr] at h'
  exact h'

end

section
variable {P : σ → Prop} {m : EStateM ε σ α} {f : α → EStateM ε σ β}

theorem Keeps.pure (a : α) : Keeps P (pure a : EStateM ε σ α) := Leads.pure fun _ h => h

theorem Keeps.raise (e : ε) : Keeps P (throw e : EStateM ε σ α) := Leads.raise fun _ h => h

theorem Keeps.bind (hm : Keeps P m) (hf : ∀ a, Keeps P (f a)) : Keeps P (m >>= f) := Leads.bind hm hf

theorem Keeps.attempt {k : ε → EStateM ε σ α} (hm : Keeps P m) (hk : ∀ e, Keeps P (k e)) :
    Keeps P (tryCatch m k) := Leads.attempt hm hk

theorem Keeps.modify {g : σ → σ} (h : ∀ s, P s → P (g s)) : Keeps P (modify g : EStateM ε σ Unit) :=
  Leads.modify h

theorem Keeps.get_bind {k : σ → EStateM ε σ β} (h : ∀ s, P s → Keeps P (k s)) : Keeps P (get >>= k) :=
  fun s hs => h s hs s hs

/-- Behind an exception less may be asked than the program keeps. -/
theorem Keeps.leads {R : ε → σ → Prop} (h : Keeps P m) (hR : ∀ e s, P s → R e s) : Leads P m (fun _ => P) R :=
  Leads.weaken h (fun _ h => h) (fun _ _ h => h) hR

theorem Keeps.congr {P' : σ → Prop} (h : Keeps P m) (hP : ∀ s, P' s ↔ P s) : Keeps P' m :=
  Leads.weaken h (fun s => (hP s).mp) (fun _ s => (hP s).mpr) (fun _ s => (hP s).mpr)

theorem Keeps.and {P' : σ → Prop} (h : Keeps P m) (h' : Keeps P' m) : Keeps (fun s => P s ∧ P' s) m := by
  intro s hs
  have hP := h s hs.1
  have hP' := h' s hs.2
  cases hr : m s with
  | ok a t =>
    rw [hr] at hP hP'
    exact ⟨hP, hP'⟩
  | error e t =>
    rw [hr] at hP hP'
    exact ⟨hP, hP'⟩

theorem Keeps.endState (h : Keeps P m) {s : σ} (hs : P s) : P (endState (m s)) := by
  have h' := h s hs
  cases hr : m s with
  | ok a t =>
    rw [hr] at h'
    exact h'
  | error e t =>
    rw [hr] at h'
    exact h'

/-- What the first program ends with, the rest keeps. -/
theorem Keeps.endState_bind (hf : ∀ a, Keeps P (f a)) {s : σ} (hm : P (Effects.endState (m s))) :
    P (Effects.endState ((m >>= f) s)) := by
  cases hr : m s with
  | ok a t =>
    rw [hr] at hm
    rw [run_bind_ok hr]
    exact (hf a).endState hm
  | error e t =>
    rw [hr] at hm
    rw [run_bind_error hr]
    exact hm

end
end Effects
