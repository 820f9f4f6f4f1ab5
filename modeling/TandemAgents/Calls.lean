import TandemAgents.Effects

/-!
# Calls that may raise

A call has one effect on the state, and may raise before or after it. A program of calls
reaches what follows a call when the call returns.
-/
namespace Calls

open Effects

set_option maxRecDepth 20000

variable {ε σ α β : Type}

/-- An exception, and whether the effect of the call came before it. -/
structure Fault (ε : Type) where
  exc : ε
  done : Bool := false
  deriving DecidableEq

/-- What a call meets. -/
abbrev Meets (ε : Type) := Option (Fault ε)

/-- The call takes effect, whether it returns or not. -/
def lands (m : Meets ε) : Bool := m.all Fault.done

def returns (m : Meets ε) : Bool := m.isNone

/-- A call with its effect. -/
def effect (m : Meets ε) (f : σ → σ) : EStateM ε σ Unit := fun s =>
  match m with
  | none => .ok () (f s)
  | some fault => .error fault.exc (if fault.done then f s else s)

/-- A call whose effect is not in the state. -/
def call (m : Meets ε) : EStateM ε σ Unit := effect m id

/-- Calls one after the other. -/
def calls : List (Meets ε) → EStateM ε σ Unit
  | [] => pure ()
  | m :: ms => do
    call m
    calls ms

/-- A pure step that may raise. -/
def orRaise (e : ε) : Option α → EStateM ε σ α
  | some a => pure a
  | none => throw e

section
variable {m : Meets ε} {s : σ}

theorem endState_effect (m : Meets ε) (f : σ → σ) (s : σ) : endState (effect m f s) = if lands m then f s else s := by
  cases m <;> rfl

theorem endState_effect_bind (m : Meets ε) (f : σ → σ) (k : Unit → EStateM ε σ β) (s : σ) :
    endState ((effect m f >>= k) s) = if returns m then endState (k () (f s)) else if lands m then f s else s := by
  cases m <;> rfl

theorem endState_call_bind (m : Meets ε) (k : Unit → EStateM ε σ β) (s : σ) :
    endState ((call m >>= k) s) = if returns m then endState (k () s) else s := by
  have h := endState_effect_bind m id k s
  simp only [id_eq, ite_self] at h
  exact h

theorem endState_calls_bind (ms : List (Meets ε)) (k : Unit → EStateM ε σ β) (s : σ) :
    endState ((calls ms >>= k) s) = if ms.all returns then endState (k () s) else s := by
  induction ms with
  | nil => rfl
  | cons m ms ih =>
    have hassoc : (calls (m :: ms) >>= k) s = (call m >>= fun _ => calls ms >>= k) s :=
      congrFun (bind_assoc (call m) (fun _ => calls ms) k) s
    rw [hassoc, endState_call_bind, List.all_cons]
    cases returns m with
    | true => simpa using ih
    | false => rfl

theorem endState_orRaise_bind (e : ε) (x : Option α) (k : α → EStateM ε σ β) (s : σ) :
    endState ((orRaise e x >>= k) s) = x.elim s fun a => endState (k a s) := by
  cases x <;> rfl

theorem endState_modify_bind (f : σ → σ) (k : Unit → EStateM ε σ β) (s : σ) :
    endState ((modify f >>= k) s) = endState (k () (f s)) := rfl

theorem endState_get_bind (k : σ → EStateM ε σ β) (s : σ) : endState ((get >>= k) s) = endState (k s s) := rfl

theorem endState_set_bind (t : σ) (k : PUnit → EStateM ε σ β) (s : σ) :
    endState ((set t >>= k) s) = endState (k ⟨⟩ t) := rfl

@[simp] theorem endState_pure (a : α) (s : σ) : endState ((pure a : EStateM ε σ α) s) = s := rfl

@[simp] theorem endState_throw (e : ε) (s : σ) : endState ((throw e : EStateM ε σ α) s) = s := rfl

theorem call_returns (h : returns m = true) : call m s = .ok () s := by
  cases m with
  | none => rfl
  | some fault => cases h

theorem call_stops (h : returns m = false) : ∃ e, call m s = .error e s := by
  cases m with
  | none => cases h
  | some fault => exact ⟨fault.exc, congrArg _ (ite_self s)⟩

theorem calls_returns {ms : List (Meets ε)} (h : ms.all returns = true) : calls ms s = .ok () s := by
  induction ms with
  | nil => rfl
  | cons m ms ih =>
    rw [List.all_cons, Bool.and_eq_true] at h
    exact (run_bind_ok (call_returns h.1)).trans (ih h.2)

theorem calls_stops {ms : List (Meets ε)} (h : ms.all returns = false) : ∃ e, calls ms s = .error e s := by
  induction ms with
  | nil => cases h
  | cons m ms ih =>
    cases hm : returns m with
    | false =>
      obtain ⟨e, he⟩ := call_stops (s := s) hm
      exact ⟨e, run_bind_error he⟩
    | true =>
      rw [List.all_cons, hm, Bool.true_and] at h
      obtain ⟨e, he⟩ := ih h
      exact ⟨e, (run_bind_ok (call_returns hm)).trans he⟩

/-- A continuation that leaves the state. -/
theorem endState_bind_same {m : EStateM ε σ α} {k : α → EStateM ε σ β} (hk : ∀ a t, endState (k a t) = t) :
    endState ((m >>= k) s) = endState (m s) := by
  cases hm : m s with
  | ok a t =>
    rw [run_bind_ok hm]
    exact hk a t
  | error e t =>
    rw [run_bind_error hm]
    rfl

/-- A handler that leaves the state. -/
theorem endState_attempt_same {m : EStateM ε σ α} {k : ε → EStateM ε σ α} (hk : ∀ e t, endState (k e t) = t) :
    endState (tryCatch m k s) = endState (m s) := by
  cases hm : m s with
  | ok a t =>
    rw [run_attempt_ok hm]
  | error e t =>
    rw [run_attempt_error hm]
    exact hk e t

end

/-! ## Where a program comes to -/

theorem calls_append (as bs : List (Meets ε)) : (calls (as ++ bs) : EStateM ε σ Unit) = calls as >>= fun _ => calls bs := by
  induction as with
  | nil => rfl
  | cons a as ih =>
    change (call a >>= fun _ => calls (as ++ bs)) = (call a >>= fun _ => calls as) >>= fun _ => calls bs
    rw [ih, bind_assoc]

theorem calls_one (m : Meets ε) : (calls [m] : EStateM ε σ Unit) = call m := bind_pure_unit

/-- The program returns, and `p` is true of the state it leaves. -/
def okWith (p : σ → Bool) : EStateM.Result ε σ α → Bool
  | .ok _ s => p s
  | .error _ _ => false

/-- A value that is there where a condition holds. -/
def passes (b : Bool) (x : Option α) : Option α := if b then x else none

theorem passes_eq_some {b : Bool} {x : Option α} {a : α} : passes b x = some a ↔ b = true ∧ x = some a := by
  cases b <;> simp [passes]

/-- A run goes on as `k` from the state `x` holds; where `x` holds none, it does not return in a state
that `p` is true of. -/
def ComesTo (p : σ → Bool) (x : Option σ) (k : σ → EStateM.Result ε σ α) (r : EStateM.Result ε σ α) : Prop :=
  match x with
  | some t => r = k t
  | none => okWith p r = false

section
variable {p : σ → Bool} {x : Option σ} {k : σ → EStateM.Result ε σ β} {m : EStateM ε σ α} {g : α → EStateM ε σ β} {s : σ}

theorem okWith_bind_false (h : ∀ a t, okWith p (g a t) = false) : okWith p ((m >>= g) s) = false := by
  cases hm : m s with
  | ok a t =>
    rw [run_bind_ok hm]
    exact h a t
  | error e t =>
    rw [run_bind_error hm]
    rfl

@[simp] theorem isOk_pure (a : α) : isOk ((pure a : EStateM ε σ α) s) = true := rfl

theorem isOk_modify_bind {f : σ → σ} {g : Unit → EStateM ε σ β} : isOk ((modify f >>= g) s) = isOk (g () (f s)) := rfl

theorem isOk_calls_bind {ms : List (Meets ε)} {g : Unit → EStateM ε σ β} :
    isOk ((calls ms >>= g) s) = (ms.all returns && isOk (g () s)) := by
  cases hms : ms.all returns with
  | true => rw [run_bind_ok (calls_returns hms), Bool.true_and]
  | false =>
    obtain ⟨e, he⟩ := calls_stops (s := s) hms
    rw [run_bind_error he]
    rfl

theorem isOk_effect_bind {c : Meets ε} {f : σ → σ} {g : Unit → EStateM ε σ β} :
    isOk ((effect c f >>= g) s) = (returns c && isOk (g () (f s))) := by
  cases c <;> rfl

theorem isOk_orRaise_bind {e : ε} {o : Option α} : isOk ((orRaise e o >>= g) s) = o.any fun a => isOk (g a s) := by
  cases o <;> rfl

theorem isOk_bind_pure (b : β) : isOk ((m >>= fun _ => (pure b : EStateM ε σ β)) s) = isOk (m s) := by
  cases hm : m s with
  | ok a t =>
    rw [run_bind_ok hm]
    rfl
  | error e t =>
    rw [run_bind_error hm]
    rfl

theorem okWith_calls (ms : List (Meets ε)) : okWith p (calls ms s) = (ms.all returns && p s) := by
  cases hms : ms.all returns with
  | true =>
    rw [calls_returns hms]
    rfl
  | false =>
    obtain ⟨e, he⟩ := calls_stops (s := s) hms
    rw [he]
    rfl

theorem ComesTo.calls {ms : List (Meets ε)} {g : Unit → EStateM ε σ β} (h : ComesTo p x k (g () s)) :
    ComesTo p (passes (ms.all returns) x) k ((Calls.calls ms >>= g) s) := by
  cases hms : ms.all returns with
  | true =>
    rw [run_bind_ok (calls_returns hms)]
    exact h
  | false =>
    obtain ⟨e, he⟩ := calls_stops (s := s) hms
    rw [run_bind_error he]
    rfl

theorem ComesTo.effect {c : Meets ε} {f : σ → σ} {g : Unit → EStateM ε σ β} (h : ComesTo p x k (g () (f s))) :
    ComesTo p (passes (returns c) x) k ((Calls.effect c f >>= g) s) := by
  cases c with
  | none => exact h
  | some fault => rfl

theorem ComesTo.orRaise {e : ε} {o : Option α} {x : α → Option σ} (h : ∀ a, o = some a → ComesTo p (x a) k (g a s)) :
    ComesTo p (o.bind x) k ((Calls.orRaise e o >>= g) s) := by
  cases o with
  | none => rfl
  | some a => exact h a rfl

theorem ComesTo.ite_prop {φ : Prop} [Decidable φ] {m m' : EStateM ε σ β} (h : ComesTo p x k (m s))
    (h' : okWith p (m' s) = false) : ComesTo p (passes (decide φ) x) k ((if φ then m else m') s) := by
  by_cases hφ : φ
  · rw [if_pos hφ, decide_eq_true hφ]
    exact h
  · rw [if_neg hφ, decide_eq_false hφ]
    exact h'

theorem ComesTo.ite {b : Bool} {m m' : EStateM ε σ β} (h : ComesTo p x k (m s)) (h' : okWith p (m' s) = false) :
    ComesTo p (passes b x) k ((if b then m else m') s) := by
  cases b with
  | true => exact h
  | false => exact h'

end

section
variable {P : σ → Prop} {m : Meets ε}

theorem Keeps.effect {f : σ → σ} (h : ∀ s, P s → P (f s)) : Keeps P (effect m f) := by
  intro s hs
  cases m with
  | none => exact h s hs
  | some fault =>
    change P (if fault.done then f s else s)
    split
    · exact h s hs
    · exact hs

theorem Keeps.call : Keeps P (call m) := Keeps.effect fun _ hs => hs

theorem Keeps.calls (ms : List (Meets ε)) : Keeps P (calls ms) := by
  induction ms with
  | nil => exact Effects.Keeps.pure _
  | cons m ms ih => exact Effects.Keeps.bind Keeps.call fun _ => ih

/-- Calls return where every one of them does. -/
theorem Leads.calls (ms : List (Meets ε)) :
    Leads P (calls ms) (fun _ s => P s ∧ ms.all returns = true) (fun _ s => P s ∧ ms.all returns = false) := by
  intro s hs
  cases hms : ms.all returns with
  | true =>
    rw [calls_returns hms]
    exact ⟨hs, rfl⟩
  | false =>
    obtain ⟨e, he⟩ := calls_stops (s := s) hms
    rw [he]
    exact ⟨hs, rfl⟩

theorem Keeps.orRaise {e : ε} {x : Option α} : Keeps P (orRaise e x) := by
  cases x with
  | none => exact Effects.Keeps.raise e
  | some a => exact Effects.Keeps.pure a

end
end Calls
