import Mathlib.Logic.Basic

/-!
# Runs of a deterministic step function

A state is reached from a start by steps that each meet a condition on the state they
start from. An invariant needs to be checked for the start and for one such step.
-/
namespace GuardedRuns

variable {σ ε : Type}

/-- The states reached from `start` by steps that meet `P`. -/
inductive Reached (step : σ → ε → σ) (P : σ → ε → Prop) (start : σ) : σ → Prop where
  | init : Reached step P start start
  | step {s : σ} (e : ε) : Reached step P start s → P s e → Reached step P start (step s e)

/-- The state after a list of steps. -/
def after (step : σ → ε → σ) (s : σ) (es : List ε) : σ := es.foldl step s

/-- Every step of the list meets `P` where it starts. -/
def AllSteps (step : σ → ε → σ) (P : σ → ε → Prop) : σ → List ε → Prop
  | _, [] => True
  | s, e :: es => P s e ∧ AllSteps step P (step s e) es

instance AllSteps.decidable (step : σ → ε → σ) (P : σ → ε → Prop) [∀ s e, Decidable (P s e)] :
    (s : σ) → (es : List ε) → Decidable (AllSteps step P s es)
  | _, [] => isTrue trivial
  | s, e :: es =>
    have := AllSteps.decidable step P (step s e) es
    inferInstanceAs (Decidable (P s e ∧ AllSteps step P (step s e) es))

section
variable {step : σ → ε → σ} {P : σ → ε → Prop} {start s : σ}

theorem Reached.after (h : Reached step P start s) (es : List ε) (hes : AllSteps step P s es) :
    Reached step P start (GuardedRuns.after step s es) := by
  induction es generalizing s with
  | nil => exact h
  | cons e es ih => exact ih (h.step e hes.1) hes.2

/-- What holds at the start and is kept by every step that meets the condition holds
of every state reached. -/
theorem Reached.invariant {I : σ → Prop} (h : Reached step P start s) (hstart : I start)
    (hstep : ∀ s e, I s → P s e → I (step s e)) : I s := by
  induction h with
  | init => exact hstart
  | step e _ he ih => exact hstep _ e ih he

end

/-! ## Processes kept in a list -/

section
variable {α : Type} {l : List α} {a b : α} {i j : Nat}

/-- A process of a list in which one moved on is that one, or another as it was. -/
theorem getElem?_set_cases (h : (l.set i a)[j]? = some b) : j = i ∧ b = a ∨ j ≠ i ∧ l[j]? = some b := by
  rw [List.getElem?_set] at h
  by_cases hij : i = j
  · rw [if_pos hij] at h
    split at h
    · exact .inl ⟨hij.symm, (Option.some.inj h).symm⟩
    · cases h
  · rw [if_neg hij] at h
    exact .inr ⟨fun hji => hij hji.symm, h⟩

/-- A process of a list with a new one at its end is an old one or the new one. -/
theorem getElem?_snoc_cases (h : (l ++ [a])[j]? = some b) : l[j]? = some b ∨ j = l.length ∧ b = a := by
  rcases Nat.lt_or_ge j l.length with hlt | hge
  · rw [List.getElem?_append_left hlt] at h
    exact .inl h
  · rw [List.getElem?_append_right hge] at h
    have hlen : j - l.length < 1 := (List.getElem?_eq_some_iff.mp h).1
    have hj : j = l.length := by omega
    exact .inr ⟨hj, List.mem_singleton.mp (List.mem_of_getElem? h)⟩

end
end GuardedRuns
