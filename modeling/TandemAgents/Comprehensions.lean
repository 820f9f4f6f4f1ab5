import TandemAgents.Effects

/-!
# Comprehensions over programs that may raise

A list comprehension runs one program for each item and stops at the first that raises. What
the programs behind it would have done is compared with the same comprehension over the items
whose programs return.
-/
namespace Comprehensions

open Effects

set_option maxRecDepth 20000

/-- One program of a comprehension that returned, with the states around it. -/
structure Visit (ι σ α : Type) where
  item : ι
  answer : α
  before : σ
  after : σ

variable {ι ε σ α : Type} (step : ι → EStateM ε σ α)

/-- The programs that run to their end, in order. -/
def visits : List ι → σ → List (Visit ι σ α)
  | [], _ => []
  | x :: xs, s =>
    match step x s with
    | .ok a t => ⟨x, a, s, t⟩ :: visits xs t
    | .error _ _ => []

/-- The same where the items whose programs raise are absent. -/
def alone : List ι → σ → List (Visit ι σ α)
  | [], _ => []
  | x :: xs, s =>
    match step x s with
    | .ok a t => ⟨x, a, s, t⟩ :: alone xs t
    | .error _ _ => alone xs s

/-- The state that the programs which return leave. -/
def settled : List ι → σ → σ
  | [], s => s
  | x :: xs, s =>
    match step x s with
    | .ok _ t => settled xs t
    | .error _ _ => settled xs s

def Raises (x : ι) (s : σ) : Prop := isOk (step x s) = false

instance (x : ι) (s : σ) : Decidable (Raises step x s) := inferInstanceAs (Decidable (_ = _))

variable {step}

theorem visits_ok {x : ι} {s t : σ} {a : α} (h : step x s = .ok a t) (xs : List ι) :
    visits step (x :: xs) s = ⟨x, a, s, t⟩ :: visits step xs t := by
  rw [visits, h]

theorem visits_error {x : ι} {s t : σ} {e : ε} (h : step x s = .error e t) (xs : List ι) :
    visits step (x :: xs) s = [] := by
  rw [visits, h]

theorem alone_ok {x : ι} {s t : σ} {a : α} (h : step x s = .ok a t) (xs : List ι) :
    alone step (x :: xs) s = ⟨x, a, s, t⟩ :: alone step xs t := by
  rw [alone, h]

theorem alone_error {x : ι} {s t : σ} {e : ε} (h : step x s = .error e t) (xs : List ι) :
    alone step (x :: xs) s = alone step xs s := by
  rw [alone, h]

theorem settled_ok {x : ι} {s t : σ} {a : α} (h : step x s = .ok a t) (xs : List ι) :
    settled step (x :: xs) s = settled step xs t := by
  rw [settled, h]

theorem settled_error {x : ι} {s t : σ} {e : ε} (h : step x s = .error e t) (xs : List ι) :
    settled step (x :: xs) s = settled step xs s := by
  rw [settled, h]

theorem Raises.iff {x : ι} {s : σ} : Raises step x s ↔ ∃ e t, step x s = .error e t := by
  unfold Raises
  cases h : step x s <;> simp [isOk]

/-! ## The comprehension itself -/

/-- A comprehension that returns made all its visits, and one that raises made those in front
of the program that raised. -/
theorem mapM_visits (xs : List ι) (s : σ) :
    match (xs.mapM step) s with
    | .ok answers t => answers = (visits step xs s).map (·.answer) ∧ (visits step xs s).map (·.item) = xs ∧
        t = settled step xs s
    | .error e t => ∃ front x back, xs = front ++ x :: back ∧ visits step xs s = visits step front s ∧
        step x (settled step front s) = .error e t := by
  induction xs generalizing s with
  | nil => exact ⟨rfl, rfl, rfl⟩
  | cons x xs ih =>
    rw [List.mapM_cons]
    cases hx : step x s with
    | error e t =>
      rw [run_bind_error hx]
      exact ⟨[], x, xs, rfl, visits_error hx xs, hx⟩
    | ok a t =>
      rw [run_bind_ok hx]
      have hrest := ih t
      cases hr : (xs.mapM step) t with
      | ok answers u =>
        rw [hr] at hrest
        obtain ⟨hanswers, hitems, hu⟩ := hrest
        rw [run_bind_ok hr, visits_ok hx, settled_ok hx]
        exact ⟨by rw [List.map_cons, hanswers], by rw [List.map_cons, hitems], hu⟩
      | error e u =>
        rw [hr] at hrest
        obtain ⟨front, y, back, hxs, hvisits, hy⟩ := hrest
        rw [run_bind_error hr]
        refine ⟨x :: front, y, back, by rw [hxs, List.cons_append], ?_, ?_⟩
        · rw [visits_ok hx, visits_ok hx, hvisits]
        · rw [settled_ok hx, hy]

/-! ## What stands behind a program that raises -/

theorem alone_eq_nil_iff (xs : List ι) (s : σ) : alone step xs s = [] ↔ ∀ x ∈ xs, Raises step x s := by
  induction xs with
  | nil => simp [alone]
  | cons x xs ih =>
    cases hx : step x s with
    | ok a t =>
      have hnot : ¬ Raises step x s := by
        rw [Raises.iff, hx]
        rintro ⟨e, u, h⟩
        cases h
      rw [alone_ok hx]
      simp [hnot]
    | error e t =>
      have hraises : Raises step x s := Raises.iff.mpr ⟨e, t, hx⟩
      rw [alone_error hx, ih]
      simp [hraises]

theorem settled_of_raises {xs : List ι} {s : σ} (h : ∀ x ∈ xs, Raises step x s) : settled step xs s = s := by
  induction xs with
  | nil => rfl
  | cons x xs ih =>
    obtain ⟨e, t, hx⟩ := Raises.iff.mp (h x List.mem_cons_self)
    rw [settled_error hx]
    exact ih fun y hy => h y (List.mem_cons_of_mem x hy)

/-- The last item raises where all the items in front of it do. -/
theorem raises_all {xs : List ι} {s : σ}
    (h : ∀ front x back, xs = front ++ x :: back → Raises step x (settled step front s)) : ∀ x ∈ xs, Raises step x s := by
  induction xs with
  | nil => simp
  | cons x xs ih =>
    have hx : Raises step x s := h [] x xs rfl
    obtain ⟨e, t, herror⟩ := Raises.iff.mp hx
    have hrest : ∀ y ∈ xs, Raises step y s := by
      apply ih
      intro front y back hxs
      have hy := h (x :: front) y back (by rw [hxs, List.cons_append])
      rwa [settled_error herror] at hy
    intro y hy
    obtain rfl | hy := List.mem_cons.mp hy
    · exact hx
    · exact hrest y hy

/-- Nothing is lost exactly when behind a program that raises all the others raise as well. -/
theorem visits_eq_alone_iff (xs : List ι) (s : σ) :
    visits step xs s = alone step xs s ↔ ∀ front x middle y back, xs = front ++ x :: (middle ++ y :: back) →
      Raises step x (settled step front s) → Raises step y (settled step (front ++ x :: middle) s) := by
  induction xs generalizing s with
  | nil => simp [visits, alone]
  | cons x xs ih =>
    cases hx : step x s with
    | ok a t =>
      have hnot : ¬ Raises step x s := by
        rw [Raises.iff, hx]
        rintro ⟨e, u, h⟩
        cases h
      rw [visits_ok hx, alone_ok hx, List.cons.injEq, eq_self_iff_true, true_and, ih t]
      constructor
      · intro h front z middle y back hxs hraises
        cases front with
        | nil =>
          obtain ⟨rfl, -⟩ := List.cons.inj hxs
          exact absurd hraises hnot
        | cons w front =>
          obtain ⟨rfl, hrest⟩ := List.cons.inj hxs
          rw [settled_ok hx] at hraises
          rw [List.cons_append, settled_ok hx]
          exact h front z middle y back hrest hraises
      · intro h front z middle y back hxs hraises
        have hz := h (x :: front) z middle y back (by rw [hxs, List.cons_append]) (by rwa [settled_ok hx])
        rwa [List.cons_append, settled_ok hx] at hz
    | error e t =>
      have hraises : Raises step x s := Raises.iff.mpr ⟨e, t, hx⟩
      rw [visits_error hx, alone_error hx, eq_comm, alone_eq_nil_iff]
      constructor
      · intro h front z middle y back hxs _
        have hall : ∀ w ∈ x :: xs, Raises step w s := by
          intro w hw
          obtain rfl | hw := List.mem_cons.mp hw
          · exact hraises
          · exact h w hw
        have hsplit : x :: xs = (front ++ z :: middle) ++ y :: back := by rw [hxs]; simp
        rw [settled_of_raises fun w hw => hall w (by rw [hsplit]; exact List.mem_append_left _ hw)]
        exact hall y (by rw [hsplit]; simp)
      · intro h
        apply raises_all
        intro front y back hxs
        have hy := h [] x front y back (by rw [hxs, List.nil_append]) hraises
        rwa [List.nil_append, settled_error hx] at hy

end Comprehensions
