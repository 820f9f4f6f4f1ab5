import Mathlib.Data.List.Basic

/-!
# Round robin

A server goes over its clients in rounds and serves one request of each client that
has one, until it is full. The states it passes through are the list `rounds`; an
invariant of one service holds in all of them, the rounds come to an end, and no
client gets ahead of another by more than one request.
-/
namespace RoundRobin

set_option maxRecDepth 20000

variable {σ κ : Type}

structure Server (σ κ : Type) where
  waiting : σ → κ → Bool
  serve : σ → κ → σ
  full : σ → Bool

namespace Server

variable (S : Server σ κ)

/-- The states behind the requests that one round serves. -/
def round : List κ → σ → List σ
  | [], _ => []
  | k :: ks, s =>
    if S.waiting s k then S.serve s k :: (if S.full (S.serve s k) then [] else round ks (S.serve s k))
    else round ks s

/-- The states of at most `fuel` rounds. -/
def rounds (ks : List κ) : Nat → σ → List σ
  | 0, _ => []
  | fuel + 1, s => if S.full s then [] else S.round ks s ++ rounds ks fuel ((S.round ks s).getLastD s)

/-- Nothing is left to do. -/
def Idle (ks : List κ) (s : σ) : Prop := S.full s = true ∨ ∀ k ∈ ks, S.waiting s k = false

variable {S}

theorem round_cons_waiting {ks : List κ} {k : κ} {s : σ} (h : S.waiting s k = true) :
    S.round (k :: ks) s = S.serve s k :: (if S.full (S.serve s k) then [] else S.round ks (S.serve s k)) := by
  rw [round, if_pos h]

theorem round_cons_skip {ks : List κ} {k : κ} {s : σ} (h : S.waiting s k = false) :
    S.round (k :: ks) s = S.round ks s := by
  rw [round, h]
  rfl

theorem rounds_full {ks : List κ} {fuel : Nat} {s : σ} (h : S.full s = true) : S.rounds ks fuel s = [] := by
  cases fuel with
  | zero => rfl
  | succ fuel => rw [rounds, if_pos h]

theorem rounds_succ {ks : List κ} {fuel : Nat} {s : σ} (h : S.full s = false) :
    S.rounds ks (fuel + 1) s = S.round ks s ++ S.rounds ks fuel ((S.round ks s).getLastD s) := by
  rw [rounds, h]
  rfl

theorem getLastD_append (xs ys : List σ) (s : σ) : (xs ++ ys).getLastD s = ys.getLastD (xs.getLastD s) := by
  cases ys with
  | nil => rw [List.append_nil]; rfl
  | cons y ys =>
    have hne : xs ++ y :: ys ≠ [] := by simp
    rw [List.getLastD_eq_getLast?, List.getLastD_eq_getLast?, List.getLast?_append, List.getLast?_cons]
    rfl

theorem getLastD_mem (xs : List σ) (s : σ) : xs.getLastD s = s ∨ xs.getLastD s ∈ xs := by
  cases xs with
  | nil => exact .inl rfl
  | cons x xs =>
    right
    rw [List.getLastD_cons]
    exact List.getLastD_mem_cons

theorem getLastD_of_forall {I : σ → Prop} {xs : List σ} {s : σ} (hs : I s) (h : ∀ t ∈ xs, I t) :
    I (xs.getLastD s) := by
  obtain heq | hmem := getLastD_mem xs s
  · rwa [heq]
  · exact h _ hmem

/-! ## Invariants -/

section Invariant

variable {I : σ → Prop} (step : ∀ s k, I s → S.full s = false → S.waiting s k = true → I (S.serve s k))
include step

theorem round_invariant (ks : List κ) (s : σ) (hfull : S.full s = false) (hs : I s) :
    ∀ t ∈ S.round ks s, I t := by
  induction ks generalizing s with
  | nil => exact fun t ht => by cases ht
  | cons k ks ih =>
    cases hw : S.waiting s k with
    | false => rw [round_cons_skip hw]; exact ih s hfull hs
    | true =>
      have hserve := step s k hs hfull hw
      rw [round_cons_waiting hw]
      intro t ht
      cases hf : S.full (S.serve s k) with
      | true =>
        rw [hf] at ht
        rw [List.mem_singleton.mp ht]
        exact hserve
      | false =>
        rw [hf] at ht
        obtain rfl | ht := List.mem_cons.mp ht
        · exact hserve
        · exact ih _ hf hserve t ht

/-- What one service keeps, all rounds keep. -/
theorem rounds_invariant (ks : List κ) (fuel : Nat) (s : σ) (hs : I s) : ∀ t ∈ S.rounds ks fuel s, I t := by
  induction fuel generalizing s with
  | zero => exact fun t ht => by cases ht
  | succ fuel ih =>
    cases hf : S.full s with
    | true => rw [rounds_full hf]; exact fun t ht => by cases ht
    | false =>
      have hround := round_invariant step ks s hf hs
      rw [rounds_succ hf]
      intro t ht
      obtain ht | ht := List.mem_append.mp ht
      · exact hround t ht
      · exact ih _ (getLastD_of_forall hs hround) t ht

theorem rounds_last (ks : List κ) (fuel : Nat) (s : σ) (hs : I s) : I ((S.rounds ks fuel s).getLastD s) :=
  getLastD_of_forall hs (rounds_invariant step ks fuel s hs)

end Invariant

/-! ## The rounds come to an end -/

theorem round_nil {ks : List κ} {s : σ} (h : S.round ks s = []) : ∀ k ∈ ks, S.waiting s k = false := by
  induction ks with
  | nil => exact fun k hk => by cases hk
  | cons k ks ih =>
    cases hw : S.waiting s k with
    | true => rw [round_cons_waiting hw] at h; cases h
    | false =>
      rw [round_cons_skip hw] at h
      intro j hj
      obtain rfl | hj := List.mem_cons.mp hj
      · exact hw
      · exact ih h j hj

theorem round_idle {ks : List κ} {s : σ} (h : ∀ k ∈ ks, S.waiting s k = false) : S.round ks s = [] := by
  induction ks with
  | nil => rfl
  | cons k ks ih =>
    rw [round_cons_skip (h k List.mem_cons_self)]
    exact ih fun j hj => h j (List.mem_cons_of_mem k hj)

theorem rounds_idle {ks : List κ} {s : σ} (h : S.Idle ks s) (fuel : Nat) : S.rounds ks fuel s = [] := by
  obtain hf | hw := h
  · exact rounds_full hf
  · induction fuel with
    | zero => rfl
    | succ fuel ih =>
      rw [rounds, round_idle hw]
      split
      · rfl
      · exact ih

section Progress

variable (backlog : σ → Nat) (less : ∀ s k, S.waiting s k = true → backlog (S.serve s k) < backlog s)
include less

theorem round_backlog (ks : List κ) (s : σ) : backlog ((S.round ks s).getLastD s) ≤ backlog s ∧
    (S.round ks s ≠ [] → backlog ((S.round ks s).getLastD s) < backlog s) := by
  induction ks generalizing s with
  | nil => exact ⟨Nat.le_refl _, fun h => absurd rfl h⟩
  | cons k ks ih =>
    cases hw : S.waiting s k with
    | false => rw [round_cons_skip hw]; exact ih s
    | true =>
      have hlt := less s k hw
      rw [round_cons_waiting hw, List.getLastD_cons]
      cases hf : S.full (S.serve s k) with
      | true => exact ⟨Nat.le_of_lt hlt, fun _ => hlt⟩
      | false =>
        have hle := (ih (S.serve s k)).1
        exact ⟨Nat.le_of_lt (Nat.lt_of_le_of_lt hle hlt), fun _ => Nat.lt_of_le_of_lt hle hlt⟩

/-- After as many rounds as there are requests nothing is left to do. -/
theorem rounds_end (ks : List κ) (fuel : Nat) (s : σ) (h : backlog s ≤ fuel) :
    S.Idle ks ((S.rounds ks fuel s).getLastD s) := by
  induction fuel generalizing s with
  | zero =>
    refine .inr fun k _ => Bool.eq_false_iff.mpr fun hw => ?_
    have hlt := less s k hw
    omega
  | succ fuel ih =>
    cases hf : S.full s with
    | true => rw [rounds_full hf]; exact .inl hf
    | false =>
      rw [rounds_succ hf, getLastD_append]
      by_cases hnil : S.round ks s = []
      · have hidle : S.Idle ks s := .inr (round_nil hnil)
        rw [hnil, List.getLastD_nil, rounds_idle hidle]
        exact hidle
      · have hlt := (round_backlog backlog less ks s).2 hnil
        exact ih _ (by omega)

/-- More rounds change nothing. -/
theorem rounds_enough (ks : List κ) (fuel more : Nat) (s : σ) (h : backlog s ≤ fuel) :
    S.rounds ks (fuel + more) s = S.rounds ks fuel s := by
  induction fuel generalizing s with
  | zero =>
    refine rounds_idle (.inr fun k _ => Bool.eq_false_iff.mpr fun hw => ?_) _
    have hlt := less s k hw
    omega
  | succ fuel ih =>
    cases hf : S.full s with
    | true => rw [rounds_full hf, rounds_full hf]
    | false =>
      by_cases hnil : S.round ks s = []
      · have hidle : S.Idle ks s := .inr (round_nil hnil)
        rw [rounds_idle hidle, rounds_idle hidle]
      · have hlt := (round_backlog backlog less ks s).2 hnil
        rw [Nat.add_right_comm, rounds_succ hf, rounds_succ hf, ih _ (by omega)]

end Progress

/-! ## No client gets ahead -/

/-- A service counts for its client, and no request comes in. -/
structure Counting (S : Server σ κ) (served : σ → κ → Nat) : Prop where
  self : ∀ s k, S.waiting s k = true → served (S.serve s k) k = served s k + 1
  other : ∀ s k j, S.waiting s k = true → j ≠ k → served (S.serve s k) j = served s j
  fewer : ∀ s k j, S.waiting s k = true → S.waiting (S.serve s k) j = true → S.waiting s j = true

section Fair

variable [DecidableEq κ] {served : σ → κ → Nat} (base : κ → Nat)

/-- In round `n` the clients `ks` are still to come. -/
def Level (S : Server σ κ) (served : σ → κ → Nat) (base : κ → Nat) (n : Nat) (ks : List κ) (s : σ) : Prop :=
  ∀ k, S.waiting s k = true → served s k = base k + (if k ∈ ks then n else n + 1)

variable {base} {n : Nat}

theorem Level.skip {k : κ} {ks : List κ} {s : σ} (h : S.Level served base n (k :: ks) s)
    (hw : S.waiting s k = false) : S.Level served base n ks s := by
  intro j hj
  have hne : j ≠ k := by
    rintro rfl
    rw [hw] at hj
    cases hj
  have hlev := h j hj
  simpa [hne] using hlev

theorem Level.serve (hc : Counting S served) {k : κ} {ks : List κ} {s : σ} (hk : k ∉ ks)
    (h : S.Level served base n (k :: ks) s) (hw : S.waiting s k = true) :
    S.Level served base n ks (S.serve s k) := by
  intro j hj
  by_cases heq : j = k
  · subst heq
    have hlev := h j hw
    rw [hc.self s j hw, hlev, if_pos List.mem_cons_self, if_neg hk]
    omega
  · have hlev := h j (hc.fewer s k j hw hj)
    rw [hc.other s k j hw heq, hlev]
    simp [heq]

theorem round_level (hc : Counting S served) {ks : List κ} (hn : ks.Nodup) {s : σ}
    (h : S.Level served base n ks s) :
    (∀ t ∈ S.round ks s, ∃ js, S.Level served base n js t) ∧
      (S.full ((S.round ks s).getLastD s) = true ∨ S.Level served base n [] ((S.round ks s).getLastD s)) := by
  induction ks generalizing s with
  | nil => exact ⟨fun t ht => (by cases ht), .inr h⟩
  | cons k ks ih =>
    obtain ⟨hk, hn⟩ := List.nodup_cons.mp hn
    cases hw : S.waiting s k with
    | false => rw [round_cons_skip hw]; exact ih hn (h.skip hw)
    | true =>
      have hlev := h.serve hc hk hw
      rw [round_cons_waiting hw, List.getLastD_cons]
      cases hf : S.full (S.serve s k) with
      | true =>
        constructor
        · intro t ht
          rw [List.mem_singleton.mp ht]
          exact ⟨ks, hlev⟩
        · exact .inl hf
      | false =>
        obtain ⟨hall, hlast⟩ := ih hn hlev
        constructor
        · intro t ht
          obtain rfl | ht := List.mem_cons.mp ht
          · exact ⟨ks, hlev⟩
          · exact hall t ht
        · exact hlast

theorem rounds_level (hc : Counting S served) {ks : List κ} (hn : ks.Nodup) (fuel : Nat) {s : σ}
    (hall : ∀ k, S.waiting s k = true → k ∈ ks) (h : S.Level served base n ks s) :
    ∀ t ∈ S.rounds ks fuel s, ∃ m js, S.Level served base m js t := by
  induction fuel generalizing s n with
  | zero => exact fun t ht => by cases ht
  | succ fuel ih =>
    cases hf : S.full s with
    | true => rw [rounds_full hf]; exact fun t ht => by cases ht
    | false =>
      obtain ⟨hmid, hlast⟩ := round_level hc hn h
      -- the clients with a request at the end of a round had one before it
      have hstep : ∀ t k, (∀ j, S.waiting t j = true → j ∈ ks) → S.full t = false → S.waiting t k = true →
          ∀ j, S.waiting (S.serve t k) j = true → j ∈ ks :=
        fun t k ht _ hk j hj => ht j (hc.fewer t k j hk hj)
      have hall' := getLastD_of_forall (I := fun t => ∀ j, S.waiting t j = true → j ∈ ks) hall
        (round_invariant hstep ks s hf hall)
      rw [rounds_succ hf]
      intro t ht
      obtain ht | ht := List.mem_append.mp ht
      · exact ⟨n, hmid t ht⟩
      · obtain hfull | hlev := hlast
        · rw [rounds_full hfull] at ht
          cases ht
        · refine ih hall' (n := n + 1) (fun k hk => ?_) t ht
          have hcount := hlev k hk
          rw [if_pos (hall' k hk), hcount]
          simp

/-- Of two clients with requests neither has been served two times more than the other. -/
theorem rounds_fair (hc : Counting S served) {ks : List κ} (hn : ks.Nodup) (fuel : Nat) {s t : σ}
    (hall : ∀ k, S.waiting s k = true → k ∈ ks) (ht : t = s ∨ t ∈ S.rounds ks fuel s) {j k : κ}
    (hj : S.waiting t j = true) (hk : S.waiting t k = true) :
    served t j + served s k ≤ served t k + served s j + 1 := by
  have hstart : S.Level served (served s) 0 ks s := by
    intro i hi
    rw [if_pos (hall i hi), Nat.add_zero]
  have hlevel : ∃ m js, S.Level served (served s) m js t := by
    obtain rfl | ht := ht
    · exact ⟨0, ks, hstart⟩
    · exact rounds_level hc hn fuel hall hstart t ht
  obtain ⟨m, js, hlev⟩ := hlevel
  have hcj := hlev j hj
  have hck := hlev k hk
  split_ifs at hcj hck <;> omega

end Fair
end Server
end RoundRobin
