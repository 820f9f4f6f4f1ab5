import Mathlib.Algebra.Order.Ring.Int
import Mathlib.Data.List.Chain
import TandemAgents.RepairBreaker

/-!
# The laws of the repair gate

The gate is asked again and again, each time with the state it returned before. Its
proceeding rounds form a chain: between two of them nothing moves the breaker.
-/
namespace RepairGate

open PythonText JsonData PullRequests IssueSpend RepairBreaker

set_option maxRecDepth 20000

/-- One question to the gate, with the breaker it reads and the one it returns. -/
structure Round where
  signature : String
  time : Int
  before : Breaker
  decision : Decision
  after : Breaker

/-- `_repair_gate_decision` along a sequence of signatures and times, the returned state handed on. -/
def gateRun (n : Numbers) (g : GateConfig) : Dict → List (String × Int) → Option (List Round)
  | _, [] => some []
  | state, (signature, now) :: steps => do
    let before ← readBreaker n state
    let (decision, after, _) ← repairGateDecision n g state signature now
    let rounds ← gateRun n g after.toDict steps
    return ⟨signature, now, before, decision, after⟩ :: rounds

/-- The rounds, from the breaker that the state holds. -/
def rounds (g : GateConfig) : Breaker → List (String × Int) → List Round
  | _, [] => []
  | b, (signature, now) :: steps =>
    let answer := gateDecision g b signature now
    ⟨signature, now, b, answer.1, answer.2.1⟩ :: rounds g answer.2.1 steps

theorem gateRun_eq (n : Numbers) (g : GateConfig) {state : Dict} {b : Breaker} (hread : readBreaker n state = some b)
    (steps : List (String × Int)) : gateRun n g state steps = some (rounds g b steps) := by
  induction steps generalizing state b with
  | nil => rfl
  | cons step steps ih =>
    obtain ⟨signature, now⟩ := step
    simp only [gateRun, repairGateDecision, hread, Option.map_some, Option.bind_eq_bind, Option.bind_some,
      ih (readBreaker_toDict n _)]
    rfl

def proceeds (rs : List Round) : List Round := rs.filter (fun r => decide (r.decision = .proceed))

/-- The claims on a run of the gate. The `k`-th proceeding round is the one at place `k - 1`. -/
structure Laws (g : GateConfig) (rs : List Round) : Prop where
  capped : ((proceeds rs).length : Int) ≤ g.maxAttempts
  closed : rs.Pairwise (fun p q => p.decision = .escalate → q.decision = .skip)
  fresh : (proceeds rs).IsChain (fun p q => ¬ (p.signature ≠ "" ∧ q.signature = p.signature))
  spaced : ∀ (k : Nat) (p q : Round), (proceeds rs)[k]? = some p → (proceeds rs)[k + 1]? = some q →
    g.cooldownBaseMs * 2 ^ (min (k : Int) repairCooldownMaxShift).toNat ≤ q.time - p.time
  unchanged : ∀ r ∈ rs, r.decision = .defer ∨ r.decision = .skip → r.after = r.before

/-! ## One round -/

section
variable {g : GateConfig} {b : Breaker} {signature : String} {now : Int}

/-- A proceeding round had attempts left, waited for the cooldown and saw new feedback. -/
theorem proceed_spec (h : (gateDecision g b signature now).1 = .proceed) :
    b.escalated = false ∧ b.attempts < g.maxAttempts ∧
      (0 < b.attempts → cooldown g b.attempts ≤ now - b.lastAttemptMs ∧ ¬ (signature ≠ "" ∧ signature = b.lastSignature)) ∧
      (gateDecision g b signature now).2.1 =
        { b with attempts := b.attempts + 1, lastAttemptMs := now, lastSignature := signature } := by
  unfold gateDecision at h ⊢
  split_ifs at h ⊢ with hesc hmax hcool hsame
  refine ⟨by simpa using hesc, by omega, fun hpos => ⟨?_, ?_⟩, rfl⟩
  · by_contra hlt
    exact hcool ⟨hpos, by omega⟩
  · rintro ⟨hne, heq⟩
    exact hsame ⟨hpos, hne, heq⟩

theorem escalate_spec (h : (gateDecision g b signature now).1 = .escalate) :
    (gateDecision g b signature now).2.1.escalated = true := by
  unfold gateDecision at h ⊢
  split_ifs at h ⊢ <;> rfl

theorem waiting_spec (h : (gateDecision g b signature now).1 = .defer ∨ (gateDecision g b signature now).1 = .skip) :
    (gateDecision g b signature now).2.1 = b := by
  unfold gateDecision at h ⊢
  split_ifs at h ⊢ <;> simp_all

theorem escalated_skips (h : b.escalated = true) : (gateDecision g b signature now).1 = .skip := by
  rw [gateDecision, if_pos h]

end

/-! ## A run -/

/-- A round as the gate answers it. -/
def Answered (g : GateConfig) (r : Round) : Prop :=
  (gateDecision g r.before r.signature r.time).1 = r.decision ∧ (gateDecision g r.before r.signature r.time).2.1 = r.after

theorem answered_rounds (g : GateConfig) (b : Breaker) (steps : List (String × Int)) :
    ∀ r ∈ rounds g b steps, Answered g r := by
  induction steps generalizing b with
  | nil => simp [rounds]
  | cons step steps ih =>
    rw [rounds, List.forall_mem_cons]
    exact ⟨⟨rfl, rfl⟩, ih _⟩

theorem escalated_rounds {g : GateConfig} {b : Breaker} (h : b.escalated = true) (steps : List (String × Int)) :
    ∀ r ∈ rounds g b steps, r.decision = .skip := by
  induction steps generalizing b with
  | nil => simp [rounds]
  | cons step steps ih =>
    have hskip : (gateDecision g b step.1 step.2).1 = .skip := escalated_skips h
    rw [rounds, List.forall_mem_cons]
    refine ⟨hskip, ih ?_⟩
    rw [waiting_spec (.inr hskip), h]

theorem closed_rounds (g : GateConfig) (b : Breaker) (steps : List (String × Int)) :
    (rounds g b steps).Pairwise (fun p q => p.decision = .escalate → q.decision = .skip) := by
  induction steps generalizing b with
  | nil => simp [rounds]
  | cons step steps ih =>
    rw [rounds, List.pairwise_cons]
    refine ⟨fun q hq hesc => ?_, ih _⟩
    exact escalated_rounds (escalate_spec hesc) steps q hq

/-- The breaker a proceeding round reads is the one that the proceeding round before it left. -/
theorem proceeds_chain (g : GateConfig) (b : Breaker) (steps : List (String × Int)) :
    (∀ p ∈ (proceeds (rounds g b steps)).head?, p.before = b) ∧
      (proceeds (rounds g b steps)).IsChain (fun p q => q.before = p.after) := by
  induction steps generalizing b with
  | nil => simp [rounds, proceeds]
  | cons step steps ih =>
    obtain ⟨hhead, hchain⟩ := ih (gateDecision g b step.1 step.2).2.1
    have hskipped : (gateDecision g b step.1 step.2).1 ≠ .proceed →
        proceeds (rounds g b (step :: steps)) = proceeds (rounds g (gateDecision g b step.1 step.2).2.1 steps) := by
      intro hne
      simp [rounds, proceeds, hne]
    cases hdecision : (gateDecision g b step.1 step.2).1 with
    | proceed =>
      have hcons : proceeds (rounds g b (step :: steps)) = ⟨step.1, step.2, b, .proceed, (gateDecision g b step.1 step.2).2.1⟩ ::
          proceeds (rounds g (gateDecision g b step.1 step.2).2.1 steps) := by
        simp [rounds, proceeds, hdecision]
      rw [hcons]
      refine ⟨by simp, List.isChain_cons.mpr ⟨fun q hq => hhead q hq, hchain⟩⟩
    | escalate =>
      rw [hskipped (by simp [hdecision])]
      have hnone : proceeds (rounds g (gateDecision g b step.1 step.2).2.1 steps) = [] := by
        refine List.filter_eq_nil_iff.mpr fun r hr => ?_
        simp [escalated_rounds (escalate_spec hdecision) steps r hr]
      simp [hnone]
    | defer =>
      rw [hskipped (by simp [hdecision])]
      rw [waiting_spec (.inl hdecision)] at hhead hchain ⊢
      exact ⟨hhead, hchain⟩
    | skip =>
      rw [hskipped (by simp [hdecision])]
      rw [waiting_spec (.inr hdecision)] at hhead hchain ⊢
      exact ⟨hhead, hchain⟩

theorem mem_proceeds {g : GateConfig} {b : Breaker} {steps : List (String × Int)} {r : Round}
    (h : r ∈ proceeds (rounds g b steps)) : (gateDecision g r.before r.signature r.time).1 = .proceed ∧
      (gateDecision g r.before r.signature r.time).2.1 = r.after := by
  obtain ⟨hmem, hproceed⟩ := List.mem_filter.mp h
  obtain ⟨hdecision, hafter⟩ := answered_rounds g b steps r hmem
  exact ⟨hdecision.trans (of_decide_eq_true hproceed), hafter⟩

/-- Each proceeding round counts one attempt. -/
theorem proceeds_attempts {g : GateConfig} {b : Breaker} {steps : List (String × Int)} {k : Nat} {r : Round}
    (h : (proceeds (rounds g b steps))[k]? = some r) : r.before.attempts = b.attempts + k := by
  obtain ⟨hhead, hchain⟩ := proceeds_chain g b steps
  induction k generalizing r with
  | zero =>
    rw [← List.head?_eq_getElem?] at h
    simp [hhead r h]
  | succ k ih =>
    obtain ⟨hk, rfl⟩ := List.getElem?_eq_some_iff.mp h
    have hprev : (proceeds (rounds g b steps))[k]? = some (proceeds (rounds g b steps))[k] := List.getElem?_eq_getElem (by omega)
    have hlink : (proceeds (rounds g b steps))[k + 1].before = (proceeds (rounds g b steps))[k].after := hchain.getElem k hk
    obtain ⟨hdecision, hafter⟩ := mem_proceeds (List.mem_of_getElem? hprev)
    obtain ⟨-, -, -, hbreaker⟩ := proceed_spec hdecision
    rw [hlink, ← hafter, hbreaker, ih hprev]
    push_cast
    omega

theorem positiveOr_pos (value : Int) {default : Int} (h : 0 < default) : 0 < positiveOr value default := by
  unfold positiveOr
  split
  · assumption
  · exact h

/-- From the second proceeding round on the gate looked at the one before. -/
theorem proceeds_link {g : GateConfig} {b : Breaker} {steps : List (String × Int)} (hb : 0 ≤ b.attempts) {k : Nat}
    {p q : Round} (hp : (proceeds (rounds g b steps))[k]? = some p) (hq : (proceeds (rounds g b steps))[k + 1]? = some q) :
    cooldown g (b.attempts + (k + 1)) ≤ q.time - p.time ∧ ¬ (q.signature ≠ "" ∧ q.signature = p.signature) := by
  obtain ⟨-, hchain⟩ := proceeds_chain g b steps
  obtain ⟨hk, rfl⟩ := List.getElem?_eq_some_iff.mp hq
  have hlink := hchain.getElem k hk
  rw [(List.getElem?_eq_some_iff.mp hp).2] at hlink
  obtain ⟨hdecision, hafter⟩ := mem_proceeds (List.mem_of_getElem? hp)
  obtain ⟨-, -, -, hbreaker⟩ := proceed_spec hdecision
  have hattempts := proceeds_attempts hq
  obtain ⟨-, -, hwait, -⟩ := proceed_spec (mem_proceeds (List.mem_of_getElem? hq)).1
  obtain ⟨hcool, hfresh⟩ := hwait (by rw [hattempts]; omega)
  rw [hattempts] at hcool
  rw [hlink, ← hafter, hbreaker] at hcool hfresh
  exact ⟨by exact_mod_cast hcool, hfresh⟩

theorem cooldown_mono {g : GateConfig} (hg : 0 < g.cooldownBaseMs) {a b : Int} (h : a ≤ b) : cooldown g a ≤ cooldown g b := by
  unfold cooldown
  refine mul_le_mul_of_nonneg_left ?_ hg.le
  exact pow_le_pow_right₀ (by decide) (by omega)

theorem laws_rounds {g : GateConfig} (hmax : 0 < g.maxAttempts) (hbase : 0 < g.cooldownBaseMs) {b : Breaker}
    (hb : 0 ≤ b.attempts) (steps : List (String × Int)) : Laws g (rounds g b steps) where
  capped := by
    rcases Nat.eq_zero_or_pos (proceeds (rounds g b steps)).length with hzero | hpos
    · omega
    · have hlast : (proceeds (rounds g b steps))[(proceeds (rounds g b steps)).length - 1]? =
          some (proceeds (rounds g b steps))[(proceeds (rounds g b steps)).length - 1] := List.getElem?_eq_getElem (by omega)
      have hattempts := proceeds_attempts hlast
      obtain ⟨-, hlt, -, -⟩ := proceed_spec (mem_proceeds (List.mem_of_getElem? hlast)).1
      omega
  closed := closed_rounds g b steps
  fresh := by
    refine List.isChain_iff_getElem.mpr fun k hk => ?_
    obtain ⟨-, hfresh⟩ := proceeds_link hb (List.getElem?_eq_getElem (i := k) (by omega)) (List.getElem?_eq_getElem hk)
    rintro ⟨hne, heq⟩
    exact hfresh ⟨heq ▸ hne, heq⟩
  spaced k p q hp hq := by
    obtain ⟨hcool, -⟩ := proceeds_link hb hp hq
    have hle := cooldown_mono hbase (show (k : Int) + 1 ≤ b.attempts + (k + 1) by omega)
    have hsame : cooldown g ((k : Int) + 1) = g.cooldownBaseMs * 2 ^ (min (k : Int) repairCooldownMaxShift).toNat := by
      rw [cooldown]
      congr 3
      omega
    rw [hsame] at hle
    exact hle.trans hcool
  unchanged r hr hwaiting := by
    obtain ⟨hdecision, hafter⟩ := answered_rounds g b steps r hr
    rw [← hafter]
    exact waiting_spec (by rw [hdecision]; exact hwaiting)

/-- For every stored breaker that counts no negative attempts and every sequence of signatures
and times, in order or not. -/
theorem gate_laws (n : Numbers) (maxRepairAttempts cooldownBaseMs : Int) {state : Dict} {b : Breaker}
    (hread : readBreaker n state = some b) (hb : 0 ≤ b.attempts) (steps : List (String × Int)) :
    ∃ rs, gateRun n ⟨repairMaxAttempts maxRepairAttempts, repairCooldownBaseMs cooldownBaseMs⟩ state steps = some rs ∧
      Laws ⟨repairMaxAttempts maxRepairAttempts, repairCooldownBaseMs cooldownBaseMs⟩ rs :=
  ⟨_, gateRun_eq n _ hread steps, laws_rounds (positiveOr_pos _ (by decide)) (positiveOr_pos _ (by decide)) hb steps⟩

/-- Two passes a minute apart for new feedback, and a question in between. -/
theorem sample_laws : ∃ rs, gateRun wholeNumbers ⟨repairMaxAttempts 0, repairCooldownBaseMs 0⟩ ({} : Breaker).toDict
      [("a", 0), ("b", 10), ("b", 60000)] = some rs ∧ (proceeds rs).length = 2 ∧
    Laws ⟨repairMaxAttempts 0, repairCooldownBaseMs 0⟩ rs := by
  obtain ⟨rs, hrun, hlaws⟩ := gate_laws wholeNumbers 0 0 (readBreaker_toDict wholeNumbers {}) (by decide)
    [("a", 0), ("b", 10), ("b", 60000)]
  refine ⟨rs, hrun, ?_, hlaws⟩
  rw [gateRun_eq wholeNumbers _ (readBreaker_toDict wholeNumbers {})] at hrun
  cases hrun
  decide +kernel

/-- A count below zero passes the cooldown and the comparison of the feedback by. -/
theorem negative_count_breaks : ∃ rs, gateRun wholeNumbers ⟨repairMaxAttempts 0, repairCooldownBaseMs 0⟩
      { attempts := -1 : Breaker }.toDict [("a", 0), ("a", 0)] = some rs ∧
    ¬ Laws ⟨repairMaxAttempts 0, repairCooldownBaseMs 0⟩ rs := by
  refine ⟨_, gateRun_eq wholeNumbers _ (readBreaker_toDict wholeNumbers { attempts := -1 }) _, fun h => ?_⟩
  have hnear := h.spaced 0 _ _ rfl rfl
  revert hnear
  decide +kernel

end RepairGate
