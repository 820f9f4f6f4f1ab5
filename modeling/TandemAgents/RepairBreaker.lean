import Mathlib.Algebra.Ring.Int.Defs
import Mathlib.Data.List.Sort
import TandemAgents.IssueSpend

/-!
# The breaker of the repair loop

Whether another repair pass is sent for a pull request: the attempts so far, the cooldown
between them, and whether the feedback is the one of the last pass.
-/
namespace RepairBreaker

open PythonText JsonData PullRequests IssueSpend

set_option maxRecDepth 20000

/-- The state `_repair_gate_decision` builds. -/
structure Breaker where
  attempts : Int := 0
  lastAttemptMs : Int := 0
  lastSignature : String := ""
  escalated : Bool := false
  reason : String := ""
  deriving DecidableEq

def Breaker.toDict (b : Breaker) : Dict :=
  [("attempts", .int b.attempts), ("last_attempt_ms", .int b.lastAttemptMs),
    ("last_signature", .str b.lastSignature), ("escalated", .bool b.escalated), ("reason", .str b.reason)]

inductive Decision where
  | proceed | defer | escalate | skip
  deriving DecidableEq, Repr

/-- The settings of the gate. -/
structure GateConfig where
  maxAttempts : Int
  cooldownBaseMs : Int

def repairMaxAttemptsDefault : Int := 5
def repairCooldownBaseMsDefault : Int := 60000
def repairCooldownMaxShift : Int := 6

/-- `_repair_max_attempts` and `_repair_cooldown_base_ms`: a setting that is not positive
gives way to the default. -/
def positiveOr (value default : Int) : Int := if 0 < value then value else default

def repairMaxAttempts (maxRepairAttempts : Int) : Int := positiveOr maxRepairAttempts repairMaxAttemptsDefault

def repairCooldownBaseMs (cooldownBaseMs : Int) : Int := positiveOr cooldownBaseMs repairCooldownBaseMsDefault

section
variable (n : Numbers)

/-- What stands in the stored state; `int` may raise. -/
def readBreaker (state : Dict) : Option Breaker := do
  return {
    attempts := ← intField n state "attempts"
    lastAttemptMs := ← intField n state "last_attempt_ms"
    lastSignature := n.text (state.get "last_signature")
    escalated := (state.get "escalated").truthy
    reason := n.text (state.get "reason") }

/-- `cooldown_base_ms * (2 ** shift)`. -/
def cooldown (g : GateConfig) (attempts : Int) : Int :=
  g.cooldownBaseMs * 2 ^ (min (attempts - 1) repairCooldownMaxShift).toNat

/-- `_repair_gate_decision`, on the state it has read. -/
def gateDecision (g : GateConfig) (b : Breaker) (signature : String) (nowMs : Int) : Decision × Breaker × String :=
  if b.escalated then (.skip, b, orElse b.reason "already_escalated")
  else if g.maxAttempts ≤ b.attempts then
    (.escalate, { b with escalated := true, reason := "max_attempts" }, "max_attempts")
  else if 0 < b.attempts ∧ nowMs - b.lastAttemptMs < cooldown g b.attempts then (.defer, b, "cooldown")
  else if 0 < b.attempts ∧ signature ≠ "" ∧ signature = b.lastSignature then
    (.escalate, { b with escalated := true, reason := "no_new_feedback" }, "no_new_feedback")
  else
    (.proceed, { b with attempts := b.attempts + 1, lastAttemptMs := nowMs, lastSignature := signature }, "")

/-- `_repair_gate_decision`. -/
def repairGateDecision (g : GateConfig) (state : Dict) (signature : String) (nowMs : Int) :
    Option (Decision × Breaker × String) :=
  (readBreaker n state).map fun b => gateDecision g b signature nowMs

/-- What an exhausted budget leaves of the breaker. -/
def budgetBreaker (state : Dict) (budgetReason : String) : Option Breaker :=
  (readBreaker n state).map fun b =>
    { b with escalated := true, reason := "budget_exhausted (" ++ budgetReason ++ ")" }

/-- How `_start_pr_repair_pass` decides: an exhausted budget beats the gate. -/
def repairDecision (g : GateConfig) (budget : Option Budget) (spend state : Dict) (signature : String) (nowMs : Int) :
    Option (Decision × Breaker × String) := do
  let (overBudget, budgetReason) ← budgetStatus n spend budget
  if overBudget then
    let b ← budgetBreaker n state budgetReason
    return (if (state.get "escalated").truthy then .skip else .escalate, b, b.reason)
  else
    repairGateDecision n g state signature nowMs

end

/-! ## The signature of the feedback -/

/-- `hashlib.sha1(...).hexdigest()` and `hashlib.sha256(...).hexdigest()` of a text. -/
structure Digests where
  sha1 : String → String
  sha256 : String → String

/-- One feedback item of `_repair_signature`. -/
def signaturePart (py : Python) (digests : Digests) (item : Dict) : String :=
  String.intercalate "|" [py.text (item.get "kind"), py.text (item.get "url"), py.text (item.get "path"),
    py.text (item.get "line"), digests.sha1 (py.text (item.get "body"))]

/-- `_repair_signature`. -/
def repairSignature (py : Python) (digests : Digests) (context : Dict) : String :=
  let parts := (context.get "feedback_items").dicts.map (signaturePart py digests)
  let head := py.text (((context.get "pull_request").asDict.getD []).get "head_branch")
  digests.sha256 (head ++ "\n" ++ String.intercalate "\n" (parts.mergeSort (fun a b => decide (a ≤ b))))

/-! ## What the gate decides -/

section
variable {n : Numbers} {g : GateConfig} {b b' : Breaker} {signature reason : String} {nowMs : Int}
  {decision : Decision}

/-- What is stored is what is read. -/
theorem readBreaker_toDict (n : Numbers) (b : Breaker) : readBreaker n b.toDict = some b := by
  have hint : ∀ v : Int, n.int ((Json.int v).or (.int 0)) = some v := by
    intro v
    rw [Json.or]
    split <;> simp_all [n.int_int, Json.truthy]
  have htext : ∀ s : String, n.text (.str s) = s := by
    intro s
    rw [Python.text]
    split <;> simp_all [Json.truthy, Python.str]
  simp [readBreaker, Breaker.toDict, intField, Dict.get_cons, hint, htext, Json.truthy]

/-- What a decision can be, and what it leaves of the breaker. -/
inductive Decided (g : GateConfig) (b b' : Breaker) : Decision → Prop where
  | skip : b.escalated = true → b'.escalated = true → b'.attempts = b.attempts → Decided g b b' .skip
  | escalate : b.escalated = false → b'.escalated = true → b'.attempts = b.attempts → Decided g b b' .escalate
  | defer : b.escalated = false → b' = b → Decided g b b' .defer
  | proceed : b.escalated = false → b.attempts < g.maxAttempts → b'.escalated = false →
      b'.attempts = b.attempts + 1 → Decided g b b' .proceed

theorem gateDecision_cases (h : gateDecision g b signature nowMs = (decision, b', reason)) :
    Decided g b b' decision := by
  unfold gateDecision at h
  split_ifs at h with hesc hmax hcool hsame
  · cases h
    exact .skip hesc hesc rfl
  · cases h
    exact .escalate (by simpa using hesc) rfl rfl
  · cases h
    exact .defer (by simpa using hesc) rfl
  · cases h
    exact .escalate (by simpa using hesc) rfl rfl
  · cases h
    exact .proceed (by simpa using hesc) (by omega) (by simpa using hesc) rfl

theorem repairDecision_cases {budget : Option Budget} {spend state : Dict}
    (h : repairDecision n g budget spend state signature nowMs = some (decision, b', reason)) :
    ∃ b, readBreaker n state = some b ∧ Decided g b b' decision := by
  unfold repairDecision at h
  obtain ⟨⟨overBudget, budgetReason⟩, -, h⟩ := Option.bind_eq_some_iff.mp h
  cases overBudget with
  | false =>
    obtain ⟨b, hb, hgate⟩ := Option.map_eq_some_iff.mp h
    exact ⟨b, hb, gateDecision_cases hgate⟩
  | true =>
    obtain ⟨c, hc, h⟩ := Option.bind_eq_some_iff.mp h
    obtain ⟨b, hb, rfl⟩ := Option.map_eq_some_iff.mp hc
    have hread : (state.get "escalated").truthy = b.escalated := by
      unfold readBreaker at hb
      obtain ⟨attempts, -, hb⟩ := Option.bind_eq_some_iff.mp hb
      obtain ⟨lastAttemptMs, -, hb⟩ := Option.bind_eq_some_iff.mp hb
      cases hb
      rfl
    refine ⟨b, hb, ?_⟩
    rw [hread] at h
    cases hesc : b.escalated with
    | true =>
      rw [hesc] at h
      cases h
      exact .skip hesc rfl rfl
    | false =>
      rw [hesc] at h
      cases h
      exact .escalate hesc rfl rfl

end
end RepairBreaker
