import TandemAgents.PullRequests

/-!
# The spend of an issue

Tokens, cost and coder executions are added up in the metadata of a run and held against
a budget. Floats stand as texts: reading them, adding and comparing stays a parameter.
-/
namespace IssueSpend

open PythonText JsonData PullRequests

set_option maxRecDepth 20000

/-- What the program takes from the language for numbers: `float(value)`, `a + b`, `a < b`,
`a >= b`, `int(x)` of a float and `f"{x:.2f}"`, with the text of what `int(value)` raises. -/
structure Numbers extends Runtime where
  float : Json → Option String
  add : String → String → String
  lt : String → String → Bool
  ge : String → String → Bool
  trunc : String → Option Int
  fixed2 : String → String
  intError : Json → String
  int_int : ∀ n, int (.int n) = some n
  float_float : ∀ x, float (.float x) = some x
  ge_refl_zero : ge "0.0" "0.0" = true
  ge_of_lt : ∀ {x y m}, ge x m = true → lt x y = true → ge y m = true
  ge_add : ∀ {x c m}, ge x m = true → ge c "0.0" = true → ge (add x c) m = true
  ge_negZero : ∀ {m}, ge "-0.0" m = true → ge "0.0" m = true
  trunc_nonneg : ∀ {x n}, ge x "0.0" = true → trunc x = some n → 0 ≤ n

/-- `d.update(e)`. -/
def update (d e : Dict) : Dict := e.foldl (fun d f => d.set f.1 f.2) d

/-! ## Usage -/

/-- The usage one result reports. -/
structure Usage where
  totalTokens : Int := 0
  costUsd : String := "0.0"
  deriving DecidableEq

section
variable (n : Numbers)

/-- `_num`: a number too large for a float raises. -/
def num (value : Json) : Option String :=
  match value with
  | .int _ => n.float value
  | .float _ => n.float value
  | _ => some "0.0"

/-- `max(a, b)` of floats. -/
def maxFloat (a b : String) : String := if n.lt a b then b else a

/-- The largest number under the keys, and at least `start`. -/
def largest (container : Dict) (start : String) (keys : List String) : Option String :=
  keys.foldlM (fun acc key => (num n (container.get key)).map (maxFloat n acc)) start

/-- `_num(container.get(a)) + _num(container.get(b))`. -/
def combined (container : Dict) (a b : String) : Option String := do
  let x ← num n (container.get a)
  let y ← num n (container.get b)
  return n.add x y

/-- `_usage_from_container`. -/
def usageFromContainer (container : Dict) : Option Usage := do
  let tokens ← largest n container "0.0" ["total_tokens", "tokens", "token_count"]
  let tokens := maxFloat n tokens (← combined n container "input_tokens" "output_tokens")
  let tokens := maxFloat n tokens (← combined n container "prompt_tokens" "completion_tokens")
  let cost ← largest n container "0.0" ["cost_usd", "total_cost_usd", "cost", "total_cost"]
  return { totalTokens := ← n.trunc tokens, costUsd := cost }

/-- Where the engine may echo a usage. -/
def usageContainers (coderResult : Dict) : List Dict :=
  coderResult :: ["usage", "run", "coder_run", "execute_response", "run_response"].flatMap fun key =>
    match (coderResult.get key).asDict with
    | some value => value :: (value.get "usage").asDict.toList
    | none => []

/-- One container more. -/
def widen (u : Usage) (container : Dict) : Option Usage :=
  (usageFromContainer n container).map fun v =>
    { totalTokens := max u.totalTokens v.totalTokens, costUsd := maxFloat n u.costUsd v.costUsd }

/-- `extract_usage`. -/
def extractUsage (coderResult : Dict) : Option Usage := (usageContainers coderResult).foldlM (widen n) {}

/-! ## The ledger -/

/-- The spend `accumulate` builds. -/
structure Spend where
  totalTokens : Int := 0
  costUsd : String := "0.0"
  coderExecutions : Int := 0
  deriving DecidableEq

def Spend.toDict (s : Spend) : Dict :=
  [("total_tokens", .int s.totalTokens), ("cost_usd", .float s.costUsd), ("coder_executions", .int s.coderExecutions)]

/-- `empty_spend`. -/
def emptySpend : Spend := {}

/-- `int(d.get(key) or 0)`. -/
def intField (d : Dict) (key : String) : Option Int := n.int ((d.get key).or (.int 0))

/-- `float(d.get(key) or 0.0)`. -/
def floatField (d : Dict) (key : String) : Option String := n.float ((d.get key).or (.float "0.0"))

/-- `accumulate`. -/
def accumulate (spend : Dict) (usage : Usage) (executionsDelta : Int) : Option Spend := do
  return {
    totalTokens := (← intField n spend "total_tokens") + usage.totalTokens
    costUsd := n.add (← floatField n spend "cost_usd") usage.costUsd
    coderExecutions := (← intField n spend "coder_executions") + executionsDelta }

/-- `ISSUE_SPEND_KEY`. -/
def issueSpendKey : String := "issue_spend"

/-- `load_issue_spend`, on the metadata it finds. -/
def loadIssueSpend (metadata : Dict) : Dict :=
  match (metadata.get issueSpendKey).asDict with
  | some spend => update emptySpend.toDict spend
  | none => emptySpend.toDict

/-! ## The budget -/

/-- `cfg.budget`; an axis that is not positive is disabled. -/
structure Budget where
  maxTokens : Int
  maxCostUsd : String
  maxCoderExecutions : Int

/-- `x > 0` of a float. -/
def positive (x : String) : Bool := n.lt "0.0" x

/-- An axis of whole numbers, read only where it is enabled. -/
def intAxis (spend : Dict) (name key : String) (cap : Int) : Option (List String) :=
  if 0 < cap then
    (intField n spend key).map fun v =>
      if cap ≤ v then [name ++ " " ++ toString v ++ ">=" ++ toString cap] else []
  else some []

/-- The axis of the cost. -/
def costAxis (spend : Dict) (cap : String) : Option (List String) :=
  if positive n cap then
    (floatField n spend "cost_usd").map fun v =>
      if n.ge v cap then ["cost $" ++ n.fixed2 v ++ ">=$" ++ n.fixed2 cap] else []
  else some []

/-- The reasons of `budget_status`, one for each axis that is exhausted. -/
def budgetReasons (spend : Dict) (budget : Budget) : Option (List String) := do
  let tokens ← intAxis n spend "tokens" "total_tokens" budget.maxTokens
  let cost ← costAxis n spend budget.maxCostUsd
  let executions ← intAxis n spend "coder_executions" "coder_executions" budget.maxCoderExecutions
  return tokens ++ cost ++ executions

/-- `budget_status`. -/
def budgetStatus (spend : Dict) (budget : Option Budget) : Option (Bool × String) :=
  match budget with
  | none => some (false, "")
  | some budget => (budgetReasons n spend budget).map fun reasons =>
      (!reasons.isEmpty, String.intercalate "; " reasons)

end

/-! ## Whole numbers -/

/-- The digits in front of the point. -/
def wholePart (x : String) : Nat := Nat.ofDigitChars 10 (x.toList.takeWhile Char.isDigit) 0

def wholeText (k : Nat) : String := toString k ++ ".0"

theorem wholePart_wholeText (k : Nat) : wholePart (wholeText k) = k := by
  have hdigits : ∀ c ∈ Nat.toDigits 10 k, Char.isDigit c = true := fun c hc =>
    Nat.isDigit_of_mem_toDigits (by decide) (by decide) hc
  have hlist : (wholeText k).toList = Nat.toDigits 10 k ++ ['.', '0'] := by
    rw [wholeText, String.toList_append]
    exact congrArg (· ++ _) Nat.toList_repr
  have htake : ((wholeText k).toList).takeWhile Char.isDigit = Nat.toDigits 10 k := by
    rw [hlist, List.takeWhile_append_of_pos hdigits]
    simp
  rw [wholePart, htake, Nat.ofDigitChars_ten_toDigits]

theorem onlyNumber_float (x : String) : (match Json.float x with
    | .int n => some (wholeText n.toNat)
    | .float x => some x
    | _ => none) = some x := rfl

theorem whole_zero : decide (wholePart "0.0" ≤ wholePart "0.0") = true := by decide

theorem whole_of_lt {x y m : String} (h : decide (wholePart m ≤ wholePart x) = true)
    (h' : decide (wholePart x < wholePart y) = true) : decide (wholePart m ≤ wholePart y) = true := by
  have h := of_decide_eq_true h
  have h' := of_decide_eq_true h'
  exact decide_eq_true (by omega)

theorem whole_add {x c m : String} (h : decide (wholePart m ≤ wholePart x) = true) (_ : decide (wholePart "0.0" ≤ wholePart c) = true) :
    decide (wholePart m ≤ wholePart (wholeText (wholePart x + wholePart c))) = true := by
  have h := of_decide_eq_true h
  exact decide_eq_true (by rw [wholePart_wholeText]; omega)

theorem whole_negZero {m : String} (h : decide (wholePart m ≤ wholePart "-0.0") = true) :
    decide (wholePart m ≤ wholePart "0.0") = true := h

theorem whole_nonneg {x : String} {n : Int} (_ : decide (wholePart "0.0" ≤ wholePart x) = true)
    (h : some ((wholePart x : Nat) : Int) = some n) : 0 ≤ n := by
  cases h
  exact Int.natCast_nonneg _

/-- The numbers of a run whose costs are whole. -/
def wholeNumbers : Numbers where
  lower := fun s => String.ofList (s.toList.map asciiLower)
  repr := fun _ => ""
  lower_empty := asciiLower_empty
  isDigit := Char.isDigit
  int := fun v => match v with
    | .int n => some n
    | _ => none
  float := fun v => match v with
    | .int n => some (wholeText n.toNat)
    | .float x => some x
    | _ => none
  add x y := wholeText (wholePart x + wholePart y)
  lt x y := decide (wholePart x < wholePart y)
  ge x m := decide (wholePart m ≤ wholePart x)
  trunc x := some (wholePart x)
  fixed2 x := wholeText (wholePart x) ++ "0"
  intError _ := "int() argument must be a string, a bytes-like object or a real number"
  int_int := onlyWhole_int
  float_float := onlyNumber_float
  ge_refl_zero := whole_zero
  ge_of_lt := @whole_of_lt
  ge_add := @whole_add
  ge_negZero := @whole_negZero
  trunc_nonneg := @whole_nonneg

end IssueSpend
