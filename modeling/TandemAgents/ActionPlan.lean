import TandemAgents.ApprovedContent
import TandemAgents.JsonData

/-!
# The plan of external actions

The plan for the pull requests a task refers to: a comment each, and a close where the
task opts in. A restriction of the close to listed numbers is read entry by entry, and one
of which nothing can be read counts as none. What a plan writes goes through the approval
queue.
-/
namespace ActionPlan

open KeyedTable PythonText JsonData Statements Statements.Prog GuardedRuns ExternalActions

set_option maxRecDepth 20000

/-! ## Planning -/

/-- `int(value)`: a number, a `TypeError` or `ValueError`, or the `OverflowError` of an infinity. -/
inductive Reading where
  | value (n : Int)
  | refused
  | overflow
  deriving DecidableEq

/-- What the plan takes from the language besides: `int(value)`, and how a dictionary is spelled
in a dedupe key and in the store. -/
structure Language extends Python where
  int : Json → Reading
  dumps : Dict → String
  storeDumps : Dict → String

/-- An entry of the plan. -/
structure Action where
  actionType : String
  target : Dict
  payload : Dict
  riskLevel : String
  verificationMarker : String

section
variable (py : Language)

/-- The numbers among the entries. -/
def closeNumbers : List Json → Option (List Int)
  | [] => some []
  | entry :: entries =>
    match py.int entry with
    | .value n => (closeNumbers entries).map (n :: ·)
    | .refused => closeNumbers entries
    | .overflow => none

/-- `_close_opt_in`. -/
def closeOptIn (task : Dict) : Option (Bool × List Int) :=
  match (task.get "external_action").asDict with
  | none => some (false, [])
  | some policy => do
    let entries ← (policy.get "close_pr_numbers").toList
    return ((policy.get "allow_close_pr").truthy, ← closeNumbers py entries)

/-- `_comment_body`. -/
def commentBody (runId : String) (task : Dict) (number : Int) (decision : String) : String :=
  let title := strip (py.str ((task.get "title").or (.str "ACA PR action")))
  strip (String.intercalate "\n" [
    "ACA reviewed this PR from `" ++ title ++ "`.",
    "",
    "Decision: **" ++ decision ++ "**.",
    "",
    "This action was proposed by ACA and executed only after operator approval.",
    "",
    "<!-- aca:github-pr-action:" ++ runId ++ ":pr-" ++ toString number ++ " -->"])

/-- `close_requested` for a pull request. -/
def requested (allowClose : Bool) (closeNumbers : List Int) (number : Int) : Bool :=
  allowClose && (closeNumbers.isEmpty || closeNumbers.contains number)

/-- The second action for a pull request. -/
def closeOrLeave (closeRequested : Bool) (target : Dict) (marker : String) : Action :=
  if closeRequested then ⟨"close_pr", target, [("state", .str "closed")], "high", marker⟩
  else ⟨"leave_open", target, [("reason", .str "close_pr not opted in; leaving open for operator decision.")], "low", ""⟩

/-- The actions for one pull request. -/
def prActions (runId : String) (task : Dict) (allowClose : Bool) (closeNumbers : List Int) (pr : Dict) :
    Option (List Action) :=
  match py.int ((pr.get "number").or (.int 0)) with
  | .value number =>
    if number ≤ 0 then some []
    else
      let marker := "aca:github-pr-action:" ++ runId ++ ":pr-" ++ toString number
      let closeRequested := requested allowClose closeNumbers number
      let decision := if closeRequested then "close as duplicate/stale generated PR"
        else "reviewed; leaving open for operator decision"
      let target : Dict := [("pr_number", .int number), ("base_repo", pr.get "base_repo")]
      some [⟨"comment_pr", target, [("body", .str (commentBody py runId task number decision))], "medium", marker⟩,
        closeOrLeave closeRequested target marker]
  | _ => none

/-- The loop over the pull requests. -/
def allActions (runId : String) (task : Dict) (allowClose : Bool) (closeNumbers : List Int) :
    List Dict → Option (List Action)
  | [] => some []
  | pr :: prs => do
    let first ← prActions py runId task allowClose closeNumbers pr
    return first ++ (← allActions runId task allowClose closeNumbers prs)

/-- The pull requests of the actions of one type. -/
def targetsOf (actionType : String) (actions : List Action) : String :=
  let targets := (actions.filter (fun a => decide (a.actionType = actionType))).map
    (fun a => "#" ++ py.str (a.target.get "pr_number"))
  if targets = [] then "none" else commaJoin targets

/-- `build_linear_summary`. -/
def buildLinearSummary (runId : String) (task : Dict) (actions : List Action) : String :=
  strip (String.intercalate "\n" [
    "ACA external-action plan for `" ++ runId ++ "`.",
    "",
    "Task: " ++ py.str ((task.get "title").or ((task.get "task_id").or (.str "GitHub PR action"))),
    "",
    "Approved close targets: " ++ targetsOf py "close_pr" actions,
    "Left open / manual review: " ++ targetsOf py "leave_open" actions,
    "",
    "All GitHub writes are approval-gated and verified after execution.",
    "",
    "<!-- aca:linear-external-action:" ++ runId ++ " -->"])

/-- `task.get("source") or {}`, where `get` can be asked of it. -/
def sourceOf (task : Dict) : Option Dict :=
  if (task.get "source").truthy then (task.get "source").asDict else some []

/-- The summary for Linear at the end of the plan. -/
def summaryAction (runId : String) (task source : Dict) (actions : List Action) : Action where
  actionType := "post_linear_summary"
  target := [("identifier", (source.get "identifier").or (task.get "task_id"))]
  payload := [("body", .str (buildLinearSummary py runId task actions))]
  riskLevel := "medium"
  verificationMarker := "aca:linear-external-action:" ++ runId

/-- `default_action_plan`. -/
def defaultActionPlan (runId : String) (task : Dict) (prContexts : List Dict) : Option (List Action) := do
  let (allowClose, numbers) ← closeOptIn py task
  let actions ← allActions py runId task allowClose numbers prContexts
  let source ← sourceOf task
  return actions ++ [summaryAction py runId task source actions]

/-! ## Queueing -/

def writeActions : List String :=
  ["comment_pr", "close_pr", "update_branch", "request_review", "merge_pr", "delete_branch", "post_linear_summary"]

def readActions : List String := ["leave_open"]

/-- `validate_action`. -/
def validateAction (a : Action) : Except String Action :=
  let actionType := strip a.actionType
  if actionType ∉ writeActions ++ readActions then
    .error ("Unsupported external action type: " ++ orElse actionType "unknown")
  else if actionType ∈ writeActions ∧ a.target.isEmpty then
    .error ("External action " ++ actionType ++ " is missing target metadata.")
  else
    let riskLevel := orElse a.riskLevel (if actionType ∈ readActions then "low" else "medium")
    .ok ⟨actionType, a.target, a.payload, strip riskLevel, strip a.verificationMarker⟩

/-- The content of an action's approval row. -/
def contentOf (a : Action) : Content :=
  ⟨py.storeDumps a.target, py.storeDumps a.payload, a.riskLevel, a.verificationMarker⟩

/-- What a write action asks the queue for. -/
def requestFor (runId : String) (task source : Dict) (a : Action) : Request where
  runId := runId
  taskId := strip (py.text ((task.get "task_id").or (source.get "identifier")))
  sourceType := py.text (source.get "type")
  adapter := "github_pr"
  actionType := a.actionType
  content := contentOf py a
  dedupeKey := some (runId ++ ":" ++ a.actionType ++ ":" ++ py.dumps a.target)

/-- `enqueue_approvals_for_plan`: its requests, and the error it stops at. -/
def approvalRequests (runId : String) (task source : Dict) : List Action → List Request × Option String
  | [] => ([], none)
  | action :: actions =>
    match validateAction action with
    | .error e => ([], some e)
    | .ok normalized =>
      let (requests, error) := approvalRequests runId task source actions
      (if normalized.actionType ∈ readActions then requests else requestFor py runId task source normalized :: requests,
        error)

/-- A run of the backend: its task, the pull requests fetched for it, and the time and id that each
row is given. -/
structure Proposal where
  runId : String
  task : Dict
  prContexts : List Dict
  drawn : Nat → Int × String

/-- The requests of a proposal, unless planning raises. -/
def Proposal.requests (p : Proposal) : List Request :=
  ((defaultActionPlan py p.runId p.task p.prContexts).bind fun actions =>
    (sourceOf p.task).map fun source => (approvalRequests py p.runId p.task source actions).1).getD []

/-- The backends and the approval queue they share, with the proposals made so far. -/
structure System where
  run : Run
  proposals : List Proposal

inductive Move where
  | propose (p : Proposal)
  | other (e : Event)

/-- Nothing else enqueues. -/
def Move.Allowed : Move → Prop
  | .other (.enqueue _ _ _) => False
  | _ => True

/-- The rows of a proposal are queued one behind the other. -/
def enqueueAll (lower : String → String) (drawn : Nat → Int × String) : Nat → List Request → Run → Run
  | _, [], h => h
  | i, x :: xs, h => enqueueAll lower drawn (i + 1) xs (h.step lower (.enqueue (drawn i).1 (drawn i).2 x))

/-- `_run_github_pr_action_backend` queues the plan and writes none of it. -/
def System.step (w : System) : Move → System
  | .propose p => ⟨enqueueAll py.lower p.drawn 0 (p.requests py) w.run, w.proposals ++ [p]⟩
  | .other e => { w with run := w.run.step py.lower e }

end

/-! ## Closing -/

section
variable {py : Language} {runId : String} {task : Dict}

/-- The plan closes a pull request. -/
def Closes (plan : List Action) (n : Int) : Prop :=
  ∃ a ∈ plan, a.actionType = "close_pr" ∧ a.target.get "pr_number" = .int n

/-- The number of a pull request, as the plan reads it. -/
def numberOf (py : Language) (pr : Dict) : Reading := py.int ((pr.get "number").or (.int 0))

/-- An entry of the restriction denotes the number. -/
def Listed (py : Language) (policy : Dict) (n : Int) : Prop :=
  ∃ entries, (policy.get "close_pr_numbers").toList = some entries ∧ ∃ e ∈ entries, py.int e = .value n

/-- The task opts in to closing the pull request. -/
def OptsIn (py : Language) (task : Dict) (n : Int) : Prop :=
  ∃ policy, (task.get "external_action").asDict = some policy ∧ (policy.get "allow_close_pr").truthy = true ∧
    (policy.contains "close_pr_numbers" = false ∨ Listed py policy n)

theorem mem_closeNumbers {entries : List Json} {numbers : List Int} (h : closeNumbers py entries = some numbers)
    (n : Int) : n ∈ numbers ↔ ∃ e ∈ entries, py.int e = .value n := by
  induction entries generalizing numbers with
  | nil =>
    cases h
    simp
  | cons e entries ih =>
    rw [closeNumbers] at h
    cases he : py.int e with
    | value m =>
      simp only [he, Option.map_eq_some_iff] at h
      obtain ⟨rest, hrest, rfl⟩ := h
      simp [he, ih hrest, eq_comm]
    | refused =>
      simp only [he] at h
      simp [he, ih h]
    | overflow => simp [he] at h

theorem closeNumbers_isSome (entries : List Json) :
    (closeNumbers py entries).isSome = true ↔ ∀ e ∈ entries, py.int e ≠ .overflow := by
  induction entries with
  | nil => simp [closeNumbers]
  | cons e entries ih =>
    rw [closeNumbers]
    cases he : py.int e <;> simp [he, ih]

theorem closes_append (xs ys : List Action) (n : Int) : Closes (xs ++ ys) n ↔ Closes xs n ∨ Closes ys n := by
  simp only [Closes, List.mem_append, or_and_right, exists_or]

theorem closes_closeOrLeave (closeRequested : Bool) (number : Int) (base : Json) (marker : String) (n : Int) :
    Closes [closeOrLeave closeRequested [("pr_number", .int number), ("base_repo", base)] marker] n ↔
      closeRequested = true ∧ number = n := by
  cases closeRequested <;> simp [Closes, closeOrLeave, Dict.get]

theorem closes_prActions {allowClose : Bool} {numbers : List Int} {pr : Dict} {actions : List Action}
    (h : prActions py runId task allowClose numbers pr = some actions) (n : Int) :
    Closes actions n ↔ numberOf py pr = .value n ∧ 0 < n ∧ requested allowClose numbers n = true := by
  unfold prActions at h
  unfold numberOf
  cases hn : py.int ((pr.get "number").or (.int 0)) with
  | value number =>
    simp only [hn] at h
    by_cases hpos : number ≤ 0
    · obtain rfl : [] = actions := by simpa [hpos] using h
      have hnot : ¬ (number = n ∧ 0 < n) := by omega
      simp only [Closes, List.not_mem_nil, false_and, exists_false, Reading.value.injEq, false_iff]
      exact fun hh => hnot ⟨hh.1, hh.2.1⟩
    · rw [if_neg hpos] at h
      obtain rfl := Option.some.inj h
      change Closes ([_] ++ [closeOrLeave _ _ _]) n ↔ _
      rw [closes_append, closes_closeOrLeave]
      have hcomment : ∀ a : Action, a.actionType = "comment_pr" → ¬ Closes [a] n := by
        rintro a ha ⟨b, hb, htype, _⟩
        rw [List.mem_singleton.mp hb, ha] at htype
        exact absurd htype (by decide)
      rw [or_iff_right (hcomment _ rfl), Reading.value.injEq]
      constructor
      · rintro ⟨hreq, rfl⟩
        exact ⟨rfl, by omega, hreq⟩
      · rintro ⟨rfl, _, hreq⟩
        exact ⟨hreq, rfl⟩
  | refused => simp [hn] at h
  | overflow => simp [hn] at h

theorem closes_allActions {allowClose : Bool} {numbers : List Int} {prs : List Dict} {actions : List Action}
    (h : allActions py runId task allowClose numbers prs = some actions) (n : Int) :
    Closes actions n ↔ (∃ pr ∈ prs, numberOf py pr = .value n) ∧ 0 < n ∧ requested allowClose numbers n = true := by
  induction prs generalizing actions with
  | nil =>
    cases h
    simp [Closes]
  | cons pr prs ih =>
    simp only [allActions, Option.bind_eq_bind, Option.bind_eq_some_iff, Option.pure_def, Option.some.injEq] at h
    obtain ⟨first, hfirst, rest, hrest, rfl⟩ := h
    rw [closes_append, closes_prActions hfirst, ih hrest]
    simp only [List.mem_cons, exists_eq_or_imp]
    tauto

/-- The plan closes the pull requests of its contexts that are requested. -/
theorem closes_plan {prContexts : List Dict} {plan : List Action}
    (h : defaultActionPlan py runId task prContexts = some plan) : ∃ allowClose numbers,
      closeOptIn py task = some (allowClose, numbers) ∧ ∀ n, Closes plan n ↔
        (∃ pr ∈ prContexts, numberOf py pr = .value n) ∧ 0 < n ∧ requested allowClose numbers n = true := by
  simp only [defaultActionPlan, Option.bind_eq_bind, Option.bind_eq_some_iff, Option.pure_def, Option.some.injEq] at h
  obtain ⟨⟨allowClose, numbers⟩, hopt, actions, hactions, source, hsource, rfl⟩ := h
  refine ⟨allowClose, numbers, hopt, fun n => ?_⟩
  rw [closes_append, closes_allActions hactions]
  have hsummary : ¬ Closes [summaryAction py runId task source actions] n := by
    rintro ⟨a, ha, htype, _⟩
    rw [List.mem_singleton.mp ha] at htype
    have hne : "post_linear_summary" ≠ "close_pr" := by decide
    exact hne htype
  rw [or_iff_left hsummary]

/-! ## When planning raises -/

/-- Nothing the plan reads raises. -/
structure Readable (py : Language) (task : Dict) (prContexts : List Dict) : Prop where
  entries : ∀ policy, (task.get "external_action").asDict = some policy →
    ∃ entries, (policy.get "close_pr_numbers").toList = some entries ∧ ∀ e ∈ entries, py.int e ≠ .overflow
  numbers : ∀ pr ∈ prContexts, ∃ n, numberOf py pr = .value n
  source : (task.get "source").truthy = true → (task.get "source").asDict ≠ none

theorem closeOptIn_isSome : (closeOptIn py task).isSome = true ↔
    ∀ policy, (task.get "external_action").asDict = some policy →
      ∃ entries, (policy.get "close_pr_numbers").toList = some entries ∧ ∀ e ∈ entries, py.int e ≠ .overflow := by
  unfold closeOptIn
  cases hpolicy : (task.get "external_action").asDict with
  | none => simp
  | some policy =>
    simp only [Option.some.injEq, forall_eq']
    cases hentries : (policy.get "close_pr_numbers").toList with
    | none => simp
    | some entries =>
      simp only [Option.bind_eq_bind, Option.bind_some, Option.some.injEq, exists_eq_left', ← closeNumbers_isSome]
      cases closeNumbers py entries <;> simp

theorem allActions_isSome (runId : String) (task : Dict) (allowClose : Bool) (numbers : List Int) (prs : List Dict) :
    (allActions py runId task allowClose numbers prs).isSome = true ↔ ∀ pr ∈ prs, ∃ n, numberOf py pr = .value n := by
  have hfirst : ∀ pr, (prActions py runId task allowClose numbers pr).isSome = true ↔
      ∃ n, numberOf py pr = .value n := by
    intro pr
    unfold prActions numberOf
    cases py.int ((pr.get "number").or (.int 0)) with
    | value n =>
      dsimp only
      split <;> simp
    | refused => simp
    | overflow => simp
  induction prs with
  | nil => simp [allActions]
  | cons pr prs ih =>
    rw [List.forall_mem_cons]
    refine Iff.trans ?_ (and_congr (hfirst pr) ih)
    rw [allActions]
    cases prActions py runId task allowClose numbers pr <;>
      cases allActions py runId task allowClose numbers prs <;> simp

theorem plan_isSome (runId : String) (prContexts : List Dict) :
    (defaultActionPlan py runId task prContexts).isSome = true ↔ Readable py task prContexts := by
  have hsource : (sourceOf task).isSome = true ↔
      ((task.get "source").truthy = true → (task.get "source").asDict ≠ none) := by
    unfold sourceOf
    split <;> simp_all [Option.isSome_iff_ne_none]
  constructor
  · intro h
    obtain ⟨plan, hplan⟩ := Option.isSome_iff_exists.mp h
    simp only [defaultActionPlan, Option.bind_eq_bind, Option.bind_eq_some_iff] at hplan
    obtain ⟨⟨allowClose, numbers⟩, hopt, actions, hactions, source, hsrc, _⟩ := hplan
    exact ⟨closeOptIn_isSome.mp (by simp [hopt]), (allActions_isSome runId task _ _ _).mp (by rw [hactions]; rfl),
      hsource.mp (by simp [hsrc])⟩
  · intro h
    obtain ⟨⟨allowClose, numbers⟩, hopt⟩ := Option.isSome_iff_exists.mp (closeOptIn_isSome.mpr h.entries)
    obtain ⟨actions, hactions⟩ := Option.isSome_iff_exists.mp
      ((allActions_isSome runId task allowClose numbers prContexts).mpr h.numbers)
    obtain ⟨source, hsrc⟩ := Option.isSome_iff_exists.mp (hsource.mpr h.source)
    simp [defaultActionPlan, hopt, hactions, hsrc]

/-! ## The opt-in -/

/-- A close is planned only where the task opts in to it. -/
def OptedIn (py : Language) (runId : String) (task : Dict) (prContexts : List Dict) : Prop :=
  ∀ plan, defaultActionPlan py runId task prContexts = some plan → ∀ n, Closes plan n → OptsIn py task n

/-- Closing is allowed and a restriction is there, nothing of it can be read, and there is a pull
request to close. -/
def Widened (py : Language) (task : Dict) (prContexts : List Dict) : Prop :=
  ∃ policy, (task.get "external_action").asDict = some policy ∧ (policy.get "allow_close_pr").truthy = true ∧
    policy.contains "close_pr_numbers" = true ∧ (∀ n, ¬ Listed py policy n) ∧
    ∃ pr ∈ prContexts, ∃ n, numberOf py pr = .value n ∧ 0 < n

/-- What the opt-in comes from. -/
theorem closeOptIn_spec {allowClose : Bool} {numbers : List Int} (h : closeOptIn py task = some (allowClose, numbers))
    (ha : allowClose = true) : ∃ policy, (task.get "external_action").asDict = some policy ∧
      (policy.get "allow_close_pr").truthy = true ∧ ∀ n, Listed py policy n ↔ n ∈ numbers := by
  unfold closeOptIn at h
  cases hpolicy : (task.get "external_action").asDict with
  | none =>
    simp only [hpolicy, Option.some.injEq, Prod.mk.injEq] at h
    rw [ha] at h
    cases h.1
  | some policy =>
    simp only [hpolicy, Option.bind_eq_bind, Option.bind_eq_some_iff, Option.pure_def, Option.some.injEq,
      Prod.mk.injEq] at h
    obtain ⟨entries, hentries, found, hfound, htruthy, rfl⟩ := h
    refine ⟨policy, rfl, htruthy.trans ha, fun n => ?_⟩
    simp [Listed, hentries, mem_closeNumbers hfound]

theorem optedIn_iff (runId : String) (prContexts : List Dict) :
    OptedIn py runId task prContexts ↔ ¬ (Readable py task prContexts ∧ Widened py task prContexts) := by
  constructor
  · rintro h ⟨hread, policy, hpolicy, hallow, hpresent, hnone, pr, hpr, n, hn, hpos⟩
    obtain ⟨plan, hplan⟩ := Option.isSome_iff_exists.mp ((plan_isSome runId prContexts).mpr hread)
    obtain ⟨allowClose, numbers, hopt, hcloses⟩ := closes_plan hplan
    have hallowed : allowClose = true := by
      simp only [closeOptIn, hpolicy, Option.bind_eq_bind, Option.bind_eq_some_iff, Option.pure_def,
        Option.some.injEq, Prod.mk.injEq] at hopt
      obtain ⟨_, _, _, _, htruthy, _⟩ := hopt
      exact htruthy.symm.trans hallow
    obtain ⟨policy', hpolicy', _, hlisted⟩ := closeOptIn_spec hopt hallowed
    obtain rfl : policy' = policy := Option.some.inj (hpolicy'.symm.trans hpolicy)
    have hempty : numbers = [] := List.eq_nil_iff_forall_not_mem.mpr fun m hm => hnone m ((hlisted m).mpr hm)
    have hclosed : Closes plan n := by
      rw [hcloses]
      exact ⟨⟨pr, hpr, hn⟩, hpos, by simp [requested, hallowed, hempty]⟩
    obtain ⟨policy'', hpolicy'', _, habsent | hlist⟩ := h plan hplan n hclosed
    · obtain rfl := Option.some.inj (hpolicy''.symm.trans hpolicy)
      rw [hpresent] at habsent
      cases habsent
    · obtain rfl := Option.some.inj (hpolicy''.symm.trans hpolicy)
      exact hnone n hlist
  · intro h plan hplan n hclosed
    obtain ⟨allowClose, numbers, hopt, hcloses⟩ := closes_plan hplan
    obtain ⟨⟨pr, hpr, hn⟩, hpos, hrequested⟩ := (hcloses n).mp hclosed
    obtain ⟨hallowed, hnumbers⟩ : allowClose = true ∧ (numbers = [] ∨ n ∈ numbers) := by
      simpa [requested] using hrequested
    obtain ⟨policy, hpolicy, htruthy, hlisted⟩ := closeOptIn_spec hopt hallowed
    refine ⟨policy, hpolicy, htruthy, ?_⟩
    rcases hnumbers with hempty | hmem
    · by_contra hneither
      rw [not_or, Bool.not_eq_false] at hneither
      refine h ⟨(plan_isSome runId prContexts).mp (by rw [hplan]; rfl), policy, hpolicy, htruthy,
        hneither.1, fun m hm => ?_, pr, hpr, n, hn, hpos⟩
      have hm' := (hlisted m).mp hm
      simp [hempty] at hm'
    · exact .inr ((hlisted n).mpr hmem)

end

/-! ## The way of a write -/

/-- What an event that is no enqueue leaves: the contents of the rows, the rows the calls of
`execute_approved_actions` have listed, and what they executed. -/
structure Moved (h t : Run) : Prop where
  content : ∀ id r', t.approvals.find? id = some r' → ∃ r, h.approvals.find? id = some r ∧ r.content = r'.content
  todo : ∀ x ∈ t.executors, ∀ item ∈ x.todo, (∃ y ∈ h.executors, item ∈ y.todo) ∨
    (h.approvals.find? item.approvalId = some item ∧ item.status = .approved)
  calls : ∀ c ∈ t.calls, c ∈ h.calls ∨ ∃ y ∈ h.executors, ∃ item ∈ y.todo,
    c.approvalId = item.approvalId ∧ c.executed = item.content

theorem Moved.refl (h : Run) : Moved h h :=
  ⟨fun _ r hr => ⟨r, hr, rfl⟩, fun x hx _ hitem => .inl ⟨x, hx, hitem⟩, fun _ hc => .inl hc⟩

theorem content_update {s : Approvals} (p : Approval → Bool) (f : Approval → Approval)
    (hf : ∀ r, (f r).approvalId = r.approvalId) (hd : ∀ r, (f r).dedupeKey = r.dedupeKey)
    (hc : ∀ r, (f r).content = r.content) (id : String) (r' : Approval) (hr' : (s.update p f hf hd).find? id = some r') :
    ∃ r, s.find? id = some r ∧ r.content = r'.content := by
  rw [DedupeTable.find?_update] at hr'
  obtain ⟨r, hr, rfl⟩ := Option.map_eq_some_iff.mp hr'
  refine ⟨r, hr, ?_⟩
  split
  · exact (hc r).symm
  · rfl

theorem moved_update (h : Run) (p : Approval → Bool) (f : Approval → Approval)
    (hf : ∀ r, (f r).approvalId = r.approvalId) (hd : ∀ r, (f r).dedupeKey = r.dedupeKey)
    (hc : ∀ r, (f r).content = r.content) : Moved h (h.update (h.approvals.update p f hf hd)) :=
  { Moved.refl h with content := content_update p f hf hd hc }

theorem content_markOutcome {s : Approvals} (now : Int) (approvalId : String) (outcome : CallOutcome) (id : String)
    (r' : Approval) (hr' : ((markOutcome now approvalId outcome).run s).2.find? id = some r') :
    ∃ r, s.find? id = some r ∧ r.content = r'.content := by
  rw [run_markOutcome, run_mark] at hr'
  exact content_update _ _ _ _ (Approval.settle_content now _ _ _) id r' hr'

theorem moved_step (lower : String → String) (h : Run) {e : Event} (he : (Move.other e).Allowed) :
    Moved h (h.step lower e) := by
  cases e with
  | enqueue now approvalId x => exact absurd he id
  | decide now approvalId decision actor reason =>
    rw [Run.step, run_decide]
    exact moved_update h _ _ _ _ fun _ => rfl
  | approvePending now run actor reason =>
    rw [Run.step, run_approvePending]
    exact moved_update h _ _ _ _ fun _ => rfl
  | retry now approvalId actor reason =>
    rw [Run.step, run_retry]
    exact moved_update h _ _ _ _ fun _ => rfl
  | retryFailed now run actor reason =>
    rw [Run.step, run_retryFailed]
    exact moved_update h _ _ _ _ fun _ => rfl
  | markExecuted now approvalId result =>
    rw [Run.step, markExternalActionExecuted, run_mark]
    exact moved_update h _ _ _ _ fun _ => rfl
  | markFailed now approvalId error result =>
    rw [Run.step, markExternalActionFailed, run_mark]
    exact moved_update h _ _ _ _ fun _ => rfl
  | listApproved run =>
    refine { Moved.refl h with todo := fun x hx item hitem => ?_ }
    rcases List.mem_append.mp hx with hx | hx
    · exact .inl ⟨x, hx, hitem⟩
    · rw [List.mem_singleton.mp hx] at hitem
      exact .inr (ApprovedContent.mem_approvedActions hitem)
  | execute i outcome =>
    change Moved h (h.execute i outcome)
    unfold Run.execute
    split
    · rename_i row todo hi
      have hmem := List.mem_of_getElem? hi
      refine ⟨fun _ r hr => ⟨r, hr, rfl⟩, fun x hx item hitem => ?_, fun c hc => ?_⟩
      · rcases List.mem_or_eq_of_mem_set hx with hx | rfl
        · exact .inl ⟨x, hx, hitem⟩
        · exact .inl ⟨_, hmem, List.mem_cons_of_mem _ hitem⟩
      · rcases List.mem_append.mp hc with hc | hc
        · exact .inl hc
        · rw [List.mem_singleton.mp hc]
          exact .inr ⟨_, hmem, row, List.mem_cons_self, rfl, rfl⟩
    · exact .refl h
  | markNext now i =>
    change Moved h (h.markNext now i)
    unfold Run.markNext
    split
    · rename_i todo approvalId outcome hi
      refine ⟨content_markOutcome now approvalId outcome, fun x hx item hitem => ?_, fun c hc => .inl hc⟩
      rcases List.mem_or_eq_of_mem_set hx with hx | rfl
      · exact .inl ⟨x, hx, hitem⟩
      · exact .inl ⟨_, List.mem_of_getElem? hi, hitem⟩
    · exact .refl h

/-- An enqueue writes its content and leaves the calls as they are. -/
theorem enqueueAll_spec (lower : String → String) (drawn : Nat → Int × String) (i : Nat) (xs : List Request) (h : Run) :
    (∀ id r', (enqueueAll lower drawn i xs h).approvals.find? id = some r' →
      (∃ r, h.approvals.find? id = some r ∧ r.content = r'.content) ∨ ∃ x ∈ xs, x.content = r'.content) ∧
    (enqueueAll lower drawn i xs h).executors = h.executors ∧ (enqueueAll lower drawn i xs h).calls = h.calls := by
  induction xs generalizing i h with
  | nil => exact ⟨fun _ r hr => .inl ⟨r, hr, rfl⟩, rfl, rfl⟩
  | cons x xs ih =>
    obtain ⟨hrows, hexecutors, hcalls⟩ := ih (i + 1) (h.step lower (.enqueue (drawn i).1 (drawn i).2 x))
    refine ⟨fun id r' hr' => ?_, hexecutors, hcalls⟩
    rcases hrows id r' hr' with ⟨r, hr, hcontent⟩ | ⟨y, hy, hcontent⟩
    · rw [← hcontent]
      change ((enqueueExternalActionApproval _ _ x).run h.approvals).2.find? id = some r at hr
      rw [run_enqueue] at hr
      cases hi : h.approvals.insert (x.row (drawn i).1 (drawn i).2) (Approval.requeue (drawn i).1 x.content)
          (Approval.requeue_approvalId (drawn i).1 x.content) (Approval.requeue_dedupeKey (drawn i).1 x.content) with
      | none =>
        rw [hi] at hr
        exact .inl ⟨r, hr, rfl⟩
      | some t =>
        rw [hi, Option.getD_some] at hr
        rcases DedupeTable.insert_eq hi with ⟨q, _, hfind⟩ | ⟨_, _, hfind⟩
        all_goals
          rw [hfind] at hr
          split at hr
          · obtain rfl := Option.some.inj hr
            exact .inr ⟨x, List.mem_cons_self, rfl⟩
          · exact .inl ⟨r, hr, rfl⟩
    · exact .inr ⟨y, List.mem_cons_of_mem _ hy, hcontent⟩

section
variable {py : Language}

/-- Nothing queued and nothing proposed. -/
def System.empty : System := ⟨.empty, []⟩

/-- The content is one of a proposal's write actions. -/
def Planned (py : Language) (proposals : List Proposal) (c : Content) : Prop :=
  ∃ p ∈ proposals, ∃ plan, defaultActionPlan py p.runId p.task p.prContexts = some plan ∧
    ∃ a ∈ plan, ∃ normalized, validateAction a = .ok normalized ∧ normalized.actionType ∈ writeActions ∧
      contentOf py normalized = c

/-- At some time before, the row was approved and had the content. -/
def Stood (py : Language) (w : System) (id : String) (c : Content) : Prop :=
  ∃ u, Reached (System.step py) (fun _ m => m.Allowed) System.empty u ∧
    Reached (System.step py) (fun _ m => m.Allowed) u w ∧
    ∃ r, u.run.approvals.find? id = some r ∧ r.status = .approved ∧ r.content = c

/-- Every write so far went through an approval row of a proposed plan, and while it was approved. -/
def ThroughRows (py : Language) (w : System) : Prop :=
  ∀ c ∈ w.run.calls, Stood py w c.approvalId c.executed ∧ Planned py w.proposals c.executed

theorem validated_type {a normalized : Action} (h : validateAction a = .ok normalized) :
    normalized.actionType ∈ writeActions ++ readActions := by
  unfold validateAction at h
  dsimp only at h
  split at h
  · cases h
  · rename_i hknown
    split at h
    · cases h
    · obtain rfl := Except.ok.inj h
      exact not_not.mp hknown

theorem mem_approvalRequests {runId : String} {task source : Dict} {actions : List Action} {x : Request}
    (hx : x ∈ (approvalRequests py runId task source actions).1) :
    ∃ a ∈ actions, ∃ normalized, validateAction a = .ok normalized ∧ normalized.actionType ∈ writeActions ∧
      contentOf py normalized = x.content := by
  induction actions with
  | nil => cases hx
  | cons a actions ih =>
    rw [approvalRequests] at hx
    cases hv : validateAction a with
    | error e => simp [hv] at hx
    | ok normalized =>
      simp only [hv] at hx
      have htail : x ∈ (approvalRequests py runId task source actions).1 → _ := fun h =>
        (ih h).imp fun b hb => And.imp_left (List.mem_cons_of_mem a) hb
      split at hx
      · exact htail hx
      · rename_i hread
        rcases List.mem_cons.mp hx with rfl | hx
        · refine ⟨a, List.mem_cons_self, normalized, hv, ?_, rfl⟩
          exact (List.mem_append.mp (validated_type hv)).resolve_right hread
        · exact htail hx

theorem planned_requests {p : Proposal} {x : Request} (hx : x ∈ p.requests py) : Planned py [p] x.content := by
  unfold Proposal.requests at hx
  cases hplan : defaultActionPlan py p.runId p.task p.prContexts with
  | none => simp [hplan] at hx
  | some plan =>
    cases hsource : sourceOf p.task with
    | none => simp [hplan, hsource] at hx
    | some source =>
      simp only [hplan, hsource, Option.bind_some, Option.map_some, Option.getD_some] at hx
      exact ⟨p, List.mem_singleton_self p, plan, hplan, mem_approvalRequests hx⟩

theorem Planned.mono {proposals more : List Proposal} {c : Content} (h : Planned py proposals c)
    (hsub : proposals ⊆ more) : Planned py more c := by
  obtain ⟨p, hp, hrest⟩ := h
  exact ⟨p, hsub hp, hrest⟩

theorem Stood.step {w : System} {id : String} {c : Content} (h : Stood py w id c) {m : Move} (hm : m.Allowed) :
    Stood py (w.step py m) id c := by
  obtain ⟨u, hu, huw, hr⟩ := h
  exact ⟨u, hu, huw.step m hm, hr⟩

/-- Rows and listed rows have contents of proposed plans, and what is listed or executed stood
approved. -/
structure Through (py : Language) (w : System) : Prop where
  rows : ∀ id r, w.run.approvals.find? id = some r → Planned py w.proposals r.content
  todo : ∀ x ∈ w.run.executors, ∀ item ∈ x.todo,
    Stood py w item.approvalId item.content ∧ Planned py w.proposals item.content
  calls : ThroughRows py w

theorem Through.step {w : System} (h : Through py w)
    (hw : Reached (System.step py) (fun _ m => m.Allowed) System.empty w) {m : Move} (hm : m.Allowed) :
    Through py (w.step py m) := by
  cases m with
  | propose p =>
    obtain ⟨hrows, hexecutors, hcalls⟩ := enqueueAll_spec py.lower p.drawn 0 (p.requests py) w.run
    have hsub : w.proposals ⊆ w.proposals ++ [p] := List.subset_append_left _ _
    refine ⟨fun id r' hr' => ?_, fun x hx item hitem => ?_, fun c hc => ?_⟩
    · rcases hrows id r' hr' with ⟨r, hr, hcontent⟩ | ⟨x, hx, hcontent⟩
      · rw [← hcontent]
        exact (h.rows id r hr).mono hsub
      · rw [← hcontent]
        exact (planned_requests hx).mono (List.subset_append_right _ _)
    · obtain ⟨hstood, hplanned⟩ := h.todo x (hexecutors ▸ hx) item hitem
      exact ⟨hstood.step hm, hplanned.mono hsub⟩
    · obtain ⟨hstood, hplanned⟩ := h.calls c (hcalls ▸ hc)
      exact ⟨hstood.step hm, hplanned.mono hsub⟩
  | other e =>
    have hmoved := moved_step py.lower w.run hm
    refine ⟨fun id r' hr' => ?_, fun x hx item hitem => ?_, fun c hc => ?_⟩
    · obtain ⟨r, hr, hcontent⟩ := hmoved.content id r' hr'
      rw [← hcontent]
      exact h.rows id r hr
    · rcases hmoved.todo x hx item hitem with ⟨y, hy, hold⟩ | ⟨hrow, happroved⟩
      · obtain ⟨hstood, hplanned⟩ := h.todo y hy item hold
        exact ⟨hstood.step hm, hplanned⟩
      · have hstood : Stood py w item.approvalId item.content := ⟨w, hw, .init, item, hrow, happroved, rfl⟩
        exact ⟨hstood.step hm, h.rows _ item hrow⟩
    · rcases hmoved.calls c hc with hold | ⟨y, hy, item, hitem, hid, hcontent⟩
      · obtain ⟨hstood, hplanned⟩ := h.calls c hold
        exact ⟨hstood.step hm, hplanned⟩
      · obtain ⟨hstood, hplanned⟩ := h.todo y hy item hitem
        rw [hid, hcontent]
        exact ⟨hstood.step hm, hplanned⟩

theorem through_reached {w : System} (hw : Reached (System.step py) (fun _ m => m.Allowed) System.empty w) :
    Through py w := by
  induction hw with
  | init =>
    refine ⟨fun id r h => ?_, fun x h => ?_, fun c h => ?_⟩
    · simp [System.empty, Run.empty] at h
    · cases h
    · cases h
  | step m hw hm ih => exact ih.step hw hm

/-- Closes are planned only where the task opts in to them, and whatever is written goes through a
row of the approval queue, exactly if no restriction is there of which nothing can be read. -/
theorem optedIn_and_gated_iff (py : Language) (runId : String) (task : Dict) (prContexts : List Dict) :
    (OptedIn py runId task prContexts ∧
      ∀ w, Reached (System.step py) (fun _ m => m.Allowed) System.empty w → ThroughRows py w) ↔
    ¬ (Readable py task prContexts ∧ Widened py task prContexts) := by
  rw [← optedIn_iff runId]
  exact and_iff_left fun w hw => (through_reached hw).calls

end

/-! ## An empty restriction -/

def plainLanguage : Language where
  lower := id
  repr := fun _ => ""
  lower_empty := rfl
  int := fun v => match v with
    | .int n => .value n
    | _ => .refused
  dumps := fun _ => ""
  storeDumps := fun _ => ""

/-- A task that allows to close none of its pull requests. -/
def closeNone : Dict :=
  [("external_action", .obj [("allow_close_pr", .bool true), ("close_pr_numbers", .arr [])])]

/-- The pull request is closed all the same. -/
theorem closeNone_closes : ¬ (OptedIn plainLanguage "run-1" closeNone [[("number", .int 1400)]] ∧
    ∀ w, Reached (System.step plainLanguage) (fun _ m => m.Allowed) System.empty w → ThroughRows plainLanguage w) := by
  rintro ⟨hopted, _⟩
  have hread : Readable plainLanguage closeNone [[("number", .int 1400)]] := by
    refine ⟨fun policy hpolicy => ?_, fun pr hpr => ?_, fun h => ?_⟩
    · obtain rfl := Option.some.inj hpolicy
      exact ⟨[], rfl, by simp⟩
    · rw [List.mem_singleton.mp hpr]
      exact ⟨1400, rfl⟩
    · cases h
  obtain ⟨plan, hplan⟩ := Option.isSome_iff_exists.mp
    ((plan_isSome "run-1" [[("number", .int 1400)]]).mpr hread)
  obtain ⟨allowClose, numbers, hopt, hcloses⟩ := closes_plan hplan
  obtain ⟨rfl, rfl⟩ : true = allowClose ∧ [] = numbers := by
    have hvalue : closeOptIn plainLanguage closeNone = some (true, []) := rfl
    rw [hvalue] at hopt
    exact Prod.mk.inj (Option.some.inj hopt)
  obtain ⟨policy, hpolicy, _, habsent | ⟨entries, hentries, e, he, _⟩⟩ :=
    hopted plan hplan 1400 ((hcloses 1400).mpr ⟨⟨_, List.mem_singleton_self _, rfl⟩, by decide, rfl⟩)
  · obtain rfl := Option.some.inj hpolicy
    cases habsent
  · obtain rfl := Option.some.inj hpolicy
    obtain rfl := Option.some.inj hentries
    cases he

end ActionPlan
