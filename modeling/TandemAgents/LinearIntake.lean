import Mathlib.Data.List.Sort
import TandemAgents.RepoGuard

/-!
# Choosing a Linear issue

The issues are listed twice, with the configured filters and without, each time by a series of
queries of which the first that finds something is taken. A selector is looked for in the
fields of the listed issues, and the issue fetched if none has it. Without one, the issues with
a status to start from are ranked. The issue chosen is fetched once more before it is run.
-/
namespace LinearIntake

open PythonText JsonData JsonText LinearIssues RepoGuard
open LinearTool (Refusal toolResultPayloads flattenEntries dedupeBy sortedDumps)

set_option maxRecDepth 20000

/-! ## Listing -/

/-- The answers of the tool to the calls of one request: the result, or a failure. -/
abbrev Tool := Nat → Dict → Option Dict

/-- What the intake reads of the configuration. -/
structure Settings where
  item : String
  url : String
  team : String
  project : String
  statuses : String
  labels : String
  query : String
  guard : RepoGuard.Config

def Settings.selector (cfg : Settings) : String := strip (orElse cfg.item cfg.url)

def given (key value : String) : Dict := if value = "" then [] else [(key, .str value)]

def texts (values : List String) : Json := .arr (values.map Json.str)

/-- The arguments every query has; the limit is 50. -/
def baseArgs (cfg : Settings) : Dict :=
  [("limit", .int 50)] ++ given "team" cfg.team ++ given "project" cfg.project ++ given "query" cfg.query

/-- The filters of the queries, in order. -/
def filterAttempts (statuses labels : String) : List Dict :=
  let both := statuses ≠ "" ∧ labels ≠ ""
  (if statuses ≠ "" ∨ labels ≠ "" then [given "state" statuses ++ given "label" labels] else []) ++
  (if both then [[("state", .str statuses), ("label", .str labels)], [("status", .str statuses), ("label", .str labels)],
    [("statuses", texts (splitCsv statuses)), ("labels", texts (splitCsv labels))]] else []) ++
  (if statuses ≠ "" then [[("state", .str statuses)], [("status", .str statuses)], [("statuses", texts (splitCsv statuses))]] ++
    (splitCsv statuses).flatMap fun status =>
      (if labels ≠ "" then [[("state", .str status), ("label", .str labels)], [("status", .str status), ("label", .str labels)]]
        else []) ++ [[("state", .str status)], [("status", .str status)]]
    else []) ++
  (if labels ≠ "" then [[("label", .str labels)], [("labels", texts (splitCsv labels))]] ++
    (splitCsv labels).map fun label => [("label", .str label)]
    else []) ++
  [[]]

/-- `_linear_issue_attempts`. -/
def issueAttempts (cfg : Settings) (statuses labels : String) : List Dict :=
  dedupeBy (fun args => sortedDumps (.obj args)) [] ((filterAttempts statuses labels).map fun filters => baseArgs cfg ++ filters)

def entryKeys : List String := ["issues", "items", "nodes", "data", "results"]

section
variable (py : RepoGuard.Runtime) (floats : Floats)

/-- What `_dedupe_linear_entries` takes for the identity of an entry. -/
def entryIdentity (entry : Dict) : List Char :=
  let text := strip (py.text (((entry.get "id").or (entry.get "identifier")).or (entry.get "url")))
  if text = "" then sortedDumps (.obj entry) else text.toList

/-- The issues in a result. -/
def resultIssues (result : Dict) : List Issue :=
  dedupeBy (entryIdentity py) [] ((toolResultPayloads floats result).flatMap fun payload => flattenEntries payload entryKeys)

/-- The loop of `linear_list_issues`; none where it raises. -/
def listFrom (tool : Tool) : Nat → List Dict → Option (List Issue)
  | _, [] => none
  | i, args :: rest =>
    match tool i args with
    | none => listFrom tool (i + 1) rest
    | some result =>
      if resultIssues py floats result ≠ [] ∨ rest = [] then some (resultIssues py floats result) else listFrom tool (i + 1) rest

/-- `linear_list_issues`. -/
def listIssues (tool : Tool) (cfg : Settings) (statuses labels : String) : Option (List Issue) :=
  listFrom py floats tool 0 (issueAttempts cfg statuses labels)

/-! ## Fetching -/

def fetchArgs (selector : String) : List Dict := ["id", "issue_id", "issueId", "identifier"].map fun key => [(key, .str selector)]

/-- The first entry in the payloads of a result, or else its first dictionary. -/
def fetchedEntry (result : Dict) : Option Dict :=
  let payloads := toolResultPayloads floats result
  (payloads.findSome? fun payload => (flattenEntries payload entryKeys).head?).orElse fun _ => payloads.findSome? Json.asDict

/-- `linear_fetch_issue`; empty where nothing is found. -/
def fetchIssue (tool : Tool) (identifier : String) : Dict :=
  if strip identifier = "" then []
  else ((fetchArgs (strip identifier)).zipIdx.findSome? fun call => (tool call.2 call.1).bind (fetchedEntry floats)).getD []

/-- `merged.update(fetched)`. -/
def updated (issue fetched : Dict) : Dict := fetched.foldl (fun d f => d.set f.1 f.2) issue

/-- `_hydrate_linear_issue_for_task`. -/
def hydrateIssue (tool : Tool) (issue : Issue) : Issue :=
  let selector := orElse (identifier issue) (issueId issue)
  if selector = "" then issue else updated issue (fetchIssue floats tool selector)

def truncatedMarkers : List String :=
  let tick := String.singleton backtick
  ["truncated, use " ++ tick ++ "get_issue" ++ tick, "truncated, use get_issue"]

/-- `_linear_issue_body_may_be_truncated`. -/
def bodyMayBeTruncated (issue : Issue) : Bool :=
  let body := strip (issueBody issue)
  decide (body = "") || truncatedMarkers.any fun marker => decide (marker.toList <:+: (py.lower body).toList)

/-- `_linear_issue_needs_contract_hydration`. -/
def needsContractHydration (cfg : Settings) (issue : Issue) : Bool :=
  requiresExplicitRepoHint py cfg.guard && decide (issueRepoHints py issue = []) && bodyMayBeTruncated py issue

/-- `_linear_issue_for_contract_projection`. -/
def contractProjection (tool : Tool) (cfg : Settings) (issue : Issue) : Issue :=
  if needsContractHydration py cfg issue then hydrateIssue floats tool issue else issue

/-! ## Loading -/

/-- The answers of the tool to everything one intake asks: the two listings, the selected issue, the
listed issues whose contracts are looked at, and the issue chosen; and the text of the error that
loading the issues ended with, if it did. -/
structure Answers where
  listed : Tool
  all : Tool
  selected : Tool
  projected : Nat → Tool
  final : Tool
  failure : String

/-- Under which name an issue is kept when the listings are merged. -/
def issueIdentity (issue : Issue) : String := orElse (orElse (identifier issue) (issueId issue)) (py.text (issue.get "title"))

/-- The issues by identity: a later one takes the place of an earlier one. -/
def mergeIssues (issues : List Issue) : List Issue :=
  (issues.foldl (fun d issue => if issueIdentity py issue = "" then d else Dict.set d (issueIdentity py issue) (.obj issue)) []).filterMap
    fun f => f.2.asDict

/-- `_linear_issue_matches_selector`. -/
def issueMatchesSelector (issue : Issue) (selector : String) : Bool :=
  decide (strip selector ≠ "") && [issueId issue, identifier issue, issueUrl issue, py.text (issue.get "title")].any fun hay =>
    decide (hay ≠ "") && (decide (strip selector = hay) || decide ((strip selector).toList <:+: hay.toList))

/-- The issues listed, with and without the filters. -/
def listedIssues (cfg : Settings) (a : Answers) : Option (List Issue) := do
  let issues ← listIssues py floats a.listed cfg cfg.statuses cfg.labels
  if cfg.statuses ≠ "" ∨ cfg.labels ≠ "" then
    let everything ← listIssues py floats a.all cfg "" ""
    return mergeIssues py (issues ++ everything)
  else return issues

/-- `_load_linear_live_data` with `include_all_project_statuses`; none where it raises. -/
def loadIssues (cfg : Settings) (a : Answers) : Option (List Issue) := do
  let issues ← listedIssues py floats cfg a
  let selector := cfg.selector
  let fetched := if selector ≠ "" ∧ (issues.any fun issue => issueMatchesSelector py issue selector) = false then
    fetchIssue floats a.selected selector else []
  let loaded := if fetched = [] then issues else fetched :: issues
  if loaded = [] then none else some loaded

end

/-! ## Choosing -/

section
variable (py : RepoGuard.Runtime) (floats : Floats) (codes : IssueCodes) (cfg : Settings)

/-- The contract of `_linear_issue_to_task`; labels that cannot be listed are an error. -/
def issueToTask (issue : Issue) : Option Completeness := (issueLabels issue).map fun _ => issueContract py codes cfg.guard issue

def cannotList : Refusal := .other "object is not iterable"

def notActionable (issue : Issue) : String := "Selected Linear issue is not actionable: status is '" ++ issueStatus issue ++ "'."

/-- The branch of `_select_linear_issue` for an issue the selector was found in. -/
def selectNamed (projected : Issue) : Except Refusal Issue :=
  match issueToTask py codes cfg projected with
  | none => .error cannotList
  | some contract =>
    let eligible := statusIsActionable py.toRuntime cfg.statuses (issueStatus projected) (issueStateType projected) ||
      explicitStatusCanResume py.toRuntime (issueStatus projected) (issueStateType projected)
    if contractHardBlocker contract ≠ "" then .error (.runtime (contractHardBlocker contract))
    else if !eligible then .error (.runtime (notActionable projected))
    else .ok projected

/-- An issue with a status to start from. -/
def isActionable (issue : Issue) : Bool :=
  statusIsActionable py.toRuntime cfg.statuses (issueStatus issue) (issueStateType issue)

/-- The key the candidates are sorted by. -/
def sortKey (issue : Issue) : Int × String × String :=
  ((issuePriority py.toRuntime issue).getD 99, py.lower (identifier issue), py.lower (py.text (issue.get "title")))

def keyLe (a b : Int × String × String) : Bool :=
  decide (a.1 < b.1) || (decide (a.1 = b.1) && (decide (a.2.1 < b.2.1) || (decide (a.2.1 = b.2.1) && decide (a.2.2 ≤ b.2.2))))

/-- The issues that may be started, with their contracts. -/
def projectedActionable (a : Answers) (issues : List Issue) : List (Issue × Option Completeness) :=
  ((issues.zipIdx.filter fun e => isActionable py cfg e.1).map fun e => contractProjection py floats (a.projected e.2) cfg e.1).map
    fun issue => (issue, issueToTask py codes cfg issue)

def foundStatuses (issues : List Issue) : List String :=
  (((issues.map issueStatus).filter fun status => decide (status ≠ "")).eraseDups).insertionSort (· ≤ ·)

def noneActionable (issues : List Issue) : String :=
  "No actionable Linear issues for team '" ++ cfg.team ++ "'. Expected a launchable status like Backlog, Todo, Triage, or Ready. " ++
    ("Found statuses: " ++ py.repr (texts (foundStatuses issues)))

/-- The rest of `_select_linear_issue`: the best of the issues with a complete contract, or else of those
without a blocker. -/
def selectAutomatic (a : Answers) (issues : List Issue) : Except Refusal Issue :=
  match (projectedActionable py floats codes cfg a issues).mapM fun e => e.2.map fun contract => (e.1, contract) with
  | none => .error cannotList
  | some projected =>
    let soft := projected.filter fun e => decide (contractHardBlocker e.2 = "")
    let complete := soft.filter fun e => e.2.ok
    let candidates := (if complete ≠ [] then complete else soft).map Prod.fst
    match candidates.insertionSort (fun x y => keyLe (sortKey py x) (sortKey py y) = true) with
    | issue :: _ => .ok issue
    | [] =>
      match projected.find? fun e => decide (contractHardBlocker e.2 ≠ "") with
      | some blocked => .error (.runtime (contractHardBlocker blocked.2))
      | none => .error (.runtime (noneActionable py cfg issues))

/-- The first issue the selector is found in. -/
def named (issues : List Issue) : Option (Issue × Nat) :=
  issues.zipIdx.find? fun e => issueMatchesSelector py e.1 cfg.selector

/-- `_select_linear_issue` with `allow_non_actionable=False`. -/
def selectLinearIssue (a : Answers) (issues : List Issue) : Except Refusal Issue :=
  match named py cfg issues with
  | some e => selectNamed py codes cfg (contractProjection py floats (a.projected e.2) cfg e.1)
  | none => selectAutomatic py floats codes cfg a issues

/-- What follows the choice: the issue is fetched again and launched, or its blocker raised. -/
def launchChosen (a : Answers) (issues : List Issue) (chosen : Issue) : Except Refusal Issue :=
  let issue := hydrateIssue floats a.final chosen
  if (issue :: issues).any fun i => decide (issueLabels i = none) then .error cannotList
  else
    match launch py codes cfg.guard issue with
    | .ok issue => .ok issue
    | .error text => .error (.runtime text)

def notRead (a : Answers) : Refusal :=
  .runtime ("Could not read Linear issues through Tandem's connected Linear MCP path. Team: " ++ cfg.team ++
    (". Verify Tandem has a connected Linear MCP server authorized through the control panel. Engine error: " ++ a.failure))

/-- `_task_from_linear`: the issue that is run. -/
def taskFromLinear (a : Answers) : Except Refusal Issue :=
  match loadIssues py floats cfg a with
  | none => .error (notRead cfg a)
  | some issues =>
    match selectLinearIssue py floats codes cfg a issues with
    | .error e => .error e
    | .ok chosen => launchChosen py floats codes cfg a issues chosen

end

/-! ## What a listing answers -/

section
variable {py : RepoGuard.Runtime} {floats : Floats} {codes : IssueCodes} {cfg : Settings} {a : Answers}

/-- The issues answer the query at some place: every query before it failed or found nothing, and it
found something or is the last. -/
def AnswerOf (py : RepoGuard.Runtime) (floats : Floats) (tool : Tool) (start : Nat) (attempts : List Dict) (issues : List Issue) : Prop :=
  ∃ front args rest result, attempts = front ++ args :: rest ∧ tool (start + front.length) args = some result ∧
    resultIssues py floats result = issues ∧ (issues ≠ [] ∨ rest = []) ∧
    ∀ call ∈ front.zipIdx start, ∀ result, tool call.2 call.1 = some result → resultIssues py floats result = []

theorem listFrom_answer {tool : Tool} {attempts : List Dict} {start : Nat} {issues : List Issue}
    (h : listFrom py floats tool start attempts = some issues) : AnswerOf py floats tool start attempts issues := by
  induction attempts generalizing start with
  | nil => cases h
  | cons args attempts ih =>
    have hlater : ∀ found, (∀ result, tool start args = some result → resultIssues py floats result = []) →
        AnswerOf py floats tool (start + 1) attempts found → AnswerOf py floats tool start (args :: attempts) found := by
      rintro found hfirst ⟨front, last, rest, result, rfl, hresult, hissues, hend, hbefore⟩
      refine ⟨args :: front, last, rest, result, rfl, ?_, hissues, hend, ?_⟩
      · rw [List.length_cons, ← Nat.add_assoc, Nat.add_right_comm]
        exact hresult
      · intro call hcall
        rw [List.zipIdx_cons] at hcall
        rcases List.mem_cons.mp hcall with rfl | hcall
        · exact hfirst
        · exact hbefore call hcall
    rw [listFrom] at h
    cases hanswer : tool start args with
    | none =>
      rw [hanswer] at h
      apply hlater issues _ (ih h)
      intro result hresult
      rw [hanswer] at hresult
      cases hresult
    | some result =>
      rw [hanswer] at h
      simp only at h
      split at h
      · rename_i hend
        obtain rfl := Option.some.inj h
        exact ⟨[], args, attempts, result, rfl, hanswer, rfl, hend, fun call hcall => by cases hcall⟩
      · rename_i hend
        apply hlater issues _ (ih h)
        intro other hother
        rw [hanswer] at hother
        obtain rfl := Option.some.inj hother
        by_contra hne
        exact hend (.inl hne)

/-- The issue is in the answer to one of the two listings: with the filters, or without them where there
are any. -/
def Listed (py : RepoGuard.Runtime) (floats : Floats) (cfg : Settings) (a : Answers) (issue : Issue) : Prop :=
  ∃ tool statuses labels issues, ((tool = a.listed ∧ statuses = cfg.statuses ∧ labels = cfg.labels) ∨
      (tool = a.all ∧ statuses = "" ∧ labels = "" ∧ (cfg.statuses ≠ "" ∨ cfg.labels ≠ ""))) ∧
    AnswerOf py floats tool 0 (issueAttempts cfg statuses labels) issues ∧ issue ∈ issues

theorem mem_set {d : Dict} {key : String} {value : Json} {f : String × Json} (h : f ∈ Dict.set d key value) :
    f ∈ d ∨ f.2 = value := by
  induction d with
  | nil => exact .inr (congrArg Prod.snd (List.mem_singleton.mp h))
  | cons g d ih =>
    obtain ⟨k, v⟩ := g
    rw [Dict.set] at h
    split at h
    · rcases List.mem_cons.mp h with rfl | h
      · exact .inr rfl
      · exact .inl (List.mem_cons_of_mem _ h)
    · rcases List.mem_cons.mp h with rfl | h
      · exact .inl List.mem_cons_self
      · rcases ih h with h | h
        · exact .inl (List.mem_cons_of_mem _ h)
        · exact .inr h

/-- Merging makes no issue up. -/
theorem mem_mergeIssues {issues : List Issue} {issue : Issue} (h : issue ∈ mergeIssues py issues) : issue ∈ issues := by
  have hall : ∀ (issues : List Issue) (d : Dict) (f : String × Json), f ∈ issues.foldl (fun d issue =>
      if issueIdentity py issue = "" then d else Dict.set d (issueIdentity py issue) (.obj issue)) d →
      f ∈ d ∨ ∃ issue ∈ issues, f.2 = .obj issue := by
    intro issues
    induction issues with
    | nil => exact fun d f hf => .inl hf
    | cons first issues ih =>
      intro d f hf
      rcases ih _ f hf with hf | ⟨issue, hissue, hvalue⟩
      · simp only at hf
        split at hf
        · exact .inl hf
        · rcases mem_set hf with hf | hf
          · exact .inl hf
          · exact .inr ⟨first, List.mem_cons_self, hf⟩
      · exact .inr ⟨issue, List.mem_cons_of_mem _ hissue, hvalue⟩
  obtain ⟨f, hf, hdict⟩ := List.mem_filterMap.mp h
  rcases hall issues [] f hf with hf | ⟨other, hother, hvalue⟩
  · cases hf
  · rw [hvalue] at hdict
    obtain rfl := Option.some.inj hdict
    exact hother

theorem listedIssues_listed {issues : List Issue} (h : listedIssues py floats cfg a = some issues) :
    ∀ issue ∈ issues, Listed py floats cfg a issue := by
  obtain ⟨filtered, hfiltered, h⟩ := Option.bind_eq_some_iff.mp h
  have hfirst : ∀ issue ∈ filtered, Listed py floats cfg a issue :=
    fun issue hissue => ⟨a.listed, cfg.statuses, cfg.labels, filtered, .inl ⟨rfl, rfl, rfl⟩, listFrom_answer hfiltered, hissue⟩
  split at h
  · rename_i hany
    obtain ⟨everything, heverything, h⟩ := Option.bind_eq_some_iff.mp h
    obtain rfl := Option.some.inj h
    intro issue hissue
    rcases List.mem_append.mp (mem_mergeIssues hissue) with hissue | hissue
    · exact hfirst issue hissue
    · exact ⟨a.all, "", "", everything, .inr ⟨rfl, rfl, rfl, hany⟩, listFrom_answer heverything, hissue⟩
  · obtain rfl := Option.some.inj h
    exact hfirst

/-- Without a selector nothing is fetched into the list. -/
theorem loadIssues_listed (hselector : cfg.selector = "") {issues : List Issue} (h : loadIssues py floats cfg a = some issues) :
    ∀ issue ∈ issues, Listed py floats cfg a issue := by
  obtain ⟨listed, hlisted, h⟩ := Option.bind_eq_some_iff.mp h
  simp only [hselector, ne_eq, not_true_eq_false, false_and, if_false, if_true] at h
  split at h
  · cases h
  · obtain rfl := Option.some.inj h
    exact listedIssues_listed hlisted

theorem named_nil (hselector : cfg.selector = "") (issues : List Issue) : named py cfg issues = none := by
  apply List.find?_eq_none.mpr
  intro e he
  have hempty : decide (strip cfg.selector ≠ "") = false := by
    rw [hselector]
    decide
  rw [issueMatchesSelector, hempty, Bool.false_and]
  exact Bool.false_ne_true

theorem mem_mapM {α β : Type} {f : α → Option β} {as : List α} {bs : List β} (h : as.mapM f = some bs) :
    ∀ b ∈ bs, ∃ a ∈ as, f a = some b := by
  induction as generalizing bs with
  | nil =>
    rw [List.mapM_nil] at h
    obtain rfl := Option.some.inj h
    exact List.forall_mem_nil _
  | cons a as ih =>
    rw [List.mapM_cons] at h
    obtain ⟨b, hb, h⟩ := Option.bind_eq_some_iff.mp h
    obtain ⟨rest, hrest, h⟩ := Option.bind_eq_some_iff.mp h
    obtain rfl := Option.some.inj h
    intro c hc
    rcases List.mem_cons.mp hc with rfl | hc
    · exact ⟨a, List.mem_cons_self, hb⟩
    · obtain ⟨d, hd, hc⟩ := ih hrest c hc
      exact ⟨d, List.mem_cons_of_mem a hd, hc⟩

theorem projectedActionable_mem {issues : List Issue} {e : Issue × Option Completeness}
    (h : e ∈ projectedActionable py floats codes cfg a issues) :
    ∃ issue ∈ issues, isActionable py cfg issue = true ∧ ∃ i, e.1 = contractProjection py floats (a.projected i) cfg issue := by
  obtain ⟨issue, hissue, rfl⟩ := List.mem_map.mp h
  obtain ⟨indexed, hindexed, rfl⟩ := List.mem_map.mp hissue
  obtain ⟨hmem, hactionable⟩ := List.mem_filter.mp hindexed
  exact ⟨indexed.1, List.fst_mem_of_mem_zipIdx hmem, hactionable, indexed.2, rfl⟩

/-- The automatic choice is an issue whose status may be started. -/
theorem selectAutomatic_mem {issues : List Issue} {chosen : Issue} (h : selectAutomatic py floats codes cfg a issues = .ok chosen) :
    ∃ issue ∈ issues, isActionable py cfg issue = true ∧ ∃ i, chosen = contractProjection py floats (a.projected i) cfg issue := by
  rw [selectAutomatic] at h
  split at h
  · cases h
  · rename_i projected hprojected
    simp only at h
    split at h
    · rename_i first rest hsorted
      obtain rfl := Except.ok.inj h
      have hfirst : first ∈ _ := (List.perm_insertionSort _ _).mem_iff.mp (hsorted ▸ List.mem_cons_self)
      obtain ⟨e, he, rfl⟩ := List.mem_map.mp hfirst
      have hmem : e ∈ projected := by
        split at he
        · exact List.mem_of_mem_filter (List.mem_of_mem_filter he)
        · exact List.mem_of_mem_filter he
      obtain ⟨source, hsource, hcontract⟩ := mem_mapM hprojected e hmem
      obtain ⟨contract, -, rfl⟩ := Option.map_eq_some_iff.mp hcontract
      exact projectedActionable_mem hsource
    · split at h <;> cases h

/-- What is launched is the chosen issue, fetched again. -/
theorem launchChosen_ok {issues : List Issue} {chosen issue : Issue}
    (h : launchChosen py floats codes cfg a issues chosen = .ok issue) : issue = hydrateIssue floats a.final chosen := by
  rw [launchChosen] at h
  split at h
  · cases h
  · split at h
    · rename_i launched hlaunch
      obtain rfl := Except.ok.inj h
      rw [launch] at hlaunch
      split at hlaunch
      · cases hlaunch
      · exact (Except.ok.inj hlaunch).symm
    · cases h

/-- A status to start from is a configured one, where statuses are configured. -/
theorem isActionable_configured {issue : Issue} (h : isActionable py cfg issue = true)
    (hconfigured : configuredKeys py.toRuntime cfg.statuses ≠ []) :
    normalizeLinearKey py.toRuntime (issueStatus issue) ∈ configuredKeys py.toRuntime cfg.statuses ∨
      normalizeLinearKey py.toRuntime (issueStateType issue) ∈ configuredKeys py.toRuntime cfg.statuses := by
  rw [isActionable, statusIsActionable, if_neg hconfigured] at h
  exact of_decide_eq_true h

/-- Without a selector the issue that is run was listed with a configured status or type, where
statuses are configured; afterwards it was at most fetched again. -/
theorem intake_filters (py : RepoGuard.Runtime) (floats : Floats) (codes : IssueCodes) (cfg : Settings) (a : Answers)
    (hselector : cfg.selector = "") {issue : Issue} (h : taskFromLinear py floats codes cfg a = .ok issue) :
    ∃ listed, Listed py floats cfg a listed ∧ statusIsActionable py.toRuntime cfg.statuses (issueStatus listed) (issueStateType listed) = true ∧
      (configuredKeys py.toRuntime cfg.statuses ≠ [] →
        normalizeLinearKey py.toRuntime (issueStatus listed) ∈ configuredKeys py.toRuntime cfg.statuses ∨
          normalizeLinearKey py.toRuntime (issueStateType listed) ∈ configuredKeys py.toRuntime cfg.statuses) ∧
      ∃ i, issue = hydrateIssue floats a.final (contractProjection py floats (a.projected i) cfg listed) := by
  rw [taskFromLinear] at h
  split at h
  · cases h
  · rename_i issues hissues
    rw [selectLinearIssue, named_nil hselector] at h
    simp only at h
    split at h
    · cases h
    · rename_i chosen hchosen
      obtain ⟨listed, hmem, hactionable, i, rfl⟩ := selectAutomatic_mem hchosen
      exact ⟨listed, loadIssues_listed hselector hissues listed hmem, hactionable, isActionable_configured hactionable, i,
        launchChosen_ok h⟩

end

/-! ## Examples -/

def noFloats : Floats := ⟨id, id⟩

def sampleSettings (item statuses labels : String) : Settings :=
  ⟨item, "", "ENG", "", statuses, labels, "", sampleConfig "acme/app" "/work/app"⟩

def todoIssue : Issue :=
  [("identifier", .str "ENG-1"), ("title", .str "Fix"), ("state", .obj [("name", .str "Todo"), ("type", .str "unstarted")])]

def listing (issues : List Issue) : Dict := [("metadata", .obj [("result", .arr (issues.map Json.obj))])]

/-- Queries with a filter find nothing; the one without finds the issues. -/
def unfilteredOnly (issues : List Issue) : Tool := fun _ args =>
  some (listing (if ["state", "status", "statuses", "label", "labels"].any args.contains then [] else issues))

def foundAll (issues : List Issue) : Answers :=
  ⟨unfilteredOnly issues, unfilteredOnly issues, fun _ _ => none, fun _ _ _ => none, fun _ _ => none, ""⟩

def ran (r : Except Refusal Issue) : Option (String × Option (List String)) :=
  r.toOption.map fun issue => (identifier issue, issueLabels issue)

/-- Where the filtered queries find nothing, an issue without the configured label is run. -/
theorem unlabelled_issue :
    resultIssues sampleRuntime noFloats (listing []) = [] ∧
    (listIssues sampleRuntime noFloats (unfilteredOnly [todoIssue]) (sampleSettings "" "Todo" "backend") "Todo" "backend").map
      (List.map identifier) = some ["ENG-1"] ∧
    ran (taskFromLinear sampleRuntime noFloats complete (sampleSettings "" "Todo" "backend") (foundAll [todoIssue])) =
      some ("ENG-1", some []) := by
  decide +kernel

/-- An issue with a configured status is run as it was listed. -/
theorem todo_issue : ∃ issue listed,
    taskFromLinear sampleRuntime noFloats complete (sampleSettings "" "Todo" "") (foundAll [todoIssue]) = .ok issue ∧
    Listed sampleRuntime noFloats (sampleSettings "" "Todo" "") (foundAll [todoIssue]) listed := by
  have hran : ran (taskFromLinear sampleRuntime noFloats complete (sampleSettings "" "Todo" "") (foundAll [todoIssue])) =
      some ("ENG-1", some []) := by
    decide +kernel
  cases hrun : taskFromLinear sampleRuntime noFloats complete (sampleSettings "" "Todo" "") (foundAll [todoIssue]) with
  | error e =>
    rw [hrun] at hran
    cases hran
  | ok issue =>
    obtain ⟨listed, hlisted, -⟩ := intake_filters sampleRuntime noFloats complete (sampleSettings "" "Todo" "")
      (foundAll [todoIssue]) (by decide) hrun
    exact ⟨issue, listed, rfl, hlisted⟩

end LinearIntake
