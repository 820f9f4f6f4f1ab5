import TandemAgents.LinearIntake

/-!
# Choosing an item of a GitHub project

A selector is looked for in the fields of the items, in their order: the first item with a field
that holds it somewhere is taken, or refused where it may not be started. Where no item holds
it, the items are ranked as if there were none.
-/
namespace ProjectSelection

open PythonText JsonData LinearIssues
open RepoGuard (Runtime)
open LinearTool (Refusal)

set_option maxRecDepth 20000

abbrev Item := Dict

/-! ## Reading an item -/

section
variable (py : Runtime)

/-- `value in (None, "")`. -/
def isAbsent : Json → Bool
  | .null => true
  | .str s => decide (s = "")
  | _ => false

/-- `str(item.get(key, ""))`. -/
def fieldText (item : Item) (key : String) : String := if item.contains key then py.str (item.get key) else ""

/-- `_item_text`. -/
def itemText (item : Item) (key : String) : String :=
  match item.get key with
  | .str s => s
  | .obj d => ((["title", "body", "url", "number", "id"].map (Dict.get d)).find? fun v => !isAbsent v).elim "" py.str
  | _ => ""

def statusKeyOf (item : Item) : String := strip (py.text (item.get "effective_status_key"))

def statusNameOf (item : Item) : String := strip (py.text ((item.get "effective_status_name").or (item.get "status_name")))

/-- `_is_github_project_parent_item`. -/
def isParentTitle (title : String) : Bool :=
  let normalized := (py.lower (strip title)).toList
  decide ("[aca slice parent]".toList <:+: normalized) || "aca slice parent".toList.isPrefixOf normalized

/-- `github_project_status_key_is_actionable`. -/
def statusIsActionable (statusName : String) : Bool :=
  decide (PullRequests.normalizeStatusKey py.toRuntime statusName ∈ ["ready", "backlog", "todo", "todos"])

/-- `item_is_actionable`. -/
def itemIsActionable (item : Item) : Bool :=
  statusIsActionable py (orElse (statusNameOf py item) (statusKeyOf py item)) && !isParentTitle py (itemText py item "title")

/-- The selector stands in a field of the item. -/
def holdsSelector (item : Item) (selector : String) : Bool :=
  [fieldText py item "project_item_id", fieldText py item "item_id", fieldText py item "id", fieldText py item "number",
      fieldText py item "url", itemText py item "title", itemText py item "content"].any fun hay =>
    decide (hay ≠ "") && (decide (selector = hay) || decide (selector.toList <:+: hay.toList))

/-! ## Ranking -/

def skipStatuses : List String := ["in_review", "done", "blocked", "in_progress", "stale"]

def effectiveName (item : Item) : String := py.text (item.get "effective_status_name")

/-- `filtered_items`. -/
def filteredItems (items : List Item) : List Item :=
  items.filter fun item => decide (PullRequests.normalizeStatusKey py.toRuntime (effectiveName py item) ∉ skipStatuses) &&
    !isParentTitle py (itemText py item "title")

def labelNames (content : Dict) : List String :=
  ((content.get "labels").asList.getD []).filterMap fun label => match label with
    | .obj d => some (py.lower (py.text (Dict.get d "name")))
    | .str s => some (py.lower s)
    | _ => none

/-- `re.search(r"\bp(\d)\b", label)`, with whether a word character was read last: the digit. -/
def priorityDigit : Bool → List Char → Option Char
  | inWord, 'p' :: d :: rest =>
    if !inWord && py.isDigit d && !RepoGuard.startsWord py.isWord rest then some d else priorityDigit (py.isWord 'p') (d :: rest)
  | _, c :: rest => priorityDigit (py.isWord c) rest
  | _, [] => none

def priorityRank (content : Dict) : Int :=
  (((labelNames py content).findSome? fun label => priorityDigit py false label.toList).bind fun d =>
    py.int (.str (String.singleton d))).getD 99

/-- The key of `_sort_key`; a number of an issue that is none is an error. -/
def sortKey (item : Item) : Option (Int × Int) :=
  let content := (item.get "content").asDict
  let rank := content.elim 99 (priorityRank py)
  let number := (content.map fun d => Dict.get d "number").getD .null
  if isAbsent number then
    some (rank, (py.int (.str (py.str (((item.get "project_item_id").or (item.get "id")).or (.int 9999999))))).getD 9999999)
  else (py.int number).map fun n => (rank, n)

def keyLe (a b : Int × Int) : Bool := decide (a.1 < b.1) || (decide (a.1 = b.1) && decide (a.2 ≤ b.2))

/-- `filtered_items.sort(key=_sort_key)`, or none where a key raises. -/
def sortedItems (items : List Item) : Option (List Item) :=
  (items.mapM fun item => (sortKey py item).map fun key => (item, key)).map fun keyed =>
    (keyed.insertionSort fun a b => keyLe a.2 b.2 = true).map Prod.fst

def preferredStatuses : List String := ["ready", "ready to pick up", "backlog", "todo", "todos", "to do", "to-do"]

def groupName (item : Item) : String := py.lower (strip (effectiveName py item))

/-- The item chosen without a selector, of the filtered items in order. -/
def chosenItem (sorted items : List Item) : Option Item :=
  (preferredStatuses.findSome? fun status => sorted.find? fun item => decide (groupName py item = status)).orElse fun _ =>
    sorted.head?.orElse fun _ => items.find? fun item => decide (statusKeyOf py item = "")

end

/-! ## The task of a project -/

structure Settings where
  item : String
  url : String
  owner : String
  project : Int

def Settings.selector (cfg : Settings) : String := strip (orElse cfg.item cfg.url)

section
variable (py : Runtime) (cfg : Settings)

def place : String := cfg.owner ++ "/" ++ toString cfg.project

def notActionable (item : Item) : Refusal :=
  .runtime ("Selected GitHub Project item is not actionable: status is '" ++ orElse (statusNameOf py item) (statusKeyOf py item) ++ "'.")

/-- The statuses an error names. -/
def foundStatuses (items : List Item) : List String :=
  (((items.filter fun item => (item.get "effective_status_name").truthy).map fun item => strip (effectiveName py item)).eraseDups).insertionSort
    (· ≤ ·)

def noneActionable (items : List Item) : Refusal :=
  if foundStatuses py items = [] then
    .runtime ("Could not determine an actionable GitHub Project item in " ++ place cfg ++
      (". GitHub MCP did not return item statuses, and ACA has no cached last-known " ++
        ("status for any candidate. Move the intended card to a launchable lane like " ++
          ("'Todo' or 'TODOS' and re-run after " ++ "ACA has observed or updated its status at least once."))))
  else
    .runtime ("No actionable GitHub Project items in " ++ place cfg ++
      (". Expected a launchable status like 'Todo' or 'TODOS', and ACA now refuses " ++
        ("to re-pick known 'In progress', 'In review', 'Blocked', or 'Done' items. " ++
          ("Found statuses: " ++ py.repr (LinearIntake.texts (foundStatuses py items))))))

/-- `_select_github_project_item` behind the selector, with `allow_non_actionable=False`: the item, and
whether it may be started. -/
def selectAutomatic (items : List Item) : Except Refusal (Item × Bool) :=
  match sortedItems py (filteredItems py items) with
  | none => .error (.other "invalid literal for int() with base 10")
  | some sorted =>
    match chosenItem py sorted items with
    | none => .error (noneActionable py cfg items)
    | some chosen => .ok (chosen, itemIsActionable py chosen)

/-- `_select_github_project_item`. -/
def selectGithubProjectItem (items : List Item) : Except Refusal (Item × Bool) :=
  match (if cfg.selector = "" then none else items.find? fun item => holdsSelector py item cfg.selector) with
  | some item => if itemIsActionable py item then .ok (item, true) else .error (notActionable py item)
  | none => selectAutomatic py cfg items

/-- `_task_from_project`, of the items loaded: the item whose task is returned. What is built of it behind
the choice may raise. -/
def taskFromProject (build : Item → Except Refusal Unit) (items : List Item) : Except Refusal Item :=
  match selectGithubProjectItem py cfg items with
  | .error e => .error e
  | .ok (chosen, eligible) =>
    if eligible then (build chosen).map fun _ => chosen
    else .error (.runtime ("Could not determine an actionable GitHub Project item in " ++ place cfg ++ "."))

end

/-! ## What a selector denotes -/

section
variable (py : Runtime)

/-- The ids, numbers, URLs and titles of an item, at its top and in its content. -/
def itemNames (item : Item) : List String :=
  (["project_item_id", "item_id", "id", "number", "url", "item_url"].map (fieldText py item)) ++ [strip (itemText py item "title")] ++
    (item.get "content").asDict.elim [] fun d => ["number", "url", "html_url", "title"].map (fieldText py d)

/-- The id, identifier, URL and title of an issue. -/
def issueNames (issue : Issue) : List String :=
  [issueId issue, identifier issue, issueUrl issue, strip (py.text (issue.get "title"))]

/-- Nothing stops an issue the selector was found in. -/
structure Startable (codes : RepoGuard.IssueCodes) (cfg : LinearIntake.Settings) (issue : Issue) : Prop where
  labels : issueLabels issue ≠ none
  unblocked : RepoGuard.contractHardBlocker (RepoGuard.issueContract py codes cfg.guard issue) = ""
  status : LinearIssues.statusIsActionable py.toRuntime cfg.statuses (issueStatus issue) (issueStateType issue) = true ∨
    explicitStatusCanResume py.toRuntime (issueStatus issue) (issueStateType issue) = true

/-- Nothing stops an issue when it is launched, with the issues listed. -/
structure Launchable (codes : RepoGuard.IssueCodes) (cfg : LinearIntake.Settings) (issues : List Issue) (issue : Issue) : Prop where
  labels : ∀ i ∈ issue :: issues, issueLabels i ≠ none
  unblocked : RepoGuard.contractHardBlocker (RepoGuard.launchContract py codes cfg.guard issue) = ""

/-- Every item that is returned is denoted by the selector. -/
def ItemSelected (cfg : Settings) (build : Item → Except Refusal Unit) (items : List Item) : Prop :=
  ∀ item, taskFromProject py cfg build items = .ok item → cfg.selector ∈ itemNames py item

/-- Every issue that is returned is denoted by the selector. -/
def IssueSelected (floats : JsonText.Floats) (codes : RepoGuard.IssueCodes) (cfg : LinearIntake.Settings) (a : LinearIntake.Answers) : Prop :=
  ∀ issue, LinearIntake.taskFromLinear py floats codes cfg a = .ok issue → cfg.selector ∈ issueNames py issue

/-- The first item that holds the selector somewhere is refused or denoted; and where none holds it, the
automatic choice is refused or denoted. -/
structure FirstItemDenoted (cfg : Settings) (build : Item → Except Refusal Unit) (items : List Item) : Prop where
  first : ∀ item, (items.find? fun item => holdsSelector py item cfg.selector) = some item → itemIsActionable py item = true →
    build item = .ok () → cfg.selector ∈ itemNames py item
  none : (∀ item ∈ items, holdsSelector py item cfg.selector = false) → ∀ item, selectAutomatic py cfg items = .ok (item, true) →
    build item = .ok () → cfg.selector ∈ itemNames py item

/-- The same of the issues, as they are after they were fetched again. -/
structure FirstIssueDenoted (floats : JsonText.Floats) (codes : RepoGuard.IssueCodes) (cfg : LinearIntake.Settings)
    (a : LinearIntake.Answers) : Prop where
  first : ∀ issues e, LinearIntake.loadIssues py floats cfg a = some issues → LinearIntake.named py cfg issues = some e →
    Startable py codes cfg (LinearIntake.contractProjection py floats (a.projected e.2) cfg e.1) →
    Launchable py codes cfg issues
      (LinearIntake.hydrateIssue floats a.final (LinearIntake.contractProjection py floats (a.projected e.2) cfg e.1)) →
    cfg.selector ∈ issueNames py
      (LinearIntake.hydrateIssue floats a.final (LinearIntake.contractProjection py floats (a.projected e.2) cfg e.1))
  none : ∀ issues, LinearIntake.loadIssues py floats cfg a = some issues →
    (∀ issue ∈ issues, LinearIntake.issueMatchesSelector py issue cfg.selector = false) →
    ∀ chosen, LinearIntake.selectAutomatic py floats codes cfg a issues = .ok chosen →
      Launchable py codes cfg issues (LinearIntake.hydrateIssue floats a.final chosen) →
      cfg.selector ∈ issueNames py (LinearIntake.hydrateIssue floats a.final chosen)

end

/-! ## Which item is returned -/

section
variable {py : Runtime}

theorem build_ok {build : Item → Except Refusal Unit} {item found : Item} :
    ((build item).map fun _ => item) = .ok found ↔ item = found ∧ build item = .ok () := by
  cases build item with
  | error e =>
    constructor
    · intro h
      cases h
    · rintro ⟨-, h⟩
      cases h
  | ok u =>
    constructor
    · intro h
      exact ⟨Except.ok.inj h, rfl⟩
    · rintro ⟨rfl, -⟩
      rfl

theorem taskFromProject_named {cfg : Settings} (hselector : cfg.selector ≠ "") {build : Item → Except Refusal Unit} {items : List Item}
    {first : Item} (hfirst : (items.find? fun item => holdsSelector py item cfg.selector) = some first) {item : Item} :
    taskFromProject py cfg build items = .ok item ↔ first = item ∧ itemIsActionable py first = true ∧ build first = .ok () := by
  rw [taskFromProject, selectGithubProjectItem, if_neg hselector, hfirst]
  simp only
  by_cases hactionable : itemIsActionable py first = true
  · simp only [hactionable, if_true, true_and]
    exact build_ok
  · simp only [hactionable, Bool.false_eq_true, if_false, false_and, and_false, iff_false]
    intro h
    cases h

theorem taskFromProject_automatic {cfg : Settings} (hselector : cfg.selector ≠ "") {build : Item → Except Refusal Unit} {items : List Item}
    (hnone : (items.find? fun item => holdsSelector py item cfg.selector) = none) {item : Item} :
    taskFromProject py cfg build items = .ok item ↔ selectAutomatic py cfg items = .ok (item, true) ∧ build item = .ok () := by
  rw [taskFromProject, selectGithubProjectItem, if_neg hselector, hnone]
  simp only
  cases selectAutomatic py cfg items with
  | error e =>
    constructor
    · intro h
      cases h
    · rintro ⟨h, -⟩
      cases h
  | ok found =>
    obtain ⟨chosen, eligible⟩ := found
    cases eligible with
    | false =>
      constructor
      · intro h
        cases h
      · rintro ⟨h, -⟩
        cases h
    | true =>
      simp only [if_true, Except.ok.injEq, Prod.mk.injEq, and_true]
      rw [build_ok]
      constructor
      · rintro ⟨rfl, h⟩
        exact ⟨rfl, h⟩
      · rintro ⟨rfl, h⟩
        exact ⟨rfl, h⟩

theorem itemSelected_iff {cfg : Settings} (hselector : cfg.selector ≠ "") (build : Item → Except Refusal Unit) (items : List Item) :
    ItemSelected py cfg build items ↔ FirstItemDenoted py cfg build items := by
  cases hfirst : items.find? fun item => holdsSelector py item cfg.selector with
  | none =>
    have hall : ∀ item ∈ items, holdsSelector py item cfg.selector = false := by
      intro item hitem
      simpa using List.find?_eq_none.mp hfirst item hitem
    constructor
    · intro h
      constructor
      · intro item hitem
        rw [hfirst] at hitem
        cases hitem
      · intro _ item hauto hbuild
        exact h item ((taskFromProject_automatic hselector hfirst).mpr ⟨hauto, hbuild⟩)
    · intro h item hitem
      obtain ⟨hauto, hbuild⟩ := (taskFromProject_automatic hselector hfirst).mp hitem
      exact h.none hall item hauto hbuild
  | some first =>
    constructor
    · intro h
      constructor
      · intro item hitem hactionable hbuild
        rw [hfirst] at hitem
        obtain rfl := Option.some.inj hitem
        exact h first ((taskFromProject_named hselector hfirst).mpr ⟨rfl, hactionable, hbuild⟩)
      · intro hall
        have hmem := List.mem_of_find?_eq_some hfirst
        have hholds := List.find?_some hfirst
        rw [hall first hmem] at hholds
        cases hholds
    · intro h item hitem
      obtain ⟨rfl, hactionable, hbuild⟩ := (taskFromProject_named hselector hfirst).mp hitem
      exact h.first first hfirst hactionable hbuild

/-! ## Which issue is returned -/

variable {floats : JsonText.Floats} {codes : RepoGuard.IssueCodes} {cfg : LinearIntake.Settings} {a : LinearIntake.Answers}

theorem selectNamed_ok {projected issue : Issue} :
    LinearIntake.selectNamed py codes cfg projected = .ok issue ↔ projected = issue ∧ Startable py codes cfg projected := by
  rw [LinearIntake.selectNamed, LinearIntake.issueToTask]
  cases hlabels : issueLabels projected with
  | none =>
    constructor
    · intro h
      cases h
    · rintro ⟨-, h⟩
      exact absurd hlabels h.labels
  | some labels =>
    simp only [Option.map_some]
    by_cases hblocker : RepoGuard.contractHardBlocker (RepoGuard.issueContract py codes cfg.guard projected) = ""
    · rw [if_neg (not_not.mpr hblocker)]
      by_cases hstatus : (LinearIssues.statusIsActionable py.toRuntime cfg.statuses (issueStatus projected) (issueStateType projected) ||
          explicitStatusCanResume py.toRuntime (issueStatus projected) (issueStateType projected)) = true
      · rw [hstatus, Bool.not_true, if_neg Bool.false_ne_true, Except.ok.injEq]
        have hlisted : issueLabels projected ≠ none := by
          rw [hlabels]
          exact Option.some_ne_none labels
        exact ⟨fun h => ⟨h, hlisted, hblocker, Bool.or_eq_true_iff.mp hstatus⟩, fun h => h.1⟩
      · rw [Bool.not_eq_true _ |>.mp hstatus, Bool.not_false, if_pos rfl]
        constructor
        · intro h
          cases h
        · rintro ⟨-, h⟩
          exact absurd (Bool.or_eq_true_iff.mpr h.status) hstatus
    · rw [if_pos hblocker]
      constructor
      · intro h
        cases h
      · rintro ⟨-, h⟩
        exact absurd h.unblocked hblocker

theorem launchChosen_ok {issues : List Issue} {chosen issue : Issue} :
    LinearIntake.launchChosen py floats codes cfg a issues chosen = .ok issue ↔
      LinearIntake.hydrateIssue floats a.final chosen = issue ∧ Launchable py codes cfg issues (LinearIntake.hydrateIssue floats a.final chosen) := by
  rw [LinearIntake.launchChosen]
  generalize LinearIntake.hydrateIssue floats a.final chosen = final
  by_cases hlabels : ((final :: issues).any fun i => decide (issueLabels i = none)) = true
  · rw [if_pos hlabels]
    constructor
    · intro h
      cases h
    · rintro ⟨-, h⟩
      obtain ⟨i, hi, hnone⟩ := List.any_eq_true.mp hlabels
      exact absurd (of_decide_eq_true hnone) (h.labels i hi)
  · rw [if_neg hlabels, RepoGuard.launch]
    have hall : ∀ i ∈ final :: issues, issueLabels i ≠ none :=
      fun i hi hnone => hlabels (List.any_eq_true.mpr ⟨i, hi, decide_eq_true hnone⟩)
    by_cases hblocker : RepoGuard.contractHardBlocker (RepoGuard.launchContract py codes cfg.guard final) = ""
    · simp only [hblocker, ne_eq, not_true_eq_false, if_false, Except.ok.injEq]
      exact ⟨fun h => ⟨h, hall, hblocker⟩, fun h => h.1⟩
    · simp only [ne_eq, hblocker, not_false_eq_true, if_true, false_iff, reduceCtorEq]
      exact fun h => hblocker h.2.unblocked

theorem taskFromLinear_ok {issue : Issue} : LinearIntake.taskFromLinear py floats codes cfg a = .ok issue ↔
    ∃ issues chosen, LinearIntake.loadIssues py floats cfg a = some issues ∧
      LinearIntake.selectLinearIssue py floats codes cfg a issues = .ok chosen ∧
      LinearIntake.launchChosen py floats codes cfg a issues chosen = .ok issue := by
  rw [LinearIntake.taskFromLinear]
  cases LinearIntake.loadIssues py floats cfg a with
  | none => simp
  | some issues =>
    simp only [Option.some.injEq, exists_and_left, ↓existsAndEq, true_and]
    cases LinearIntake.selectLinearIssue py floats codes cfg a issues with
    | error e => simp
    | ok chosen => simp

/-- No listed issue is found by the selector. -/
theorem named_none {issues : List Issue} : LinearIntake.named py cfg issues = none ↔
    ∀ issue ∈ issues, LinearIntake.issueMatchesSelector py issue cfg.selector = false := by
  rw [LinearIntake.named, List.find?_eq_none]
  constructor
  · intro h issue hissue
    obtain ⟨i, hi, rfl⟩ := List.mem_iff_getElem.mp hissue
    have hmem : (issues[i], i) ∈ issues.zipIdx := List.mem_zipIdx_iff_getElem?.mpr (List.getElem?_eq_getElem hi)
    simpa using h (issues[i], i) hmem
  · intro h e he
    rw [h e.1 (List.fst_mem_of_mem_zipIdx he)]
    exact Bool.false_ne_true

theorem issueSelected_iff : IssueSelected py floats codes cfg a ↔ FirstIssueDenoted py floats codes cfg a := by
  constructor
  · intro h
    constructor
    · intro issues e hissues hnamed hstart hlaunch
      apply h
      refine taskFromLinear_ok.mpr ⟨issues, _, hissues, ?_, launchChosen_ok.mpr ⟨rfl, hlaunch⟩⟩
      rw [LinearIntake.selectLinearIssue, hnamed]
      exact selectNamed_ok.mpr ⟨rfl, hstart⟩
    · intro issues hissues hnone chosen hchosen hlaunch
      apply h
      refine taskFromLinear_ok.mpr ⟨issues, chosen, hissues, ?_, launchChosen_ok.mpr ⟨rfl, hlaunch⟩⟩
      rw [LinearIntake.selectLinearIssue, named_none.mpr hnone]
      exact hchosen
  · intro h issue hissue
    obtain ⟨issues, chosen, hissues, hchosen, hlaunch⟩ := taskFromLinear_ok.mp hissue
    obtain ⟨rfl, hlaunchable⟩ := launchChosen_ok.mp hlaunch
    rw [LinearIntake.selectLinearIssue] at hchosen
    cases hnamed : LinearIntake.named py cfg issues with
    | none =>
      rw [hnamed] at hchosen
      exact h.none issues hissues (named_none.mp hnamed) chosen hchosen hlaunchable
    | some e =>
      rw [hnamed] at hchosen
      obtain ⟨rfl, hstart⟩ := selectNamed_ok.mp hchosen
      exact h.first issues e hissues hnamed hstart hlaunchable

/-- Only denoted items and issues are returned exactly if the first item or issue that holds the
selector is refused or denoted, and, where none holds it, the automatic choice is. -/
theorem selected_iff (py : Runtime) (floats : JsonText.Floats) (codes : RepoGuard.IssueCodes) (project : Settings)
    (hproject : project.selector ≠ "") (build : Item → Except Refusal Unit) (items : List Item) (linear : LinearIntake.Settings)
    (a : LinearIntake.Answers) :
    (ItemSelected py project build items ↔ FirstItemDenoted py project build items) ∧
    (IssueSelected py floats codes linear a ↔ FirstIssueDenoted py floats codes linear a) :=
  ⟨itemSelected_iff hproject build items, issueSelected_iff⟩

end

/-! ## Examples -/

def todoItem (id title : String) : Item :=
  [("project_item_id", .str id), ("title", .str title), ("status_name", .str "Todo"),
    ("content", .obj [("title", .str title), ("number", .int 7)]), ("effective_status_name", .str "Todo"),
    ("effective_status_key", .str "todo")]

def sampleProject (selector : String) : Settings := ⟨selector, "", "acme", 1⟩

def twoItems : List Item := [todoItem "112" "Other work", todoItem "12" "The work"]

def twoIssues : List Issue :=
  [[("identifier", .str "ENG-12"), ("title", .str "Other work"), ("state", .str "Todo")],
    [("identifier", .str "ENG-1"), ("title", .str "The work"), ("state", .str "Todo")]]

open RepoGuard (sampleRuntime complete)
open LinearIntake (noFloats sampleSettings foundAll ran)

/-- The id of the item that is returned. -/
def returnedId (selector : String) : Option String :=
  (taskFromProject sampleRuntime (sampleProject selector) (fun _ => .ok ()) twoItems).toOption.map fun item =>
    fieldText sampleRuntime item "project_item_id"

/-- The selector of one item is found inside the id of another, and one that no item has is passed over. -/
theorem contained_selector :
    returnedId "12" = some "112" ∧ returnedId "99" = some "112" ∧
    ran (LinearIntake.taskFromLinear sampleRuntime noFloats complete (sampleSettings "ENG-1" "" "") (foundAll twoIssues)) =
      some ("ENG-12", some []) ∧
    ¬ ItemSelected sampleRuntime (sampleProject "12") (fun _ => .ok ()) twoItems := by
  refine ⟨by decide +kernel, by decide +kernel, by decide +kernel, fun h => ?_⟩
  have hfirst : (twoItems.find? fun item => holdsSelector sampleRuntime item (sampleProject "12").selector) =
      some (todoItem "112" "Other work") := by
    rw [twoItems, List.find?_cons_of_pos (by decide +kernel)]
  have hreturned := h (todoItem "112" "Other work")
    ((taskFromProject_named (by decide) hfirst).mpr ⟨rfl, by decide +kernel, rfl⟩)
  exact absurd hreturned (by decide +kernel)

/-- Where only one item holds the selector, it is returned. -/
theorem exact_selector : ItemSelected sampleRuntime (sampleProject "112") (fun _ => .ok ()) twoItems := by
  apply (selected_iff sampleRuntime noFloats complete (sampleProject "112") (by decide) (fun _ => .ok ()) twoItems
    (sampleSettings "ENG-1" "" "") (foundAll twoIssues)).1.mpr
  have hfirst : (twoItems.find? fun item => holdsSelector sampleRuntime item (sampleProject "112").selector) =
      some (todoItem "112" "Other work") := by
    rw [twoItems, List.find?_cons_of_pos (by decide +kernel)]
  constructor
  · intro item hitem _ _
    rw [hfirst] at hitem
    obtain rfl := Option.some.inj hitem
    decide +kernel
  · intro hall
    have hholds := hall (todoItem "112" "Other work") List.mem_cons_self
    exact absurd hholds (by decide +kernel)

end ProjectSelection
