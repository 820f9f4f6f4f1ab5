import TandemAgents.PullRequests

/-!
# The status of a project item

`update_project_item_status` and the cache it decides with. The cache file holds one record
an item: the baseline (`status_name`) and what was last observed. Where the file is empty, it
is made from the directories of earlier runs.
-/
namespace ProjectStatus

open PythonText JsonData PullRequests

set_option maxRecDepth 20000

/-- `GITHUB_PROJECT_ACTIONABLE_STATUS_KEYS`. -/
def actionableStatusKeys : List String := ["ready", "backlog", "todo", "todos"]

/-- `GITHUB_PROJECT_TERMINAL_STATUS_KEYS`. -/
def terminalStatusKeys : List String := ["done", "completed", "closed"]

/-- `GITHUB_PROJECT_ACTIVE_STATUS_KEYS`. -/
def activeStatusKeys : List String :=
  ["claimed", "active", "running", "in_progress", "planning", "worker_execution", "coder_execution", "review",
    "in_review", "testing"]

/-- `GITHUB_PROJECT_OPERATOR_ACTIONS`. -/
def operatorActions : List (String × String) :=
  [("connect_github_project", "Connect GitHub Project"), ("resync_outward", "Re-sync outward"),
    ("ignore_remote_drift", "Ignore remote drift"),
    ("start_new_run_from_reopened_item", "Start new run from reopened item")]

/-- An item of a project: the number of the project and of the item are numbers. -/
structure Item where
  owner : String
  project : Int
  itemId : Int

/-- The record that `_bootstrap_project_status_cache` makes of earlier runs; it passes over
a status that is blank. -/
structure Bootstrap where
  cache : Dict
  tidy : ∀ key, (((cache.get key).asDict.getD []).get "status_name").truthy = true →
    ∃ name, ((cache.get key).asDict.getD []).get "status_name" = .str name ∧ strip name ≠ ""

section
variable (py : Runtime)

/-- `_github_project_cache_key`. -/
def cacheKey (i : Item) : String :=
  py.lower (strip i.owner) ++ ":" ++ toString i.project ++ ":" ++ toString i.itemId

/-- `_github_project_status_source_is_observation`. -/
def isObservation (source : String) : Bool :=
  "github_project.intake.".toList.isPrefixOf (strip source).toList ||
    "github_project.board_snapshot.".toList.isPrefixOf (strip source).toList

/-- `_load_project_status_cache`, which leaves what it answers in the file. -/
def loadCache (file : Dict) (runs : Bootstrap) : Dict := if file.isEmpty then runs.cache else file

/-- `cache.get(key)`, as far as it is a dictionary. -/
def recordOf (cache : Dict) (i : Item) : Dict := (cache.get (cacheKey py i)).asDict.getD []

def baseRecord (i : Item) : Dict :=
  [("owner", .str (strip i.owner)), ("project", .int i.project), ("project_item_id", .int i.itemId)]

def observedFields (status source : String) (nowMs : Int) : Dict :=
  [("observed_status_name", .str status), ("observed_status_key", .str (normalizeStatusKey py status)),
    ("observed_source", .str source), ("observed_at_epoch_ms", .int nowMs)]

def baselineFields (status source : String) (nowMs : Int) : Dict :=
  [("status_name", .str status), ("status_key", .str (normalizeStatusKey py status)), ("source", .str source),
    ("updated_at_epoch_ms", .int nowMs)]

/-- `d.update(fields)`. -/
def update (d fields : Dict) : Dict := fields.foldl (fun d f => d.set f.1 f.2) d

/-- `remember_project_item_status`: the file afterwards. -/
def rememberProjectItemStatus (file : Dict) (runs : Bootstrap) (nowMs : Int) (i : Item) (statusName source : String) :
    Dict :=
  let status := strip statusName
  if strip i.owner = "" ∨ status = "" then file
  else
    let cache := loadCache file runs
    if isObservation source then
      let record := update (recordOf py cache i) (baseRecord i ++ observedFields py status source nowMs)
      let record :=
        if (record.get "status_name").truthy then record else update record (baselineFields py status source nowMs)
      cache.set (cacheKey py i) (.obj record)
    else
      cache.set (cacheKey py i)
        (.obj (baseRecord i ++ baselineFields py status source nowMs ++ observedFields py status source nowMs))

/-- `cached_project_item_status(…, baseline_only=True)` on the cache it has loaded. -/
def baselineOf (cache : Dict) (i : Item) : String :=
  if strip i.owner = "" then "" else strip (py.text ((recordOf py cache i).get "status_name"))

/-- The file that `cached_project_item_status` leaves. -/
def cachedFile (file : Dict) (runs : Bootstrap) (i : Item) : Dict :=
  if strip i.owner = "" then file else loadCache file runs

/-- `github_projects_readiness_message`, with actions of the table. -/
def githubProjectsReadinessMessage (mode detail : String) (actions : List String) : String :=
  let labels := actions.map (fun action => ((operatorActions.find? (fun a => decide (a.1 = action))).map Prod.snd).getD "")
  "GitHub Projects " ++ py.lower (strip mode) ++ " readiness degraded: " ++ strip detail ++ ". Operator actions: " ++
    commaJoin labels ++ "."

/-- What `task["source"]` says about the item. -/
structure TaskSource where
  item : Item
  statusFieldId : Option Int
  statusOptionMap : List (String × String)

def optionOf (source : TaskSource) (key : String) : String :=
  ((source.statusOptionMap.find? (fun o => decide (o.1 = key))).map Prod.snd).getD ""

/-- What stands in the way of a write. -/
def missingMetadata (source : TaskSource) (statusName : String) : List String :=
  (if source.statusFieldId.getD 0 = 0 then ["status_field_id"] else []) ++
    (if source.item.itemId = 0 then ["project_item_id"] else []) ++
      if optionOf source (normalizeStatusKey py statusName) = "" then ["status option for '" ++ statusName ++ "'"] else []

inductive Decision where
  | settled
  | diverged
  | skip
  | write
  deriving DecidableEq

/-- `reclaims_reopened_item`. -/
def Reclaims (current live target : String) : Prop :=
  normalizeStatusKey py current ∈ terminalStatusKeys ∧ normalizeStatusKey py live ∈ actionableStatusKeys ∧
    normalizeStatusKey py target = "in_progress"

instance (current live target : String) : Decidable (Reclaims py current live target) :=
  inferInstanceAs (Decidable (_ ∧ _ ∧ _))

/-- What is done about a target, from the baseline and the live status; both may be empty. -/
def decision (current live target : String) : Decision :=
  let targetKey := normalizeStatusKey py target
  let currentKey := normalizeStatusKey py current
  let liveKey := normalizeStatusKey py live
  if live ≠ "" then
    if liveKey = targetKey then .settled
    else if current ≠ "" ∧ liveKey ≠ currentKey ∧ ¬ Reclaims py current live target then .diverged
    else if liveKey ∈ terminalStatusKeys ∧ targetKey ∈ activeStatusKeys then .diverged
    else .write
  else if currentKey = targetKey then .skip
  else .write

/-- The arguments of `mcp.github.projects_write`. -/
structure Write where
  owner : String
  projectNumber : Int
  itemId : Int
  fieldId : Int
  value : String
  deriving DecidableEq

/-- What becomes of a write: the tool answers, or it fails, and then the item may have the
new status or not. -/
inductive Reply where
  | accepted
  | failed (message : String) (applied : Bool)

structure Answer where
  file : Dict
  sent : Option Write
  /-- What is returned, or the message of the error. -/
  result : Except String (Option String)

/-- `update_project_item_status`, where `live` is the status name that the fetched item
shows, empty if it could not be fetched or shows none. -/
def updateProjectItemStatus (file : Dict) (runs : Bootstrap) (nowMs : Int) (source : TaskSource) (statusName live : String)
    (reply : Reply) : Answer :=
  let missing := missingMetadata py source statusName
  if missing ≠ [] then
    ⟨file, none, .ok (some (githubProjectsReadinessMessage py "write" ("missing GitHub Project status metadata for target status '" ++
      statusName ++ "' (" ++ commaJoin missing ++ ")") ["connect_github_project"]))⟩
  else
    let file := cachedFile file runs source.item
    let current := baselineOf py file source.item
    match decision py current live statusName with
    | .settled =>
      ⟨rememberProjectItemStatus py file runs nowMs source.item statusName "github_mcp.update_project_item_status.live",
        none, .ok none⟩
    | .diverged =>
      ⟨file, none, .ok (some (githubProjectsReadinessMessage py "write" ("remote divergence detected for Project item " ++
        toString source.item.itemId ++ ": cached status '" ++ current ++ "', live status '" ++ live ++ "', target status '" ++
        statusName ++ "'") ["resync_outward", "ignore_remote_drift", "start_new_run_from_reopened_item"]))⟩
    | .skip => ⟨file, none, .ok none⟩
    | .write =>
      let write : Write := ⟨source.item.owner, source.item.project, source.item.itemId, source.statusFieldId.getD 0,
        optionOf source (normalizeStatusKey py statusName)⟩
      match reply with
      | .failed message _ => ⟨file, some write, .error message⟩
      | .accepted =>
        ⟨rememberProjectItemStatus py file runs nowMs source.item statusName "github_mcp.update_project_item_status",
          some write, .ok none⟩

end

end ProjectStatus
