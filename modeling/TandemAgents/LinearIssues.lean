import TandemAgents.LinearTool
import TandemAgents.PullRequests

/-!
# Reading a Linear issue

An issue is a dictionary whose fields are named in several ways, and whose values may be
texts, numbers or dictionaries with a name. Each reader takes the first of its keys that has
a text. Statuses are compared by their normalised keys.
-/
namespace LinearIssues

open PythonText JsonData
open PullRequests (Runtime normalizeStatusKey)

set_option maxRecDepth 20000

abbrev Issue := Dict

def nameKeys : List String := ["name", "title", "identifier", "id", "key", "url"]

/-- The first of the keys with a text that is not empty. -/
def firstText (texts : List (String × String)) (keys : List String) : String :=
  ((keys.map fun key => (texts.lookup key).getD "").find? fun text => decide (text ≠ "")).getD ""

mutual

/-- `_linear_text`. -/
def linearText : Json → String
  | .str s => strip s
  | .bool true => "True"
  | .bool false => "False"
  | .int n => toString n
  | .float text => text
  | .obj fields => firstText (fieldTexts fields) nameKeys
  | _ => ""

/-- The texts of the fields, under their names. -/
def fieldTexts : List (String × Json) → List (String × String)
  | [] => []
  | (k, v) :: fields => (k, linearText v) :: fieldTexts fields

end

/-- The text of the first of the keys that has one. -/
def textAt (issue : Issue) (keys : List String) : String := firstText (fieldTexts issue) keys

/-! ## The readers -/

/-- `_linear_issue_identifier`. -/
def identifier (issue : Issue) : String := textAt issue ["identifier", "number", "key", "id"]

/-- `_linear_issue_id`. -/
def issueId (issue : Issue) : String := orElse (textAt issue ["id"]) (identifier issue)

/-- `_linear_issue_url`. -/
def issueUrl (issue : Issue) : String := textAt issue ["url", "web_url", "html_url", "app_url"]

/-- `_linear_issue_body`. -/
def issueBody (issue : Issue) : String := textAt issue ["description", "body", "content"]

def stateKeys : List String := ["state", "status", "workflow_state", "workflowState"]

/-- The status under one key: a text, or the name, title or type of a dictionary. -/
def statusText : Json → String
  | .obj d => linearText (((Dict.get d "name").or (Dict.get d "title")).or (Dict.get d "type"))
  | v => linearText v

/-- The type under one key: that of a dictionary. -/
def typeText : Json → String
  | .obj d => linearText ((Dict.get d "type").or (Dict.get d "category"))
  | _ => ""

def firstNonempty (texts : List String) (default : String) : String :=
  (texts.find? fun text => decide (text ≠ "")).getD default

/-- `_linear_issue_status`. -/
def issueStatus (issue : Issue) : String := firstNonempty (stateKeys.map fun key => statusText (issue.get key)) "Unknown"

/-- `_linear_issue_state_type`. -/
def issueStateType (issue : Issue) : String :=
  firstNonempty ((["state_type", "stateType", "status_type", "statusType"].map fun key => linearText (issue.get key)) ++
    stateKeys.map fun key => typeText (issue.get key)) ""

/-- The texts under one key: of the entries of a list, of the nodes or items of a dictionary, or of
the value. -/
def labelTexts (v : Json) : Option (List String) :=
  match v with
  | .arr items => some (items.map linearText)
  | .obj d => (((Dict.get d "nodes").or (Dict.get d "items")).toList).map fun entries => entries.map linearText
  | v => some [linearText v]

/-- `_linear_issue_labels`; a dictionary whose nodes cannot be listed is an error. -/
def issueLabels (issue : Issue) : Option (List String) :=
  (["labels", "label_names", "labelNames"].mapM fun key => labelTexts (issue.get key)).map fun texts =>
    (texts.flatten.filter fun text => decide (text ≠ "")).eraseDups

/-! ## Statuses -/

/-- `_split_csv` of a text. -/
def splitCsv (value : String) : List String :=
  ((value.toList.splitOn ',').map fun part => strip (String.ofList part)).filter fun part => decide (part ≠ "")

def actionableKeys : List String := ["backlog", "todo", "to_do", "ready", "unstarted", "triage"]

def doneKeys : List String := ["done", "complete", "completed", "closed", "canceled", "cancelled"]

def activeKeys : List String := ["in_progress", "started", "working", "review", "in_review"]

section
variable (py : Runtime)

/-- `normalize_linear_key`, which is written like `normalize_status_key`. -/
def normalizeLinearKey (value : String) : String := normalizeStatusKey py value

/-- `_linear_issue_priority`. -/
def issuePriority (issue : Issue) : Option Int :=
  py.int ((issue.get "priority").asDict.elim (issue.get "priority") fun d =>
    ((Dict.get d "value").or (Dict.get d "priority")).or (Dict.get d "level"))

/-- `linear_status_key_is_actionable`. -/
def statusKeyIsActionable (statusName stateType : String) : Bool :=
  let typeKey := normalizeLinearKey py stateType
  if typeKey ∈ ["backlog", "unstarted", "triage"] then true
  else if typeKey ∈ ["started", "completed", "canceled", "cancelled"] then false
  else decide (normalizeLinearKey py statusName ∈ actionableKeys)

/-- The keys of the configured statuses. -/
def configuredKeys (statuses : String) : List String := (splitCsv statuses).map (normalizeLinearKey py)

/-- `_linear_status_is_actionable`. -/
def statusIsActionable (statuses statusName stateType : String) : Bool :=
  if configuredKeys py statuses = [] then statusKeyIsActionable py statusName stateType
  else decide (normalizeLinearKey py statusName ∈ configuredKeys py statuses ∨
    normalizeLinearKey py stateType ∈ configuredKeys py statuses)

/-- `_linear_explicit_status_can_resume`. -/
def explicitStatusCanResume (statusName stateType : String) : Bool :=
  decide (normalizeLinearKey py stateType = "started" ∨ normalizeLinearKey py statusName ∈ ["in_progress", "started"])

end

end LinearIssues
