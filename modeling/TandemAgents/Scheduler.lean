import TandemAgents.TaskOperations

/-!
# The admission planner

`plan_task_admissions` lists the queued tasks and all tasks, gates the queued ones,
and admits from the rest, one per project and round, what the capacities and the file
scopes of the running tasks allow. What the planner asks of other services comes in
as `Services`.
-/
namespace Scheduler

open KeyedTable PythonText TaskContract CoordinationStore Statements Statements.Prog
open TaskOperations

set_option maxRecDepth 20000

/-- The settings of `cfg.scheduler`, `cfg.execution` and `cfg.triage` the planner reads. -/
structure Config where
  policy : String
  maxActiveTasks : Int
  maxConcurrentWorkerRuns : Int
  maxActiveTasksPerProject : Int
  maxActiveTasksPerRepo : Int
  queueDepthLimit : Int
  triageEnabled : Bool
  triageEnforce : Bool

inductive Verdict where
  | accepted | refused | needsClarification
  deriving DecidableEq, Repr

def Verdict.text : Verdict → String
  | .accepted => "accepted"
  | .refused => "refused"
  | .needsClarification => "needs_clarification"

structure TriageVerdict where
  verdict : Verdict
  issueClass : Option String
  reason : String
  deriving DecidableEq

/-- The reasons `_linear_mcp_status_blocker` gives. -/
inductive LinearReason where
  | statusUnavailable | notConfigured | authRequired
  deriving DecidableEq, Repr

def LinearReason.text : LinearReason → String
  | .statusUnavailable => "linear_mcp_status_unavailable"
  | .notConfigured => "linear_mcp_not_configured"
  | .authRequired => "linear_mcp_auth_required"

structure LinearBlocker where
  reason : LinearReason
  blockedReason : String
  authorizationUrl : Option String
  deriving DecidableEq

/-- An entry of `list_active_coder_task_refs`. -/
structure CoderRef where
  runId : String
  taskId : Option String
  taskKey : Option String

/-- What the planner asks of the triage rules, the Linear server, the run directories
and the backend choice. -/
structure Services where
  triageTask : KnownTask → TriageVerdict
  linearMcpStatusBlocker : Option LinearBlocker
  activeCoderRuns : List CoderRef
  taskExecutionBackend : KnownTask → String

/-- A task as `list_tasks` returns it. -/
structure Listed where
  task : KnownTask
  dependencyStatus : DependencyStatus
  deriving DecidableEq

/-! ## Keys and scopes of tasks -/

/-- `task_project_key`. -/
def taskProjectKey (t : KnownTask) : String :=
  let source := t.task.source
  let sourceType := orElse (strip source.type) (orElse (strip t.sourceType) "unknown")
  let project := orElse (strip source.project) (strip source.projectName)
  let path := orElse (strip source.boardPath) (strip source.path)
  let sourceName := orElse (strip source.sourceName) (strip t.task.projectName)
  let repoSlug := orElse (strip t.task.repo.slug) (strip t.repoSlug)
  let sourceRef := orElse (strip t.sourceRef) (orElse (strip source.item) (strip source.url))
  let fallback :=
    if repoSlug ≠ "" then sourceType ++ ":" ++ repoSlug
    else sourceType ++ ":" ++ orElse sourceRef (orElse (strip t.taskKey) "task")
  if sourceType = "github_project" ∧ (strip source.owner ≠ "" ∨ project ≠ "") then
    strip ("github_project:" ++ strip source.owner ++ "/" ++ project)
  else if sourceType = "linear" ∧ (strip source.team ≠ "" ∨ project ≠ "") then
    strip ("linear:" ++ strip source.team ++ "/" ++ orElse project "issues")
  else if (sourceType = "kanban_board" ∨ sourceType = "local_backlog") ∧ path ≠ "" then
    sourceType ++ ":" ++ path
  else if (sourceType = "manual" ∨ sourceType = "custom") ∧ sourceName ≠ "" then
    sourceType ++ ":" ++ sourceName
  else fallback

/-- `task_repo_key`. -/
def taskRepoKey (t : KnownTask) : String :=
  orElse (orElse (strip t.task.repo.slug) (strip t.repoSlug))
    (orElse (orElse (strip t.task.repo.path) (strip t.repoPath))
      (orElse (strip t.task.source.repoName) (orElse (strip t.task.source.repo)
        (orElse (strip t.taskKey) "repo"))))

/-- `_task_source_type`. -/
def taskSourceType (lower : String → String) (t : KnownTask) : String :=
  lower (orElse (strip t.task.source.type) (strip t.sourceType))

def dropDotSlash : List Char → List Char
  | '.' :: '/' :: cs => dropDotSlash cs
  | cs => cs

theorem dropDotSlash_suffix (text : List Char) : dropDotSlash text <:+ text := by
  fun_induction dropDotSlash text with
  | case1 rest ih => exact ih.trans ⟨['.', '/'], rfl⟩
  | case2 => exact List.suffix_refl _

/-- `_normalize_repo_relative_path`. -/
def normalizeRepoRelativePath (value : String) : String :=
  String.ofList ((dropDotSlash (replaceChar '\\' '/' (strip value)).toList).dropWhile (· = '/'))

abbrev Scope := List String

/-- `PurePosixPath(path).parts` of a relative path. -/
def pathParts (path : String) : Scope :=
  ((path.toList.splitOn '/').map String.ofList).filter (fun part => decide (part ≠ "" ∧ part ≠ "."))

/-- `task_file_scopes`: the files of the listed task, whose `target_files` are those of
its contract, and of the stored one. Each scope occurs once, where it was first seen. -/
def taskFileScopes (t : KnownTask) : List Scope :=
  ((t.task.files ++ t.task.contractTargetFiles ++ t.task.files ++ t.task.targetFiles).map
    (fun path => pathParts (normalizeRepoRelativePath path))).foldl
      (fun scopes parts => if parts = [] ∨ parts ∈ scopes then scopes else scopes ++ [parts]) []

/-- `_paths_overlap`. -/
def pathsOverlap (left right : Scope) : Bool :=
  let shared := min left.length right.length
  decide (left ≠ [] ∧ right ≠ [] ∧ left.take shared = right.take shared)

/-- `"/".join(parts)`. -/
def joinScope (parts : Scope) : String := String.intercalate "/" parts

/-- `_scope_mode`. -/
def scopeMode (t : KnownTask) : String := if taskFileScopes t = [] then "repo" else "files"

/-- `_project_key_filter`. -/
def projectKeyFilter (projectKeys : List String) : List String :=
  (projectKeys.map strip).filter (fun key => decide (key ≠ ""))

/-- Whether `_filter_project_tasks` keeps a task. -/
def inProjects (projectKeys : List String) (t : KnownTask) : Bool :=
  decide (projectKeyFilter projectKeys = [] ∨ taskProjectKey t ∈ projectKeyFilter projectKeys)

/-! ## The plan -/

inductive BlockReason where
  | triage (verdict : Verdict)
  | linear (reason : LinearReason)
  | dependencyBlocked
  | coderRunActive
  | projectCapacityReached
  | repoCapacityReached
  | repoOverlapReached
  | fileOverlapReached
  | workerConcurrencyReached
  | activeCapacityReached
  deriving DecidableEq, Repr

def BlockReason.text : BlockReason → String
  | .triage verdict => "triage_" ++ verdict.text
  | .linear reason => reason.text
  | .dependencyBlocked => "dependency_blocked"
  | .coderRunActive => "coder_run_active"
  | .projectCapacityReached => "project_capacity_reached"
  | .repoCapacityReached => "repo_capacity_reached"
  | .repoOverlapReached => "repo_overlap_reached"
  | .fileOverlapReached => "file_overlap_reached"
  | .workerConcurrencyReached => "worker_concurrency_reached"
  | .activeCapacityReached => "active_capacity_reached"

structure Blocked where
  taskKey : String
  projectKey : String
  repoKey : String
  reason : BlockReason
  blockedReason : Option String := none
  authorizationUrl : Option String := none
  triage : Option TriageVerdict := none
  scopeMode : Option String := none
  scopePaths : Option (List String) := none
  task : Option Listed := none

structure Admitted where
  taskKey : String
  projectKey : String
  repoKey : String
  executionBackend : String
  scopeMode : String
  scopePaths : List String
  triage : Option TriageVerdict
  task : Listed

structure Remaining where
  taskKey : String
  projectKey : String
  repoKey : String

structure PlanLimits where
  maxActiveTasks : Int
  maxConcurrentWorkerRuns : Int
  remainingActiveSlots : Int
  remainingWorkerSlots : Int
  maxActiveTasksPerProject : Int
  maxActiveTasksPerRepo : Int
  queueDepthLimit : Int

/-- `summarize_triage`, without the rate. -/
structure TriageSummary where
  enabled : Bool
  enforce : Bool
  total : Nat
  accepted : Nat
  refused : Nat
  needsClarification : Nat
  escalated : Nat

structure Plan where
  policy : String
  limits : PlanLimits
  queuedTasks : Nat
  activeTasks : Nat
  triage : TriageSummary
  admitted : List Admitted
  blocked : List Blocked
  remaining : List Remaining

/-! ## The gate before the queues -/

/-- An entry of the gating loop. -/
def gateEntry (reason : BlockReason) (t : Listed) : Blocked where
  taskKey := t.task.taskKey
  projectKey := taskProjectKey t.task
  repoKey := taskRepoKey t.task
  reason := reason
  scopeMode := some (scopeMode t.task)
  task := some t

/-- Triage is enforced and does not accept the task. -/
def withheldByTriage (cfg : Config) (x : Services) (t : KnownTask) : Bool :=
  cfg.triageEnabled && cfg.triageEnforce && decide ((x.triageTask t).verdict ≠ .accepted)

/-- `_linear_mcp_admission_blocker`, for a task among the queued ones. -/
def withheldByLinear (lower : String → String) (x : Services) (t : KnownTask) : Option LinearBlocker :=
  if taskSourceType lower t = "linear" then x.linearMcpStatusBlocker else none

/-- A coder run works on the task. -/
def coderRunActive (x : Services) (t : KnownTask) : Bool :=
  x.activeCoderRuns.any (fun run =>
    decide ((strip t.taskKey ≠ "" ∧ strip (run.taskKey.getD "") = strip t.taskKey) ∨
      (strip (t.taskId.getD "") ≠ "" ∧ strip (run.taskId.getD "") = strip (t.taskId.getD ""))))

/-- One round of the gating loop; `none` lets the task through to its queue. -/
def gateTask (lower : String → String) (cfg : Config) (x : Services) (t : Listed) : Option Blocked :=
  if withheldByTriage cfg x t.task then
    some { gateEntry (.triage (x.triageTask t.task).verdict) t with triage := some (x.triageTask t.task) }
  else match withheldByLinear lower x t.task with
    | some blocker =>
      some { gateEntry (.linear blocker.reason) t with
        blockedReason := some blocker.blockedReason, authorizationUrl := blocker.authorizationUrl }
    | none =>
      if t.dependencyStatus.blocked then
        some { gateEntry .dependencyBlocked t with blockedReason := t.dependencyStatus.blockedReason }
      else if coderRunActive x t.task then some (gateEntry .coderRunActive t)
      else none

/-! ## The queues of the projects -/

structure Queue where
  project : String
  tasks : List Listed

def Queue.push (project : String) (t : Listed) (q : Queue) : Queue := ⟨project, q.tasks ++ [t]⟩
def Queue.popleft (q : Queue) : Queue := ⟨q.project, q.tasks.tail⟩

theorem Queue.push_project (project : String) (t : Listed) (q : Queue) :
    (q.push project t).project = (Queue.mk project [t]).project := rfl
@[simp] theorem Queue.popleft_project (q : Queue) : q.popleft.project = q.project := rfl

/-- `grouped`, in the order in which its keys came. -/
abbrev Grouped := Table String Queue Queue.project

def groupTask (g : Grouped) (t : Listed) : Grouped :=
  g.upsert ⟨taskProjectKey t.task, [t]⟩ (Queue.push (taskProjectKey t.task) t)
    (Queue.push_project (taskProjectKey t.task) t)

/-- `sorted(grouped.keys())`. -/
def orderedProjects (g : Grouped) : List String :=
  (g.rows.map (·.project)).insertionSort (fun a b => a ≤ b)

/-! ## Capacities -/

/-- The four running tallies of the planner. -/
structure Ledger where
  activeByProject : String → Nat
  activeByRepo : String → Nat
  activeRepoLocked : String → Bool
  activeScopesByRepo : String → List Scope

def Ledger.empty : Ledger := ⟨fun _ => 0, fun _ => 0, fun _ => false, fun _ => []⟩

/-- Count a running or admitted task. -/
def Ledger.occupy (l : Ledger) (project repo : String) (scopes : List Scope) : Ledger where
  activeByProject := fun p => if p = project then l.activeByProject p + 1 else l.activeByProject p
  activeByRepo := fun r => if r = repo then l.activeByRepo r + 1 else l.activeByRepo r
  activeRepoLocked := fun r => if r = repo ∧ scopes = [] then true else l.activeRepoLocked r
  activeScopesByRepo := fun r =>
    if r = repo then l.activeScopesByRepo r ++ scopes else l.activeScopesByRepo r

def Ledger.ofActive (active : List Listed) : Ledger :=
  active.foldl (fun l t => l.occupy (taskProjectKey t.task) (taskRepoKey t.task) (taskFileScopes t.task)) .empty

/-- The limits as the planner normalizes them. -/
structure Capacity where
  maxTotal : Int
  maxPerProject : Int
  maxPerRepo : Int

/-- An entry of the admission loop. -/
def loopEntry (reason : BlockReason) (project : String) (t : Listed) : Blocked where
  taskKey := t.task.taskKey
  projectKey := project
  repoKey := taskRepoKey t.task
  reason := reason

/-- The five refusals of the admission loop, in its order. -/
def refuse (cap : Capacity) (l : Ledger) (project : String) (t : Listed) : Option Blocked :=
  let repo := taskRepoKey t.task
  let scopes := taskFileScopes t.task
  if cap.maxPerProject ≤ l.activeByProject project then some (loopEntry .projectCapacityReached project t)
  else if cap.maxPerRepo ≤ l.activeByRepo repo then some (loopEntry .repoCapacityReached project t)
  else if l.activeRepoLocked repo then
    some { loopEntry .repoOverlapReached project t with scopeMode := some (scopeMode t.task) }
  else if scopes = [] ∧ l.activeScopesByRepo repo ≠ [] then
    some { loopEntry .repoOverlapReached project t with scopeMode := some "repo" }
  else if (l.activeScopesByRepo repo).any (fun active => scopes.any (fun scope => pathsOverlap scope active)) then
    some { loopEntry .fileOverlapReached project t with
      scopeMode := some "files", scopePaths := some (scopes.map joinScope) }
  else none

/-! ## The admission loop -/

structure Loop where
  grouped : Grouped
  ledger : Ledger
  admitted : List Admitted
  blocked : List Blocked

def Loop.popleft (s : Loop) (project : String) : Loop :=
  { s with grouped := s.grouped.modify project Queue.popleft Queue.popleft_project }

def Loop.block (s : Loop) (project : String) (entry : Blocked) : Loop :=
  { s.popleft project with blocked := s.blocked ++ [entry] }

/-- `triage_by_key.get(...)`: the last verdict recorded under the key. -/
def triageByKey (cfg : Config) (x : Services) (queued : List Listed) (key : String) : Option TriageVerdict :=
  if cfg.triageEnabled then
    ((queued.filter (fun t => decide (strip t.task.taskKey ≠ "" ∧ strip t.task.taskKey = strip key))).getLast?).map
      (fun t => x.triageTask t.task)
  else none

def admittedEntry (cfg : Config) (x : Services) (queued : List Listed) (project : String) (t : Listed) :
    Admitted where
  taskKey := t.task.taskKey
  projectKey := project
  repoKey := taskRepoKey t.task
  executionBackend := x.taskExecutionBackend t.task
  scopeMode := scopeMode t.task
  scopePaths := (taskFileScopes t.task).map joinScope
  triage := triageByKey cfg x queued t.task.taskKey
  task := t

def Loop.admit (s : Loop) (entry : Admitted) : Loop :=
  { s.popleft entry.projectKey with
    admitted := s.admitted ++ [entry]
    ledger := s.ledger.occupy entry.projectKey entry.repoKey (taskFileScopes entry.task.task) }

/-- The first task of a project's queue. -/
def Loop.head? (s : Loop) (project : String) : Option Listed :=
  (s.grouped.find? project).bind (fun q => q.tasks.head?)

/-- One `for` loop over the ordered projects; the flag is `progressed`. -/
def admissionPass (cap : Capacity) (entry : String → Listed → Admitted) : List String → Loop → Bool × Loop
  | [], s => (false, s)
  | project :: projects, s =>
    match s.head? project with
    | none => admissionPass cap entry projects s
    | some candidate =>
      match refuse cap s.ledger project candidate with
      | some refusal => (true, (admissionPass cap entry projects (s.block project refusal)).2)
      | none =>
        let t := s.admit (entry project candidate)
        -- the `break` behind an admission
        if cap.maxTotal ≤ t.admitted.length then (true, t)
        else (true, (admissionPass cap entry projects t).2)

/-- `any(grouped.values())`. -/
def Loop.pending (s : Loop) : Bool := s.grouped.rows.any (fun q => decide (q.tasks ≠ []))

/-- The `while` loop, for at most `fuel` passes. -/
def admissionLoop (cap : Capacity) (entry : String → Listed → Admitted) (projects : List String) :
    Nat → Loop → Loop
  | 0, s => s
  | fuel + 1, s =>
    if s.admitted.length < cap.maxTotal ∧ s.pending then
      let pass := admissionPass cap entry projects s
      if pass.1 then admissionLoop cap entry projects fuel pass.2 else pass.2
    else s

/-! ## The planner -/

/-- `limit or cfg.scheduler.queue_depth_limit`, at least 1. -/
def requestedLimit (cfg : Config) (limit : Option Int) : Int :=
  max 1 (if limit.getD 0 = 0 then cfg.queueDepthLimit else limit.getD 0)

def fetchLimit (cfg : Config) (limit : Option Int) (projectKeys : List String) : Int :=
  if projectKeyFilter projectKeys = [] then requestedLimit cfg limit
  else max (requestedLimit cfg limit) (max cfg.queueDepthLimit 1000)

def summarizeTriage (cfg : Config) (verdicts : List Verdict) : TriageSummary where
  enabled := cfg.triageEnabled
  enforce := cfg.triageEnforce
  total := verdicts.length
  accepted := verdicts.count .accepted
  refused := verdicts.count .refused
  needsClarification := verdicts.count .needsClarification
  escalated := verdicts.count .refused + verdicts.count .needsClarification

/-- The entry of a task left in its queue once a total capacity is reached. -/
def drainedEntry (reason : BlockReason) (t : Listed) : Blocked where
  taskKey := t.task.taskKey
  projectKey := taskProjectKey t.task
  repoKey := taskRepoKey t.task
  reason := reason
  scopeMode := some (scopeMode t.task)
  scopePaths := some ((taskFileScopes t.task).map joinScope)

def remainingEntry (t : Listed) : Remaining := ⟨t.task.taskKey, taskProjectKey t.task, taskRepoKey t.task⟩

/-- What is left in the queues, in the order of `grouped.values()`. -/
def Loop.left (s : Loop) : List Listed := s.grouped.rows.flatMap (·.tasks)

section
variable (lower : String → String) (cfg : Config) (x : Services)

/-- What the gating loop blocks. -/
def gateBlocked (queued : List Listed) : List Blocked := queued.filterMap (gateTask lower cfg x)

/-- What the gating loop lets through, by project. -/
def groupedQueue (queued : List Listed) : Grouped :=
  (queued.filter (fun t => decide ((gateTask lower cfg x t).isNone = true))).foldl groupTask .empty

def maxActiveTotal : Int := max 1 cfg.maxActiveTasks
def maxWorkerRuns : Int := max 0 cfg.maxConcurrentWorkerRuns

def activeWorkerCount (active : List Listed) : Int := max active.length x.activeCoderRuns.length

def remainingActiveSlots (active : List Listed) : Int := max 0 (maxActiveTotal cfg - active.length)

def remainingWorkerSlots (active : List Listed) : Int :=
  if 0 < maxWorkerRuns cfg then max 0 (maxWorkerRuns cfg - activeWorkerCount x active)
  else remainingActiveSlots cfg active

def capacity (active : List Listed) : Capacity where
  maxTotal := min (remainingActiveSlots cfg active) (remainingWorkerSlots cfg x active)
  maxPerProject := max 1 cfg.maxActiveTasksPerProject
  maxPerRepo := max 1 cfg.maxActiveTasksPerRepo

/-- The state in which the admission loop starts. -/
def loopStart (queued active : List Listed) : Loop where
  grouped := groupedQueue lower cfg x queued
  ledger := .ofActive active
  admitted := []
  blocked := gateBlocked lower cfg x queued

/-- The admission loop. Each of its passes takes a task off a queue, so there are no
more of them than queued tasks. -/
def loopEnd (queued active : List Listed) : Loop :=
  admissionLoop (capacity cfg x active) (admittedEntry cfg x queued)
    (orderedProjects (groupedQueue lower cfg x queued)) queued.length (loopStart lower cfg x queued active)

/-- `capacity_reason`. -/
def capacityReason (active : List Listed) (admitted : Nat) : Option BlockReason :=
  if 0 < maxWorkerRuns cfg ∧ maxWorkerRuns cfg ≤ activeWorkerCount x active + admitted then
    some .workerConcurrencyReached
  else if maxActiveTotal cfg ≤ active.length + admitted then some .activeCapacityReached
  else none

/-- The plan for the queued tasks, next to the active tasks of all projects. -/
def planOf (projectKeys : List String) (limit : Option Int) (queued all : List Listed) : Plan :=
  let requested := (requestedLimit cfg limit).toNat
  let queued := (queued.filter (fun t => inProjects projectKeys t.task)).take requested
  let active := all.filter (fun t => t.task.state.isActive)
  let final := loopEnd lower cfg x queued active
  let reason := capacityReason cfg x active final.admitted.length
  { policy := cfg.policy
    limits :=
      { maxActiveTasks := maxActiveTotal cfg
        maxConcurrentWorkerRuns := maxWorkerRuns cfg
        remainingActiveSlots := remainingActiveSlots cfg active
        remainingWorkerSlots := remainingWorkerSlots cfg x active
        maxActiveTasksPerProject := (capacity cfg x active).maxPerProject
        maxActiveTasksPerRepo := (capacity cfg x active).maxPerRepo
        queueDepthLimit := cfg.queueDepthLimit }
    queuedTasks := queued.length
    activeTasks := ((active.filter (fun t => inProjects projectKeys t.task)).take requested).length
    triage := summarizeTriage cfg
      (if cfg.triageEnabled then queued.map (fun t => (x.triageTask t.task).verdict) else [])
    admitted := final.admitted
    blocked := final.blocked ++ (reason.map (fun r => final.left.map (drainedEntry r))).getD []
    remaining := if reason.isSome then [] else final.left.map remainingEntry }

end

/-- The rows `list_tasks` returns, as dictionaries. -/
def listed (rows : List (TaskRow × DependencyStatus)) : List Listed :=
  rows.map (fun r => ⟨r.1.toKnown, r.2⟩)

/-- `plan_task_admissions`. -/
def planTaskAdmissions (env : Env) (cfg : Config) (x : Services) (limit : Option Int)
    (projectKeys : List String) : LeaseOperations.Sql Plan := do
  let queued ← listTasks env { state := some .queued } (fetchLimit cfg limit projectKeys)
  let all ← listTasks env {} (fetchLimit cfg limit projectKeys)
  return planOf env.lower cfg x projectKeys limit (listed queued) (listed all)

end Scheduler
