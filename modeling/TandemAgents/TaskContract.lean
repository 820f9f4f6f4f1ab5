import TandemAgents.PythonText

/-!
# Task dictionaries and the dependency gate

`dependency_status_for_task` resolves the declared dependencies of a task against
a list of known tasks by comparing normalized reference tokens. The contract of a
task is what `task_contract_payload` returns for it; `lower` stands for
`str.lower`.
-/
namespace TaskContract

open PythonText

set_option maxRecDepth 20000

/-- The `source` dictionary of a task; a missing key reads as the empty text. -/
structure Source where
  type : String := ""
  cardId : String := ""
  item : String := ""
  projectItemId : String := ""
  itemId : String := ""
  owner : String := ""
  project : String := ""
  projectName : String := ""
  issueNumber : String := ""
  team : String := ""
  issueId : String := ""
  identifier : String := ""
  boardPath : String := ""
  path : String := ""
  prompt : String := ""
  sourceName : String := ""
  url : String := ""
  itemUrl : String := ""
  issueUrl : String := ""
  repoName : String := ""
  repo : String := ""
  deriving DecidableEq

structure Repo where
  slug : String := ""
  path : String := ""
  deriving DecidableEq

/-- A task as the sources hand it over, with the two lists of its contract that
scheduling reads. -/
structure Task where
  taskId : String := ""
  title : Option String := none
  source : Source := {}
  repo : Repo := {}
  projectName : String := ""
  files : List String := []
  targetFiles : List String := []
  dependencies : List String := []
  contractTargetFiles : List String := []
  deriving DecidableEq

/-- `TASK_STATES`. -/
inductive TaskState where
  | queued | claimed | active | review | blocked | done | stale
  deriving DecidableEq, Repr

def TaskState.text : TaskState → String
  | .queued => "queued"
  | .claimed => "claimed"
  | .active => "active"
  | .review => "review"
  | .blocked => "blocked"
  | .done => "done"
  | .stale => "stale"

/-- The states `_active_state` accepts. -/
def TaskState.isActive : TaskState → Bool
  | .claimed => true
  | .active => true
  | .review => true
  | _ => false

/-- The dictionary `row_to_task` builds from a stored row, as far as dependency
resolution and the planner read it: row columns over the stored task. -/
structure KnownTask where
  task : Task
  taskKey : String
  taskId : Option String
  sourceType : String
  sourceRef : String
  repoSlug : String
  repoPath : String
  status : String
  state : TaskState
  deriving DecidableEq

/-- `_task_is_done`. Stored states are lower case, so only `done` is left of the
two accepted spellings. -/
def taskIsDone (t : KnownTask) : Bool := decide (t.state = .done)

def normalizedStatus (lower : String → String) (value : String) : String := lower (strip value)

/-- The candidate tokens of `_task_reference_tokens`, before cleaning. The stored
task is both the dictionary itself and its `metadata.task`. -/
def rawTokens (lower : String → String) (t : KnownTask) : List String :=
  let norm := fun v => lower (strip v)
  let source := t.task.source
  [norm t.taskKey, norm (t.taskId.getD ""), norm t.sourceRef, replaceChar ':' '/' (norm t.taskKey),
    norm source.cardId, norm source.item, norm source.projectItemId, norm source.issueNumber,
    norm source.url, norm source.itemUrl, norm source.issueUrl, norm source.cardId, norm source.item,
    norm source.projectItemId, norm source.issueNumber]

/-- A token and, for `#...`, also what follows the mark. -/
def cleanToken (raw : String) : List String :=
  let token := strip raw
  if token = "" then []
  else if token.toList.head? = some '#' ∧ 1 < token.toList.length then
    [token, String.ofList token.toList.tail]
  else [token]

/-- `_task_reference_tokens`: a set, so each token occurs once. -/
def taskReferenceTokens (lower : String → String) (t : KnownTask) : List String :=
  ((rawTokens lower t).flatMap cleanToken).dedup

/-- `_normalize_dependency_token`. -/
def normalizeDependencyToken (lower : String → String) (value : String) : String :=
  lstripHash (lower (strip value))

structure ResolvedDependency where
  dependency : String
  taskKey : String
  taskId : Option String
  status : String
  deriving DecidableEq

inductive UnresolvedReason where
  | notDone
  | missing
  deriving DecidableEq, Repr

structure UnresolvedDependency where
  dependency : String
  matchedTaskKeys : List String
  matchedTaskIds : List String
  matchedStatuses : List String
  reason : UnresolvedReason
  deriving DecidableEq

structure DependencyStatus where
  declared : List String
  resolved : List ResolvedDependency
  unresolved : List UnresolvedDependency
  blocked : Bool
  satisfied : Option Bool
  unknown : Bool
  blockedReason : Option String
  deriving DecidableEq

/-- The dependencies of the contract that are not blank. -/
def declaredDependencies (task : Task) : List String :=
  task.dependencies.filter (fun entry => decide (strip entry ≠ ""))

/-- `lookup.get(token, [])`: a candidate is listed once for each of its tokens that
normalizes to the one looked up. -/
def dependencyMatches (lower : String → String) (known : List KnownTask) (token : String) :
    List KnownTask :=
  known.flatMap (fun candidate =>
    ((taskReferenceTokens lower candidate).filter
      (fun t => decide (normalizeDependencyToken lower t = token))).map (fun _ => candidate))

/-- One round of the loop over the declared dependencies. -/
def resolveDependency (lower : String → String) (known : List KnownTask) (dependency : String) :
    ResolvedDependency ⊕ UnresolvedDependency :=
  let found := dependencyMatches lower known (normalizeDependencyToken lower dependency)
  match found.find? taskIsDone with
  | some done =>
    .inl ⟨dependency, done.taskKey, done.taskId,
      normalizedStatus lower (orElse done.status done.state.text)⟩
  | none =>
    .inr ⟨dependency, (found.map (·.taskKey)).filter (fun k => decide (k ≠ "")),
      (found.filterMap (·.taskId)).filter (fun k => decide (k ≠ "")),
      found.map (fun m => normalizedStatus lower (orElse m.status m.state.text)),
      if found.isEmpty then .missing else .notDone⟩

/-- `dependency_status_for_task`; `none` is the caller that knows no other task. -/
def dependencyStatusForTask (lower : String → String) (task : Task)
    (knownTasks : Option (List KnownTask)) : DependencyStatus :=
  let declared := declaredDependencies task
  if declared.isEmpty then ⟨[], [], [], false, some true, false, none⟩
  else match knownTasks with
    | none => ⟨declared, [], [], false, none, true, none⟩
    | some known =>
      let outcomes := declared.map (resolveDependency lower known)
      let resolved := outcomes.filterMap Sum.getLeft?
      let unresolved := outcomes.filterMap Sum.getRight?
      let blocked := !unresolved.isEmpty
      ⟨declared, resolved, unresolved, blocked, some (!blocked), false,
        if blocked then some ("blocked by " ++ commaJoin (unresolved.map (·.dependency))) else none⟩

/-! ## What the gate decides -/

/-- A dependency names a task when one of the task's tokens normalizes to it. -/
def DependencyNames (lower : String → String) (dependency : String) (candidate : KnownTask) : Prop :=
  ∃ t ∈ taskReferenceTokens lower candidate,
    normalizeDependencyToken lower t = normalizeDependencyToken lower dependency

instance (lower : String → String) (d : String) (c : KnownTask) :
    Decidable (DependencyNames lower d c) := by unfold DependencyNames; infer_instance

/-- Every declared dependency names a known task that is done. -/
def DependenciesDone (lower : String → String) (task : Task) (known : List KnownTask) : Prop :=
  ∀ d ∈ declaredDependencies task, ∃ c ∈ known, DependencyNames lower d c ∧ c.state = .done

instance (lower : String → String) (t : Task) (known : List KnownTask) :
    Decidable (DependenciesDone lower t known) := by unfold DependenciesDone; infer_instance

theorem mem_dependencyMatches (lower : String → String) (known : List KnownTask) (d : String)
    (c : KnownTask) :
    c ∈ dependencyMatches lower known (normalizeDependencyToken lower d) ↔
      c ∈ known ∧ DependencyNames lower d c := by
  simp only [dependencyMatches, List.mem_flatMap, List.mem_map, List.mem_filter, decide_eq_true_eq,
    DependencyNames]
  constructor
  · rintro ⟨a, ha, t, ⟨ht, he⟩, rfl⟩
    exact ⟨ha, t, ht, he⟩
  · rintro ⟨hc, t, ht, he⟩
    exact ⟨c, hc, t, ⟨ht, he⟩, rfl⟩

/-- A dependency resolves exactly when a done task carries one of its names. -/
theorem resolveDependency_isLeft (lower : String → String) (known : List KnownTask) (d : String) :
    (resolveDependency lower known d).isLeft = true ↔
      ∃ c ∈ known, DependencyNames lower d c ∧ c.state = .done := by
  cases hf : (dependencyMatches lower known (normalizeDependencyToken lower d)).find? taskIsDone with
  | some c =>
    have hc := (mem_dependencyMatches lower known d c).mp (List.mem_of_find?_eq_some hf)
    have hd : taskIsDone c = true := List.find?_some hf
    simp only [resolveDependency, hf, Sum.isLeft_inl, true_iff]
    exact ⟨c, hc.1, hc.2, by simpa [taskIsDone] using hd⟩
  | none =>
    simp only [resolveDependency, hf, Sum.isLeft_inr, Bool.false_eq_true, false_iff]
    rintro ⟨c, hc, hn, hd⟩
    have hmem := (mem_dependencyMatches lower known d c).mpr ⟨hc, hn⟩
    exact absurd (by simp [taskIsDone, hd]) (List.find?_eq_none.mp hf c hmem)

@[simp] theorem dependencyStatus_of_none (lower : String → String) (task : Task) :
    (dependencyStatusForTask lower task none).blocked = false := by
  unfold dependencyStatusForTask
  by_cases h : (declaredDependencies task).isEmpty <;> simp [h]

/-- Against a list of known tasks the gate blocks exactly the tasks with a
declared dependency that names no done one. -/
theorem dependencyStatus_blocked (lower : String → String) (task : Task) (known : List KnownTask) :
    (dependencyStatusForTask lower task (some known)).blocked = true ↔
      ¬ DependenciesDone lower task known := by
  unfold dependencyStatusForTask DependenciesDone
  by_cases h : (declaredDependencies task).isEmpty
  · simp [List.isEmpty_iff.mp h]
  · simp only [h, Bool.false_eq_true, if_false, Bool.not_eq_true', List.isEmpty_eq_false_iff, ne_eq,
      List.filterMap_eq_nil_iff, List.mem_map, forall_exists_index, and_imp, forall_apply_eq_imp_iff₂]
    refine not_congr (forall₂_congr fun d hd => ?_)
    rw [← resolveDependency_isLeft]
    cases resolveDependency lower known d <;> simp

end TaskContract
