import TandemAgents.DependencyAgreement

/-!
# Issue numbers of other repositories

A dependency that is an issue number is looked up among the tokens of all the other rows of the
store. The first done row that carries the number resolves it, wherever the row comes from.
-/
namespace OwnDependencies

open KeyedTable PythonText TaskContract CoordinationStore Statements Statements.Prog
open LeaseOperations WorkerOperations TaskOperations OperationRuns GuardedRuns StoreHistories HealthyLeases ReleaseCrash
open DependencyGate Scheduler

set_option maxRecDepth 20000

/-! ## What is asked of a resolution -/

/-- A bare issue number, or `#number`. -/
def isIssueReference (dependency : String) : Bool :=
  let text := strip dependency
  let digits := if text.toList.head? = some '#' then text.toList.tail else text.toList
  decide (digits ≠ []) && digits.all fun c => '0' ≤ c && c ≤ '9'

/-- The task of a claim, as its payload describes it. -/
def ownTask (a : ClaimArgs) : KnownTask := (newTaskRow a.task a.repo .queued 0).toKnown

/-- One repository, or one project. -/
def SameHome (t c : KnownTask) : Prop := taskRepoKey c = taskRepoKey t ∨ taskProjectKey c = taskProjectKey t

instance (t c : KnownTask) : Decidable (SameHome t c) := inferInstanceAs (Decidable (_ ∨ _))

/-- No dependency is resolved by the task itself, and an issue number only by a task of its
repository or its project. -/
structure ResolvesOwn (env : Env) (now : Int) (a : ClaimArgs) (s : Store) : Prop where
  own : ∀ r ∈ (claimDependencies env now a s).resolved, isIssueReference r.dependency = true →
    ∃ row, s.tasks.find? r.taskKey = some row ∧ SameHome (ownTask a) row.toKnown
  other : ∀ r ∈ (claimDependencies env now a s).resolved, r.taskKey ≠ a.key

/-- The first done task among some that carries a dependency among its tokens. -/
def firstDone (lower : String → String) (dependency : String) (known : List KnownTask) : Option KnownTask :=
  known.find? fun c => taskIsDone c && decide (DependencyNames lower dependency c)

/-! ## The lookup -/

theorem find_map_const {α β : Type} (p : α → Bool) (c : α) (l : List β) :
    (l.map fun _ => c).find? p = if l ≠ [] ∧ p c = true then some c else none := by
  induction l with
  | nil => simp
  | cons b l ih =>
    by_cases hp : p c = true
    · simp [hp]
    · simp [hp]

/-- The first done match is the first done task with the dependency among its tokens. -/
theorem find_matches (lower : String → String) (d : String) (known : List KnownTask) :
    (dependencyMatches lower known (normalizeDependencyToken lower d)).find? taskIsDone = firstDone lower d known := by
  induction known with
  | nil => rfl
  | cons c known ih =>
    have hnames : (taskReferenceTokens lower c).filter
        (fun t => decide (normalizeDependencyToken lower t = normalizeDependencyToken lower d)) ≠ [] ↔
        DependencyNames lower d c := by
      simp [DependencyNames, List.filter_eq_nil_iff]
    unfold dependencyMatches at ih ⊢
    rw [List.flatMap_cons, List.find?_append, find_map_const, ih, firstDone, firstDone, List.find?_cons]
    by_cases hdone : taskIsDone c = true
    · by_cases hname : DependencyNames lower d c
      · rw [if_pos ⟨hnames.mpr hname, hdone⟩]
        simp [hdone, hname]
      · rw [if_neg fun h => hname (hnames.mp h.1)]
        simp [hname]
    · rw [if_neg fun h => hdone h.2]
      simp [hdone]

/-- What is resolved: each declared dependency for which there is a first done task. -/
theorem mem_resolved {lower : String → String} {task : Task} {known : List KnownTask} {r : ResolvedDependency} :
    r ∈ (dependencyStatusForTask lower task (some known)).resolved ↔
      ∃ d ∈ declaredDependencies task, ∃ c, firstDone lower d known = some c ∧
        r = ⟨d, c.taskKey, c.taskId, normalizedStatus lower (orElse c.status c.state.text)⟩ := by
  have hone : ∀ d, (resolveDependency lower known d).getLeft? = (firstDone lower d known).map fun c =>
      ⟨d, c.taskKey, c.taskId, normalizedStatus lower (orElse c.status c.state.text)⟩ := by
    intro d
    rw [← find_matches]
    cases hf : (dependencyMatches lower known (normalizeDependencyToken lower d)).find? taskIsDone with
    | none => simp [resolveDependency, hf]
    | some c => simp [resolveDependency, hf]
  unfold dependencyStatusForTask
  by_cases hnil : (declaredDependencies task).isEmpty = true
  · simp [List.isEmpty_iff.mp hnil]
  · simp only [hnil, Bool.false_eq_true, if_false, List.mem_filterMap, List.mem_map]
    constructor
    · rintro ⟨-, ⟨d, hd, rfl⟩, hr⟩
      rw [hone d] at hr
      obtain ⟨c, hc, rfl⟩ := Option.map_eq_some_iff.mp hr
      exact ⟨d, hd, c, hc, rfl⟩
    · rintro ⟨d, hd, c, hc, rfl⟩
      refine ⟨_, ⟨d, hd, rfl⟩, ?_⟩
      rw [hone d, hc, Option.map_some]

/-- The same for a claim, which asks all the other rows of the store. -/
theorem mem_claimResolved {env : Env} {now : Int} {a : ClaimArgs} {s : Store} {r : ResolvedDependency} :
    r ∈ (claimDependencies env now a s).resolved ↔
      ∃ d ∈ declaredDependencies a.task, ∃ c, firstDone env.lower d (knownTasks a.key (sweptStore now s)) = some c ∧
        r = ⟨d, c.taskKey, c.taskId, normalizedStatus env.lower (orElse c.status c.state.text)⟩ := by
  unfold claimDependencies knownOrNone
  by_cases hnil : (knownTasks a.key (sweptStore now s)).isEmpty = true
  · have hempty := List.isEmpty_iff.mp hnil
    have hnone : (dependencyStatusForTask env.lower a.task none).resolved = [] := by
      unfold dependencyStatusForTask
      by_cases h : (declaredDependencies a.task).isEmpty <;> simp [h]
    rw [if_pos hnil, hnone, hempty]
    simp [firstDone]
  · rw [if_neg hnil]
    exact mem_resolved

/-! ## Rows and their homes -/

/-- The home of a task does not depend on how far it is. -/
theorem SameTask.home {r r' : TaskRow} (h : SameTask r r') (t : KnownTask) :
    SameHome t r'.toKnown ↔ SameHome t r.toKnown := by
  have htwin : r'.toKnown = { r.toKnown with status := r'.status, state := r'.state } := by
    simp only [TaskRow.toKnown, h.key, h.payload, h.task]
  have hrepo : taskRepoKey r'.toKnown = taskRepoKey r.toKnown := (congrArg taskRepoKey htwin).trans rfl
  have hproject : taskProjectKey r'.toKnown = taskProjectKey r.toKnown := (congrArg taskProjectKey htwin).trans rfl
  rw [SameHome, SameHome, hrepo, hproject]

/-- What the gate asks is a row of another task, with the home it had before the sweeps. -/
theorem known_row {now : Int} {key : String} {s : Store} {c : KnownTask}
    (h : c ∈ knownTasks key (sweptStore now s)) :
    c.taskKey ≠ key ∧ ∃ row, s.tasks.find? c.taskKey = some row ∧ ∀ t, SameHome t c ↔ SameHome t row.toKnown := by
  obtain ⟨r', hr', hk, rfl⟩ := mem_knownTasks.mp h
  obtain ⟨row, hrow, hsame⟩ := (sameTasks_sweptStore now s).before _ r' hr'
  exact ⟨hk, row, hrow, SameTask.home hsame⟩

theorem firstDone_mem {lower : String → String} {d : String} {known : List KnownTask} {c : KnownTask}
    (h : firstDone lower d known = some c) : c ∈ known := List.mem_of_find?_eq_some h

/-! ## The condition -/

theorem ResolvesOwn.first {env : Env} {now : Int} {a : ClaimArgs} {s : Store} (h : ResolvesOwn env now a s) {d : String}
    (hd : d ∈ declaredDependencies a.task) (href : isIssueReference d = true) {c : KnownTask}
    (hc : firstDone env.lower d (knownTasks a.key (sweptStore now s)) = some c) : SameHome (ownTask a) c := by
  obtain ⟨row, hrow, hhome⟩ := h.own _ (mem_claimResolved.mpr ⟨d, hd, c, hc, rfl⟩) href
  obtain ⟨-, row', hrow', hiff⟩ := known_row (firstDone_mem hc)
  obtain rfl : row' = row := Option.some.inj (hrow'.symm.trans hrow)
  exact (hiff (ownTask a)).mpr hhome

/-- An issue number is resolved inside its own repository or project exactly when the first
done row that carries it, among the other rows as the sweeps leave them, stands there. -/
theorem resolvesOwn_iff (env : Env) (now : Int) (a : ClaimArgs) (s : Store) :
    ResolvesOwn env now a s ↔ ∀ d ∈ declaredDependencies a.task, isIssueReference d = true →
      ∀ c, firstDone env.lower d (knownTasks a.key (sweptStore now s)) = some c → SameHome (ownTask a) c := by
  constructor
  · intro h d hd href c hc
    exact h.first hd href hc
  · intro h
    constructor
    · intro r hr href
      obtain ⟨d, hd, c, hc, rfl⟩ := mem_claimResolved.mp hr
      obtain ⟨-, row, hrow, hiff⟩ := known_row (firstDone_mem hc)
      exact ⟨row, hrow, (hiff (ownTask a)).mp (h d hd href c hc)⟩
    · intro r hr
      obtain ⟨d, -, c, hc, rfl⟩ := mem_claimResolved.mp hr
      exact (known_row (firstDone_mem hc)).1

/-- An issue of a project, with its number and the issues it waits for. -/
def issueTask (repo number : String) (dependencies : List String) : Task where
  taskId := repo ++ "-" ++ number
  source := { type := "github_project", owner := repo, project := "1", repoName := repo, issueNumber := number }
  repo := { slug := repo }
  dependencies := dependencies

/-- A store with one done issue. -/
def doneIssueStore (repo number : String) : Store :=
  ((registerTask 0 (issueTask repo number []) {} .done).run Store.empty).2

/-- Issue 7 of another repository opens the gate of a task that waits for its own issue 7. -/
theorem foreign_issue_resolves :
    ¬ ResolvesOwn sqliteEnv 0 (claimBy "a" (issueTask "acme" "8" ["#7"])) (doneIssueStore "other" "7") := by
  intro h
  have hfirst : (firstDone sqliteEnv.lower "#7" (knownTasks (claimBy "a" (issueTask "acme" "8" ["#7"])).key
      (sweptStore 0 (doneIssueStore "other" "7")))).any
      (fun c => !decide (SameHome (ownTask (claimBy "a" (issueTask "acme" "8" ["#7"]))) c)) = true := by decide +kernel
  obtain ⟨c, hc, hforeign⟩ := Option.any_eq_true _ _ |>.mp hfirst
  have hown := h.first (by decide +kernel) (by decide +kernel) hc
  simp [hown] at hforeign

end OwnDependencies
