import Mathlib.Data.List.Pairwise
import TandemAgents.AdmissionLoop
import TandemAgents.DependencyAgreement

/-!
# What a plan admits runs apart

Each admitted task is compared with every active task and with every task admitted
before it: of one repository both name their files, and these do not overlap. No
capacity is exceeded that the active tasks did not exceed before.
-/
namespace AdmissionIsolation

open KeyedTable PythonText TaskContract CoordinationStore Statements Statements.Prog
open TaskOperations StoreHistories Scheduler AdmissionLoop DependencyAgreement

set_option maxRecDepth 20000

/-- The capacity is exceeded by the active tasks alone, and then nothing is admitted. -/
def Within (cap : Int) (active admitted : Nat) : Prop := cap < active + admitted → cap < active ∧ admitted = 0

instance (cap : Int) (active admitted : Nat) : Decidable (Within cap active admitted) := by
  unfold Within; infer_instance

theorem Within.zero (cap : Int) (active : Nat) : Within cap active 0 := by
  intro h
  exact ⟨by omega, rfl⟩

/-- There is room for one more below the capacity. -/
theorem Within.room {cap : Int} {active admitted : Nat} (h : (active + admitted : Int) < cap) :
    Within cap active (admitted + 1) := by
  intro hlt
  omega

def admittedTasks (admitted : List Admitted) : List KnownTask := admitted.map (·.task.task)

/-- A plan next to the active tasks. -/
structure Isolated (cfg : Config) (active : List KnownTask) (p : Plan) : Prop where
  apart : ∀ t ∈ active ++ admittedTasks p.admitted, ∀ u ∈ active ++ admittedTasks p.admitted,
    t.taskKey ≠ u.taskKey → t ∈ admittedTasks p.admitted ∨ u ∈ admittedTasks p.admitted → Apart t u
  total : Within (max 1 cfg.maxActiveTasks) active.length p.admitted.length
  perProject : ∀ project, Within (max 1 cfg.maxActiveTasksPerProject)
    (active.countP (fun t => taskProjectKey t = project))
    ((admittedTasks p.admitted).countP (fun t => taskProjectKey t = project))
  perRepo : ∀ repo, Within (max 1 cfg.maxActiveTasksPerRepo)
    (active.countP (fun t => taskRepoKey t = repo))
    ((admittedTasks p.admitted).countP (fun t => taskRepoKey t = repo))

/-! ## One admission -/

/-- What every visit keeps, next to the active tasks. -/
structure Safe (cap : Capacity) (active : List KnownTask) (s : Loop) : Prop where
  sorted : Sorted s.grouped
  ledger : s.ledger = tally (active ++ admittedTasks s.admitted)
  others : ∀ u ∈ active, ∀ t ∈ admittedTasks s.admitted, Apart u t
  pairwise : (admittedTasks s.admitted).Pairwise Apart
  total : s.admitted = [] ∨ (s.admitted.length : Int) ≤ cap.maxTotal
  perProject : ∀ project, Within cap.maxPerProject (active.countP (fun t => taskProjectKey t = project))
    ((admittedTasks s.admitted).countP (fun t => taskProjectKey t = project))
  perRepo : ∀ repo, Within cap.maxPerRepo (active.countP (fun t => taskRepoKey t = repo))
    ((admittedTasks s.admitted).countP (fun t => taskRepoKey t = repo))

theorem Safe.block {cap : Capacity} {active : List KnownTask} {s : Loop} (h : Safe cap active s)
    (project : String) (e : Blocked) : Safe cap active (s.block project e) :=
  { h with sorted := h.sorted.popleft project }

/-- One more task counts for its own key only. -/
theorem within_snoc {cap : Int} {key : KnownTask → String} {active admitted : List KnownTask} {t : KnownTask}
    (h : ∀ k, Within cap (active.countP (fun u => key u = k)) (admitted.countP (fun u => key u = k)))
    (hroom : ((active ++ admitted).countP (fun u => key u = key t) : Int) < cap) (k : String) :
    Within cap (active.countP (fun u => key u = k)) ((admitted ++ [t]).countP (fun u => key u = k)) := by
  rw [List.countP_append] at hroom ⊢
  by_cases hk : key t = k
  · subst hk
    have hone : [t].countP (fun u => key u = key t) = 1 := by simp
    rw [hone]
    exact Within.room (by push_cast at hroom; exact hroom)
  · have hzero : [t].countP (fun u => key u = k) = 0 := by simp [hk]
    rw [hzero]
    exact h k

theorem Safe.admitted {cap : Capacity} {active : List KnownTask} {s : Loop} (h : Safe cap active s) {e : Admitted}
    (hproject : e.projectKey = taskProjectKey e.task.task) (hrepo : e.repoKey = taskRepoKey e.task.task)
    (hrefuse : refuse cap s.ledger e.projectKey e.task = none)
    (hroom : (s.admitted.length : Int) < cap.maxTotal) : Safe cap active ( s.admit e) := by
  rw [h.ledger, refuse_none_iff, hproject] at hrefuse
  obtain ⟨hp, hr, hapart⟩ := hrefuse
  have hadm : admittedTasks ( s.admit e).admitted = admittedTasks s.admitted ++ [e.task.task] := by
    rw [Loop.admit_admitted, admittedTasks, List.map_append]
    rfl
  constructor
  · exact h.sorted.popleft e.projectKey
  · rw [Loop.admit_ledger, hadm, ← List.append_assoc, tally_snoc, h.ledger, hproject, hrepo]
  · rw [hadm]
    intro u hu v hv
    obtain hv | hv := List.mem_append.mp hv
    · exact h.others u hu v hv
    · rw [List.mem_singleton.mp hv]
      exact hapart u (List.mem_append_left _ hu)
  · rw [hadm, List.pairwise_append]
    refine ⟨h.pairwise, List.pairwise_singleton _ _, fun u hu v hv => ?_⟩
    rw [List.mem_singleton.mp hv]
    exact hapart u (List.mem_append_right _ hu)
  · right
    have hlen : ( s.admit e).admitted.length = s.admitted.length + 1 := by
      rw [Loop.admit_admitted, List.length_append, List.length_singleton]
    rw [hlen]
    push_cast
    omega
  · rw [hadm]
    exact within_snoc h.perProject hp
  · rw [hadm]
    exact within_snoc h.perRepo hr

/-! ## The plan -/

section
variable {lower : String → String} {cfg : Config} {x : Services} {projectKeys : List String} {limit : Option Int}

variable (lower cfg x) in
theorem loopEnd_safe (queued active : List Listed) :
    Safe (capacity cfg x active) (active.map (·.task)) (loopEnd lower cfg x queued active) := by
  refine loopEnd_invariant ?_ (fun s project t e h _ _ => h.block project e) fun s project t h ht hr hroom => ?_
  rotate_left
  · refine h.admitted ?_ ?_ hr hroom
    · rw [admittedEntry_projectKey, admittedEntry_task, h.sorted.head ht]
    · rw [admittedEntry_repoKey, admittedEntry_task]
  constructor
  · exact groupedQueue_sorted lower cfg x queued
  · have hledger : (loopStart lower cfg x queued active).ledger = Ledger.ofActive active := rfl
    rw [hledger, tally_ofActive]
    exact congrArg tally (List.append_nil _).symm
  · exact fun u _ t ht => by cases ht
  · exact List.Pairwise.nil
  · exact .inl rfl
  · exact fun project => Within.zero _ _
  · exact fun repo => Within.zero _ _

variable (cfg x) in
theorem maxTotal_le (active : List Listed) : (capacity cfg x active).maxTotal ≤ max 0 (max 1 cfg.maxActiveTasks - active.length) :=
  min_le_left _ _

/-- Two tasks of different keys among those a plan counts run apart. -/
theorem planOf_isolated (queued all : List Listed) :
    Isolated cfg ((all.filter (fun t => t.task.state.isActive)).map (·.task))
      (planOf lower cfg x projectKeys limit queued all) := by
  have h := loopEnd_safe lower cfg x
    ((queued.filter (fun t => inProjects projectKeys t.task)).take (requestedLimit cfg limit).toNat)
    (all.filter (fun t => t.task.state.isActive))
  constructor
  · intro t ht u hu hkey hone
    have hne : t ≠ u := fun heq => hkey (congrArg KnownTask.taskKey heq)
    obtain ht | ht := List.mem_append.mp ht
    · obtain hu | hu := List.mem_append.mp hu
      · obtain hone | hone := hone
        · exact (h.others u hu t hone).symm
        · exact h.others t ht u hone
      · exact h.others t ht u hu
    · obtain hu | hu := List.mem_append.mp hu
      · exact (h.others u hu t ht).symm
      · exact h.pairwise.forall ht hu hne
  · have hcap := maxTotal_le cfg x (all.filter (fun t => t.task.state.isActive))
    intro hlt
    rw [List.length_map] at hlt ⊢
    obtain hnil | hle := h.total
    · have hlen := congrArg List.length hnil
      rw [List.length_nil] at hlen
      have hadm : (planOf lower cfg x projectKeys limit queued all).admitted.length = 0 := hlen
      omega
    · have hadm := hle.trans hcap
      change ((planOf lower cfg x projectKeys limit queued all).admitted.length : Int) ≤ _ at hadm
      omega
  · exact h.perProject
  · exact h.perRepo

end

/-! ## The whole store -/

/-- The tasks of a store that run. -/
def activeTasks (s : Store) : List KnownTask := (s.tasks.rows.filter (fun r => r.state.isActive)).map TaskRow.toKnown

theorem Isolated.of_perm {cfg : Config} {active active' : List KnownTask} {p : Plan} (h : Isolated cfg active p)
    (hperm : active.Perm active') : Isolated cfg active' p where
  apart t ht u hu := h.apart t ((hperm.append_right _).mem_iff.mpr ht) u ((hperm.append_right _).mem_iff.mpr hu)
  total := hperm.length_eq ▸ h.total
  perProject project := hperm.countP_eq _ ▸ h.perProject project
  perRepo repo := hperm.countP_eq _ ▸ h.perRepo repo

/-- The active tasks listed are the active ones among the rows selected. -/
theorem listed_active_eq (env : Env) (limit : Int) (s : Store) :
    ((listed (listedRows env {} limit s)).filter (fun t => t.task.state.isActive)).map (·.task) =
      ((selectTasks {} limit s).filter (fun r => r.state.isActive)).map TaskRow.toKnown := by
  unfold listed listedRows
  rw [List.map_map, List.filter_map, List.map_map]
  rfl

theorem selectTasks_all (limit : Int) (s : Store) : selectTasks {} limit s =
    (s.tasks.rows.insertionSort (fun a b => b.updatedAtMs ≤ a.updatedAtMs)).take (max 1 limit).toNat := by
  have hselect : s.tasks.select (TaskFilter.accepts {}) = s.tasks.rows :=
    List.filter_eq_self.mpr fun r _ => rfl
  rw [selectTasks, hselect]

/-- With room for every row the active tasks listed are those of the store. -/
theorem listed_active {env : Env} {limit : Int} {s : Store} (h : (s.tasks.rows.length : Int) ≤ limit) :
    (((listed (listedRows env {} limit s)).filter (fun t => t.task.state.isActive)).map (·.task)).Perm
      (activeTasks s) := by
  have hlen : (s.tasks.rows.insertionSort (fun a b => b.updatedAtMs ≤ a.updatedAtMs)).length ≤
      (max 1 limit).toNat := by
    rw [List.length_insertionSort]
    omega
  rw [listed_active_eq, selectTasks_all, List.take_of_length_le hlen]
  exact ((List.perm_insertionSort _ _).filter _).map _

/-- The plan for a store whose rows all fit into one fetch: of two different tasks that
are active or admitted, one of them admitted, and of one repository, both name their
files and these do not overlap, and no capacity is exceeded beyond what the active tasks
exceed. -/
theorem plan_isolated (env : Env) (cfg : Config) (x : Services) (limit : Option Int) (projectKeys : List String)
    (s : Store) (hfit : (s.tasks.rows.length : Int) ≤ fetchLimit cfg limit projectKeys) :
    ∃ p, (planTaskAdmissions env cfg x limit projectKeys).run s = (some p, s) ∧ Isolated cfg (activeTasks s) p :=
  ⟨_, run_planTaskAdmissions env cfg x limit projectKeys s, (planOf_isolated _ _).of_perm (listed_active hfit)⟩

/-- One task runs and one is queued. -/
theorem running_plan_isolated : ∃ p, (planTaskAdmissions sqliteEnv plainConfig plainServices none []).run runningStore =
    (some p, runningStore) ∧ Isolated plainConfig (activeTasks runningStore) p :=
  plan_isolated sqliteEnv plainConfig plainServices none [] runningStore (by decide +kernel)

end AdmissionIsolation
