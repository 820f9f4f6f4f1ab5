import TandemAgents.JsonData
import TandemAgents.AdmissionCapacity

/-!
# Runs that a coder works on

The planner learns from the run directories which tasks a coder works on. It looks at the
directories in the order of their times, newest first, and at no more runs than the size of a
batch, so that the tasks of further runs are free to be admitted again.
-/
namespace ActiveCoderRuns

open KeyedTable PythonText JsonData TaskContract CoordinationStore Statements Statements.Prog
open TaskOperations GuardedRuns StoreHistories Scheduler AdmissionLoop AdmissionIsolation AdmissionFairness DependencyAgreement
open AdmissionCapacity

set_option maxRecDepth 20000

/-- An entry of the output directory; an unreadable status is the empty one. -/
structure RunDir where
  name : String
  isDir : Bool
  mtime : Int
  hasStatus : Bool
  hasBlackboard : Bool
  status : Dict

section
variable (py : Python)

def startsWith (name : String) (start : String) : Bool := start.toList.isPrefixOf name.toList

/-- `_is_run_directory`. -/
def isRunDirectory (d : RunDir) : Bool :=
  d.isDir && !(decide (d.name = "state") || decide (d.name = "browser-tests") || startsWith d.name "_" || startsWith d.name ".") &&
    (startsWith d.name "run-" || startsWith d.name "sched-" || startsWith d.name "qa-" || startsWith d.name "bak-run-") &&
    (d.hasStatus || d.hasBlackboard)

/-- `_normalize_status`. -/
def normalizeStatus (v : Json) : String :=
  let normalized := py.lower (strip (py.text v))
  if normalized = "canceled" then "cancelled" else normalized

/-- The run is not over and in the hands of a coder. -/
def inCoderExecution (status : Dict) : Bool :=
  match (status.get "run").asDict, (status.get "phase").asDict with
  | some run, some phase =>
    (["created", "running"].contains (normalizeStatus py (run.get "status"))) &&
      decide (strip (py.text (phase.get "name")) = "coder_execution")
  | _, _ => false

/-- A run in the hands of a coder. -/
def isCoderRun (d : RunDir) : Bool := isRunDirectory d && inCoderExecution py d.status

/-- `status["coordination"]` can be asked for a key. -/
def readable (d : RunDir) : Bool :=
  !(d.status.get "coordination").truthy || (d.status.get "coordination").asDict.isSome

/-- The entry of a run. -/
def refOf (d : RunDir) : CoderRef where
  runId := d.name
  taskId := ((d.status.get "task").asDict).map (fun task => py.text (task.get "task_id"))
  taskKey := some (py.text (((d.status.get "coordination").asDict.getD []).get "task_key"))

/-- `max(1, int(limit or cfg.execution.coder_supervisor_batch_size or 100))`, without a limit. -/
def batchSize (configured : Int) : Nat := (max 1 (if configured = 0 then 100 else configured)).toNat

/-- The loop over the directories; nothing where it raises. -/
def collectRefs (batch : Nat) : List RunDir → List CoderRef → Option (List CoderRef)
  | [], refs => some refs
  | d :: dirs, refs =>
    if batch ≤ refs.length then some refs
    else if isRunDirectory d = false then collectRefs batch dirs refs
    else if inCoderExecution py d.status = false then collectRefs batch dirs refs
    else if readable d then collectRefs batch dirs (refs ++ [refOf py d])
    else none

def newestFirst (dirs : List RunDir) : List RunDir := dirs.insertionSort (fun a b => b.mtime ≤ a.mtime)

/-- `list_active_coder_task_refs`. -/
def listActiveCoderTaskRefs (configured : Int) (dirs : List RunDir) : Option (List CoderRef) :=
  collectRefs py (batchSize configured) (newestFirst dirs) []

/-- The runs that a coder works on, newest first. -/
def coderRuns (dirs : List RunDir) : List RunDir := (newestFirst dirs).filter (isCoderRun py)

/-- The task is the one of the run, by its key or by its id. -/
def Belongs (d : RunDir) (t : KnownTask) : Prop :=
  (strip t.taskKey ≠ "" ∧ strip ((refOf py d).taskKey.getD "") = strip t.taskKey) ∨
    (strip (t.taskId.getD "") ≠ "" ∧ strip ((refOf py d).taskId.getD "") = strip (t.taskId.getD ""))

instance (d : RunDir) (t : KnownTask) : Decidable (Belongs py d t) := inferInstanceAs (Decidable (_ ∨ _))

/-- No admitted task has a coder run, and all coder runs are counted as workers. -/
structure NoSecondRun (dirs : List RunDir) (x : Services) (active : List Listed) (p : Plan) : Prop where
  admitted : ∀ t ∈ admittedTasks p.admitted, ∀ d ∈ coderRuns py dirs, ¬ Belongs py d t
  counted : ((coderRuns py dirs).length : Int) ≤ activeWorkerCount x active

/-! ## What is listed -/

variable {py}

/-- The loop lists the first runs, as many as the batch has room for. -/
theorem collectRefs_eq (batch : Nat) (dirs : List RunDir) (refs : List CoderRef) :
    collectRefs py batch dirs refs =
      if ∀ d ∈ (dirs.filter (isCoderRun py)).take (batch - refs.length), readable d = true then
        some (refs ++ ((dirs.filter (isCoderRun py)).take (batch - refs.length)).map (refOf py))
      else none := by
  induction dirs generalizing refs with
  | nil => simp [collectRefs]
  | cons d dirs ih =>
    rw [collectRefs]
    by_cases hfull : batch ≤ refs.length
    · have hnone : batch - refs.length = 0 := by omega
      simp [hfull, hnone]
    rw [if_neg hfull]
    cases hdir : isRunDirectory d with
    | false =>
      have hnot : isCoderRun py d = false := by rw [isCoderRun, hdir, Bool.false_and]
      rw [if_pos rfl, ih, List.filter_cons_of_neg (by simp [hnot])]
    | true =>
      rw [if_neg (by simp)]
      cases hstatus : inCoderExecution py d.status with
      | false =>
        have hnot : isCoderRun py d = false := by rw [isCoderRun, hstatus, Bool.and_false]
        rw [if_pos rfl, ih, List.filter_cons_of_neg (by simp [hnot])]
      | true =>
        have hrun : isCoderRun py d = true := by rw [isCoderRun, hdir, hstatus, Bool.and_self]
        obtain ⟨room, hroom⟩ : ∃ room, batch - refs.length = room + 1 := ⟨batch - refs.length - 1, by omega⟩
        have hrest : batch - (refs ++ [refOf py d]).length = room := by
          rw [List.length_append, List.length_singleton]
          omega
        rw [if_neg (by simp), List.filter_cons_of_pos hrun, hroom, List.take_succ_cons]
        cases hread : readable d with
        | false => simp [hread]
        | true =>
          rw [if_pos rfl, ih, hrest]
          simp [hread]

/-- What is listed, where nothing raises. -/
theorem listActive_eq (configured : Int) (dirs : List RunDir) :
    listActiveCoderTaskRefs py configured dirs =
      if ∀ d ∈ (coderRuns py dirs).take (batchSize configured), readable d = true then
        some (((coderRuns py dirs).take (batchSize configured)).map (refOf py))
      else none := by
  rw [listActiveCoderTaskRefs, collectRefs_eq, List.length_nil, Nat.sub_zero, List.nil_append, coderRuns]

theorem coderRunActive_iff {x : Services} {runs : List RunDir} (hx : x.activeCoderRuns = runs.map (refOf py)) (t : KnownTask) :
    coderRunActive x t = true ↔ ∃ d ∈ runs, Belongs py d t := by
  rw [coderRunActive, hx, List.any_map, List.any_eq_true]
  constructor
  · rintro ⟨d, hd, h⟩
    exact ⟨d, hd, of_decide_eq_true h⟩
  · rintro ⟨d, hd, h⟩
    exact ⟨d, hd, decide_eq_true h⟩

/-! ## The condition -/

/-- All coder runs fit into the batch (or the listing raises); or else the active tasks
outnumber them, and no queued task of a run left out is free. -/
def Covered (py : Python) (configured : Int) (dirs : List RunDir) (queued active : List Listed) : Prop :=
  (∃ d ∈ (coderRuns py dirs).take (batchSize configured), readable d = false) ∨
  (coderRuns py dirs).length ≤ batchSize configured ∨
  ((coderRuns py dirs).length ≤ active.length ∧
    ∀ t ∈ queued, t.dependencyStatus.blocked = false → (∀ u ∈ active.map (·.task), Apart u t.task) →
      (∀ d ∈ (coderRuns py dirs).take (batchSize configured), ¬ Belongs py d t.task) →
      ∀ d ∈ (coderRuns py dirs).drop (batchSize configured), ¬ Belongs py d t.task)

/-- Triage lets one task through, and there is room for one more. -/
def onlyOne (depth : Int) (active : Nat) : Config :=
  { oneMore depth active with triageEnabled := true, triageEnforce := true }

def acceptOnly (t : KnownTask) (refs : List CoderRef) : Services where
  triageTask := fun u => if u = t then ⟨.accepted, none, ""⟩ else ⟨.refused, none, ""⟩
  linearMcpStatusBlocker := none
  activeCoderRuns := refs
  taskExecutionBackend := fun _ => "tandem"

theorem onlyOne_gate {lower : String → String} {depth : Int} {active : Nat} {refs : List CoderRef} {t u : Listed} :
    gateTask lower (onlyOne depth active) (acceptOnly t.task refs) u = none ↔
      u.task = t.task ∧ u.dependencyStatus.blocked = false ∧ coderRunActive (acceptOnly t.task refs) u.task = false := by
  have htriage : withheldByTriage (onlyOne depth active) (acceptOnly t.task refs) u.task = false ↔ u.task = t.task := by
    by_cases hu : u.task = t.task <;> simp [withheldByTriage, onlyOne, acceptOnly, hu]
  have hlinear : withheldByLinear lower (acceptOnly t.task refs) u.task = none := by
    rw [withheldByLinear]
    exact ite_self none
  rw [gateTask_none, htriage, hlinear]
  simp

/-- A queued task that is free is admitted when triage accepts no other. -/
theorem onlyOne_admits (lower : String → String) (depth : Int) {queued active : List Listed} {refs : List CoderRef} {t : Listed}
    (ht : t ∈ queued) (hblocked : t.dependencyStatus.blocked = false)
    (hrun : coderRunActive (acceptOnly t.task refs) t.task = false) (hapart : ∀ u ∈ active.map (·.task), Apart u t.task) :
    t.task ∈ admittedTasks
      (loopEnd lower (onlyOne depth active.length) (acceptOnly t.task refs) queued active).admitted := by
  have hgate : gateTask lower (onlyOne depth active.length) (acceptOnly t.task refs) t = none :=
    onlyOne_gate.mpr ⟨rfl, hblocked, hrun⟩
  have hcandidate := mem_candidates.mpr ⟨ht, hgate⟩
  have hcapacity : capacity (onlyOne depth active.length) (acceptOnly t.task refs) active =
      capacity (oneMore depth active.length) (acceptOnly t.task refs) active := rfl
  cases hadmitted : (loopEnd lower (onlyOne depth active.length) (acceptOnly t.task refs) queued active).admitted with
  | nil =>
    have hroom : 0 < (capacity (onlyOne depth active.length) (acceptOnly t.task refs) active).maxTotal := by
      rw [hcapacity, oneMore_capacity]
      exact Int.one_pos
    obtain ⟨e, he⟩ := refused_of_none hadmitted hroom hcandidate
    rw [hcapacity, oneMore_refuse hapart] at he
    cases he
  | cons e rest =>
    have hmem := admitted_candidates (e := e) (by rw [hadmitted]; exact List.mem_cons_self)
    have hsame := (onlyOne_gate.mp (mem_candidates.mp hmem).2).1
    rw [← hsame]
    exact List.mem_map_of_mem List.mem_cons_self

variable {env : Env} {cfg : Config} {limit : Option Int} {projectKeys : List String} {s : Store}

/-- No plan admits a task of a run that is listed. -/
theorem listed_apart {c : Config} {x : Services} {queued active : List Listed} {runs : List RunDir}
    (hx : x.activeCoderRuns = runs.map (refOf py)) {t : KnownTask}
    (ht : t ∈ admittedTasks (loopEnd env.lower c x queued active).admitted) :
    (∃ u ∈ queued, u.task = t ∧ u.dependencyStatus.blocked = false) ∧ ∀ d ∈ runs, ¬ Belongs py d t := by
  obtain ⟨e, he, rfl⟩ := List.mem_map.mp ht
  obtain ⟨hqueued, hgate⟩ := mem_candidates.mp (admitted_candidates he)
  obtain ⟨-, -, hblocked, hrun⟩ := gateTask_none.mp hgate
  refine ⟨⟨e.task, hqueued, rfl, hblocked⟩, fun d hd hbelongs => ?_⟩
  rw [(coderRunActive_iff hx _).mpr ⟨d, hd, hbelongs⟩] at hrun
  cases hrun

theorem activeWorkerCount_refs {x : Services} {runs : List RunDir} (hx : x.activeCoderRuns = runs.map (refOf py))
    (active : List Listed) : activeWorkerCount x active = max (active.length : Int) runs.length := by
  rw [activeWorkerCount, hx, List.length_map]

/-- For run directories, a store, a limit and a depth of the queue: under every configuration
of that depth and all answers of triage and Linear, no plan admits a second run and all coder
runs are counted, exactly when the runs are covered. -/
theorem guarded_iff (py : Python) (env : Env) (cfg : Config) (configured : Int) (dirs : List RunDir) (limit : Option Int)
    (projectKeys : List String) (s : Store) :
    (∀ (c : Config) (x : Services), c.queueDepthLimit = cfg.queueDepthLimit →
      listActiveCoderTaskRefs py configured dirs = some x.activeCoderRuns →
      ∃ p, (planTaskAdmissions env c x limit projectKeys).run s = (some p, s) ∧
        NoSecondRun py dirs x (fetchedActive env cfg limit projectKeys s) p) ↔
    Covered py configured dirs (fetchedQueue env cfg limit projectKeys s) (fetchedActive env cfg limit projectKeys s) := by
  constructor
  · intro h
    by_contra hnot
    simp only [Covered, not_or, not_exists, not_and] at hnot
    obtain ⟨hreadable, hlarge, hfree⟩ := hnot
    have hlisted : listActiveCoderTaskRefs py configured dirs =
        some (((coderRuns py dirs).take (batchSize configured)).map (refOf py)) := by
      rw [listActive_eq, if_pos]
      exact fun d hd => by simpa using hreadable d hd
    have hbatch : ((coderRuns py dirs).take (batchSize configured)).length = batchSize configured := by
      rw [List.length_take]
      omega
    have hcount : (coderRuns py dirs).length ≤ (fetchedActive env cfg limit projectKeys s).length := by
      obtain ⟨p, -, hguarded⟩ := h cfg
        { plainServices with activeCoderRuns := ((coderRuns py dirs).take (batchSize configured)).map (refOf py) } rfl hlisted
      have hcounted := hguarded.counted
      rw [activeWorkerCount_refs rfl, hbatch] at hcounted
      omega
    obtain ⟨t, ht, hblocked, hapart, hunlisted, d, hd, hbelongs⟩ : ∃ t ∈ fetchedQueue env cfg limit projectKeys s,
        t.dependencyStatus.blocked = false ∧
        (∀ u ∈ (fetchedActive env cfg limit projectKeys s).map (·.task), Apart u t.task) ∧
        (∀ d ∈ (coderRuns py dirs).take (batchSize configured), ¬ Belongs py d t.task) ∧
        ∃ d ∈ (coderRuns py dirs).drop (batchSize configured), Belongs py d t.task := by
      by_contra hno
      exact hfree hcount fun t ht hblocked hapart hunlisted d hd hbelongs =>
        hno ⟨t, ht, hblocked, hapart, hunlisted, d, hd, hbelongs⟩
    -- triage accepts this task alone, and one more fits than there are active tasks
    have hrun : coderRunActive (acceptOnly t.task (((coderRuns py dirs).take (batchSize configured)).map (refOf py)))
        t.task = false := by
      rw [Bool.eq_false_iff, Ne, coderRunActive_iff (show (acceptOnly t.task (((coderRuns py dirs).take (batchSize configured)).map
        (refOf py))).activeCoderRuns = ((coderRuns py dirs).take (batchSize configured)).map (refOf py) from rfl)]
      rintro ⟨d, hd, hbelongs⟩
      exact hunlisted d hd hbelongs
    obtain ⟨p, hplan, hguarded⟩ := h (onlyOne cfg.queueDepthLimit (fetchedActive env cfg limit projectKeys s).length)
      (acceptOnly t.task (((coderRuns py dirs).take (batchSize configured)).map (refOf py))) rfl hlisted
    obtain ⟨q, hplan', hadmitted⟩ := run_admitted env cfg
      (acceptOnly t.task (((coderRuns py dirs).take (batchSize configured)).map (refOf py))) limit projectKeys s
      (c := onlyOne cfg.queueDepthLimit (fetchedActive env cfg limit projectKeys s).length) rfl
    obtain rfl : p = q := by
      rw [hplan] at hplan'
      exact Option.some.inj (Prod.mk.inj hplan').1
    have hmem := onlyOne_admits env.lower cfg.queueDepthLimit ht hblocked hrun hapart
    rw [← hadmitted] at hmem
    exact hguarded.admitted t.task hmem d (List.drop_subset _ _ hd) hbelongs
  · intro hcovered c x hc hlist
    rw [listActive_eq] at hlist
    split at hlist
    · rename_i hreadable
      have hx : x.activeCoderRuns = ((coderRuns py dirs).take (batchSize configured)).map (refOf py) :=
        (Option.some.inj hlist).symm
      obtain ⟨p, hplan, hadmitted⟩ := run_admitted env cfg x limit projectKeys s hc
      refine ⟨p, hplan, ?_, ?_⟩
      · intro t ht
        rw [hadmitted] at ht
        obtain ⟨⟨u, hu, hsame, hblocked⟩, hlisted⟩ := listed_apart hx ht
        have hothers := (loopEnd_safe env.lower c x (fetchedQueue env cfg limit projectKeys s)
          (fetchedActive env cfg limit projectKeys s)).others
        intro d hd
        rw [← List.take_append_drop (batchSize configured) (coderRuns py dirs), List.mem_append] at hd
        obtain hd | hd := hd
        · exact hlisted d hd
        obtain ⟨e, he, hbad⟩ | hsmall | ⟨-, hfree⟩ := hcovered
        · rw [hreadable e he] at hbad
          cases hbad
        · rw [List.drop_eq_nil_of_le hsmall] at hd
          cases hd
        · rw [← hsame] at hlisted ht ⊢
          exact hfree u hu hblocked (fun v hv => hothers v hv u.task ht) hlisted d hd
      · rw [activeWorkerCount_refs hx, List.length_take]
        obtain ⟨e, he, hbad⟩ | hsmall | ⟨hcount, -⟩ := hcovered
        · rw [hreadable e he] at hbad
          cases hbad
        · omega
        · omega
    · cases hlist

/-! ## Two runs and a batch of one -/

/-- A run directory whose status names a task. -/
def sampleRun (name taskId : String) (mtime : Int) : RunDir where
  name := name
  isDir := true
  mtime := mtime
  hasStatus := true
  hasBlackboard := true
  status :=
    [("run", .obj [("status", .str "running")]), ("phase", .obj [("name", .str "coder_execution")]),
      ("task", .obj [("task_id", .str taskId)]), ("coordination", .obj [])]

end

/-- The language on texts of ASCII letters. -/
def latinPython : Python where
  lower := fun s => String.ofList (s.toList.map asciiLower)
  repr := fun _ => ""
  lower_empty := asciiLower_empty

def sampleDirs : List RunDir := [sampleRun "run-a" "T1" 10, sampleRun "run-b" "T2" 20]

/-- The task of the older run is queued again. -/
def queuedStore : Store := history sqliteEnv Store.empty [.registerTask 100 (plainTask "T1") {} .queued]

def sampleServices : Services :=
  { plainServices with activeCoderRuns := [refOf latinPython (sampleRun "run-b" "T2" 20)] }

/-- The older run is not listed, its task is admitted, and one worker is counted for two. -/
theorem second_run_admitted : listActiveCoderTaskRefs latinPython 1 sampleDirs = some sampleServices.activeCoderRuns ∧
    ¬ ∃ p, (planTaskAdmissions sqliteEnv plainConfig sampleServices none []).run queuedStore = (some p, queuedStore) ∧
      NoSecondRun latinPython sampleDirs sampleServices
        (fetchedActive sqliteEnv plainConfig none [] queuedStore) p := by
  have hplan : ((planTaskAdmissions sqliteEnv plainConfig sampleServices none []).run queuedStore).1.any (fun p =>
      (admittedTasks p.admitted).any (fun t =>
        (coderRuns latinPython sampleDirs).any (fun d => decide (Belongs latinPython d t)))) = true := by
    decide +kernel
  have hlisted : listActiveCoderTaskRefs latinPython 1 sampleDirs = some sampleServices.activeCoderRuns := by
    rw [listActive_eq]
    rfl
  refine ⟨hlisted, ?_⟩
  rintro ⟨p, hrun, hguarded⟩
  simp only [hrun, Option.any_some, List.any_eq_true, decide_eq_true_eq] at hplan
  obtain ⟨t, ht, d, hd, hbelongs⟩ := hplan
  exact hguarded.admitted t ht d hd hbelongs

end ActiveCoderRuns
