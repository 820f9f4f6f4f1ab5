import TandemAgents.WorkerResults

/-!
# Workers that exceed the timeout

A late worker is judged by the last terminal event of its worker and subtask in the log. The
execution id a worker reports under is put on a copy of its subtask, and the pool asks with
its own copy: an event of an earlier attempt passes for the present one unless a later line
of the present one stands behind it.
-/
namespace TimedOutWorkers

open PythonText JsonData WorkerPool WorkerResults

set_option maxRecDepth 20000

/-- The execution id of a worker, where it was started. -/
def ownExecution (started : Nat → Option Nat) (index : Nat) : Option String :=
  (started index).map (executionId index)

/-- The terminal events of a log that pass for those of a worker. -/
def matchingEvents (p : Pool) (slot : Slot) (content : List Char) : List TerminalEvent :=
  (EventLog.splitlines content).filterMap fun line =>
    ((JsonText.loads p.floats line).bind Json.asDict).bind (terminalEvent p slot)

/-- The last event that passes for one of the worker is one of its own execution. -/
def EndsWithOwn (p : Pool) (started : Nat → Option Nat) (slot : Slot) (content : List Char) : Prop :=
  ∀ event, (matchingEvents p slot content).getLast? = some event →
    ownExecution started slot.2 = some (event.execution p)

/-- A result of a late worker is the no-progress failure, or is built from an event of its own
execution. -/
def JudgedByOwn (p : Pool) (started : Nat → Option Nat) (e : Entry) : Prop :=
  ∀ log cancelled used, e.source = .timedOut log cancelled used →
    (used = none ∧ e.result = noProgress p e.slot cancelled) ∨
      ∃ event, used = some event ∧ eventResult p e.slot event = some e.result ∧
        ownExecution started e.slot.2 = some (event.execution p)

variable {p : Pool} {env : Env}

/-- The scan of a log ends with the last event that passes. -/
theorem scanLines_eq {slot : Slot} {lines : List (List Char)} {latest used : Option TerminalEvent}
    (h : scanLines p slot lines latest = some used) :
    used = ((lines.filterMap fun line =>
      ((JsonText.loads p.floats line).bind Json.asDict).bind (terminalEvent p slot)).getLast?).or latest := by
  induction lines generalizing latest with
  | nil =>
    cases h
    rfl
  | cons line lines ih =>
    rw [scanLines] at h
    cases hloads : JsonText.loads p.floats line with
    | none =>
      rw [hloads] at h
      rw [List.filterMap_cons_none (by rw [hloads]; rfl)]
      exact ih h
    | some v =>
      rw [hloads] at h
      cases v with
      | obj event =>
        have hrest := ih h
        cases hterminal : terminalEvent p slot event with
        | none =>
          rw [hterminal, Option.none_or] at hrest
          rw [List.filterMap_cons_none (by rw [hloads, Option.bind_some, Json.asDict_obj, Option.bind_some, hterminal])]
          exact hrest
        | some e =>
          rw [hterminal, Option.some_or] at hrest
          rw [List.filterMap_cons_some (by rw [hloads, Option.bind_some, Json.asDict_obj, Option.bind_some, hterminal]), List.getLast?_cons, hrest]
          cases List.getLast? _ <;> rfl
      | null => cases h
      | bool b => cases h
      | int n => cases h
      | float text => cases h
      | str s => cases h
      | arr items => cases h

theorem latestEvent_eq {slot : Slot} {content : List Char} {used : Option TerminalEvent}
    (h : latestEvent p slot (some content) = some used) : used = (matchingEvents p slot content).getLast? := by
  rw [scanLines_eq h, Option.or_none]
  rfl

/-- Every result of a returned call is genuine. -/
theorem genuine_of_returned {workerLimit : Int} {pendingSubtasks : List Subtask} {fuel : Nat} {entries : List Entry}
    (h : executeLocalWorkerPool p env workerLimit pendingSubtasks fuel = .returned entries) :
    ∀ e ∈ entries, Genuine p env e := by
  unfold executeLocalWorkerPool at h
  split_ifs at h with hnil hserial
  · cases h
    intro e he
    cases he
  · exact (serialPool_first fuel h).genuine
  · exact (pollLoop_complete 0 fuel 0 ⟨List.Perm.refl _, fun e he => by cases he⟩ h).2

/-- One result: it is judged by its own execution where the log ends with its own. -/
theorem judged_entry {started : Nat → Option Nat} {e : Entry} (h : Genuine p env e) : JudgedByOwn p started e ↔
    ∀ content cancelled used, e.source = .timedOut (some content) cancelled used →
      EndsWithOwn p started e.slot content := by
  constructor
  · intro hjudged content cancelled used hsource event hlast
    unfold Genuine at h
    rw [hsource] at h
    have hused : used = some event := (latestEvent_eq h.1).trans hlast
    rcases hjudged (some content) cancelled used hsource with ⟨hnone, -⟩ | ⟨own, hown, -, hexecution⟩
    · rw [hnone] at hused
      cases hused
    · obtain rfl := Option.some.inj (hown.symm.trans hused)
      exact hexecution
  · intro hends log cancelled used hsource
    unfold Genuine at h
    rw [hsource] at h
    obtain ⟨hlatest, hresult⟩ := h
    cases used with
    | none => exact .inl ⟨rfl, (Option.some.inj hresult).symm⟩
    | some event =>
      cases log with
      | none => cases hlatest
      | some content =>
        exact .inr ⟨event, rfl, hresult, hends content cancelled (some event) hsource event (latestEvent_eq hlatest).symm⟩

/-- In a call that returns, late workers are judged by their own executions exactly where, for
each of them, the last event in the log that passes for one of the worker is its own. -/
theorem judged_iff {p : Pool} {env : Env} {workerLimit : Int} {pendingSubtasks : List Subtask} {fuel : Nat}
    {entries : List Entry} (started : Nat → Option Nat)
    (h : executeLocalWorkerPool p env workerLimit pendingSubtasks fuel = .returned entries) :
    (∀ e ∈ entries, JudgedByOwn p started e) ↔
      ∀ e ∈ entries, ∀ content cancelled used, e.source = .timedOut (some content) cancelled used →
        EndsWithOwn p started e.slot content := by
  have hgenuine := genuine_of_returned h
  constructor
  · intro hjudged e he
    exact (judged_entry (hgenuine e he)).mp (hjudged e he)
  · intro hends e he
    exact (judged_entry (hgenuine e he)).mpr (hends e he)

/-! ## A retry that stalls -/

/-- Texts of ASCII letters. -/
def samplePool : Pool where
  py :=
    { lower := fun s => String.ofList (s.toList.map asciiLower)
      repr := fun _ => ""
      lower_empty := asciiLower_empty
      int := fun v => match v with
        | .int n => some n
        | _ => none
      int_int := onlyWhole_int }
  floats := ⟨id, id⟩
  seconds := "900"
  timed := true
  logPath := fun worker => "logs/" ++ worker ++ ".log"

def sampleSubtask : Subtask := ⟨.str "subtask-1", .str "Do work", none, .null⟩

/-- The worker of the first attempt completed; that of the retry reports nothing before the
deadline. -/
def staleLog : List Char :=
  ("\x7b\"type\": \"worker.completed\", \"payload\": \x7b\"worker_id\": \"worker-1\", " ++
    "\"subtask_id\": \"subtask-1\", \"execution_id\": \"1-1700\", \"returncode\": 0\x7d\x7d\n").toList

def stalled (log : List Char) : Env where
  answers := fun _ => .raised ""
  rounds := fun _ _ => ⟨id, fun _ => false, fun _ => none, true, fun _ => some log, fun _ => false, fun _ => false, fun l => .refl l⟩

/-- Whether a run of the sample recorded one result, built from an event of the execution. -/
def usedExecution (execution : String) : Run (List Entry) → Bool
  | .returned [⟨_, .timedOut _ _ (some event), result⟩] =>
    decide (event.execution samplePool = execution) && decide ((result.get "status").asStr = some "completed")
  | _ => false

theorem usedExecution_spec {execution : String} {run : Run (List Entry)} (h : usedExecution execution run = true) :
    ∃ e, run = .returned [e] ∧ (e.result.get "status").asStr = some "completed" ∧
      ∃ log cancelled event, e.source = .timedOut log cancelled (some event) ∧ event.execution samplePool = execution := by
  unfold usedExecution at h
  split at h
  · rename_i slot log cancelled event result
    rw [Bool.and_eq_true, decide_eq_true_eq, decide_eq_true_eq] at h
    exact ⟨_, rfl, h.2, log, cancelled, event, rfl, h.1⟩
  · cases h

/-- The stalled retry is recorded as completed, by the event of the attempt before it. -/
theorem stale_event_completes :
    ∃ e, executeLocalWorkerPool samplePool (stalled staleLog) 1 [sampleSubtask] 1 = .returned [e] ∧
      (e.result.get "status").asStr = some "completed" ∧ ¬ JudgedByOwn samplePool (fun _ => some 1800) e := by
  have hrun : usedExecution "1-1700" (executeLocalWorkerPool samplePool (stalled staleLog) 1 [sampleSubtask] 1) = true := by
    decide +kernel
  obtain ⟨e, he, hstatus, log, cancelled, event, hsource, hexecution⟩ := usedExecution_spec hrun
  refine ⟨e, he, hstatus, fun hjudged => ?_⟩
  have hgenuine := genuine_of_returned he e List.mem_cons_self
  rcases hjudged log cancelled (some event) hsource with ⟨hnone, -⟩ | ⟨own, hown, -, hexec⟩
  · cases hnone
  · obtain rfl := Option.some.inj hown
    rw [hexecution] at hexec
    have hslot : e.slot.2 = 1 := by
      have hprefix := (serialPool_first 1 he).slots
      have hlist : [e.slot] = [(sampleSubtask, 1)] := hprefix.eq_of_length rfl
      exact congrArg Prod.snd (List.singleton_inj.mp hlist)
    rw [hslot] at hexec
    exact absurd hexec (by decide)

/-- A worker that left nothing in the log is judged by its own execution. -/
theorem silent_judged : ∃ entries, executeLocalWorkerPool samplePool (stalled []) 1 [sampleSubtask] 1 = .returned entries ∧
    ∀ e ∈ entries, JudgedByOwn samplePool (fun _ => some 1800) e := by
  have hrun : executeLocalWorkerPool samplePool (stalled []) 1 [sampleSubtask] 1 =
      .returned [⟨(sampleSubtask, 1), .timedOut (some []) false none, noProgress samplePool (sampleSubtask, 1) false⟩] := rfl
  refine ⟨_, hrun, (judged_iff (fun _ => some 1800) hrun).mpr ?_⟩
  intro e he content cancelled used hsource event hlast
  obtain rfl := List.mem_singleton.mp he
  cases hsource
  cases hlast

end TimedOutWorkers
