import TandemAgents.ProjectStatus

/-!
# Drift of a project item

Everything that can happen to one item: people set its status, the program observes it and
writes it, and other items share the cache file. The baseline is the last status that the
program wrote or found to be set already, and before that the first one it knew.
-/
namespace ProjectDrift

open PythonText JsonData PullRequests ProjectStatus

set_option maxRecDepth 20000

/-! ## What the program knows of an item -/

/-- The statuses that count: the one last written or found set, and the first one known. -/
structure History where
  blank : Bool
  settled : String
  first : String

namespace History

def start : History := ⟨true, "", ""⟩

/-- The status that a write is measured against; empty if there is none. -/
def baseline (h : History) : String := orElse h.settled h.first

/-- A file that is still empty is made from earlier runs. -/
def load (h : History) (cacheEmpty : Bool) (known : String) : History :=
  if h.blank then { h with blank := cacheEmpty, first := known } else h

def observe (h : History) (status : String) : History :=
  { h with blank := false, first := if h.baseline = "" then status else h.first }

def settle (h : History) (status : String) : History := { h with blank := false, settled := status }

end History

/-- A call of `update_project_item_status` for the item. -/
structure Call where
  runs : Bootstrap
  nowMs : Int
  statusFieldId : Option Int
  statusOptionMap : List (String × String)
  statusName : String
  readable : Bool
  reply : Reply

section
variable (py : Runtime) (item : Item)

inductive Event where
  /-- Somebody sets the status. -/
  | person (status : String)
  | observe (runs : Bootstrap) (nowMs : Int) (status source : String) (h : isObservation source = true)
  | write (call : Call)
  /-- The cache is loaded, and perhaps a record of another item stored. -/
  | elsewhere (runs : Bootstrap) (nowMs : Int) (other : Item) (status source : String)
      (h : cacheKey py other ≠ cacheKey py item)

structure State where
  file : Dict
  remote : String
  history : History

def State.start (remote : String) : State := ⟨[], remote, .start⟩

def Call.source (c : Call) : TaskSource := ⟨item, c.statusFieldId, c.statusOptionMap⟩

/-- What the fetched item shows. -/
def Call.live (c : Call) (s : State) : String := if c.readable then strip s.remote else ""

def Call.answer (c : Call) (s : State) : Answer :=
  updateProjectItemStatus py s.file c.runs c.nowMs (c.source item) c.statusName (c.live s) c.reply

/-- The status of the item behind a call. -/
def Call.remote (c : Call) (s : State) : String :=
  if (c.answer py item s).sent.isSome then
    match c.reply with
    | .accepted => c.statusName
    | .failed _ applied => if applied then c.statusName else s.remote
  else s.remote

/-- The history with what the file holds when it is loaded. -/
def State.loaded (s : State) (runs : Bootstrap) : History :=
  s.history.load runs.cache.isEmpty (baselineOf py runs.cache item)

/-- A call counts if it was accepted or found the status to be the target already. -/
def Call.history (c : Call) (s : State) : History :=
  if missingMetadata py (c.source item) c.statusName ≠ [] ∨ strip item.owner = "" then s.history
  else if strip c.statusName = "" then s.loaded py item c.runs
  else if (c.answer py item s).sent.isSome ∧ (c.reply matches .accepted) ∨
      c.live s ≠ "" ∧ normalizeStatusKey py (c.live s) = normalizeStatusKey py c.statusName then
    (s.loaded py item c.runs).settle (strip c.statusName)
  else s.loaded py item c.runs

def step (s : State) : Event py item → State
  | .person status => { s with remote := status }
  | .observe runs nowMs status source _ =>
    { s with
      file := rememberProjectItemStatus py s.file runs nowMs item status source
      history := if strip item.owner = "" ∨ strip status = "" then s.history else (s.loaded py item runs).observe (strip status) }
  | .write c => ⟨(c.answer py item s).file, c.remote py item s, c.history py item s⟩
  | .elsewhere runs nowMs other status source _ =>
    { s with
      file := rememberProjectItemStatus py (loadCache s.file runs) runs nowMs other status source
      history :=
        if strip other.owner = "" ∨ strip status = "" then s.loaded py item runs
        else { s.loaded py item runs with blank := false } }

def run (s : State) (events : List (Event py item)) : State := events.foldl (step py item) s

/-- The baseline of the item is missing or a name. -/
def Tidy (cache : Dict) : Prop :=
  ((recordOf py cache item).get "status_name").truthy = true →
    ∃ name, (recordOf py cache item).get "status_name" = .str name ∧ strip name ≠ ""

/-- The history tells what the cache file holds. -/
structure Agrees (s : State) : Prop where
  blank : s.history.blank = s.file.isEmpty
  baseline : s.history.baseline = baselineOf py s.file item
  tidy : Tidy py item s.file

variable {py item}

theorem Agrees.of_parts {file : Dict} {remote : String} {history : History} (hblank : history.blank = file.isEmpty)
    (hbaseline : history.baseline = baselineOf py file item) (htidy : Tidy py item file) :
    Agrees py item ⟨file, remote, history⟩ :=
  ⟨hblank, hbaseline, htidy⟩

/-! ## What a record holds -/

theorem Dict.isEmpty_set (d : Dict) (key : String) (v : Json) : (Dict.set d key v).isEmpty = false := by
  cases d with
  | nil => rfl
  | cons f d =>
    rw [Dict.set]
    split <;> rfl

theorem recordOf_set (cache d : Dict) : recordOf py (cache.set (cacheKey py item) (.obj d)) item = d := by
  simp [recordOf]

theorem recordOf_set_other {other : Item} (h : cacheKey py other ≠ cacheKey py item) (cache : Dict) (v : Json) :
    recordOf py (cache.set (cacheKey py other) v) item = recordOf py cache item := by
  simp [recordOf, h]

theorem text_name {name : String} (h : strip name ≠ "") : strip (py.text (.str (strip name))) = strip name := by
  have htruthy : (Json.str (strip name)).truthy = true := by simp [Json.truthy, h]
  rw [Python.text, htruthy, if_pos rfl, Python.str, strip_idem]

theorem baselineOf_nil : baselineOf py [] item = "" := by
  have hnull : (recordOf py [] item).get "status_name" = .null := rfl
  rw [baselineOf, hnull, Python.text_of_not _ rfl]
  split
  · rfl
  · decide

/-- Of a tidy record the baseline is empty exactly if the field is. -/
theorem baseline_empty {cache : Dict} (hitem : strip item.owner ≠ "") (h : Tidy py item cache) :
    baselineOf py cache item = "" ↔ ((recordOf py cache item).get "status_name").truthy = false := by
  rw [baselineOf, if_neg hitem]
  constructor
  · intro hempty
    cases htruthy : ((recordOf py cache item).get "status_name").truthy with
    | false => rfl
    | true =>
      obtain ⟨name, hname, hne⟩ := h htruthy
      rw [hname] at hempty htruthy
      rw [Python.text, htruthy, if_pos rfl, Python.str] at hempty
      exact absurd hempty hne
  · intro hfalse
    rw [Python.text_of_not _ hfalse]
    decide

theorem baselineOf_name {cache : Dict} {name : String} (hitem : strip item.owner ≠ "") (hname : strip name ≠ "")
    (h : (recordOf py cache item).get "status_name" = .str (strip name)) : baselineOf py cache item = strip name := by
  rw [baselineOf, if_neg hitem, h, text_name hname]

theorem tidy_name {cache : Dict} {name : String} (hname : strip name ≠ "")
    (h : (recordOf py cache item).get "status_name" = .str (strip name)) : Tidy py item cache :=
  fun _ => ⟨strip name, h, by rw [strip_idem]; exact hname⟩

/-- A status that the program wrote or found set becomes the baseline. -/
theorem remember_settled (file : Dict) (runs : Bootstrap) (nowMs : Int) {name source : String} (hitem : strip item.owner ≠ "")
    (hname : strip name ≠ "") (hsource : isObservation source = false) :
    (rememberProjectItemStatus py file runs nowMs item name source).isEmpty = false ∧
      baselineOf py (rememberProjectItemStatus py file runs nowMs item name source) item = strip name ∧
      Tidy py item (rememberProjectItemStatus py file runs nowMs item name source) := by
  have hfield : (recordOf py (rememberProjectItemStatus py file runs nowMs item name source) item).get "status_name" =
      .str (strip name) := by
    simp only [rememberProjectItemStatus, hitem, hname, or_self, if_false, hsource, Bool.false_eq_true, recordOf_set]
    rfl
  refine ⟨?_, baselineOf_name hitem hname hfield, tidy_name hname hfield⟩
  simp only [rememberProjectItemStatus, hitem, hname, or_self, if_false, hsource, Bool.false_eq_true]
  exact Dict.isEmpty_set _ _ _

/-- An observation leaves a baseline as it is and becomes one where there is none. -/
theorem remember_observed {file : Dict} {runs : Bootstrap} (nowMs : Int) {name source : String}
    (hitem : strip item.owner ≠ "") (hname : strip name ≠ "") (hsource : isObservation source = true)
    (htidy : Tidy py item (loadCache file runs)) :
    (rememberProjectItemStatus py file runs nowMs item name source).isEmpty = false ∧
      baselineOf py (rememberProjectItemStatus py file runs nowMs item name source) item =
        orElse (baselineOf py (loadCache file runs) item) (strip name) ∧
      Tidy py item (rememberProjectItemStatus py file runs nowMs item name source) := by
  have hempty := baseline_empty hitem htidy
  generalize hcache : loadCache file runs = cache at hempty htidy ⊢
  have hkeep : ((update (recordOf py cache item) (baseRecord item ++ observedFields py (strip name) source nowMs)).get
      "status_name") = (recordOf py cache item).get "status_name" := by
    simp [update, baseRecord, observedFields]
  cases htruthy : ((recordOf py cache item).get "status_name").truthy with
  | true =>
    have hne : baselineOf py cache item ≠ "" := by
      rw [Ne, hempty, htruthy]
      decide
    have hfile : rememberProjectItemStatus py file runs nowMs item name source = cache.set (cacheKey py item)
        (.obj (update (recordOf py cache item) (baseRecord item ++ observedFields py (strip name) source nowMs))) := by
      simp only [rememberProjectItemStatus, hitem, hname, or_self, if_false, hsource, if_true, hcache, hkeep, htruthy]
    have hfield : (recordOf py (rememberProjectItemStatus py file runs nowMs item name source) item).get "status_name" =
        (recordOf py cache item).get "status_name" := by
      rw [hfile, recordOf_set, hkeep]
    refine ⟨?_, ?_, ?_⟩
    · rw [hfile]
      exact Dict.isEmpty_set _ _ _
    · rw [orElse, if_neg hne, baselineOf, baselineOf, hfield]
    · intro h
      rw [hfield] at h ⊢
      exact htidy h
  | false =>
    have hfile : rememberProjectItemStatus py file runs nowMs item name source = cache.set (cacheKey py item)
        (.obj (update (update (recordOf py cache item) (baseRecord item ++ observedFields py (strip name) source nowMs))
          (baselineFields py (strip name) source nowMs))) := by
      simp only [rememberProjectItemStatus, hitem, hname, or_self, if_false, hsource, if_true, hcache, hkeep, htruthy,
        Bool.false_eq_true]
    have hfield : (recordOf py (rememberProjectItemStatus py file runs nowMs item name source) item).get "status_name" =
        .str (strip name) := by
      rw [hfile, recordOf_set]
      simp [update, baselineFields]
    refine ⟨?_, ?_, tidy_name hname hfield⟩
    · rw [hfile]
      exact Dict.isEmpty_set _ _ _
    · rw [orElse, if_pos (hempty.mpr htruthy), baselineOf_name hitem hname hfield]

/-- Nothing is remembered of a blank status, or of an item without an owner. -/
theorem remember_nothing {file : Dict} {runs : Bootstrap} {nowMs : Int} {i : Item} {name source : String}
    (h : strip i.owner = "" ∨ strip name = "") : rememberProjectItemStatus py file runs nowMs i name source = file := by
  simp only [rememberProjectItemStatus, h, if_true]

theorem remember_other (file : Dict) (runs : Bootstrap) (nowMs : Int) {other : Item} {name : String} (source : String)
    (hother : cacheKey py other ≠ cacheKey py item) (h : ¬ (strip other.owner = "" ∨ strip name = "")) :
    (rememberProjectItemStatus py file runs nowMs other name source).isEmpty = false ∧
      recordOf py (rememberProjectItemStatus py file runs nowMs other name source) item =
        recordOf py (loadCache file runs) item := by
  simp only [rememberProjectItemStatus, h, if_false]
  split
  · exact ⟨Dict.isEmpty_set _ _ _, recordOf_set_other hother _ _⟩
  · exact ⟨Dict.isEmpty_set _ _ _, recordOf_set_other hother _ _⟩

/-! ## The history tells what the cache holds -/

theorem orElse_eq_empty {a b : String} : orElse a b = "" ↔ a = "" ∧ b = "" := by
  unfold orElse
  split <;> simp_all

theorem tidy_runs (runs : Bootstrap) : Tidy py item runs.cache := runs.tidy (cacheKey py item)

/-- Loading the file keeps the agreement. -/
theorem Agrees.loaded {s : State} (h : Agrees py item s) (runs : Bootstrap) :
    Agrees py item { s with file := loadCache s.file runs, history := s.loaded py item runs } := by
  obtain ⟨hblank, hbaseline, htidy⟩ := h
  cases hempty : s.file.isEmpty with
  | true =>
    rw [hempty] at hblank
    have hnil : s.file = [] := List.isEmpty_iff.mp hempty
    have hnone : s.history.baseline = "" := by
      rw [hbaseline, hnil, baselineOf_nil]
    obtain ⟨hsettled, -⟩ := orElse_eq_empty.mp hnone
    constructor
    · simp [State.loaded, History.load, hblank, loadCache, hempty]
    · simp [State.loaded, History.load, hblank, loadCache, hempty, History.baseline, hsettled, orElse]
    · simp only [loadCache, hempty, if_true]
      exact tidy_runs runs
  | false =>
    rw [hempty] at hblank
    have hload : s.loaded py item runs = s.history := by simp [State.loaded, History.load, hblank]
    have hfile : loadCache s.file runs = s.file := by simp [loadCache, hempty]
    rw [hload, hfile]
    exact ⟨by rw [hblank, hempty], hbaseline, htidy⟩

theorem baseline_observe (h : History) (status : String) : (h.observe status).baseline = orElse h.baseline status := by
  by_cases hsettled : h.settled = "" <;> by_cases hfirst : h.first = "" <;>
    simp [History.baseline, History.observe, orElse, hsettled, hfirst]

theorem history_start : (History.start).baseline = "" := by decide

theorem agrees_start (remote : String) : Agrees py item (.start remote) := by
  refine ⟨rfl, ?_, ?_⟩
  · rw [State.start, history_start, baselineOf_nil]
  · intro h
    cases h

theorem cachedFile_of_named (hitem : strip item.owner ≠ "") (file : Dict) (runs : Bootstrap) :
    cachedFile file runs item = loadCache file runs := by
  rw [cachedFile, if_neg hitem]

theorem loadCache_twice (file : Dict) (runs : Bootstrap) : loadCache (loadCache file runs) runs = loadCache file runs := by
  unfold loadCache
  cases hempty : file.isEmpty with
  | true => simp
  | false => simp [hempty]

/-- The parts of an answer, by what was decided. -/
theorem answer_cases (c : Call) (s : State) (hready : missingMetadata py (c.source item) c.statusName = []) :
    (decision py (baselineOf py (cachedFile s.file c.runs item) item) (c.live s) c.statusName = .write ∧
      (c.answer py item s).sent.isSome = true ∧
      ((∃ message applied, c.reply = .failed message applied ∧
          (c.answer py item s).file = cachedFile s.file c.runs item) ∨
        c.reply = .accepted ∧ (c.answer py item s).file = rememberProjectItemStatus py (cachedFile s.file c.runs item)
          c.runs c.nowMs item c.statusName "github_mcp.update_project_item_status")) ∨
    (decision py (baselineOf py (cachedFile s.file c.runs item) item) (c.live s) c.statusName = .settled ∧
      (c.answer py item s).sent = none ∧
      (c.answer py item s).file = rememberProjectItemStatus py (cachedFile s.file c.runs item)
        c.runs c.nowMs item c.statusName "github_mcp.update_project_item_status.live") ∨
    (decision py (baselineOf py (cachedFile s.file c.runs item) item) (c.live s) c.statusName ∈ [.diverged, .skip] ∧
      (c.answer py item s).sent = none ∧ (c.answer py item s).file = cachedFile s.file c.runs item) := by
  have hitem : (c.source item).item = item := rfl
  cases hdecision : decision py (baselineOf py (cachedFile s.file c.runs item) item) (c.live s) c.statusName with
  | settled =>
    right; left
    simp only [Call.answer, updateProjectItemStatus, hready, ne_eq, not_true, if_false, hitem, hdecision, and_self]
  | diverged =>
    right; right
    simp only [Call.answer, updateProjectItemStatus, hready, ne_eq, not_true, if_false, hitem, hdecision, and_self,
      List.mem_cons, true_or]
  | skip =>
    right; right
    simp only [Call.answer, updateProjectItemStatus, hready, ne_eq, not_true, if_false, hitem, hdecision, and_self,
      List.mem_cons, true_or, or_true]
  | write =>
    left
    cases hreply : c.reply with
    | accepted =>
      refine ⟨rfl, ?_, .inr ⟨rfl, ?_⟩⟩
      · simp only [Call.answer, updateProjectItemStatus, hready, ne_eq, not_true, if_false, hitem, hdecision, hreply,
          Option.isSome_some]
      · simp only [Call.answer, updateProjectItemStatus, hready, ne_eq, not_true, if_false, hitem, hdecision, hreply]
    | failed message applied =>
      refine ⟨rfl, ?_, .inl ⟨message, applied, rfl, ?_⟩⟩
      · simp only [Call.answer, updateProjectItemStatus, hready, ne_eq, not_true, if_false, hitem, hdecision, hreply,
          Option.isSome_some]
      · simp only [Call.answer, updateProjectItemStatus, hready, ne_eq, not_true, if_false, hitem, hdecision, hreply]

theorem settled_iff (current live target : String) :
    decision py current live target = .settled ↔ live ≠ "" ∧ normalizeStatusKey py live = normalizeStatusKey py target := by
  unfold decision
  constructor
  · intro h
    by_cases hlive : live = ""
    · simp only [hlive, ne_eq, not_true, if_false] at h
      split at h <;> cases h
    · refine ⟨hlive, ?_⟩
      simp only [ne_eq, hlive, not_false_eq_true, if_true] at h
      split at h
      · assumption
      · split at h
        · cases h
        · split at h <;> cases h
  · rintro ⟨hlive, hkey⟩
    simp [hlive, hkey]

/-- A write is sent only if the live status is not known, is the baseline, or is open again. -/
theorem decision_write {current live target : String} (h : decision py current live target = .write) :
    live = "" ∨ current = "" ∨ normalizeStatusKey py live = normalizeStatusKey py current ∨ Reclaims py current live target := by
  by_cases hlive : live = ""
  · exact .inl hlive
  by_cases hcurrent : current = ""
  · exact .inr (.inl hcurrent)
  by_cases hkey : normalizeStatusKey py live = normalizeStatusKey py current
  · exact .inr (.inr (.inl hkey))
  by_cases hreclaim : Reclaims py current live target
  · exact .inr (.inr (.inr hreclaim))
  · unfold decision at h
    simp only [ne_eq, hlive, not_false_eq_true, if_true, hcurrent, hkey, hreclaim, and_self] at h
    split at h <;> cases h

theorem missing_call (c : Call) (s : State) (h : missingMetadata py (c.source item) c.statusName ≠ []) :
    (c.answer py item s).file = s.file ∧ (c.answer py item s).sent = none := by
  simp only [Call.answer, updateProjectItemStatus, h, ne_eq, not_false_eq_true, if_true, and_self]

theorem ownerless_call (hitem : strip item.owner = "") (c : Call) (s : State) : (c.answer py item s).file = s.file := by
  by_cases hmissing : missingMetadata py (c.source item) c.statusName = []
  · have hfile : cachedFile s.file c.runs item = s.file := by rw [cachedFile, if_pos hitem]
    obtain ⟨-, -, ⟨message, applied, -, hanswer⟩ | ⟨-, hanswer⟩⟩ | ⟨-, -, hanswer⟩ | ⟨-, -, hanswer⟩ :=
      answer_cases c s hmissing
    · rw [hanswer, hfile]
    · rw [hanswer, remember_nothing (.inl hitem), hfile]
    · rw [hanswer, remember_nothing (.inl hitem), hfile]
    · rw [hanswer, hfile]
  · exact (missing_call c s hmissing).1

theorem agrees_call {s : State} (h : Agrees py item s) (c : Call) : Agrees py item (step py item s (.write c)) := by
  simp only [step, Call.history]
  by_cases hmissing : missingMetadata py (c.source item) c.statusName = []
  swap
  · rw [if_pos (.inl hmissing), (missing_call c s hmissing).1]
    exact ⟨h.blank, h.baseline, h.tidy⟩
  by_cases hitem : strip item.owner = ""
  · rw [if_pos (.inr hitem), ownerless_call hitem]
    exact ⟨h.blank, h.baseline, h.tidy⟩
  rw [if_neg (not_or.mpr ⟨not_not.mpr hmissing, hitem⟩)]
  have hloaded := h.loaded c.runs
  have hsettle : ∀ source, isObservation source = false → strip c.statusName ≠ "" → ∀ file remote,
      file = rememberProjectItemStatus py (cachedFile s.file c.runs item) c.runs c.nowMs item c.statusName source →
      Agrees py item ⟨file, remote, (s.loaded py item c.runs).settle (strip c.statusName)⟩ := by
    rintro source hsource hname file remote rfl
    obtain ⟨hempty, hbaseline, htidy⟩ := remember_settled
      (cachedFile s.file c.runs item) c.runs c.nowMs hitem hname hsource
    refine .of_parts hempty.symm ?_ htidy
    rw [hbaseline, History.baseline, History.settle, orElse, if_neg hname]
  have hblank : strip c.statusName = "" → ∀ source, rememberProjectItemStatus py (cachedFile s.file c.runs item) c.runs
      c.nowMs item c.statusName source = cachedFile s.file c.runs item := fun hname source => remember_nothing (.inr hname)
  have hkept : ∀ file remote, file = cachedFile s.file c.runs item →
      Agrees py item ⟨file, remote, s.loaded py item c.runs⟩ := by
    rintro file remote rfl
    rw [cachedFile_of_named hitem]
    exact ⟨hloaded.blank, hloaded.baseline, hloaded.tidy⟩
  obtain ⟨hdecision, hsent, hreply⟩ | ⟨hdecision, hsent, hfile⟩ | ⟨hdecision, hsent, hfile⟩ :=
    answer_cases c s hmissing
  · have hlive : ¬ (c.live s ≠ "" ∧ normalizeStatusKey py (c.live s) = normalizeStatusKey py c.statusName) := by
      rw [← settled_iff (baselineOf py (cachedFile s.file c.runs item) item), hdecision]
      simp
    cases hreply with
    | inl hfailed =>
      obtain ⟨message, applied, hreply, hfile⟩ := hfailed
      have hnot : ¬ ((c.answer py item s).sent.isSome = true ∧ (c.reply matches .accepted) ∨
          c.live s ≠ "" ∧ normalizeStatusKey py (c.live s) = normalizeStatusKey py c.statusName) := by
        rw [hreply]
        rintro (⟨-, hmatch⟩ | hlive')
        · cases hmatch
        · exact hlive hlive'
      rw [if_neg hnot, ite_self]
      exact hkept (c.answer py item s).file (c.remote py item s) hfile
    | inr haccepted =>
      obtain ⟨hreply, hfile⟩ := haccepted
      by_cases hname : strip c.statusName = ""
      · rw [if_pos hname]
        exact hkept (c.answer py item s).file (c.remote py item s) (hfile.trans (hblank hname _))
      · rw [if_neg hname, if_pos (.inl ⟨hsent, by rw [hreply]⟩)]
        exact hsettle "github_mcp.update_project_item_status" (by decide) hname (c.answer py item s).file
          (c.remote py item s) hfile
  · have hlive := (settled_iff _ _ _).mp hdecision
    by_cases hname : strip c.statusName = ""
    · rw [if_pos hname]
      exact hkept (c.answer py item s).file (c.remote py item s) (hfile.trans (hblank hname _))
    · rw [if_neg hname, if_pos (.inr hlive)]
      exact hsettle "github_mcp.update_project_item_status.live" (by decide) hname (c.answer py item s).file
        (c.remote py item s) hfile
  · have hnot : ¬ ((c.answer py item s).sent.isSome = true ∧ (c.reply matches .accepted) ∨
        c.live s ≠ "" ∧ normalizeStatusKey py (c.live s) = normalizeStatusKey py c.statusName) := by
      rw [← settled_iff (baselineOf py (cachedFile s.file c.runs item) item), hsent]
      rintro (⟨hsome, -⟩ | hsettled)
      · cases hsome
      · rw [hsettled] at hdecision
        simp at hdecision
    rw [if_neg hnot, ite_self]
    exact hkept (c.answer py item s).file (c.remote py item s) hfile

theorem agrees_step {s : State} (h : Agrees py item s) (e : Event py item) : Agrees py item (step py item s e) := by
  cases e with
  | person status => exact ⟨h.blank, h.baseline, h.tidy⟩
  | write c => exact agrees_call h c
  | observe runs nowMs status source hsource =>
    simp only [step]
    by_cases hnothing : strip item.owner = "" ∨ strip status = ""
    · rw [if_pos hnothing, remember_nothing hnothing]
      exact ⟨h.blank, h.baseline, h.tidy⟩
    · have hloaded := h.loaded runs
      rw [if_neg hnothing]
      rw [not_or] at hnothing
      obtain ⟨hempty, hbaseline, htidy⟩ := remember_observed nowMs hnothing.1 hnothing.2 hsource hloaded.tidy
      refine .of_parts hempty.symm ?_ htidy
      rw [hbaseline, ← hloaded.baseline, baseline_observe]
  | elsewhere runs nowMs other status source hother =>
    have hloaded := h.loaded runs
    simp only [step]
    by_cases hnothing : strip other.owner = "" ∨ strip status = ""
    · rw [if_pos hnothing, remember_nothing hnothing]
      exact ⟨hloaded.blank, hloaded.baseline, hloaded.tidy⟩
    · obtain ⟨hempty, hrecord⟩ := remember_other (loadCache s.file runs) runs nowMs source hother hnothing
      rw [loadCache_twice] at hrecord
      rw [if_neg hnothing]
      refine .of_parts hempty.symm ?_ ?_
      · rw [baselineOf, hrecord, ← baselineOf]
        exact hloaded.baseline
      · rw [Tidy, hrecord]
        exact hloaded.tidy

theorem agrees_run {s : State} (h : Agrees py item s) (events : List (Event py item)) : Agrees py item (run py item s events) := by
  induction events generalizing s with
  | nil => exact h
  | cons e events ih => exact ih (agrees_step h e)

/-! ## What is overwritten -/

theorem sent_write {c : Call} {s : State} (h : (c.answer py item s).sent.isSome = true) :
    decision py (baselineOf py (cachedFile s.file c.runs item) item) (c.live s) c.statusName = .write := by
  by_cases hmissing : missingMetadata py (c.source item) c.statusName = []
  · obtain ⟨hdecision, -⟩ | ⟨-, hsent, -⟩ | ⟨-, hsent, -⟩ := answer_cases c s hmissing
    · exact hdecision
    · rw [hsent] at h
      cases h
    · rw [hsent] at h
      cases h
  · rw [(missing_call c s hmissing).2] at h
    cases h

theorem Agrees.cached {s : State} (h : Agrees py item s) (runs : Bootstrap) :
    baselineOf py (cachedFile s.file runs item) item = (s.loaded py item runs).baseline := by
  have hloaded := (h.loaded runs).baseline
  by_cases hitem : strip item.owner = ""
  · rw [baselineOf, if_pos hitem] at hloaded ⊢
    exact hloaded.symm
  · rw [cachedFile_of_named hitem]
    exact hloaded.symm

/-- In every run the baseline is what the history tells, and observing changes none. A write
is sent only where the live status is not known, there is no baseline, the live status is
the baseline, or the item was opened again; every other status stays as it is. -/
theorem drift_kept (py : Runtime) (item : Item) (remote : String) (events : List (Event py item)) :
    let s := run py item (.start remote) events
    baselineOf py s.file item = s.history.baseline ∧
    (∀ runs nowMs status source h, s.history.baseline ≠ "" →
      baselineOf py (step py item s (.observe runs nowMs status source h)).file item = s.history.baseline) ∧
    ∀ c : Call, let baseline := (s.loaded py item c.runs).baseline
      ((c.answer py item s).sent.isSome = true → c.live s = "" ∨ baseline = "" ∨
        normalizeStatusKey py (c.live s) = normalizeStatusKey py baseline ∨ Reclaims py baseline (c.live s) c.statusName) ∧
      (c.live s ≠ "" → baseline ≠ "" → normalizeStatusKey py (c.live s) ≠ normalizeStatusKey py baseline →
        ¬ Reclaims py baseline (c.live s) c.statusName → c.remote py item s = s.remote) := by
  intro s
  have hagrees : Agrees py item s := agrees_run (agrees_start remote) events
  have hsent : ∀ c : Call, (c.answer py item s).sent.isSome = true → c.live s = "" ∨ (s.loaded py item c.runs).baseline = "" ∨
      normalizeStatusKey py (c.live s) = normalizeStatusKey py (s.loaded py item c.runs).baseline ∨
      Reclaims py (s.loaded py item c.runs).baseline (c.live s) c.statusName := by
    intro c hsome
    have hwrite := decision_write (sent_write hsome)
    rw [hagrees.cached] at hwrite
    exact hwrite
  refine ⟨hagrees.baseline.symm, ?_, ?_⟩
  · intro runs nowMs status source h hne
    have hafter := (agrees_step hagrees (.observe runs nowMs status source h)).baseline
    have hloaded : s.loaded py item runs = s.history := by
      have hblank : s.history.blank = false := by
        rw [hagrees.blank]
        cases hfile : s.file with
        | nil =>
          rw [hagrees.baseline, hfile, baselineOf_nil] at hne
          exact absurd rfl hne
        | cons f file => rfl
      simp [State.loaded, History.load, hblank]
    rw [← hafter]
    simp only [step]
    split
    · rfl
    · rw [hloaded, baseline_observe, orElse, if_neg hne]
  · intro c baseline
    refine ⟨hsent c, ?_⟩
    intro hlive hbaseline hkey hreclaim
    rw [Call.remote, if_neg]
    intro hsome
    obtain hnone | hnone | hsame | hopen := hsent c hsome
    · exact hlive hnone
    · exact hbaseline hnone
    · exact hkey hsame
    · exact hreclaim hopen

end

/-! ## A status that was found and is overwritten -/

/-- The runtime on texts of ASCII letters. -/
def latinRuntime : Runtime where
  lower := fun s => String.ofList (s.toList.map asciiLower)
  repr := fun _ => ""
  lower_empty := asciiLower_empty
  isDigit := Char.isDigit
  int := fun v => match v with
    | .int n => some n
    | _ => none

def sampleItem : Item := ⟨"acme", 1, 2⟩

def noRuns : Bootstrap := ⟨[], fun _ h => by cases h⟩

def sampleCall (statusName : String) : Call where
  runs := noRuns
  nowMs := 5
  statusFieldId := some 7
  statusOptionMap := [("in_progress", "o1"), ("in_review", "o2"), ("testing", "o3")]
  statusName := statusName
  readable := true
  reply := .accepted

/-- The item is ready, the program starts on it, and somebody asks for a review. -/
def sampleEvents : List (Event latinRuntime sampleItem) :=
  [.observe noRuns 4 "Ready" "github_project.intake.live_status" (by decide), .write (sampleCall "In progress"),
    .person "In review"]

theorem sampleEvents_kept :
    baselineOf latinRuntime (step latinRuntime sampleItem (run latinRuntime sampleItem (.start "Ready") sampleEvents)
      (.observe noRuns 6 "In review" "github_project.intake.live_status" (by decide))).file sampleItem = "In progress" ∧
    (sampleCall "Testing").remote latinRuntime sampleItem (run latinRuntime sampleItem (.start "Ready") sampleEvents) =
      "In review" := by
  obtain ⟨-, hobserve, hcall⟩ := drift_kept latinRuntime sampleItem "Ready" sampleEvents
  refine ⟨?_, ?_⟩
  · rw [hobserve noRuns 6 "In review" "github_project.intake.live_status" (by decide) (by decide +kernel)]
    decide +kernel
  · rw [(hcall (sampleCall "Testing")).2 (by decide +kernel) (by decide +kernel) (by decide +kernel) (by decide +kernel)]
    decide +kernel

/-- The statuses that were sent and accepted in a run. -/
def written (s : State) : List (Event latinRuntime sampleItem) → List String
  | [] => []
  | .write c :: events =>
    (if (c.answer latinRuntime sampleItem s).sent.isSome ∧ (c.reply matches .accepted) then [c.statusName] else []) ++
      written (step latinRuntime sampleItem s (.write c)) events
  | e :: events => written (step latinRuntime sampleItem s e) events

/-- The program finds the review it wants and writes nothing; later it writes over the
review, which differs from all that it wrote. -/
theorem found_status_overwritten :
    let events := sampleEvents ++ [.write (sampleCall "In review")]
    let s := run latinRuntime sampleItem (.start "Ready") events
    written (.start "Ready") events = ["In progress"] ∧ (sampleCall "Testing").live s = "In review" ∧
      normalizeStatusKey latinRuntime "In review" ≠ normalizeStatusKey latinRuntime "In progress" ∧
      ¬ Reclaims latinRuntime "In progress" "In review" "Testing" ∧
      ((sampleCall "Testing").answer latinRuntime sampleItem s).sent.isSome = true := by
  refine ⟨by decide +kernel, by decide +kernel, by decide +kernel, by decide +kernel, by decide +kernel⟩

end ProjectDrift
