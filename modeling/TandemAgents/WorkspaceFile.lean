import Mathlib.Data.List.Nodup
import TandemAgents.PythonText

/-!
# The workspace file

Every writer loads the whole file, changes its copy and writes everything back. Only the threads
of the scheduler lock each other out; the supervisor and the API do not.
-/
namespace WorkspaceFile

open PythonText

set_option maxRecDepth 20000

/-! ## Contents -/

/-- `now_ms()`. -/
abbrev Clock := { n : Int // n ≠ 0 }

/-- The texts of a run reference, as `_as_text` gives them. -/
structure RunTexts where
  runId : Ident
  projectId : Ident
  projectKey : Ident
  status : Ident
  phase : Ident
  executionBackend : Ident
  admissionRole : Ident
  executionPath : Ident
  taskKey : Ident
  taskTitle : Ident
  deriving DecidableEq

structure RunReference extends RunTexts where
  createdAtMs : Int
  updatedAtMs : Int
  deriving DecidableEq

/-- A project binding: its id and what else `_normalize_project_binding` gives it. -/
structure Project (δ : Type) where
  id : Ident
  createdAtMs : Int
  binding : δ
  deriving DecidableEq

structure Workspace (δ : Type) where
  id : Ident
  name : Ident
  createdAtMs : Int
  updatedAtMs : Int
  projects : List (Project δ)
  runs : List RunReference
  activeProjectId : Option Ident

/-- `_as_int(value, now_ms()) or now_ms()`. -/
def orNow (now : Clock) (value : Int) : Int := if value = 0 then now.1 else value

/-- `_normalize_run_ref`. -/
def normalizeRunRef (now : Clock) (run : RunReference) : RunReference :=
  { run with createdAtMs := orNow now run.createdAtMs, updatedAtMs := orNow now run.updatedAtMs }

section
variable {δ : Type}

/-- `_normalize_project_binding`. -/
def normalizeProject (now : Clock) (project : Project δ) : Project δ :=
  { project with createdAtMs := orNow now project.createdAtMs }

/-- `_normalize_workspace`. -/
def normalizeWorkspace (now : Clock) (workspace : Workspace δ) : Workspace δ :=
  { workspace with
    projects := workspace.projects.map (normalizeProject now)
    runs := workspace.runs.map (normalizeRunRef now) }

/-! ## Changes -/

/-- The arguments of `record_run_reference`. -/
structure RunCall where
  runId : String
  projectId : String
  projectKey : String
  status : String
  phase : String
  executionBackend : String
  admissionRole : String
  executionPath : String
  taskKey : String
  taskTitle : String
  createdAtMs : Option Int
  updatedAtMs : Option Int
  deriving DecidableEq

def RunCall.texts (call : RunCall) : RunTexts where
  runId := .of call.runId
  projectId := .of call.projectId
  projectKey := .of call.projectKey
  status := .of call.status
  phase := .of call.phase
  executionBackend := .of call.executionBackend
  admissionRole := .of call.admissionRole
  executionPath := .of call.executionPath
  taskKey := .of call.taskKey
  taskTitle := .of call.taskTitle

/-- `record_run_reference`. -/
def recordRunReference (now : Clock) (call : RunCall) (workspace : Workspace δ) : Workspace δ :=
  let record := normalizeWorkspace now workspace
  let existing := record.runs.find? fun item => decide (item.runId = .of call.runId)
  let created := match call.createdAtMs, existing with
    | some created, _ => created
    | none, some item => orNow now item.createdAtMs
    | none, none => now.1
  let runRef : RunReference := { call.texts with createdAtMs := created, updatedAtMs := call.updatedAtMs.getD now.1 }
  { record with runs := (record.runs.filter fun item => decide (item.runId ≠ runRef.runId)) ++ [runRef], updatedAtMs := now.1 }

/-- The first project of an id replaced by another one, which takes over its time of creation. -/
def replaceFirst (new : Project δ) : List (Project δ) → Option (List (Project δ))
  | [] => none
  | existing :: rest =>
    if existing.id = new.id then
      some ({ new with createdAtMs := if existing.createdAtMs = 0 then new.createdAtMs else existing.createdAtMs } :: rest)
    else (replaceFirst new rest).map fun others => existing :: others

/-- `register_project`, for a binding of `project_binding_from_compat`. -/
def registerProject (now : Clock) (new : Project δ) (workspace : Workspace δ) : Workspace δ :=
  let record := normalizeWorkspace now workspace
  { record with
    projects := (replaceFirst new record.projects).getD (record.projects ++ [new])
    activeProjectId := some (record.activeProjectId.getD new.id)
    updatedAtMs := now.1 }

/-- The call of `_update_workspace_reference` for a run that the copy has a reference of. -/
def updateCall (runId : Ident) (status : String) (workspace : Workspace δ) : Option RunCall :=
  (workspace.runs.find? fun item => decide (item.runId = runId)).map fun existing =>
    { runId := runId.text
      projectId := existing.projectId.text
      projectKey := existing.projectKey.text
      status := status
      phase := orElse existing.phase.text "coder_execution"
      executionBackend := orElse existing.executionBackend.text "coder"
      admissionRole := orElse existing.admissionRole.text "aca_scheduler"
      executionPath := orElse existing.executionPath.text "tandem_coder"
      taskKey := existing.taskKey.text
      taskTitle := existing.taskTitle.text
      createdAtMs := some existing.createdAtMs
      updatedAtMs := none }

inductive Change (δ : Type) where
  | run (call : RunCall)
  | project (new : Project δ)

def Change.apply (now : Clock) : Change δ → Workspace δ → Workspace δ
  | .run call => recordRunReference now call
  | .project new => registerProject now new

/-- The last call for a run. -/
def lastCall (runId : Ident) (changes : List (Change δ)) : Option RunCall :=
  changes.reverse.findSome? fun
    | .run call => if call.texts.runId = runId then some call else none
    | .project _ => none

/-- The last binding registered for a project. -/
def lastProject (id : Ident) (changes : List (Change δ)) : Option (Project δ) :=
  changes.reverse.findSome? fun
    | .run _ => none
    | .project new => if new.id = id then some new else none

/-! ## Writers -/

/-- `_project_file_stem`, for a digest of texts. -/
def projectFileStem (digest : String → String) (id : Ident) : String :=
  let raw := orElse id.text "project"
  slugify raw ++ "-" ++ digest raw

/-- What a writer holds: its copy of the workspace; and for the record what it has loaded and the
changes since. -/
structure Copy (δ : Type) where
  workspace : Workspace δ
  loaded : Workspace δ
  changes : List (Change δ)

/-- The file, the names of the project files, the copies of the writers, and for the record the
changes that were saved, in the order of the saves. -/
structure State (π δ : Type) where
  file : Option (Workspace δ)
  projectFiles : List String
  copies : π → Option (Copy δ)
  saved : List (Change δ)

inductive Action (π δ : Type) where
  | load (writer : π) (now : Clock)
  | change (writer : π) (change : Change δ) (now : Clock)
  | save (writer : π) (now : Clock)

end

section
variable {π δ : Type} [DecidableEq π] (digest : String → String) (absent : Workspace δ)

/-- One step. Where the file is absent a load gives what the older files have or an empty
workspace, and where it takes an older state file over it saves that at once, which is a save of its
own here. A writer goes on with what it has saved. -/
def next (s : State π δ) : Action π δ → State π δ
  | .load writer now =>
    let loaded := normalizeWorkspace now (s.file.getD absent)
    { s with copies := Function.update s.copies writer (some ⟨loaded, loaded, []⟩) }
  | .change writer change now =>
    { s with
      copies := Function.update s.copies writer ((s.copies writer).map fun copy =>
        { copy with workspace := change.apply now copy.workspace, changes := copy.changes ++ [change] }) }
  | .save writer now =>
    match s.copies writer with
    | none => s
    | some copy =>
      let record := { normalizeWorkspace now copy.workspace with updatedAtMs := now.1 }
      { file := some record
        projectFiles := record.projects.map fun project => projectFileStem digest project.id
        copies := Function.update s.copies writer (some ⟨record, record, []⟩)
        saved := s.saved ++ copy.changes }

def run (s : State π δ) (actions : List (Action π δ)) : State π δ := actions.foldl (next digest absent) s

def State.runs (s : State π δ) : List RunReference := (s.file.map Workspace.runs).getD []

def State.projects (s : State π δ) : List (Project δ) := (s.file.map Workspace.projects).getD []

/-- What stands in the file and was not replaced by the writer itself is in what it has loaded. -/
def Fresh (s : State π δ) : Action π δ → Prop
  | .load _ _ => True
  | .change _ _ _ => True
  | .save writer _ => ∀ copy, s.copies writer = some copy →
      (∀ r ∈ s.runs, lastCall r.runId copy.changes = none → r ∈ copy.loaded.runs) ∧
        ∀ p ∈ s.projects, lastProject p.id copy.changes = none → p ∈ copy.loaded.projects

/-- No save of a run is stale. -/
def FreshRun (s : State π δ) : List (Action π δ) → Prop
  | [] => True
  | action :: actions => Fresh s action ∧ FreshRun (next digest absent s action) actions

instance Fresh.decidable [DecidableEq δ] (s : State π δ) (action : Action π δ) : Decidable (Fresh s action) :=
  match action with
  | .load _ _ => isTrue trivial
  | .change _ _ _ => isTrue trivial
  | .save writer _ =>
    match hcopy : s.copies writer with
    | none => isTrue fun copy h => by cases hcopy.symm.trans h
    | some copy =>
      decidable_of_iff ((∀ r ∈ s.runs, lastCall r.runId copy.changes = none → r ∈ copy.loaded.runs) ∧
          ∀ p ∈ s.projects, lastProject p.id copy.changes = none → p ∈ copy.loaded.projects) (by
        constructor
        · intro h other hother
          obtain rfl := Option.some.inj (hcopy.symm.trans hother)
          exact h
        · exact fun h => h copy hcopy)

instance FreshRun.decidable [DecidableEq δ] (s : State π δ) (actions : List (Action π δ)) :
    Decidable (FreshRun digest absent s actions) :=
  match actions with
  | [] => isTrue trivial
  | action :: rest =>
    have := FreshRun.decidable (next digest absent s action) rest
    inferInstanceAs (Decidable (Fresh s action ∧ FreshRun digest absent (next digest absent s action) rest))

/-- No writer has a copy yet, every time is set, no run has two references, and the projects have
their files. -/
structure Start (s : State π δ) : Prop where
  copies : ∀ writer, s.copies writer = none
  saved : s.saved = []
  runs : ∀ r ∈ s.runs, r.createdAtMs ≠ 0 ∧ r.updatedAtMs ≠ 0
  projects : ∀ p ∈ s.projects, p.createdAtMs ≠ 0
  unique : (s.runs.map fun r => r.runId).Nodup
  absent : (absent.runs.map fun r => r.runId).Nodup
  files : ∀ p ∈ s.projects, projectFileStem digest p.id ∈ s.projectFiles

end

/-! ## Changes and what they leave -/

section
variable {δ : Type}

theorem lastCall_append (k : Ident) (a b : List (Change δ)) : lastCall k (a ++ b) = (lastCall k b).or (lastCall k a) := by
  rw [lastCall, List.reverse_append, List.findSome?_append]
  rfl

theorem lastProject_append (k : Ident) (a b : List (Change δ)) :
    lastProject k (a ++ b) = (lastProject k b).or (lastProject k a) := by
  rw [lastProject, List.reverse_append, List.findSome?_append]
  rfl

theorem lastCall_runId {k : Ident} {changes : List (Change δ)} {call : RunCall} (h : lastCall k changes = some call) :
    call.texts.runId = k := by
  obtain ⟨change, -, hchange⟩ := List.exists_of_findSome?_eq_some h
  cases change with
  | run c =>
    simp only [Option.ite_none_right_eq_some, Option.some.injEq] at hchange
    rw [← hchange.2]
    exact hchange.1
  | project p => cases hchange

theorem lastProject_id {k : Ident} {changes : List (Change δ)} {p : Project δ} (h : lastProject k changes = some p) :
    p.id = k := by
  obtain ⟨change, -, hchange⟩ := List.exists_of_findSome?_eq_some h
  cases change with
  | run c => cases hchange
  | project q =>
    simp only [Option.ite_none_right_eq_some, Option.some.injEq] at hchange
    rw [← hchange.2]
    exact hchange.1

theorem of_text (a : Ident) : Ident.of a.text = a := by
  cases a with
  | mk text stripped => simp [Ident.of, stripped]

/-- An update of the supervisor keeps what the reference has in its copy, but for the status. -/
theorem updateCall_texts {k : Ident} {status : String} {w : Workspace δ} {call : RunCall}
    (h : updateCall k status w = some call) : ∃ existing ∈ w.runs, existing.runId = k ∧
      call.texts = { existing.toRunTexts with
        status := .of status
        phase := .of (orElse existing.phase.text "coder_execution")
        executionBackend := .of (orElse existing.executionBackend.text "coder")
        admissionRole := .of (orElse existing.admissionRole.text "aca_scheduler")
        executionPath := .of (orElse existing.executionPath.text "tandem_coder") } := by
  obtain ⟨existing, hfind, rfl⟩ := Option.map_eq_some_iff.mp h
  have hk : existing.runId = k := by
    have hfound := List.find?_some hfind
    rwa [decide_eq_true_eq] at hfound
  refine ⟨existing, List.mem_of_find?_eq_some hfind, hk, ?_⟩
  simp only [RunCall.texts, of_text, hk]

theorem orNow_ne (now : Clock) (value : Int) : orNow now value ≠ 0 := by
  rw [orNow]
  split
  · exact now.2
  · assumption

theorem orNow_set {now : Clock} {value : Int} (h : value ≠ 0) : orNow now value = value := if_neg h

/-- The times of a reference are set. -/
def RunReference.IsSet (r : RunReference) : Prop := r.createdAtMs ≠ 0 ∧ r.updatedAtMs ≠ 0

theorem normalizeRunRef_set {now : Clock} {r : RunReference} (h : r.IsSet) : normalizeRunRef now r = r := by
  rw [normalizeRunRef, orNow_set h.1, orNow_set h.2]

theorem normalizeProject_set {now : Clock} {p : Project δ} (h : p.createdAtMs ≠ 0) : normalizeProject now p = p := by
  rw [normalizeProject, orNow_set h]

theorem isSet_normalize {now : Clock} {runs : List RunReference} : ∀ r ∈ runs.map (normalizeRunRef now), r.IsSet := by
  intro r hr
  obtain ⟨r₀, -, rfl⟩ := List.mem_map.mp hr
  exact ⟨orNow_ne now _, orNow_ne now _⟩

theorem projects_normalize {now : Clock} {projects : List (Project δ)} :
    ∀ p ∈ projects.map (normalizeProject now), p.createdAtMs ≠ 0 := by
  intro p hp
  obtain ⟨p₀, -, rfl⟩ := List.mem_map.mp hp
  exact orNow_ne now _

theorem mem_normalize {now : Clock} {runs : List RunReference} {r : RunReference} (hr : r ∈ runs) (h : r.IsSet) :
    r ∈ runs.map (normalizeRunRef now) := List.mem_map.mpr ⟨r, hr, normalizeRunRef_set h⟩

theorem mem_normalize_project {now : Clock} {projects : List (Project δ)} {p : Project δ} (hp : p ∈ projects)
    (h : p.createdAtMs ≠ 0) : p ∈ projects.map (normalizeProject now) := List.mem_map.mpr ⟨p, hp, normalizeProject_set h⟩

theorem runIds_normalize (now : Clock) (runs : List RunReference) :
    (runs.map (normalizeRunRef now)).map (fun r => r.runId) = runs.map fun r => r.runId := by
  rw [List.map_map]
  rfl

/-! ## Copies -/

/-- A copy is what was loaded with the changes since. -/
structure CopyOk (c : Copy δ) : Prop where
  runs : ∀ r ∈ c.loaded.runs, lastCall r.runId c.changes = none → r ∈ c.workspace.runs
  projects : ∀ p ∈ c.loaded.projects, lastProject p.id c.changes = none → p ∈ c.workspace.projects
  runs_set : ∀ r ∈ c.loaded.runs, r.IsSet
  projects_set : ∀ p ∈ c.loaded.projects, p.createdAtMs ≠ 0
  unique : (c.workspace.runs.map fun r => r.runId).Nodup
  calls : ∀ k call, lastCall k c.changes = some call → ∃ r ∈ c.workspace.runs, r.toRunTexts = call.texts
  news : ∀ k p, lastProject k c.changes = some p → ∃ q ∈ c.workspace.projects, q.id = p.id ∧ q.binding = p.binding

/-- A workspace without unset times, as a copy of itself. -/
theorem CopyOk.loaded {w : Workspace δ} (hruns : ∀ r ∈ w.runs, r.IsSet) (hprojects : ∀ p ∈ w.projects, p.createdAtMs ≠ 0)
    (h : (w.runs.map fun r => r.runId).Nodup) : CopyOk ⟨w, w, []⟩ where
  runs := fun r hr _ => hr
  projects := fun p hp _ => hp
  runs_set := hruns
  projects_set := hprojects
  unique := h
  calls := fun k call h => by cases h
  news := fun k p h => by cases h

theorem replaceFirst_keeps {new p : Project δ} {projects : List (Project δ)} (hp : p ∈ projects) (hne : p.id ≠ new.id) :
    p ∈ (replaceFirst new projects).getD (projects ++ [new]) := by
  have hall : ∀ {replaced}, replaceFirst new projects = some replaced → p ∈ replaced := by
    induction projects with
    | nil => cases hp
    | cons existing rest ih =>
      intro replaced hreplaced
      rw [replaceFirst] at hreplaced
      split at hreplaced
      · rename_i heq
        rw [← Option.some.inj hreplaced]
        rcases List.mem_cons.mp hp with rfl | hp
        · exact absurd heq hne
        · exact List.mem_cons_of_mem _ hp
      · obtain ⟨others, hothers, rfl⟩ := Option.map_eq_some_iff.mp hreplaced
        rcases List.mem_cons.mp hp with rfl | hp
        · exact List.mem_cons_self
        · exact List.mem_cons_of_mem _ (ih hp hothers)
  cases hreplaced : replaceFirst new projects with
  | none => exact List.mem_append_left _ hp
  | some replaced => exact hall hreplaced

theorem replaceFirst_new (new : Project δ) (projects : List (Project δ)) :
    ∃ q ∈ (replaceFirst new projects).getD (projects ++ [new]), q.id = new.id ∧ q.binding = new.binding := by
  have hall : ∀ {replaced}, replaceFirst new projects = some replaced →
      ∃ q ∈ replaced, q.id = new.id ∧ q.binding = new.binding := by
    induction projects with
    | nil => exact fun h => by cases h
    | cons existing rest ih =>
      intro replaced hreplaced
      rw [replaceFirst] at hreplaced
      split at hreplaced
      · rw [← Option.some.inj hreplaced]
        exact ⟨_, List.mem_cons_self, rfl, rfl⟩
      · obtain ⟨others, hothers, rfl⟩ := Option.map_eq_some_iff.mp hreplaced
        obtain ⟨q, hq, hnew⟩ := ih hothers
        exact ⟨q, List.mem_cons_of_mem _ hq, hnew⟩
  cases hreplaced : replaceFirst new projects with
  | none => exact ⟨new, by simp, rfl, rfl⟩
  | some replaced => exact hall hreplaced

theorem lastCall_run (k : Ident) (call : RunCall) :
    lastCall k [(Change.run call : Change δ)] = if call.texts.runId = k then some call else none := by
  simp [lastCall]

theorem lastProject_project (k : Ident) (new : Project δ) :
    lastProject k [Change.project new] = if new.id = k then some new else none := by
  simp [lastProject]

/-- A call replaces the reference of its run and leaves the others. -/
theorem CopyOk.record {c : Copy δ} (h : CopyOk c) (call : RunCall) (now : Clock) :
    CopyOk { c with workspace := recordRunReference now call c.workspace, changes := c.changes ++ [.run call] } where
  runs := by
    intro r hr hnone
    rw [lastCall_append, lastCall_run, Option.or_eq_none_iff] at hnone
    have hne : r.runId ≠ call.texts.runId := by
      intro heq
      rw [if_pos heq.symm] at hnone
      cases hnone.1
    have hmem : r ∈ c.workspace.runs.map (normalizeRunRef now) := mem_normalize (h.runs r hr hnone.2) (h.runs_set r hr)
    exact List.mem_append_left _ (List.mem_filter.mpr ⟨hmem, decide_eq_true hne⟩)
  projects := by
    intro p hp hnone
    rw [lastProject_append, Option.or_eq_none_iff] at hnone
    exact mem_normalize_project (h.projects p hp hnone.2) (h.projects_set p hp)
  runs_set := h.runs_set
  projects_set := h.projects_set
  unique := by
    have hold := h.unique
    rw [← runIds_normalize now] at hold
    show (List.map _ (List.filter _ _ ++ [_])).Nodup
    rw [List.map_append, List.map_singleton, List.nodup_append]
    refine ⟨hold.sublist (List.filter_sublist.map _), by simp, ?_⟩
    intro k hk l hl heq
    rw [heq, List.mem_singleton.mp hl] at hk
    obtain ⟨r, hr, hrun⟩ := List.mem_map.mp hk
    exact of_decide_eq_true (List.mem_filter.mp hr).2 hrun
  calls := by
    intro k d hd
    rw [lastCall_append, lastCall_run] at hd
    split at hd
    · obtain rfl := Option.some.inj hd
      exact ⟨_, List.mem_append_right _ List.mem_cons_self, rfl⟩
    · rename_i hne
      rw [Option.none_or] at hd
      obtain ⟨r, hr, htexts⟩ := h.calls k d hd
      refine ⟨normalizeRunRef now r, List.mem_append_left _ (List.mem_filter.mpr ⟨List.mem_map_of_mem hr, ?_⟩), htexts⟩
      have hrun : r.runId = k := (congrArg RunTexts.runId htexts).trans (lastCall_runId hd)
      exact decide_eq_true fun heq => hne (heq.symm.trans hrun)
  news := by
    intro k p hp
    rw [lastProject_append] at hp
    obtain ⟨q, hq, hnew⟩ := h.news k p hp
    exact ⟨normalizeProject now q, List.mem_map_of_mem hq, hnew⟩

/-- A registered project replaces the first of its id and leaves the others. -/
theorem CopyOk.register {c : Copy δ} (h : CopyOk c) (new : Project δ) (now : Clock) :
    CopyOk { c with workspace := registerProject now new c.workspace, changes := c.changes ++ [.project new] } where
  runs := by
    intro r hr hnone
    rw [lastCall_append, Option.or_eq_none_iff] at hnone
    exact mem_normalize (h.runs r hr hnone.2) (h.runs_set r hr)
  projects := by
    intro p hp hnone
    rw [lastProject_append, lastProject_project, Option.or_eq_none_iff] at hnone
    have hne : p.id ≠ new.id := by
      intro heq
      rw [if_pos heq.symm] at hnone
      cases hnone.1
    exact replaceFirst_keeps (mem_normalize_project (h.projects p hp hnone.2) (h.projects_set p hp)) hne
  runs_set := h.runs_set
  projects_set := h.projects_set
  unique := by
    have hold := h.unique
    rwa [← runIds_normalize now] at hold
  calls := by
    intro k d hd
    rw [lastCall_append] at hd
    obtain ⟨r, hr, htexts⟩ := h.calls k d hd
    exact ⟨normalizeRunRef now r, List.mem_map_of_mem hr, htexts⟩
  news := by
    intro k p hp
    rw [lastProject_append, lastProject_project] at hp
    split at hp
    · obtain rfl := Option.some.inj hp
      exact replaceFirst_new new _
    · rename_i hne
      rw [Option.none_or] at hp
      obtain ⟨q, hq, hid, hbinding⟩ := h.news k p hp
      refine ⟨normalizeProject now q, replaceFirst_keeps (List.mem_map_of_mem hq) ?_, hid, hbinding⟩
      intro heq
      exact hne ((heq.symm.trans hid).trans (lastProject_id hp))

theorem CopyOk.change {c : Copy δ} (h : CopyOk c) (change : Change δ) (now : Clock) :
    CopyOk { c with workspace := change.apply now c.workspace, changes := c.changes ++ [change] } := by
  cases change with
  | run call => exact h.record call now
  | project new => exact h.register new now

end

/-! ## Steps -/

section
variable {π δ : Type} {digest : String → String} {absent : Workspace δ}

/-- What every step keeps: sound copies, and a file that shows the last changes saved. -/
structure Inv (digest : String → String) (absent : Workspace δ) (s : State π δ) : Prop where
  copies : ∀ writer copy, s.copies writer = some copy → CopyOk copy
  runs_set : ∀ r ∈ s.runs, r.IsSet
  projects_set : ∀ p ∈ s.projects, p.createdAtMs ≠ 0
  unique : (s.runs.map fun r => r.runId).Nodup
  absent : (absent.runs.map fun r => r.runId).Nodup
  calls : ∀ k call, lastCall k s.saved = some call → ∃ r ∈ s.runs, r.toRunTexts = call.texts
  news : ∀ k p, lastProject k s.saved = some p → ∃ q ∈ s.projects, q.id = p.id ∧ q.binding = p.binding
  files : ∀ p ∈ s.projects, projectFileStem digest p.id ∈ s.projectFiles

theorem Start.inv {s : State π δ} (h : Start digest absent s) : Inv digest absent s where
  copies := fun writer copy hcopy => by
    rw [h.copies writer] at hcopy
    cases hcopy
  runs_set := h.runs
  projects_set := h.projects
  unique := h.unique
  absent := h.absent
  calls := fun k call hcall => by
    rw [h.saved] at hcall
    cases hcall
  news := fun k p hp => by
    rw [h.saved] at hp
    cases hp
  files := h.files

/-- The references and projects of a state are in another one unless they were replaced. -/
structure Kept (s t : State π δ) (more : List (Change δ)) : Prop where
  saved : t.saved = s.saved ++ more
  runs : ∀ r ∈ s.runs, lastCall r.runId more = none → r ∈ t.runs
  projects : ∀ p ∈ s.projects, lastProject p.id more = none → p ∈ t.projects

theorem Kept.refl (s : State π δ) : Kept s s [] where
  saved := (List.append_nil _).symm
  runs := fun _ hr _ => hr
  projects := fun _ hp _ => hp

theorem Kept.trans {s t u : State π δ} {a b : List (Change δ)} (h : Kept s t a) (h' : Kept t u b) : Kept s u (a ++ b) where
  saved := by rw [h'.saved, h.saved, List.append_assoc]
  runs := by
    intro r hr hnone
    rw [lastCall_append, Option.or_eq_none_iff] at hnone
    exact h'.runs r (h.runs r hr hnone.2) hnone.1
  projects := by
    intro p hp hnone
    rw [lastProject_append, Option.or_eq_none_iff] at hnone
    exact h'.projects p (h.projects p hp hnone.2) hnone.1

/-- What a writer saves unless its copy is stale keeps what stands in the file. -/
theorem kept_save {s : State π δ} {copy : Copy δ} (hi : Inv digest absent s) (hc : CopyOk copy)
    (hruns : ∀ r ∈ s.runs, lastCall r.runId copy.changes = none → r ∈ copy.loaded.runs)
    (hprojects : ∀ p ∈ s.projects, lastProject p.id copy.changes = none → p ∈ copy.loaded.projects) (now : Clock) :
    (∀ r ∈ s.runs, lastCall r.runId copy.changes = none → r ∈ copy.workspace.runs.map (normalizeRunRef now)) ∧
      ∀ p ∈ s.projects, lastProject p.id copy.changes = none → p ∈ copy.workspace.projects.map (normalizeProject now) := by
  constructor
  · intro r hr hnone
    exact mem_normalize (hc.runs r (hruns r hr hnone) hnone) (hi.runs_set r hr)
  · intro p hp hnone
    exact mem_normalize_project (hc.projects p (hprojects p hp hnone) hnone) (hi.projects_set p hp)

end

section
variable {π δ : Type} [DecidableEq π] {digest : String → String} {absent : Workspace δ}

theorem update_copies {copies : π → Option (Copy δ)} (h : ∀ writer copy, copies writer = some copy → CopyOk copy)
    {writer : π} {new : Option (Copy δ)} (hnew : ∀ copy, new = some copy → CopyOk copy) :
    ∀ other copy, Function.update copies writer new other = some copy → CopyOk copy := by
  intro other copy hcopy
  by_cases heq : other = writer
  · rw [heq, Function.update_self] at hcopy
    exact hnew copy hcopy
  · rw [Function.update_of_ne heq] at hcopy
    exact h other copy hcopy

theorem copyOk_normalize {w : Workspace δ} (h : (w.runs.map fun r => r.runId).Nodup) (now : Clock) (updated : Int) :
    CopyOk ⟨{ normalizeWorkspace now w with updatedAtMs := updated },
      { normalizeWorkspace now w with updatedAtMs := updated }, []⟩ :=
  CopyOk.loaded isSet_normalize projects_normalize (by rwa [← runIds_normalize now] at h)

/-- A step keeps what holds of the state, and the references and projects but for those it replaces,
unless it saves a stale copy. -/
theorem step {s : State π δ} (hi : Inv digest absent s) {action : Action π δ} (hfresh : Fresh s action) :
    Inv digest absent (next digest absent s action) ∧ ∃ more, Kept s (next digest absent s action) more := by
  cases action with
  | load writer now =>
    refine ⟨⟨update_copies hi.copies ?_, hi.runs_set, hi.projects_set, hi.unique, hi.absent, hi.calls, hi.news, hi.files⟩,
      [], (List.append_nil _).symm, fun _ hr _ => hr, fun _ hp _ => hp⟩
    intro copy hcopy
    rw [← Option.some.inj hcopy]
    have hunique : ((s.file.getD absent).runs.map fun r => r.runId).Nodup := by
      cases hfile : s.file with
      | none => exact hi.absent
      | some w =>
        have hw := hi.unique
        rw [State.runs, hfile] at hw
        exact hw
    exact copyOk_normalize hunique now _
  | change writer change now =>
    refine ⟨⟨update_copies hi.copies ?_, hi.runs_set, hi.projects_set, hi.unique, hi.absent, hi.calls, hi.news, hi.files⟩,
      [], (List.append_nil _).symm, fun _ hr _ => hr, fun _ hp _ => hp⟩
    intro copy hcopy
    obtain ⟨old, hold, rfl⟩ := Option.map_eq_some_iff.mp hcopy
    exact (hi.copies writer old hold).change change now
  | save writer now =>
    cases hcopy : s.copies writer with
    | none =>
      have hsame : next digest absent s (.save writer now) = s := by simp only [next, hcopy]
      rw [hsame]
      exact ⟨hi, [], Kept.refl s⟩
    | some copy =>
      have hc := hi.copies writer copy hcopy
      obtain ⟨hruns, hprojects⟩ := hfresh copy hcopy
      obtain ⟨hkeep, hkeepProjects⟩ := kept_save hi hc hruns hprojects now
      have hnext := copyOk_normalize hc.unique now now.1
      simp only [next, hcopy]
      refine ⟨⟨update_copies hi.copies ?_, hnext.runs_set, hnext.projects_set, hnext.unique, hi.absent, ?_, ?_, ?_⟩,
        copy.changes, rfl, hkeep, hkeepProjects⟩
      · intro new hnew
        rw [← Option.some.inj hnew]
        exact hnext
      · intro k call hcall
        rw [lastCall_append] at hcall
        cases hlast : lastCall k copy.changes with
        | some last =>
          rw [hlast, Option.some_or] at hcall
          obtain ⟨r, hr, htexts⟩ := hc.calls k last hlast
          exact ⟨normalizeRunRef now r, List.mem_map_of_mem hr, htexts.trans (congrArg RunCall.texts (Option.some.inj hcall))⟩
        | none =>
          rw [hlast, Option.none_or] at hcall
          obtain ⟨r, hr, htexts⟩ := hi.calls k call hcall
          have hrun : r.runId = k := (congrArg RunTexts.runId htexts).trans (lastCall_runId hcall)
          exact ⟨r, hkeep r hr (hrun ▸ hlast), htexts⟩
      · intro k p hp
        rw [lastProject_append] at hp
        cases hlast : lastProject k copy.changes with
        | some last =>
          rw [hlast, Option.some_or] at hp
          obtain rfl := Option.some.inj hp
          obtain ⟨q, hq, hnew⟩ := hc.news k last hlast
          exact ⟨normalizeProject now q, List.mem_map_of_mem hq, hnew⟩
        | none =>
          rw [hlast, Option.none_or] at hp
          obtain ⟨q, hq, hid, hbinding⟩ := hi.news k p hp
          have hqid : q.id = k := hid.trans (lastProject_id hp)
          exact ⟨q, hkeepProjects q hq (hqid ▸ hlast), hid, hbinding⟩
      · intro p hp
        exact List.mem_map_of_mem hp

theorem steps {actions : List (Action π δ)} {s : State π δ} (hi : Inv digest absent s)
    (h : FreshRun digest absent s actions) :
    Inv digest absent (run digest absent s actions) ∧ ∃ more, Kept s (run digest absent s actions) more := by
  induction actions generalizing s with
  | nil => exact ⟨hi, [], Kept.refl s⟩
  | cons action actions ih =>
    obtain ⟨hnext, more, hkept⟩ := step hi h.1
    obtain ⟨hlast, later, hkept'⟩ := ih hnext h.2
    exact ⟨hlast, more ++ later, hkept.trans hkept'⟩

/-- What the file has after some steps `u` of what it had before them: the reference of each run and
the binding of each project as it was saved last, one reference for each run, and what was not
replaced since; and a status is another only after a call for the run. -/
structure NothingLost (digest : String → String) (t u : State π δ) : Prop where
  calls : ∀ k call, lastCall k u.saved = some call → ∃ r ∈ u.runs, r.toRunTexts = call.texts
  news : ∀ k p, lastProject k u.saved = some p → ∃ q ∈ u.projects, q.id = p.id ∧ q.binding = p.binding
  files : ∀ p ∈ u.projects, projectFileStem digest p.id ∈ u.projectFiles
  unique : (u.runs.map fun r => r.runId).Nodup
  kept : ∃ more, Kept t u more ∧ ∀ r ∈ t.runs, ∀ r' ∈ u.runs, r'.runId = r.runId → r'.status ≠ r.status →
    ∃ call, lastCall r.runId more = some call ∧ r'.status = call.texts.status

theorem freshRun_append {a b : List (Action π δ)} {s : State π δ} (h : FreshRun digest absent s (a ++ b)) :
    FreshRun digest absent s a ∧ FreshRun digest absent (run digest absent s a) b := by
  induction a generalizing s with
  | nil => exact ⟨trivial, h⟩
  | cons action a ih =>
    obtain ⟨hfirst, hrest⟩ := ih h.2
    exact ⟨⟨h.1, hfirst⟩, hrest⟩

/-- Where no save of a run is stale, nothing that was saved is lost in any later state. -/
theorem references_kept {s : State π δ} (h : Start digest absent s) {before after : List (Action π δ)}
    (hfresh : FreshRun digest absent s (before ++ after)) :
    NothingLost digest (run digest absent s before) (run digest absent s (before ++ after)) := by
  obtain ⟨hbefore, hafter⟩ := freshRun_append hfresh
  obtain ⟨ht, -⟩ := steps h.inv hbefore
  obtain ⟨hu, more, hkept⟩ := steps ht hafter
  have hrun : run digest absent s (before ++ after) = run digest absent (run digest absent s before) after := List.foldl_append
  rw [hrun]
  refine ⟨hu.calls, hu.news, hu.files, hu.unique, more, hkept, ?_⟩
  intro r hr r' hr' hid hstatus
  have hsame : ∀ r'' ∈ (run digest absent (run digest absent s before) after).runs, r''.runId = r.runId → r'' = r' :=
    fun r'' hr'' hid'' => List.inj_on_of_nodup_map hu.unique hr'' hr' (hid''.trans hid.symm)
  cases hlast : lastCall r.runId more with
  | none => exact absurd (congrArg (fun x => x.status) (hsame r (hkept.runs r hr hlast) rfl)).symm hstatus
  | some call =>
    have hsaved := hkept.saved ▸ lastCall_append r.runId (run digest absent s before).saved more
    rw [hlast, Option.some_or] at hsaved
    obtain ⟨r'', hr'', htexts⟩ := hu.calls r.runId call hsaved
    have hrunId : r''.runId = r.runId := (congrArg RunTexts.runId htexts).trans (lastCall_runId hlast)
    rw [hsame r'' hr'' hrunId] at htexts
    exact ⟨call, rfl, congrArg RunTexts.status htexts⟩

end

/-! ## Overlapping writers -/

inductive Writer where
  | scheduler
  | supervisor
  | api
  deriving DecidableEq

def sampleClock : Clock := ⟨1, by decide⟩

def emptyWorkspace : Workspace Unit where
  id := .of "workspace"
  name := .of "Tandem Agents Workspace"
  createdAtMs := 1
  updatedAtMs := 1
  projects := []
  runs := []
  activeProjectId := none

/-- A call of the scheduler. -/
def scheduled (runId status : String) : RunCall where
  runId := runId
  projectId := "shop"
  projectKey := ""
  status := status
  phase := ""
  executionBackend := "coder"
  admissionRole := "aca_scheduler"
  executionPath := "tandem_coder"
  taskKey := ""
  taskTitle := ""
  createdAtMs := none
  updatedAtMs := none

def emptyState : State Writer Unit := ⟨none, [], fun _ => none, []⟩

/-- The scheduler saves a first run. -/
def firstRun : List (Action Writer Unit) :=
  [.load .scheduler sampleClock, .change .scheduler (.run (scheduled "a" "running")) sampleClock, .save .scheduler sampleClock]

/-- Then it loads the file again to add another run, and the API to register a project, before either saves. -/
def overlap : List (Action Writer Unit) :=
  [.load .api sampleClock, .load .scheduler sampleClock,
    .change .scheduler (.run (scheduled "b" "running")) sampleClock, .change .scheduler (.run (scheduled "a" "done")) sampleClock,
    .save .scheduler sampleClock, .change .api (.project ⟨.of "blog", 1, ()⟩) sampleClock, .save .api sampleClock]

theorem emptyState_start : Start id emptyWorkspace emptyState where
  copies := fun _ => rfl
  saved := rfl
  runs := fun r hr => by cases hr
  projects := fun p hp => by cases hp
  unique := List.nodup_nil
  absent := List.nodup_nil
  files := fun p hp => by cases hp

/-- Registering a project undoes what the scheduler saved meanwhile: a run is gone, and the status of
another is back. -/
theorem overlap_loses_run :
    lastCall (.of "b") (run id emptyWorkspace emptyState (firstRun ++ overlap)).saved = some (scheduled "b" "running") ∧
      (∀ r ∈ (run id emptyWorkspace emptyState (firstRun ++ overlap)).runs, r.runId = .of "a" ∧ r.status = .of "running") ∧
      ¬NothingLost id (run id emptyWorkspace emptyState firstRun) (run id emptyWorkspace emptyState (firstRun ++ overlap)) := by
  have hsaved : lastCall (.of "b") (run id emptyWorkspace emptyState (firstRun ++ overlap)).saved =
      some (scheduled "b" "running") := by decide +kernel
  have hruns : ∀ r ∈ (run id emptyWorkspace emptyState (firstRun ++ overlap)).runs,
      r.runId = .of "a" ∧ r.status = .of "running" := by decide +kernel
  refine ⟨hsaved, hruns, fun h => ?_⟩
  obtain ⟨r, hr, htexts⟩ := h.calls (.of "b") _ hsaved
  have hb : r.runId = .of "b" := congrArg RunTexts.runId htexts
  rw [(hruns r hr).1] at hb
  exact absurd hb (by decide +kernel)

/-- The same steps one writer after the other lose nothing. -/
def oneByOne : List (Action Writer Unit) :=
  [.load .scheduler sampleClock,
    .change .scheduler (.run (scheduled "b" "running")) sampleClock, .change .scheduler (.run (scheduled "a" "done")) sampleClock,
    .save .scheduler sampleClock, .load .api sampleClock, .change .api (.project ⟨.of "blog", 1, ()⟩) sampleClock,
    .save .api sampleClock]

theorem oneByOne_keeps_runs : NothingLost id (run id emptyWorkspace emptyState firstRun)
    (run id emptyWorkspace emptyState (firstRun ++ oneByOne)) :=
  references_kept emptyState_start (by decide +kernel)

end WorkspaceFile
