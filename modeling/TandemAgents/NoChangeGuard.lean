import Mathlib.Data.List.Dedup
import TandemAgents.FailedResults

/-!
# The guard against a worker that changes nothing

A worker that has to write and has changed none of its files for too long is aborted. What has
changed is read from `git status --porcelain`, which prints a new directory as the directory and
quotes unusual names, and no path that is as in the head; of the paths those are taken that the
subtask declares, and of these the ones that are not as they were when the worker started.
-/
namespace NoChangeGuard

open FileTree GitStatus PythonText Scheduler WorktreeSync FailedResults

set_option maxRecDepth 20000

variable {Content : Type}

/-! ## The states of files -/

inductive FileState (Content : Type) where
  | file (content : Content)
  | symlink (target : String)
  | other
  | error (detail : String)
  | absent
  deriving DecidableEq, Repr

/-- `_baseline_file_state`. -/
def baselineFileState (files : Files Content) (relPath : String) : FileState Content :=
  match files.node (pathParts relPath) with
  | some (.file content) => .file content
  | some .dir => .other
  | none => .absent

/-- What was recorded when the worker started: a state for each path that was changed by then. -/
structure Baseline (Content : Type) where
  changedFiles : List String
  fileStates : String → Option (FileState Content)

/-! ## What the short status prints -/

section
variable (g : Checkout Content)

/-- No path of the index lies in the directory. -/
def isUntrackedDir (d : Path) : Bool := g.tracked.all fun q => !((g.index q).isSome && d.isPrefixOf q)

/-- The untracked directory that stands for the file. -/
def standsIn (p : Path) : Option Path := p.inits.find? fun d => decide (d ≠ []) && decide (d ≠ p) && isUntrackedDir g d

def otherPath (p : Path) : List Char :=
  match standsIn g p with
  | some d => quoted (spelled d ++ "/")
  | none => quoted (spelled p)

variable [DecidableEq Content]

/-- The paths of `git status --porcelain`, with untracked directories. -/
def printedPaths : List (List Char) :=
  (g.tracked.filter (isListed g)).map (printed g) ++ ((g.others.filter fun p => !g.ignored p).map (otherPath g)).dedup

def statusLines : List (List Char) :=
  (g.tracked.filter (isListed g)).map (trackedLine g) ++
    ((g.others.filter fun p => !g.ignored p).map (otherPath g)).dedup.map fun path => "?? ".toList ++ path

end

/-! ## What is read -/

/-- What stands behind the first ` -> `. -/
def behindArrow : List Char → Option (List Char)
  | ' ' :: '-' :: '>' :: ' ' :: rest => some rest
  | _ :: cs => behindArrow cs
  | [] => none

/-- The path of a line, of what stands behind its status. -/
def readPath (text : List Char) : String :=
  let path := strip (String.ofList text)
  match behindArrow path.toList with
  | some rest => strip (String.ofList rest)
  | none => path

/-- The path that `_worktree_has_subtask_changes` reads in a line. -/
def changedPath (rawLine : List Char) : String := if 3 < rawLine.length then readPath (rawLine.drop 3) else ""

/-- `_changed_files_scoped_to_subtask`. -/
def changedFilesScopedToSubtask (changedFiles : List String) (subtask : Subtask) : List String :=
  let normalized := (changedFiles.map normalizeRepoPath).filter fun path => decide (path ≠ "")
  let declared := subtaskDeclaredChangeFiles subtask
  if declared.isEmpty then normalized else normalized.filter fun path => decide (path ∈ declared)

section
variable [DecidableEq Content]

/-- `_fresh_changed_files_since_baseline`. -/
def freshChangedFilesSinceBaseline (files : Files Content) (changedFiles : List String) : Option (Baseline Content) → List String
  | none => (changedFiles.filter fun path => decide (strip path ≠ "")).eraseDups
  | some baseline =>
    (((changedFiles.map slashed).filter fun relPath => decide (relPath ≠ "")).filter fun relPath =>
      match baseline.fileStates relPath with
      | none => true
      | some oldState => decide (baselineFileState files relPath ≠ oldState)).eraseDups

/-- `_worktree_has_subtask_changes`; `answers` says whether git answers. -/
def worktreeHasSubtaskChanges (answers : Bool) (g : Checkout Content) (subtask : Subtask) (baseline : Option (Baseline Content)) : Bool :=
  if answers = false then true
  else
    let changedFiles := ((statusLines g).map changedPath).filter fun path => decide (path ≠ "")
    !(freshChangedFilesSinceBaseline g.files (changedFilesScopedToSubtask changedFiles subtask) baseline).isEmpty

end

/-! ## The guard -/

/-- What the guard finds of a worker; `toolLoop` and `engineSilence` give the reason, if there is one. -/
structure Inspection (Time Content : Type) where
  aborted : Bool
  subtaskId : String
  writeRequired : Bool
  retryWriteRequired : Option Bool
  carriesPatch : Bool
  baseline : Option (Baseline Content)
  repairAbortSeconds : Time
  abortSeconds : Time
  toolLoopAbortSeconds : Time
  elapsedSeconds : Time
  toolLoop : Option String
  engineSilence : Option String

structure AbortResult where
  workerId : String
  subtaskId : String
  failureReason : String
  blockerKind : String
  reason : String
  deriving DecidableEq, Repr

section
variable {Time : Type} [Zero Time] [LE Time] [LT Time] [DecidableLE Time] [DecidableLT Time]

/-- The failure, its reason and the budget of the guard that looks after the worker. -/
def candidate (w : Inspection Time Content) : Option (String × String × Time) :=
  let writeRequired := w.retryWriteRequired.getD w.writeRequired
  if writeRequired && w.carriesPatch then
    some ("WORKER_REPAIR_NO_CHANGE", "repair worker made no filesystem changes", w.repairAbortSeconds)
  else if writeRequired then some ("WORKER_NO_CHANGE", "write-required worker made no filesystem changes", w.abortSeconds)
  else none

/-- `_maybe_abort_no_change_repair_worker`: the abort result it registers. -/
def maybeAbortNoChangeRepairWorker (workerId : String) (hasChanges : Bool) (w : Inspection Time Content) : Option AbortResult :=
  if w.aborted || w.baseline.isNone then none
  else
    match candidate w with
    | none => none
    | some (failureReason, reason, abortSeconds) =>
      if abortSeconds ≤ 0 then none
      else
        let toolLoop :=
          if 0 < w.toolLoopAbortSeconds ∧ w.toolLoopAbortSeconds ≤ w.elapsedSeconds ∧ hasChanges = false then w.toolLoop else none
        if toolLoop.isNone ∧ w.elapsedSeconds < abortSeconds then none
        else if hasChanges then none
        else
          match toolLoop, w.engineSilence with
          | some reason, _ => some ⟨workerId, strip w.subtaskId, "WORKER_NO_DIFF_TOOL_LOOP", "worker_no_progress", reason⟩
          | none, some reason => some ⟨workerId, strip w.subtaskId, "ENGINE_EMPTY_RESPONSE", "engine_empty_response", reason⟩
          | none, none => some ⟨workerId, strip w.subtaskId, failureReason, "worker_no_progress", reason⟩

/-- A worker with a change is not aborted. -/
theorem maybeAbort_changed (workerId : String) (w : Inspection Time Content) :
    maybeAbortNoChangeRepairWorker workerId true w = none := by
  rw [maybeAbortNoChangeRepairWorker]
  split
  · rfl
  · cases candidate w with
    | none => rfl
    | some c =>
      simp only [Bool.true_eq_false, and_false, if_false, if_true]
      split
      · rfl
      · split <;> rfl

end

/-! ## What the guard sees -/

section
variable [DecidableEq Content] (g : Checkout Content) (baseline : Option (Baseline Content))

/-- The declared file is not as it was when the worker started: the baseline has another state for it, or none
and the head has not the same file. -/
def differs (d : String) : Bool :=
  match baseline.bind fun b => b.fileStates d with
  | some oldState => decide (baselineFileState g.files d ≠ oldState)
  | none => decide (g.files.fileAt (pathParts d) ≠ g.head (pathParts d))

/-- The worker has changed a file that it declares. -/
def Wrote (subtask : Subtask) : Prop := ∃ d ∈ subtaskDeclaredChangeFiles subtask, differs g baseline d = true

/-- The status prints a path that is read as this one. -/
def Reported (d : String) : Prop := ∃ text ∈ printedPaths g, normalizeRepoPath (readPath text) = d

/-- The baseline does not have the state in which the path is now. -/
def Unrecorded (d : String) : Prop :=
  slashed d ≠ "" ∧ ∀ b ∈ baseline, b.fileStates (slashed d) ≠ some (baselineFileState g.files (slashed d))

variable {g baseline} {subtask : Subtask} {d : String}

theorem readPath_nil : readPath [] = "" := by decide +kernel

theorem changedPath_line {status : List Char} (h : status.length = 3) (text : List Char) : changedPath (status ++ text) = readPath text := by
  have hdrop : (status ++ text).drop 3 = text := by rw [← h, List.drop_left]
  rw [changedPath, List.length_append, h, hdrop]
  cases text with
  | nil => exact (if_neg (Nat.lt_irrefl 3)).trans readPath_nil.symm
  | cons c text => exact if_pos (Nat.lt_add_of_pos_right (Nat.succ_pos _))

theorem statusLines_paths : (statusLines g).map changedPath = (printedPaths g).map readPath := by
  have htracked : changedPath ∘ trackedLine g = readPath ∘ printed g := by
    funext p
    have hline : trackedLine g p = [indexStatus g p, worktreeStatus g p, ' '] ++ printed g p := rfl
    rw [Function.comp_apply, hline, changedPath_line rfl, Function.comp_apply]
  have hother : (changedPath ∘ fun path => "?? ".toList ++ path) = readPath := by
    funext path
    rw [Function.comp_apply, changedPath_line (by decide)]
  rw [statusLines, printedPaths, List.map_append, List.map_append, List.map_map, List.map_map, List.map_map, htracked, hother]

theorem slashed_eq_empty_iff (path : String) : slashed path = "" ↔ strip path = "" := by
  rw [slashed, replaceChar, ← String.toList_inj, String.toList_ofList, ← String.toList_eq_nil_iff]
  exact List.map_eq_nil_iff

theorem mem_fresh (files : Files Content) {changedFiles : List String} :
    freshChangedFilesSinceBaseline files changedFiles baseline ≠ [] ↔ ∃ d ∈ changedFiles, slashed d ≠ "" ∧
      ∀ b ∈ baseline, b.fileStates (slashed d) ≠ some (baselineFileState files (slashed d)) := by
  have hnonempty : ∀ xs : List String, xs ≠ [] ↔ ∃ x, x ∈ xs := fun xs => by cases xs <;> simp
  rw [hnonempty]
  cases baseline with
  | none =>
    simp only [freshChangedFilesSinceBaseline, List.mem_eraseDups, List.mem_filter, decide_eq_true_eq, ne_eq,
      slashed_eq_empty_iff]
    simp
  | some b =>
    have hstate : ∀ relPath, (match b.fileStates relPath with
        | none => true
        | some oldState => decide (baselineFileState files relPath ≠ oldState)) = true ↔
          b.fileStates relPath ≠ some (baselineFileState files relPath) := by
      intro relPath
      cases b.fileStates relPath with
      | none => simp
      | some oldState =>
        rw [decide_eq_true_iff]
        exact ⟨fun h he => h (Option.some_inj.mp he).symm, fun h he => h (congrArg some he.symm)⟩
    simp only [freshChangedFilesSinceBaseline, List.mem_eraseDups, List.mem_filter, hstate, decide_eq_true_eq, List.mem_map]
    constructor
    · rintro ⟨_, ⟨⟨d, hd, rfl⟩, hne⟩, hfresh⟩
      refine ⟨d, hd, hne, fun b' hb => ?_⟩
      obtain rfl := Option.mem_some_iff.mp hb
      exact hfresh
    · rintro ⟨d, hd, hne, hfresh⟩
      exact ⟨slashed d, ⟨⟨d, hd, rfl⟩, hne⟩, hfresh b rfl⟩

theorem normalizeRepoPath_empty : normalizeRepoPath "" = "" := by decide +kernel

/-- The scoped paths are the declared ones that the status reports. -/
theorem mem_scoped (hdeclared : subtaskDeclaredChangeFiles subtask ≠ []) :
    d ∈ changedFilesScopedToSubtask (((statusLines g).map changedPath).filter fun path => decide (path ≠ "")) subtask ↔
      d ∈ subtaskDeclaredChangeFiles subtask ∧ Reported g d := by
  have hne : d ∈ subtaskDeclaredChangeFiles subtask → d ≠ "" := by
    intro hd
    have hmem := List.mem_filter.mp (List.mem_eraseDups.mp hd)
    exact of_decide_eq_true hmem.2
  rw [changedFilesScopedToSubtask, if_neg (by simpa using hdeclared), statusLines_paths, List.mem_filter, List.mem_filter,
    List.mem_map, decide_eq_true_iff, decide_eq_true_iff]
  constructor
  · rintro ⟨⟨⟨path, hpath, rfl⟩, -⟩, hd⟩
    obtain ⟨text, htext, rfl⟩ := List.mem_map.mp (List.mem_filter.mp hpath).1
    exact ⟨hd, text, htext, rfl⟩
  · rintro ⟨hd, text, htext, rfl⟩
    have hread : readPath text ≠ "" := by
      intro he
      have hempty := hne hd
      rw [he] at hempty
      exact hempty normalizeRepoPath_empty
    exact ⟨⟨⟨readPath text, List.mem_filter.mpr ⟨List.mem_map_of_mem htext, decide_eq_true hread⟩, rfl⟩, hne hd⟩, hd⟩

theorem hasChanges_iff (answers : Bool) (hdeclared : subtaskDeclaredChangeFiles subtask ≠ []) :
    worktreeHasSubtaskChanges answers g subtask baseline = true ↔ answers = false ∨
      ∃ d ∈ subtaskDeclaredChangeFiles subtask, Reported g d ∧ Unrecorded g baseline d := by
  rw [worktreeHasSubtaskChanges]
  cases answers with
  | false => simp
  | true =>
    rw [if_neg (by decide), Bool.not_eq_true', ← Bool.not_eq_true, List.isEmpty_iff, ← ne_eq, mem_fresh]
    simp only [mem_scoped hdeclared, and_assoc, Bool.true_eq_false, false_or]
    rfl

end

/-! ## Plain names -/

section
variable {p : Path}

theorem behindArrow_none {text : List Char} (h : ' ' ∉ text) : behindArrow text = none := by
  fun_induction behindArrow text with
  | case1 rest => exact absurd List.mem_cons_self h
  | case2 c cs hnot ih => exact ih fun hin => h (List.mem_cons_of_mem c hin)
  | case3 => rfl

theorem readPath_plain (h : ∀ c ∈ (spelled p).toList, isPlainChar c = true) : readPath (quoted (spelled p)) = spelled p := by
  have hblank : ' ' ∉ (spelled p).toList := fun hin => by simpa [isPlainChar] using h ' ' hin
  rw [readPath, quoted_plain h, String.ofList_toList, strip_plain h]
  simp only [behindArrow_none hblank]

theorem normalizeRepoPath_spelled (h : Named p) (hplain : PlainPath p) : normalizeRepoPath (spelled p) = spelled p := by
  rw [normalizeRepoPath, slashed, strip_plain hplain.chars, replaceChar_plain hplain]
  apply stripBy_eq_of_ends
  · intro c hc
    exact decide_eq_false (head_spelled h c hc)
  · intro c hc
    exact decide_eq_false (last_spelled h c hc)

variable [DecidableEq Content] {g : Checkout Content} {baseline : Option (Baseline Content)} {subtask : Subtask}

theorem reported_plain (h : Named p) (hplain : PlainPath p) (hprinted : quoted (spelled p) ∈ printedPaths g) : Reported g (spelled p) :=
  ⟨_, hprinted, by rw [readPath_plain hplain.chars, normalizeRepoPath_spelled h hplain]⟩

/-- A change of a declared file with a plain name is seen if the file is tracked or lies in a directory with
tracked files. -/
theorem plain_change_seen (answers : Bool) (h : Named p) (hplain : PlainPath p) (hdeclared : spelled p ∈ subtaskDeclaredChangeFiles subtask)
    (hshown : p ∈ g.tracked ∧ isListed g p = true ∧ g.renamedFrom p = none ∨
      p ∈ g.others ∧ g.ignored p = false ∧ standsIn g p = none)
    (hstate : Unrecorded g baseline (spelled p)) : worktreeHasSubtaskChanges answers g subtask baseline = true := by
  apply (hasChanges_iff answers (List.ne_nil_of_mem hdeclared)).mpr
  apply Or.inr
  refine ⟨spelled p, hdeclared, reported_plain h hplain ?_, hstate⟩
  apply List.mem_append.mpr
  rcases hshown with ⟨hp, hlisted, hrenamed⟩ | ⟨hp, hignored, hstands⟩
  · left
    apply List.mem_map.mpr
    exact ⟨p, List.mem_filter.mpr ⟨hp, hlisted⟩, by rw [printed, hrenamed]⟩
  · right
    apply List.mem_dedup.mpr
    apply List.mem_map.mpr
    exact ⟨p, List.mem_filter.mpr ⟨hp, by rw [hignored]; rfl⟩, by rw [otherPath, hstands]⟩

end

theorem noTracked_iff (p : Path) : p ∈ ([] : List Path) ↔ (none : Option Nat) ≠ none ∨ (none : Option Nat) ≠ none := by simp

theorem noTracked_sorted : ([] : List Path).Pairwise fun p q => ¬q <+: p := .nil

theorem noneRenamed (_p q : Path) (h : (none : Option Path) = some q) :
    (none : Option Nat) = none ∧ (none : Option Nat) ≠ none ∧ (none : Option Nat) ≠ none ∧ (none : Option Nat) = none := by
  cases h

/-- A new file in a new directory. -/
def newDirectoryCheckout : Checkout Nat where
  head := fun _ => none
  index := fun _ => none
  files :=
    { node := fun p => match p with
        | [] => some .dir
        | ["pkg"] => some .dir
        | ["pkg", "new.py"] => some (.file 1)
        | _ => none
      root := rfl
      closed := by
        intro p n hp
        split at hp
        · rename_i hnil
          simp at hnil
        · rename_i hone
          have hone : p ++ [n] = [] ++ ["pkg"] := hone
          obtain ⟨rfl, -⟩ := List.append_inj' hone rfl
          rfl
        · rename_i htwo
          have htwo : p ++ [n] = ["pkg"] ++ ["new.py"] := htwo
          obtain ⟨rfl, -⟩ := List.append_inj' htwo rfl
          rfl
        · exact absurd rfl hp }
  ignored := fun _ => false
  renamedFrom := fun _ => none
  tracked := []
  others := [["pkg", "new.py"]]
  tracked_iff := noTracked_iff
  others_iff := by
    intro p
    simp only [List.mem_singleton, true_and, Tree.fileAt]
    constructor
    · rintro rfl
      exact nofun
    · intro hfile
      split at hfile
      · rename_i c hnode
        split at hnode
        · cases hnode
        · cases hnode
        · rfl
        · cases hnode
      · exact absurd rfl hfile
  sorted := noTracked_sorted
  named := by decide
  renamed := noneRenamed

/-- A file that is as in the head. -/
def restoredCheckout : Checkout Nat :=
  { editedCheckout with
    files := flat fun name => if name = "a" then some 1 else none
    others_iff := by
      intro p
      have hedited := editedCheckout.others_iff p
      rw [hedited, fileAt_flat]
      rw [show editedCheckout.files = flat fun name => if name = "a" then some 2 else none from rfl, fileAt_flat]
      split
      · split <;> simp
      · rfl }

def budgets (baseline : Option (Baseline Nat)) : Inspection Nat Nat where
  aborted := false
  subtaskId := "subtask-1"
  writeRequired := true
  retryWriteRequired := none
  carriesPatch := false
  baseline := baseline
  repairAbortSeconds := 180
  abortSeconds := 240
  toolLoopAbortSeconds := 0
  elapsedSeconds := 300
  toolLoop := none
  engineSilence := none

/-- The worker that declares the file has written it and is aborted. -/
def Killed (g : Checkout Nat) (file : String) (baseline : Baseline Nat) : Prop :=
  Wrote g (some baseline) ⟨[file], [], []⟩ ∧ worktreeHasSubtaskChanges true g ⟨[file], [], []⟩ (some baseline) = false ∧
    maybeAbortNoChangeRepairWorker "worker-1" (worktreeHasSubtaskChanges true g ⟨[file], [], []⟩ (some baseline)) (budgets (some baseline)) =
      some ⟨"worker-1", "subtask-1", "WORKER_NO_CHANGE", "worker_no_progress", "write-required worker made no filesystem changes"⟩

def nothingChanged : Baseline Nat := ⟨[], fun _ => none⟩

/-- The file had been carried over with another content. -/
def carriedOver : Baseline Nat := ⟨["a"], fun d => if d = "a" then some (.file 2) else none⟩

end NoChangeGuard
