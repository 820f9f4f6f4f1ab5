import Mathlib.Algebra.Order.BigOperators.Group.List
import Mathlib.Algebra.Order.Group.Nat
import Mathlib.Algebra.Ring.Nat
import Mathlib.Data.List.Infix
import TandemAgents.AdmissionIsolation
import TandemAgents.PurePath

/-!
# What overlapping scopes denote

The planner compares declared paths as they are spelled: blanks at the ends, empty names
and dots are dropped, but `..` stays a name of its own, and a path of which nothing is left
does not occur among the scopes. Where a path leads is another matter: `..` takes a name back.
The two readings agree for a task whose paths lead to places at or below one of its scopes.
-/
namespace ScopeOverlap

open KeyedTable PythonText TaskContract CoordinationStore Statements Statements.Prog
open TaskOperations GuardedRuns StoreHistories Scheduler AdmissionLoop DependencyAgreement AdmissionIsolation

set_option maxRecDepth 20000

/-! ## Where a path leads -/

/-- One name further; nothing is above the root. -/
def climb (place : Scope) (name : String) : Scope :=
  if name = ".." then place.dropLast else place ++ [name]

/-- The names of a path with its backslashes read as slashes, without the empty ones and the dots. -/
def nameParts (path : String) : Scope := pathParts (replaceChar '\\' '/' path)

/-- The place below the root of the repository that a path denotes. -/
def denoted (path : String) : Scope := (nameParts path).foldl climb []

theorem foldl_climb {names : Scope} (h : ".." ∉ names) (place : Scope) :
    names.foldl climb place = place ++ names := by
  induction names generalizing place with
  | nil => simp
  | cons name names ih =>
    rw [List.mem_cons, not_or] at h
    have hclimb : climb place name = place ++ [name] := if_neg (Ne.symm h.1)
    rw [List.foldl_cons, hclimb, ih h.2, List.append_assoc]
    rfl

/-- Every name of a place is a name of the path, and none is a step back. -/
theorem mem_foldl_climb {names place : Scope} {x : String} (h : x ∈ names.foldl climb place) :
    x ∈ place ∨ x ∈ names ∧ x ≠ ".." := by
  induction names generalizing place with
  | nil => exact .inl h
  | cons name names ih =>
    obtain hplace | ⟨hmem, hne⟩ := ih h
    · unfold climb at hplace
      split at hplace
      · exact .inl (List.dropLast_subset _ hplace)
      · rename_i hname
        obtain hold | hnew := List.mem_append.mp hplace
        · exact .inl hold
        · rw [List.mem_singleton] at hnew
          subst hnew
          exact .inr ⟨List.mem_cons_self, hname⟩
    · exact .inr ⟨List.mem_cons_of_mem _ hmem, hne⟩

/-! ## The names of a text -/

/-- What a name on a path cannot be. -/
structure IsName (name : String) : Prop where
  ne_nil : name ≠ ""
  ne_dot : name ≠ "."
  no_slash : '/' ∉ name.toList
  no_backslash : '\\' ∉ name.toList

theorem mem_splitOn {text part : List Char} {c : Char} (h : part ∈ text.splitOn '/') (hc : c ∈ part) :
    c ∈ text ∧ c ≠ '/' := by
  induction text generalizing part with
  | nil =>
    rw [List.splitOn_nil, List.mem_singleton] at h
    subst h
    cases hc
  | cons d text ih =>
    rw [List.splitOn_cons_eq_if_modifyHead] at h
    split at h
    · obtain rfl | h := List.mem_cons.mp h
      · cases hc
      · exact ⟨List.mem_cons_of_mem _ (ih h hc).1, (ih h hc).2⟩
    · rename_i hd
      cases hsplit : text.splitOn '/' with
      | nil => rw [hsplit] at h; cases h
      | cons first rest =>
        rw [hsplit, List.modifyHead_cons] at h
        obtain rfl | h := List.mem_cons.mp h
        · obtain rfl | hc := List.mem_cons.mp hc
          · exact ⟨List.mem_cons_self, by simpa using hd⟩
          · have hfirst := ih (hsplit ▸ List.mem_cons_self) hc
            exact ⟨List.mem_cons_of_mem _ hfirst.1, hfirst.2⟩
        · have hrest := ih (hsplit ▸ List.mem_cons_of_mem _ h) hc
          exact ⟨List.mem_cons_of_mem _ hrest.1, hrest.2⟩

theorem mem_pathParts {path name : String} :
    name ∈ pathParts path ↔
      (∃ part ∈ path.toList.splitOn '/', String.ofList part = name) ∧ name ≠ "" ∧ name ≠ "." := by
  simp [pathParts, List.mem_filter, and_comm]

theorem isName_of_mem {path name : String} (h : name ∈ nameParts path) : IsName name := by
  obtain ⟨⟨part, hpart, rfl⟩, hnil, hdot⟩ := mem_pathParts.mp h
  constructor
  · exact hnil
  · exact hdot
  · rw [String.toList_ofList]
    exact fun hc => (mem_splitOn hpart hc).2 rfl
  · rw [String.toList_ofList]
    intro hc
    have hmem := (mem_splitOn hpart hc).1
    rw [replaceChar, String.toList_ofList, List.mem_map] at hmem
    obtain ⟨c, -, hc⟩ := hmem
    split at hc
    · exact absurd hc (by decide)
    · rename_i hne
      exact hne hc

/-- The text of names joined by slashes has these names. -/
theorem pathParts_join {names : Scope} (h : ∀ name ∈ names, IsName name) :
    pathParts (joinScope names) = names := by
  cases names with
  | nil => decide
  | cons first rest =>
    have hsplit : (joinScope (first :: rest)).toList.splitOn '/' = (first :: rest).map String.toList := by
      rw [joinScope, String.toList_intercalate]
      apply List.splitOn_intercalate
      · intro l hl
        obtain ⟨name, hname, rfl⟩ := List.mem_map.mp hl
        exact (h name hname).no_slash
      · simp
    have hid : String.ofList ∘ String.toList = id := funext fun _ => String.ofList_toList
    rw [pathParts, hsplit, List.map_map, hid, List.map_id, List.filter_eq_self]
    intro name hname
    simp [(h name hname).ne_nil, (h name hname).ne_dot]

/-! ## What the code reads -/

theorem pathParts_slash (text : List Char) :
    pathParts (String.ofList ('/' :: text)) = pathParts (String.ofList text) := by
  simp [pathParts, List.splitOn_cons_eq_if_modifyHead]

theorem pathParts_dotSlash (text : List Char) :
    pathParts (String.ofList ('.' :: '/' :: text)) = pathParts (String.ofList text) := by
  simp [pathParts, List.splitOn_cons_eq_if_modifyHead]

theorem pathParts_dropDotSlash (text : List Char) :
    pathParts (String.ofList (dropDotSlash text)) = pathParts (String.ofList text) := by
  fun_induction dropDotSlash text with
  | case1 cs ih => rw [ih, pathParts_dotSlash]
  | case2 cs => rfl

theorem pathParts_dropSlashes (text : List Char) :
    pathParts (String.ofList (text.dropWhile (· = '/'))) = pathParts (String.ofList text) := by
  induction text with
  | nil => rfl
  | cons c cs ih =>
    rw [List.dropWhile_cons]
    split
    · rename_i hc
      rw [ih, of_decide_eq_true hc, pathParts_slash]
    · rfl

/-- What `_normalize_repo_relative_path` cuts off at the front has no names. -/
theorem pathParts_normalize (value : String) : pathParts (normalizeRepoRelativePath value) = nameParts (strip value) := by
  rw [normalizeRepoRelativePath, pathParts_dropSlashes, pathParts_dropDotSlash, String.ofList_toList, nameParts]

/-- A path that begins with a dot and ends in a name without blanks is read as it is spelled. -/
theorem nameParts_join {names : Scope} (h : ∀ name ∈ names, IsName name) :
    nameParts ("./" ++ joinScope names) = names := by
  have htext : "./" ++ joinScope names = String.ofList ('.' :: '/' :: (joinScope names).toList) := by
    rw [← String.toList_inj]
    simp
  have hplain : ∀ c ∈ ("./" ++ joinScope names).toList, (if c = '\\' then '/' else c) = c := by
    intro c hc
    apply if_neg
    rw [htext, String.toList_ofList, List.mem_cons, List.mem_cons, joinScope, String.toList_intercalate] at hc
    obtain rfl | rfl | hc := hc
    · decide
    · decide
    obtain hsep | ⟨part, hpart, hc⟩ := PurePath.mem_intercalate hc
    · rw [List.mem_singleton.mp hsep]
      decide
    · obtain ⟨name, hname, rfl⟩ := List.mem_map.mp hpart
      exact fun h' => (h name hname).no_backslash (h' ▸ hc)
  have hreplace : replaceChar '\\' '/' ("./" ++ joinScope names) = "./" ++ joinScope names := by
    rw [replaceChar, List.map_congr_left hplain, List.map_id', String.ofList_toList]
  rw [nameParts, hreplace, htext, pathParts_dotSlash, String.ofList_toList, pathParts_join h]

/-! ## Tasks that declare paths at three levels -/

/-- The path lists of one dictionary. -/
structure Container where
  files : List String
  targetFiles : List String

/-- A task with the levels `task_file_scopes` looks at. -/
structure Declares where
  repoKey : String
  task : Container
  metadata : Container
  sourceTask : Container

def Container.paths (c : Container) : List String := c.files ++ c.targetFiles

def Declares.paths (d : Declares) : List String := d.task.paths ++ d.metadata.paths ++ d.sourceTask.paths

/-- One path of the inner loop of `task_file_scopes`. -/
def addScope (scopes : List Scope) (path : String) : List Scope :=
  let relPath := normalizeRepoRelativePath path
  let parts := pathParts relPath
  if relPath = "" ∨ parts = [] ∨ parts ∈ scopes then scopes else scopes ++ [parts]

/-- `task_file_scopes`. -/
def fileScopes (d : Declares) : List Scope :=
  [d.task, d.metadata, d.sourceTask].foldl (fun scopes container => container.paths.foldl addScope scopes) []

/-- What the planner finds between an active task and a candidate of its repository: the
repository is locked by a task without scopes, the candidate has none next to scopes that
are taken, or two scopes overlap. -/
def scopeConflict (active candidate : Declares) : Bool :=
  decide (active.repoKey = candidate.repoKey) &&
    (decide (fileScopes active = []) || (decide (fileScopes candidate = []) && decide (fileScopes active ≠ [])) ||
      (fileScopes active).any (fun taken => (fileScopes candidate).any (fun scope => pathsOverlap scope taken)))

/-- A listed task has its paths at the first and at the third level. -/
def declared (t : KnownTask) : Declares where
  repoKey := taskRepoKey t
  task := ⟨t.task.files, t.task.contractTargetFiles⟩
  metadata := ⟨[], []⟩
  sourceTask := ⟨t.task.files, t.task.targetFiles⟩

/-- Keep a scope unless it is empty or already there. -/
def keepNew (scopes : List Scope) (parts : Scope) : List Scope :=
  if parts = [] ∨ parts ∈ scopes then scopes else scopes ++ [parts]

theorem mem_foldl_keepNew {all scopes : List Scope} {s : Scope} :
    s ∈ all.foldl keepNew scopes ↔ s ∈ scopes ∨ s ≠ [] ∧ s ∈ all := by
  induction all generalizing scopes with
  | nil => simp
  | cons parts all ih =>
    have hstep : s ∈ keepNew scopes parts ↔ s ∈ scopes ∨ s ≠ [] ∧ s = parts := by
      unfold keepNew
      split
      · rename_i hskip
        constructor
        · exact .inl
        · rintro (hold | ⟨hne, rfl⟩)
          · exact hold
          · exact hskip.resolve_left hne
      · rename_i hadd
        rw [not_or] at hadd
        rw [List.mem_append, List.mem_singleton]
        constructor
        · rintro (hold | rfl)
          · exact .inl hold
          · exact .inr ⟨hadd.1, rfl⟩
        · rintro (hold | ⟨-, rfl⟩)
          · exact .inl hold
          · exact .inr rfl
    rw [List.foldl_cons, ih, hstep, List.mem_cons]
    tauto

theorem declared_repoKey (t : KnownTask) : (declared t).repoKey = taskRepoKey t := by rw [declared]

theorem addScope_eq (scopes : List Scope) (path : String) :
    addScope scopes path = keepNew scopes (nameParts (strip path)) := by
  have hempty : normalizeRepoRelativePath path = "" → nameParts (strip path) = [] := by
    intro h
    rw [← pathParts_normalize, h]
    decide
  have hcond := or_iff_right_of_imp (b := nameParts (strip path) = [] ∨ nameParts (strip path) ∈ scopes)
    fun h => .inl (hempty h)
  simp only [addScope, pathParts_normalize, hcond, keepNew]

theorem fileScopes_eq (d : Declares) :
    fileScopes d = (d.paths.map (fun path => nameParts (strip path))).foldl keepNew [] := by
  have hstep : addScope = fun scopes path => keepNew scopes (nameParts (strip path)) := by
    funext scopes path
    exact addScope_eq scopes path
  rw [List.foldl_map, ← hstep]
  simp [fileScopes, Declares.paths, List.foldl_append]

theorem fileScopes_declared (t : KnownTask) : fileScopes (declared t) = taskFileScopes t := by
  have hpaths : (declared t).paths = t.task.files ++ t.task.contractTargetFiles ++ t.task.files ++ t.task.targetFiles := by
    simp [Declares.paths, Container.paths, declared, List.append_assoc]
  have hread : (fun path => nameParts (strip path)) = fun path => pathParts (normalizeRepoRelativePath path) := by
    funext path
    rw [pathParts_normalize]
  rw [fileScopes_eq, hpaths, hread]
  rfl

/-- The scopes of a task are the names its paths are spelled with. -/
theorem mem_fileScopes {d : Declares} {s : Scope} :
    s ∈ fileScopes d ↔ s ≠ [] ∧ ∃ p ∈ d.paths, nameParts (strip p) = s := by
  rw [fileScopes_eq, mem_foldl_keepNew]
  simp

theorem fileScopes_eq_nil {d : Declares} : fileScopes d = [] ↔ ∀ p ∈ d.paths, nameParts (strip p) = [] := by
  rw [List.eq_nil_iff_forall_not_mem]
  constructor
  · intro h p hp
    by_contra hne
    exact h _ (mem_fileScopes.mpr ⟨hne, p, hp, rfl⟩)
  · intro h s hs
    obtain ⟨hne, p, hp, rfl⟩ := mem_fileScopes.mp hs
    exact hne (h p hp)

theorem scopeConflict_iff {d e : Declares} (hrepo : d.repoKey = e.repoKey) : scopeConflict d e = true ↔
    fileScopes d = [] ∨ fileScopes e = [] ∨ ∃ a ∈ fileScopes d, ∃ b ∈ fileScopes e, Overlap a b := by
  have hoverlap : ((fileScopes d).any fun taken => (fileScopes e).any fun scope => pathsOverlap scope taken) = true ↔
      ∃ a ∈ fileScopes d, ∃ b ∈ fileScopes e, Overlap a b := by
    simp only [List.any_eq_true]
    constructor
    · rintro ⟨a, ha, b, hb, ho⟩
      exact ⟨a, ha, b, hb, Or.symm ((pathsOverlap_iff (mem_fileScopes.mp hb).1 (mem_fileScopes.mp ha).1).mp ho)⟩
    · rintro ⟨a, ha, b, hb, ho⟩
      exact ⟨a, ha, b, hb, (pathsOverlap_iff (mem_fileScopes.mp hb).1 (mem_fileScopes.mp ha).1).mpr (Or.symm ho)⟩
  simp only [scopeConflict, Bool.and_eq_true, Bool.or_eq_true, decide_eq_true_eq, hoverlap, hrepo, true_and]
  tauto

/-- The planner's checks keep tasks apart. -/
theorem apart_iff {t u : KnownTask} : Apart t u ↔ scopeConflict (declared t) (declared u) = false := by
  by_cases hrepo : taskRepoKey t = taskRepoKey u
  · have hsame : (declared t).repoKey = (declared u).repoKey := by rw [declared_repoKey, declared_repoKey, hrepo]
    rw [← Bool.not_eq_true, scopeConflict_iff hsame, fileScopes_declared, fileScopes_declared]
    simp only [AdmissionLoop.Apart, hrepo, true_implies, not_or, not_exists, not_and, ne_eq]
  · have hne : decide ((declared t).repoKey = (declared u).repoKey) = false := by
      rw [declared_repoKey, declared_repoKey, decide_eq_false hrepo]
    have hno : scopeConflict (declared t) (declared u) = false := by
      rw [scopeConflict, hne, Bool.false_and]
    exact iff_of_true (fun h => absurd h hrepo) hno

/-! ## When the two readings agree -/

/-- A path of the one and a path of the other denote nested places, or some path denotes
the root of the repository. -/
def DenotedConflict (d e : Declares) : Prop :=
  (∃ p ∈ d.paths, ∃ q ∈ e.paths, Overlap (denoted p) (denoted q)) ∨ ∃ p ∈ d.paths ++ e.paths, denoted p = []

/-- Nothing is spelled in any path, or every path leads to a place at or below one that
some path of the task spells out. -/
def Honest (d : Declares) : Prop :=
  (∀ p ∈ d.paths, nameParts (strip p) = []) ∨
    ∀ p ∈ d.paths, ∃ q ∈ d.paths, nameParts (strip q) ≠ [] ∧ nameParts (strip q) <+: denoted p

instance (d e : Declares) : Decidable (DenotedConflict d e) := by unfold DenotedConflict; infer_instance
instance (d : Declares) : Decidable (Honest d) := by unfold Honest; infer_instance

theorem DenotedConflict.symm {d e : Declares} (h : DenotedConflict d e) : DenotedConflict e d := by
  obtain ⟨p, hp, q, hq, ho⟩ | ⟨p, hp, hroot⟩ := h
  · exact .inl ⟨q, hq, p, hp, Or.symm ho⟩
  · exact .inr ⟨p, List.mem_append.mpr (List.mem_append.mp hp).symm, hroot⟩

/-- A task that names scopes has one above every place its paths lead to. -/
theorem Honest.scope {d : Declares} (h : Honest d) (hscopes : fileScopes d ≠ []) {p : String} (hp : p ∈ d.paths) :
    ∃ s ∈ fileScopes d, s <+: denoted p := by
  obtain hblank | hall := h
  · exact absurd (fileScopes_eq_nil.mpr hblank) hscopes
  · obtain ⟨q, hq, hne, hpre⟩ := hall p hp
    exact ⟨_, mem_fileScopes.mpr ⟨hne, q, hq, rfl⟩, hpre⟩

/-- Scopes above nested places are nested. -/
theorem overlap_of_prefix {s t a b : Scope} (h : Overlap a b) (hs : s <+: a) (ht : t <+: b) : Overlap s t := by
  obtain hab | hba := h
  · exact List.prefix_or_prefix_of_prefix (hs.trans hab) ht
  · exact List.prefix_or_prefix_of_prefix hs (ht.trans hba)

theorem Honest.conflict {d e : Declares} (hrepo : d.repoKey = e.repoKey) (hd : Honest d) (he : Honest e)
    (h : DenotedConflict d e) : scopeConflict d e = true := by
  rw [scopeConflict_iff hrepo]
  by_cases hds : fileScopes d = []
  · exact .inl hds
  by_cases hes : fileScopes e = []
  · exact .inr (.inl hes)
  right
  right
  obtain ⟨p, hp, q, hq, ho⟩ | ⟨p, hp, hroot⟩ := h
  · obtain ⟨s, hs, hsp⟩ := hd.scope hds hp
    obtain ⟨t, ht, htq⟩ := he.scope hes hq
    exact ⟨s, hs, t, ht, overlap_of_prefix ho hsp htq⟩
  · exfalso
    obtain hp | hp := List.mem_append.mp hp
    · obtain ⟨s, hs, hpre⟩ := hd.scope hds hp
      rw [hroot, List.prefix_nil] at hpre
      exact (mem_fileScopes.mp hs).1 hpre
    · obtain ⟨s, hs, hpre⟩ := he.scope hes hp
      rw [hroot, List.prefix_nil] at hpre
      exact (mem_fileScopes.mp hs).1 hpre

/-! ## A neighbour below a place no scope covers -/

/-- A name of `x` only that is longer than every name of a list. -/
def freshName (names : List String) : String :=
  String.ofList (List.replicate ((names.map String.length).sum + 1) 'x')

theorem freshName_not_mem (names : List String) : freshName names ∉ names := by
  intro h
  have hle : (freshName names).length ≤ (names.map String.length).sum :=
    List.single_le_sum (fun n _ => Nat.zero_le n) _ (List.mem_map_of_mem h)
  have hlength : (freshName names).length = (names.map String.length).sum + 1 := by
    rw [freshName, String.length_ofList, List.length_replicate]
  omega

theorem isName_freshName (names : List String) : IsName (freshName names) := by
  have hchars : ∀ c ∈ (freshName names).toList, c = 'x' := by
    intro c hc
    rw [freshName, String.toList_ofList] at hc
    exact List.eq_of_mem_replicate hc
  have hmem : 'x' ∈ (freshName names).toList := by
    rw [freshName, String.toList_ofList, List.replicate_succ]
    exact List.mem_cons_self
  constructor
  · intro h
    rw [h] at hmem
    cases hmem
  · intro h
    rw [h] at hmem
    exact absurd hmem (by decide)
  · intro h
    exact absurd (hchars '/' h) (by decide)
  · intro h
    exact absurd (hchars '\\' h) (by decide)

theorem freshName_ne_up (names : List String) : freshName names ≠ ".." := by
  intro h
  have hmem : 'x' ∈ (freshName names).toList := by
    rw [freshName, String.toList_ofList, List.replicate_succ]
    exact List.mem_cons_self
  rw [h] at hmem
  exact absurd hmem (by decide)

/-- The names of a place a path denotes. -/
theorem isName_denoted {path name : String} (h : name ∈ denoted path) : IsName name ∧ name ≠ ".." := by
  obtain hnil | ⟨hmem, hne⟩ := mem_foldl_climb h
  · cases hnil
  · exact ⟨isName_of_mem hmem, hne⟩

/-- The path that spells out a place and one more name. -/
def below (place : Scope) (name : String) : String := "./" ++ joinScope (place ++ [name])

theorem nameParts_below {place : Scope} {name : String} (h : ∀ n ∈ place, IsName n) (hname : IsName name) :
    nameParts (below place name) = place ++ [name] := by
  apply nameParts_join
  intro n hn
  obtain hn | hn := List.mem_append.mp hn
  · exact h n hn
  · rw [List.mem_singleton.mp hn]
    exact hname

/-- No blank stands at its ends. -/
theorem strip_below (place : Scope) (names : List String) :
    strip (below place (freshName names)) = below place (freshName names) := by
  have htext : (below place (freshName names)).toList = '.' :: '/' :: (joinScope (place ++ [freshName names])).toList := by
    simp [below]
  obtain ⟨front, hfront⟩ := PurePath.intercalate_snoc ['/'] (place.map String.toList) (freshName names).toList
  have hjoin : (joinScope (place ++ [freshName names])).toList = front ++ (freshName names).toList := by
    rw [joinScope, String.toList_intercalate, List.map_append, ← hfront]
    rfl
  apply stripBy_eq_of_ends
  · intro c hc
    rw [htext, List.head?_cons, Option.mem_some_iff] at hc
    subst hc
    decide
  · intro c hc
    rw [htext, hjoin, freshName, String.toList_ofList, List.replicate_succ', ← List.append_assoc, ← List.cons_append,
      ← List.cons_append, List.getLast?_append, List.getLast?_singleton, Option.some_or, Option.mem_some_iff] at hc
    subst hc
    decide

/-- A task of the repository with one path. -/
def onePath (repoKey path : String) : Declares := ⟨repoKey, ⟨[path], []⟩, ⟨[], []⟩, ⟨[], []⟩⟩

theorem mem_onePath {repoKey path q : String} : q ∈ (onePath repoKey path).paths ↔ q = path := by
  simp [Declares.paths, Container.paths, onePath]

/-- A dishonest task has an honest neighbour below one of its places that the planner
runs next to it. -/
theorem overlooked_of_not_honest {d : Declares} (h : ¬ Honest d) : ∃ e : Declares, e.repoKey = d.repoKey ∧ Honest e ∧
    DenotedConflict d e ∧ scopeConflict d e = false := by
  unfold Honest at h
  rw [not_or] at h
  obtain ⟨hspelled, huncovered⟩ := h
  push Not at huncovered
  obtain ⟨p, hp, hno⟩ := huncovered
  have hplace : ∀ n ∈ denoted p, IsName n := fun n hn => (isName_denoted hn).1
  have hup : ".." ∉ denoted p := fun hmem => (isName_denoted hmem).2 rfl
  generalize hname : freshName (fileScopes d).flatten = name
  have hfresh : ∀ s ∈ fileScopes d, name ∉ s := by
    intro s hs hmem
    rw [← hname] at hmem
    exact freshName_not_mem _ (List.mem_flatten.mpr ⟨s, hs, hmem⟩)
  have hparts : nameParts (below (denoted p) name) = denoted p ++ [name] :=
    nameParts_below hplace (hname ▸ isName_freshName _)
  have hstrip : nameParts (strip (below (denoted p) name)) = denoted p ++ [name] := by
    rw [← hname, strip_below, hname, hparts]
  have hdenoted : denoted (below (denoted p) name) = denoted p ++ [name] := by
    have hclimb : ".." ∉ denoted p ++ [name] := by
      rw [List.mem_append, List.mem_singleton, not_or]
      exact ⟨hup, fun heq => freshName_ne_up _ (hname.trans heq.symm)⟩
    rw [denoted, hparts, foldl_climb hclimb, List.nil_append]
  refine ⟨onePath d.repoKey (below (denoted p) name), rfl, .inr ?_, .inl ?_, ?_⟩
  · intro q hq
    rw [mem_onePath] at hq
    subst hq
    refine ⟨_, mem_onePath.mpr rfl, ?_, ?_⟩
    · rw [hstrip]
      simp
    · rw [hstrip, hdenoted]
  · have hbelow : denoted p <+: denoted (below (denoted p) name) := by
      rw [hdenoted]
      exact List.prefix_append _ _
    exact ⟨p, hp, _, mem_onePath.mpr rfl, .inl hbelow⟩
  · have hscope : ∀ t ∈ fileScopes (onePath d.repoKey (below (denoted p) name)), t = denoted p ++ [name] := by
      intro t ht
      obtain ⟨-, q, hq, rfl⟩ := mem_fileScopes.mp ht
      rw [mem_onePath.mp hq, hstrip]
    have hrepo : d.repoKey = (onePath d.repoKey (below (denoted p) name)).repoKey := by rw [onePath]
    rw [← Bool.not_eq_true, scopeConflict_iff hrepo]
    rintro (hnil | hnil | ⟨s, hs, t, ht, ho⟩)
    · exact hspelled (fileScopes_eq_nil.mp hnil)
    · have hblank := fileScopes_eq_nil.mp hnil (below (denoted p) name) (mem_onePath.mpr rfl)
      rw [hstrip] at hblank
      exact List.append_ne_nil_of_right_ne_nil _ (List.cons_ne_nil _ _) hblank
    · rw [hscope t ht] at ho
      obtain hst | hts := ho
      · obtain ⟨hne, q, hq, rfl⟩ := mem_fileScopes.mp hs
        rw [List.prefix_concat_iff] at hst
        obtain heq | hpre := hst
        · apply hfresh _ hs
          rw [heq]
          simp
        · exact hno q hq hne hpre
      · exact hfresh s hs (hts.subset (by simp))

/-! ## The planner -/

section
variable (lower : String → String) (cfg : Config) (x : Services) (projectKeys : List String) (limit : Option Int)

/-- Tasks that the planner admits are apart from each other and from the active ones. -/
theorem planOf_apart (queued all : List Listed) :
    (∀ u ∈ (all.filter (fun t => t.task.state.isActive)).map (·.task),
      ∀ t ∈ admittedTasks (planOf lower cfg x projectKeys limit queued all).admitted, Apart u t) ∧
    (admittedTasks (planOf lower cfg x projectKeys limit queued all).admitted).Pairwise Apart := by
  have h := loopEnd_safe lower cfg x
    ((queued.filter (fun t => inProjects projectKeys t.task)).take (requestedLimit cfg limit).toNat)
    (all.filter (fun t => t.task.state.isActive))
  exact ⟨h.others, h.pairwise⟩

end

/-- A task whose paths lead to places at or below its own scopes, and no other, conflicts with
every task of this kind where their paths lead to nested places or to the root. No plan admits
two such tasks, or one next to an active one. -/
theorem honest_iff (d : Declares) (lower : String → String) (cfg : Config) (x : Services) (projectKeys : List String)
    (limit : Option Int) (queued all : List Listed) :
    (Honest d ↔ ∀ e : Declares, e.repoKey = d.repoKey → Honest e → DenotedConflict d e →
      scopeConflict d e = true ∧ scopeConflict e d = true) ∧
    let clash := fun t u : KnownTask => taskRepoKey t = taskRepoKey u ∧ Honest (declared t) ∧ Honest (declared u) ∧
      DenotedConflict (declared t) (declared u)
    let admitted := admittedTasks (planOf lower cfg x projectKeys limit queued all).admitted
    (∀ u ∈ (all.filter (fun t => t.task.state.isActive)).map (·.task), ∀ t ∈ admitted, ¬ clash u t) ∧
      admitted.Pairwise (fun t u => ¬ clash t u) := by
  constructor
  · constructor
    · intro hd e hrepo he h
      exact ⟨hd.conflict hrepo.symm he h, he.conflict hrepo hd h.symm⟩
    · intro hall
      by_contra hd
      obtain ⟨e, hrepo, he, h, hfree⟩ := overlooked_of_not_honest hd
      have hconflict := (hall e hrepo he h).1
      rw [hfree] at hconflict
      cases hconflict
  · intro clash admitted
    have hclash : ∀ t u, Apart t u → ¬ clash t u := by
      rintro t u hapart ⟨hrepo, ht, hu, h⟩
      have hsame : (declared t).repoKey = (declared u).repoKey := by rw [declared_repoKey, declared_repoKey, hrepo]
      have hconflict := ht.conflict hsame hu h
      rw [apart_iff.mp hapart] at hconflict
      cases hconflict
    obtain ⟨hothers, hpairwise⟩ := planOf_apart lower cfg x projectKeys limit queued all
    exact ⟨fun u hu t ht => hclash u t (hothers u hu t ht), hpairwise.imp fun h => hclash _ _ h⟩

/-- A directory and a file below it, spelled with other separators. -/
theorem nested_conflict :
    scopeConflict (onePath "acme/app" "./src/") (onePath "acme/app" "/src\\.\\app.py") = true ∧
      scopeConflict (onePath "acme/app" "/src\\.\\app.py") (onePath "acme/app" "./src/") = true :=
  (honest_iff (onePath "acme/app" "./src/") id plainConfig plainServices [] none [] []).1.mp (by decide +kernel)
    (onePath "acme/app" "/src\\.\\app.py") rfl (by decide +kernel) (by decide +kernel)

/-! ## Two spellings of one file -/

def fileTask (taskId path : String) : Task :=
  { plainTask taskId with repo := { slug := "acme/app" }, files := [path] }

/-- Two tasks of one repository wait for the same file. -/
def sameFileStore : Store := history sqliteEnv Store.empty
  [.registerTask 100 (fileTask "T1" "lib/../app.py") {} .queued, .registerTask 200 (fileTask "T2" "app.py") {} .queued]

/-- Both are admitted in one plan. -/
theorem sameFile_admitted : Reachable sqliteEnv (fun _ _ => True) sameFileStore ∧
    denoted "lib/../app.py" = denoted "app.py" ∧
    ((planTaskAdmissions sqliteEnv plainConfig plainServices none []).run sameFileStore).1.any (fun p =>
      decide ((admittedTasks p.admitted).map (fun t => (taskRepoKey t, (declared t).paths.dedup)) =
        [("acme/app", ["app.py"]), ("acme/app", ["lib/../app.py"])])) = true :=
  ⟨Reached.init.after _ ⟨trivial, trivial, trivial⟩, by decide +kernel, by decide +kernel⟩

end ScopeOverlap
