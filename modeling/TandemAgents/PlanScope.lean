import TandemAgents.CoderLease
import TandemAgents.JsonData
import TandemAgents.ScopeOverlap

/-!
# What a plan may touch

The validator of a plan reads the files of each subtask and finds an out-of-scope entry in
them by its text. The collector of expected files also takes the target files, and reads
every path in its own way. The text of a path comes to a place only where it is plain.
-/
namespace PlanScope

open PythonText JsonData
open Scheduler (Scope dropDotSlash dropDotSlash_suffix joinScope pathParts)
open ScopeOverlap (denoted nameParts IsName)

set_option maxRecDepth 20000

/-! ## The text of a path -/

/-- `[A-Za-z0-9._@+-]`. -/
def isPathChar (c : Char) : Bool :=
  isAsciiAlnum c || c = '.' || c = '_' || c = '@' || c = '+' || c = '-'

def backtick : Char := Char.ofNat 96

/-- The characters that are stripped around a path: backtick, apostrophe and quote. -/
def isQuote (c : Char) : Bool := c.toNat = 96 || c.toNat = 39 || c.toNat = 34

/-- A match of the first pattern at the head of a text: what stands between two backticks. -/
def quotedAt : List Char → Option (List Char)
  | [] => none
  | c :: rest =>
    let body := rest.takeWhile (· ≠ backtick)
    if c = backtick ∧ body ≠ [] ∧ (rest.drop body.length).head? = some backtick then some body else none

/-- A match of the second pattern at the head of a text: two words or more with slashes between. -/
def wordsAt (text : List Char) : Option (List Char) :=
  let words := ((text.takeWhile (fun c => isPathChar c || c = '/')).splitOn '/').takeWhile (· ≠ [])
  if 2 ≤ words.length then some (['/'].intercalate words) else none

/-- `re.search`: the match that begins first. -/
def search (matchAt : List Char → Option (List Char)) : List Char → Option (List Char)
  | [] => none
  | c :: rest => (matchAt (c :: rest)).or (search matchAt rest)

/-- The text with its backslashes as slashes. -/
def slashed (value : String) : List Char := (replaceChar '\\' '/' (strip value)).toList

/-- `_normalize_repo_relative_path` of a task contract. -/
def normalizeRepoRelativePath (value : String) : String :=
  let text := slashed value
  let found := ((search quotedAt text).or (search wordsAt text)).getD text
  String.ofList (dropDotSlash (stripBy isQuote (strip (String.ofList found))).toList)

/-! ## The validator -/

/-- What the validator reads of a task contract. -/
structure Contract where
  outOfScope : List String
  targetFiles : List String
  deliverables : List String
  verificationCommands : List String

/-- A planned subtask: its paths, and its other fields. -/
structure Subtask where
  fields : Dict
  files : List String
  targetFiles : List String
  ignoredTargetFiles : List String

structure Issue where
  kind : String
  subtask : String
  detail : String
  deriving DecidableEq

structure Validation where
  ok : Bool
  issues : List Issue
  blockerKind : Option String
  blockerMessage : Option String

def acceptanceKeys : List String :=
  ["acceptance_criteria", "acceptance", "acceptance_checklist", "validation", "required_work", "scope", "objective",
    "verification", "expected_verification", "instructions", "handoff", "deliverables", "deliverable"]

/-- `a or b or … or z`. -/
def firstTruthy : List Json → Json
  | [] => .null
  | [v] => v
  | v :: vs => v.or (firstTruthy vs)

/-- The entries of `contract["out_of_scope"]` that are not blank. -/
def Contract.entries (c : Contract) : List String := c.outOfScope.filter (fun entry => decide (strip entry ≠ ""))

def Contract.requiresChanges (c : Contract) : Bool :=
  decide (c.targetFiles ≠ [] ∨ c.deliverables ≠ [] ∨ c.verificationCommands ≠ [])

/-- The files of a subtask as the validator reads them. -/
def Subtask.listed (s : Subtask) : List String := (s.files.map strip).filter (fun path => decide (path ≠ ""))

def startsWith (start text : String) : Bool := start.toList.isPrefixOf text.toList

/-- The test for a conflict of one file. -/
def conflicts (c : Contract) (path : String) : Bool :=
  let scopes := c.entries.map normalizeRepoRelativePath
  decide (normalizeRepoRelativePath path ∈ scopes) ||
    scopes.any (fun scope => decide (scope ≠ "") && startsWith (scope ++ "/") (normalizeRepoRelativePath path))

section
variable (py : Python)

/-- `_normalize_text`. -/
def normalizeText (v : Json) : String := strip (py.text v)

/-- `_coerce_text_list`. -/
def coerceTextList : Json → List String
  | .null => []
  | .str s => if strip s ≠ "" then [strip s] else []
  | .obj fields => (fields.map (fun f => normalizeText py f.2)).filter (fun text => decide (text ≠ ""))
  | .arr items => (items.map (normalizeText py)).filter (fun text => decide (text ≠ ""))
  | v => [normalizeText py v].filter (fun text => decide (text ≠ ""))

def Subtask.title (s : Subtask) (index : Nat) : String :=
  orElse (normalizeText py (s.fields.get "title")) ("Subtask " ++ toString index)

def Subtask.goal (s : Subtask) (index : Nat) : String :=
  normalizeText py ((s.fields.get "goal").or ((s.fields.get "description").or (.str (s.title py index))))

def Subtask.acceptance (s : Subtask) : List String :=
  coerceTextList py (firstTruthy (acceptanceKeys.map s.fields.get))

/-- The issues of one subtask, in their order. -/
def issuesOf (c : Contract) (index : Nat) (s : Subtask) : List Issue :=
  let title := s.title py index
  let absoluteFiles := s.listed.filter (startsWith "/")
  (if s.goal py index = "" then [⟨"missing_goal", title, "Subtask goal is empty."⟩] else []) ++
  (if c.requiresChanges ∧ s.acceptance py = [] then
    [⟨"missing_acceptance_criteria", title, "Nontrivial task requires acceptance criteria or checklist items."⟩]
    else []) ++
  (if absoluteFiles ≠ [] then [⟨"absolute_file_path", title, String.intercalate ", " absoluteFiles⟩] else []) ++
  match s.listed.find? (conflicts c) with
  | some conflict => [⟨"out_of_scope_conflict", title, conflict⟩]
  | none => []

/-- `task_plan_validation`. -/
def taskPlanValidation (c : Contract) (subtasks : List Subtask) : Validation :=
  let issues := (subtasks.zipIdx 1).flatMap (fun p => issuesOf py c p.2 p.1)
  { ok := decide (issues = [])
    issues := issues
    blockerKind := if issues = [] then none else some "contract_incomplete"
    blockerMessage := if issues = [] then none else
      some ("Subtask plan is incomplete or unsafe: " ++
        String.intercalate "; " (issues.map (fun issue => issue.kind ++ " (" ++ issue.subtask ++ ")"))) }

end

/-! ## The collector -/

/-- A path as the collector of expected files reads it. -/
def relPath (raw : String) : String := String.ofList (dropDotSlash (slashed raw))

/-- The checks a path passes: it is not ignored, not empty, not absolute, and takes no step back. -/
def takes (s : Subtask) (path : String) : Bool :=
  let ignoredPaths := (s.ignoredTargetFiles.filter (fun raw => decide (strip raw ≠ ""))).map
    (fun raw => replaceChar '\\' '/' (strip raw))
  decide (path ∉ ignoredPaths) &&
    !(startsWith "/" path || decide (path = "..") || startsWith "../" path ||
      decide ("/../".toList <:+: ("/" ++ path ++ "/").toList)) &&
    decide (path ≠ "")

/-- `collect_expected_repo_files`. -/
def collectExpectedRepoFiles (subtasks : List Subtask) : List String :=
  subtasks.foldl (fun files s => (s.files ++ s.targetFiles).foldl (fun files raw =>
    if takes s (relPath raw) ∧ relPath raw ∉ files then files ++ [relPath raw] else files) files) []

/-! ## What both report -/

section
variable {py : Python} {c : Contract}

/-- The goal, or else the description, is there and has only blanks. -/
def BlankGoal (py : Python) (s : Subtask) : Prop :=
  ((s.fields.get "goal").or (s.fields.get "description")).truthy = true ∧
    normalizeText py ((s.fields.get "goal").or (s.fields.get "description")) = ""

/-- What the validator reports of a subtask without a look at the entries. -/
def Incomplete (py : Python) (c : Contract) (s : Subtask) : Prop :=
  BlankGoal py s ∨ (c.requiresChanges = true ∧ s.acceptance py = []) ∨ ∃ f ∈ s.listed, startsWith "/" f = true

/-- The text of a file, normalized, is that of an entry or begins with it and a slash. -/
def Shows (entry path : String) : Prop :=
  normalizeRepoRelativePath path = normalizeRepoRelativePath entry ∨
    normalizeRepoRelativePath entry ≠ "" ∧
      startsWith (normalizeRepoRelativePath entry ++ "/") (normalizeRepoRelativePath path) = true

theorem conflicts_iff {path : String} : conflicts c path = true ↔ ∃ entry ∈ c.entries, Shows entry path := by
  simp only [conflicts, Bool.or_eq_true, decide_eq_true_eq, List.mem_map, List.any_eq_true, Bool.and_eq_true, Shows]
  constructor
  · rintro (⟨entry, hentry, heq⟩ | ⟨scope, ⟨entry, hentry, rfl⟩, hne, hstart⟩)
    · exact ⟨entry, hentry, .inl heq.symm⟩
    · exact ⟨entry, hentry, .inr ⟨hne, hstart⟩⟩
  · rintro ⟨entry, hentry, heq | ⟨hne, hstart⟩⟩
    · exact .inl ⟨entry, hentry, heq.symm⟩
    · exact .inr ⟨_, ⟨entry, hentry, rfl⟩, hne, hstart⟩

/-- A title is never blank. -/
theorem title_not_blank (s : Subtask) (index : Nat) : strip (s.title py index) ≠ "" := by
  unfold Subtask.title orElse
  split
  · intro h
    have hletter := of_stripBy_eq_empty h 'S' (by simp)
    exact absurd hletter (by decide)
  · rename_i hne
    rw [normalizeText, strip_idem]
    exact hne

theorem goal_eq_empty {s : Subtask} {index : Nat} : s.goal py index = "" ↔ BlankGoal py s := by
  have htitle : normalizeText py (.str (s.title py index)) ≠ "" := by
    rw [normalizeText, Python.text_str]
    exact title_not_blank s index
  unfold Subtask.goal BlankGoal Json.or
  split_ifs <;> simp_all

theorem issuesOf_eq_nil {index : Nat} {s : Subtask} : issuesOf py c index s = [] ↔
    ¬ Incomplete py c s ∧ ∀ f ∈ s.listed, ∀ entry ∈ c.entries, ¬ Shows entry f := by
  have habsolute : s.listed.filter (startsWith "/") = [] ↔ ¬ ∃ f ∈ s.listed, startsWith "/" f = true := by
    simp [List.filter_eq_nil_iff]
  have hconflict : (match s.listed.find? (conflicts c) with
      | some conflict => [Issue.mk "out_of_scope_conflict" (s.title py index) conflict]
      | none => []) = [] ↔ ∀ f ∈ s.listed, ∀ entry ∈ c.entries, ¬ Shows entry f := by
    cases hfind : s.listed.find? (conflicts c) with
    | none =>
      rw [List.find?_eq_none] at hfind
      refine iff_of_true rfl fun f hf entry hentry hshows => hfind f hf ?_
      exact conflicts_iff.mpr ⟨entry, hentry, hshows⟩
    | some f =>
      obtain ⟨entry, hentry, hshows⟩ := conflicts_iff.mp (List.find?_some hfind)
      refine iff_of_false (List.cons_ne_nil _ _) fun hall => ?_
      exact hall f (List.mem_of_find?_eq_some hfind) entry hentry hshows
  have hif : ∀ {p : Prop} [Decidable p] {i : Issue}, (if p then [i] else []) = [] ↔ ¬ p := by
    intro p _ i
    split_ifs with hp <;> simp [hp]
  rw [← hconflict]
  simp only [issuesOf, List.append_eq_nil_iff, Incomplete, not_or, ← habsolute, hif, goal_eq_empty, not_not, and_assoc,
    ne_eq]

theorem ok_iff {subtasks : List Subtask} : (taskPlanValidation py c subtasks).ok = true ↔
    ∀ s ∈ subtasks, ¬ Incomplete py c s ∧ ∀ f ∈ s.listed, ∀ entry ∈ c.entries, ¬ Shows entry f := by
  have hfst : (subtasks.zipIdx 1).map Prod.fst = subtasks := List.zipIdx_map_fst 1 subtasks
  simp only [taskPlanValidation, decide_eq_true_eq, List.flatMap_eq_nil_iff, issuesOf_eq_nil]
  constructor
  · intro h s hs
    rw [← hfst, List.mem_map] at hs
    obtain ⟨p, hp, rfl⟩ := hs
    exact h p hp
  · intro h p hp
    apply h
    rw [← hfst]
    exact List.mem_map_of_mem hp

theorem mem_foldl_takes {s : Subtask} {raws files : List String} {path : String} :
    path ∈ raws.foldl (fun files raw => if takes s (relPath raw) ∧ relPath raw ∉ files then files ++ [relPath raw]
      else files) files ↔ path ∈ files ∨ ∃ raw ∈ raws, relPath raw = path ∧ takes s path = true := by
  induction raws generalizing files with
  | nil => simp
  | cons raw raws ih =>
    rw [List.foldl_cons, ih, List.exists_mem_cons_iff, ← or_assoc]
    apply or_congr_left
    split
    · rename_i hnew
      rw [List.mem_append, List.mem_singleton]
      apply or_congr_right
      constructor
      · rintro rfl
        exact ⟨rfl, hnew.1⟩
      · rintro ⟨rfl, -⟩
        rfl
    · rename_i hold
      constructor
      · exact .inl
      · rintro (hmem | ⟨rfl, htakes⟩)
        · exact hmem
        · by_contra hmem
          exact hold ⟨htakes, hmem⟩

/-- What is collected is a declared path that passes the checks. -/
theorem mem_collect {subtasks : List Subtask} {path : String} : path ∈ collectExpectedRepoFiles subtasks ↔
    ∃ s ∈ subtasks, ∃ raw ∈ s.files ++ s.targetFiles, relPath raw = path ∧ takes s path = true := by
  have hfold : ∀ files : List String, path ∈ subtasks.foldl (fun files s => (s.files ++ s.targetFiles).foldl
      (fun files raw => if takes s (relPath raw) ∧ relPath raw ∉ files then files ++ [relPath raw] else files) files)
        files ↔ path ∈ files ∨ ∃ s ∈ subtasks, ∃ raw ∈ s.files ++ s.targetFiles, relPath raw = path ∧
          takes s path = true := by
    induction subtasks with
    | nil => simp
    | cons s subtasks ih =>
      intro files
      rw [List.foldl_cons, ih, mem_foldl_takes, List.exists_mem_cons_iff, or_assoc]
  rw [collectExpectedRepoFiles, hfold]
  simp

end

/-! ## Plain paths -/

/-- A path of words: slashes stand between them only, and only dots in front are dropped. -/
structure Plain (text : String) : Prop where
  words : ∀ word ∈ (slashed text).splitOn '/', word ≠ [] ∧ ∀ c ∈ word, isPathChar c = true
  named : nameParts (strip text) ≠ []
  no_up : ".." ∉ nameParts (strip text)
  spelled : relPath text = joinScope (nameParts (strip text))

instance (text : String) : Decidable (Plain text) :=
  decidable_of_iff (((slashed text).splitOn '/').all (fun word => !word.isEmpty && word.all isPathChar) = true ∧
      nameParts (strip text) ≠ [] ∧ ".." ∉ nameParts (strip text) ∧ relPath text = joinScope (nameParts (strip text)))
    ⟨fun h => ⟨fun word hword => by simpa using (List.all_eq_true.mp h.1) word hword, h.2.1, h.2.2.1, h.2.2.2⟩,
      fun h => ⟨List.all_eq_true.mpr fun word hword => by simpa using h.words word hword, h.named, h.no_up, h.spelled⟩⟩

theorem Plain.chars {text : String} (h : Plain text) {c : Char} (hc : c ∈ slashed text) :
    isPathChar c = true ∨ c = '/' := by
  have hjoin : slashed text = ['/'].intercalate ((slashed text).splitOn '/') := (List.intercalate_splitOn '/').symm
  rw [hjoin] at hc
  obtain hsep | ⟨word, hword, hc⟩ := PurePath.mem_intercalate hc
  · exact .inr (List.mem_singleton.mp hsep)
  · exact .inl ((h.words word hword).2 c hc)

theorem pathChar_toNat {c : Char} (h : isPathChar c = true ∨ c = '/') : 43 ≤ c.toNat ∧ c.toNat ≤ 57 ∨
    64 ≤ c.toNat ∧ c.toNat ≤ 90 ∨ c.toNat = 95 ∨ 97 ≤ c.toNat ∧ c.toNat ≤ 122 := by
  simp only [isPathChar, isAsciiAlnum, Bool.or_eq_true, Bool.and_eq_true, decide_eq_true_eq] at h
  obtain (((((((hdigit | hupper) | hlower) | rfl) | rfl) | rfl) | rfl) | rfl) | rfl := h
  · omega
  · omega
  · omega
  all_goals decide

theorem pathChar_ne {c : Char} (h : isPathChar c = true ∨ c = '/') :
    c ≠ backtick ∧ isSpace c = false ∧ isQuote c = false := by
  have hrange := pathChar_toNat h
  refine ⟨?_, ?_, ?_⟩
  · rintro rfl
    exact absurd hrange (by decide)
  · simp only [isSpace, Bool.or_eq_false_iff, Bool.and_eq_false_iff, decide_eq_false_iff_not]
    omega
  · simp only [isQuote, Bool.or_eq_false_iff, decide_eq_false_iff_not]
    omega

theorem search_eq_none {matchAt : List Char → Option (List Char)} {text : List Char}
    (h : ∀ rest, rest <:+ text → matchAt rest = none) : search matchAt text = none := by
  induction text with
  | nil => rfl
  | cons c rest ih =>
    rw [search, h _ (List.suffix_refl _), Option.none_or]
    exact ih fun t ht => h t (ht.trans (List.suffix_cons c rest))

/-- Without a backtick the first pattern is not found. -/
theorem search_quotedAt {text : List Char} (h : backtick ∉ text) : search quotedAt text = none := by
  apply search_eq_none
  intro rest hrest
  cases rest with
  | nil => rfl
  | cons c rest =>
    have hc : c ≠ backtick := fun heq => h (heq ▸ hrest.subset List.mem_cons_self)
    simp [quotedAt, hc]

/-- A text without slashes has at most one word. -/
theorem wordsAt_eq_none {text : List Char} (h : '/' ∉ text) : wordsAt text = none := by
  have hno : '/' ∉ text.takeWhile (fun c => isPathChar c || c = '/') :=
    fun hmem => h ((List.takeWhile_prefix _).subset hmem)
  have hlength := (List.takeWhile_prefix (· ≠ []) (l := [text.takeWhile (fun c => isPathChar c || c = '/')])).length_le
  rw [List.length_singleton] at hlength
  rw [wordsAt, List.splitOn_eq_singleton hno]
  exact if_neg (by omega)

/-- The second pattern is found at the head of a text of words, or nowhere. -/
theorem search_wordsAt {text : List Char}
    (h : ∀ word ∈ text.splitOn '/', word ≠ [] ∧ ∀ c ∈ word, isPathChar c = true) :
    (search wordsAt text).getD text = text := by
  by_cases hlength : 2 ≤ (text.splitOn '/').length
  · have hchars : ∀ c ∈ text, (isPathChar c || decide (c = '/')) = true := by
      intro c hc
      rw [← @List.intercalate_splitOn _ text _ _ '/'] at hc
      obtain hsep | ⟨word, hword, hc⟩ := PurePath.mem_intercalate hc
      · simp [List.mem_singleton.mp hsep]
      · simp [(h word hword).2 c hc]
    have hfound : wordsAt text = some text := by
      have hwords : (text.splitOn '/').takeWhile (· ≠ []) = text.splitOn '/' :=
        List.takeWhile_eq_self_iff.mpr fun word hword => decide_eq_true (h word hword).1
      rw [wordsAt, List.takeWhile_eq_self_iff.mpr hchars, hwords, List.intercalate_splitOn]
      exact if_pos hlength
    cases text with
    | nil => rfl
    | cons c rest => rw [search, hfound, Option.some_or, Option.getD_some]
  · obtain ⟨word, rest, hsplit⟩ := List.exists_cons_of_ne_nil (List.splitOn_ne_nil '/' text)
    rw [hsplit, List.length_cons] at hlength
    have hrest : rest = [] := List.length_eq_zero_iff.mp (by omega)
    subst hrest
    have htext : text = word := by
      have hjoin := @List.intercalate_splitOn _ text _ _ '/'
      rw [hsplit] at hjoin
      simpa using hjoin.symm
    have hno : '/' ∉ text := by
      intro hmem
      rw [htext] at hmem
      exact (ScopeOverlap.mem_splitOn (hsplit ▸ List.mem_singleton_self word) hmem).2 rfl
    rw [search_eq_none fun t ht => wordsAt_eq_none fun hmem => hno (ht.subset hmem), Option.getD_none]

theorem Plain.normalize {text : String} (h : Plain text) : normalizeRepoRelativePath text = relPath text := by
  have hno : backtick ∉ slashed text := fun hmem => (pathChar_ne (h.chars hmem)).1 rfl
  have hspace : strip (String.ofList (slashed text)) = String.ofList (slashed text) := by
    apply stripBy_eq_self
    intro c hc
    rw [String.toList_ofList] at hc
    exact (pathChar_ne (h.chars hc)).2.1
  have hquote : stripBy isQuote (String.ofList (slashed text)) = String.ofList (slashed text) := by
    apply stripBy_eq_self
    intro c hc
    rw [String.toList_ofList] at hc
    exact (pathChar_ne (h.chars hc)).2.2
  simp only [normalizeRepoRelativePath, search_quotedAt hno, Option.none_or, search_wordsAt h.words, hspace, hquote,
    String.toList_ofList, relPath]

/-! ## Plain paths are read as they lead -/

/-- What the collector cuts off a path has no names. -/
theorem nameParts_relPath (raw : String) : nameParts (relPath raw) = nameParts (strip raw) := by
  have hplain : ∀ c ∈ dropDotSlash (slashed raw), (if c = '\\' then '/' else c) = c := by
    intro c hc
    have hmem := (dropDotSlash_suffix _).subset hc
    rw [slashed, replaceChar, String.toList_ofList, List.mem_map] at hmem
    obtain ⟨d, -, rfl⟩ := hmem
    by_cases hd : d = '\\' <;> simp [hd]
  rw [nameParts, replaceChar, relPath, String.toList_ofList, List.map_congr_left hplain, List.map_id',
    ScopeOverlap.pathParts_dropDotSlash, slashed, String.ofList_toList]
  rfl

theorem Plain.denoted {text : String} (h : Plain text) : denoted (relPath text) = nameParts (strip text) := by
  rw [ScopeOverlap.denoted, nameParts_relPath, ScopeOverlap.foldl_climb h.no_up, List.nil_append]

theorem Plain.denoted_strip {text : String} (h : Plain text) :
    ScopeOverlap.denoted (strip text) = nameParts (strip text) := by
  rw [ScopeOverlap.denoted, ScopeOverlap.foldl_climb h.no_up, List.nil_append]

/-- The text of a place below another begins with its text and a slash. -/
theorem startsWith_join {place names : Scope} (hplace : place ≠ []) (hnames : names ≠ []) :
    startsWith (joinScope place ++ "/") (joinScope (place ++ names)) = true := by
  have hslash : ("/" : String).toList = ['/'] := rfl
  rw [startsWith, List.isPrefixOf_iff_prefix, String.toList_append, joinScope, joinScope, String.toList_intercalate,
    String.toList_intercalate, List.map_append, hslash,
    PurePath.intercalate_append _ (by simpa using hplace) (by simpa using hnames), ← List.append_assoc]
  exact List.prefix_append _ _

theorem joinScope_ne_empty {place : Scope} (h : ∀ name ∈ place, IsName name) (hne : place ≠ []) :
    joinScope place ≠ "" := by
  intro hempty
  have hparts := ScopeOverlap.pathParts_join h
  rw [hempty] at hparts
  exact hne (hparts.symm.trans (by decide))

/-- A plain entry shows in every plain path at or below it. -/
theorem Plain.shows {entry path : String} (he : Plain entry) (hp : Plain path)
    (h : ScopeOverlap.denoted (strip entry) <+: ScopeOverlap.denoted (relPath path)) : Shows entry path := by
  rw [he.denoted_strip, hp.denoted] at h
  obtain ⟨names, hnames⟩ := h
  unfold Shows
  rw [he.normalize, hp.normalize, he.spelled, hp.spelled, ← hnames]
  by_cases hnil : names = []
  · rw [hnil, List.append_nil]
    exact .inl rfl
  · right
    constructor
    · exact joinScope_ne_empty (fun name hname => ScopeOverlap.isName_of_mem hname) he.named
    · exact startsWith_join he.named hnil

theorem shows_strip {entry path : String} : Shows entry (strip path) ↔ Shows entry path := by
  simp only [Shows, normalizeRepoRelativePath, slashed, strip_idem]

/-! ## When the plan is held to the contract -/

/-- A path is an out-of-scope entry or lies below one. -/
def OutOfScope (c : Contract) (path : String) : Prop :=
  ∃ entry ∈ c.entries, ScopeOverlap.denoted (strip entry) <+: ScopeOverlap.denoted path

instance (c : Contract) (path : String) : Decidable (OutOfScope c path) := by unfold OutOfScope; infer_instance

/-- No path of a plan that is found in order is out of scope. -/
def Enforced (py : Python) (c : Contract) (subtasks : List Subtask) : Prop :=
  (taskPlanValidation py c subtasks).ok = true → ∀ path ∈ collectExpectedRepoFiles subtasks, ¬ OutOfScope c path

/-- Where a path of the plan is out of scope, a listed file shows an entry. -/
def Evident (c : Contract) (subtasks : List Subtask) : Prop :=
  (∃ s ∈ subtasks, ∃ raw ∈ s.files ++ s.targetFiles, takes s (relPath raw) = true ∧ OutOfScope c (relPath raw)) →
    ∃ s ∈ subtasks, ∃ f ∈ s.listed, ∃ entry ∈ c.entries, Shows entry f

theorem enforced_of_incomplete {py : Python} {c : Contract} {subtasks : List Subtask}
    (h : ∃ s ∈ subtasks, Incomplete py c s) : Enforced py c subtasks := by
  intro hok
  obtain ⟨s, hs, hincomplete⟩ := h
  exact absurd hincomplete (ok_iff.mp hok s hs).1

/-- The plan is held to the contract exactly where it is turned away for another reason, or a
listed file shows an entry as soon as some path is out of scope; and it is where the entries
and the paths are plain and the target files are listed as well. -/
theorem enforced_iff (py : Python) :
    (∀ (c : Contract) (subtasks : List Subtask), Enforced py c subtasks ↔
      (∃ s ∈ subtasks, Incomplete py c s) ∨ Evident c subtasks) ∧
    ∀ (c : Contract) (subtasks : List Subtask), (∀ entry ∈ c.entries, Plain entry) →
      (∀ s ∈ subtasks, ∀ raw ∈ s.files ++ s.targetFiles, takes s (relPath raw) = true →
        Plain raw ∧ ∃ t ∈ subtasks, raw ∈ t.files) → Enforced py c subtasks := by
  have hfirst : ∀ (c : Contract) (subtasks : List Subtask), Enforced py c subtasks ↔
      (∃ s ∈ subtasks, Incomplete py c s) ∨ Evident c subtasks := by
    intro c subtasks
    constructor
    · intro henforced
      by_contra hnot
      rw [not_or, Evident, Classical.not_imp] at hnot
      obtain ⟨hcomplete, ⟨s, hs, raw, hraw, htakes, hout⟩, hhidden⟩ := hnot
      have hok : (taskPlanValidation py c subtasks).ok = true := by
        rw [ok_iff]
        intro t ht
        exact ⟨fun h => hcomplete ⟨t, ht, h⟩, fun f hf entry hentry h => hhidden ⟨t, ht, f, hf, entry, hentry, h⟩⟩
      exact henforced hok _ (mem_collect.mpr ⟨s, hs, raw, hraw, rfl, htakes⟩) hout
    · rintro (hincomplete | hevident)
      · exact enforced_of_incomplete hincomplete
      · intro hok path hpath hout
        obtain ⟨s, hs, raw, hraw, rfl, htakes⟩ := mem_collect.mp hpath
        obtain ⟨t, ht, f, hf, entry, hentry, hshows⟩ := hevident ⟨s, hs, raw, hraw, htakes, hout⟩
        exact (ok_iff.mp hok t ht).2 f hf entry hentry hshows
  refine ⟨hfirst, fun c subtasks hentries hpaths => (hfirst c subtasks).mpr (.inr ?_)⟩
  rintro ⟨s, hs, raw, hraw, htakes, entry, hentry, hbelow⟩
  obtain ⟨hplain, t, ht, hfile⟩ := hpaths s hs raw hraw htakes
  have hshows := shows_strip.mpr ((hentries entry hentry).shows hplain hbelow)
  have hnonblank : strip raw ≠ "" := by
    intro hblank
    apply hplain.named
    rw [hblank]
    decide
  refine ⟨t, ht, strip raw, ?_, entry, hentry, hshows⟩
  rw [Subtask.listed, List.mem_filter]
  exact ⟨List.mem_map_of_mem hfile, decide_eq_true hnonblank⟩

/-- A subtask in order with one file. -/
def oneFile (raw : String) : Subtask where
  fields := [("title", .str "Rotate keys"), ("goal", .str "Rotate the keys."), ("acceptance", .arr [.str "Keys are new."])]
  files := [raw]
  targetFiles := []
  ignoredTargetFiles := []

/-- The same with a target file in its place. -/
def oneTarget (raw : String) : Subtask := { oneFile raw with files := [], targetFiles := [raw] }

/-- A plan of one plain file below a plain entry is turned away. -/
theorem plain_file_enforced : Enforced CoderLease.asciiPython ⟨["./src/keys"], ["src/app.py"], [], []⟩
    [oneFile "src\\keys\\prod.pem"] := by
  apply (enforced_iff CoderLease.asciiPython).2
  · decide +kernel
  · decide +kernel

/-- No target file is held to the contract. -/
theorem target_overlooked (py : Python) {c : Contract} {raw : String} (htakes : takes (oneTarget raw) (relPath raw) = true)
    (hout : OutOfScope c (relPath raw)) : ¬ Enforced py c [oneTarget raw] := by
  have hok : (taskPlanValidation py c [oneTarget raw]).ok = true := by
    rw [ok_iff]
    intro s hs
    rw [List.mem_singleton.mp hs]
    have hacceptance : (oneTarget raw).acceptance py = ["Keys are new."] := by
      have hstrip : strip "Keys are new." = "Keys are new." := by decide
      have hvalue : firstTruthy (acceptanceKeys.map (oneTarget raw).fields.get) = .arr [.str "Keys are new."] := rfl
      rw [Subtask.acceptance, hvalue, coerceTextList, List.map_singleton, normalizeText, Python.text_str, hstrip]
      rfl
    constructor
    · rintro (⟨-, hblank⟩ | ⟨-, hnone⟩ | ⟨f, hf, -⟩)
      · have hgoal : normalizeText py (.str "Rotate the keys.") = "Rotate the keys." := by
          rw [normalizeText, Python.text_str]
          decide
        exact absurd (hgoal.symm.trans hblank) (by decide)
      · rw [hacceptance] at hnone
        cases hnone
      · cases hf
    · intro f hf
      cases hf
  intro henforced
  refine henforced hok (relPath raw) (mem_collect.mpr ⟨_, List.mem_singleton_self _, raw, ?_, rfl, htakes⟩) hout
  exact List.mem_singleton_self raw

/-- A target file, a directory of one name with a slash behind it, and a dot within a path. -/
theorem forbidden_accepted :
    (let keys : Contract := ⟨["src/keys"], ["src/app.py"], [], []⟩
     let plan := [oneTarget "src/keys/prod.pem"]
     (taskPlanValidation CoderLease.asciiPython keys plan).ok = true ∧
       collectExpectedRepoFiles plan = ["src/keys/prod.pem"] ∧ OutOfScope keys "src/keys/prod.pem") ∧
    (let keys : Contract := ⟨["keys/"], ["src/app.py"], [], []⟩
     let plan := [oneFile "keys/prod.pem"]
     (taskPlanValidation CoderLease.asciiPython keys plan).ok = true ∧
       collectExpectedRepoFiles plan = ["keys/prod.pem"] ∧ OutOfScope keys "keys/prod.pem") ∧
    (let keys : Contract := ⟨["src/keys"], ["src/app.py"], [], []⟩
     let plan := [oneFile "src/./keys/prod.pem"]
     (taskPlanValidation CoderLease.asciiPython keys plan).ok = true ∧
       collectExpectedRepoFiles plan = ["src/./keys/prod.pem"] ∧ OutOfScope keys "src/./keys/prod.pem") := by
  decide +kernel

end PlanScope
