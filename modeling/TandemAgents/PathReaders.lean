import TandemAgents.PlanScope

/-!
# Readers of the paths of a subtask

`collect_expected_repo_files` and `subtask_satisfied` read the same paths of a subtask. The one
drops `./` in front and refuses what may lead out of the repository, the other drops all dots
and slashes in front and refuses nothing.
-/
namespace PathReaders

open PythonText Scheduler ScopeOverlap PlanScope

set_option maxRecDepth 20000

/-! ## The two other readers -/

/-- `text.lstrip("./")`. -/
def lstripDots (text : String) : String := String.ofList (text.toList.dropWhile fun c => decide (c = '.' ∨ c = '/'))

/-- A path as `subtask_satisfied` reads it. -/
def satisfiedPath (raw : String) : String := lstripDots (strip raw)

/-- Where a path leads from a place. -/
def leads (place : Scope) (path : String) : Scope := (pathParts path).foldl climb place

/-- The place that `subtask_satisfied` looks at for a path; an empty path is left out. -/
def examined (repo : Scope) (raw : String) : Option Scope :=
  if satisfiedPath raw = "" then none else some (leads repo (satisfiedPath raw))

/-- The paths that the loop of `subtask_satisfied` reads a file for, with the places of the
files. The loop ends at the first place without a file. -/
def reads (isFile : Scope → Bool) (repo : Scope) : List String → List (String × Scope)
  | [] => []
  | raw :: rest =>
    match examined repo raw with
    | none => reads isFile repo rest
    | some place => if isFile place = true then (raw, place) :: reads isFile repo rest else []

/-- The paths of a subtask. -/
def paths (s : Subtask) : List String := s.files ++ s.targetFiles

/-- `_safe_rel_path`. -/
def safeRelPath (raw : String) : String :=
  let path := relPath raw
  if path = "" ∨ startsWith "/" path = true ∨ path = ".." ∨ startsWith "../" path = true ∨
    "/../".toList <:+: ("/" ++ path ++ "/").toList then "" else path

/-- For a path that is accepted both readers mean one file, wherever the repository lies, and for
a path that is refused no file outside the repository is read. -/
structure ReadersAgree (s : Subtask) : Prop where
  same : ∀ raw ∈ paths s, takes s (relPath raw) = true → ∀ repo, examined repo raw = some (leads repo (relPath raw))
  inside : ∀ isFile repo, ∀ read ∈ reads isFile repo (paths s), takes s (relPath read.1) = false → repo <+: read.2

/-- Names that never step back above where they began. -/
def stays : Nat → Scope → Bool
  | _, [] => true
  | depth, name :: rest =>
    if name = ".." then decide (0 < depth) && stays (depth - 1) rest else stays (depth + 1) rest

/-! ## Steps back -/

theorem foldl_climb_stays {names extra : Scope} (h : stays extra.length names = true) (root : Scope) :
    root <+: names.foldl climb (root ++ extra) := by
  induction names generalizing extra with
  | nil => exact List.prefix_append root extra
  | cons name rest ih =>
    rw [stays] at h
    rw [List.foldl_cons]
    by_cases hup : name = ".."
    · rw [if_pos hup, Bool.and_eq_true, decide_eq_true_iff] at h
      cases extra using List.reverseRecOn with
      | nil => exact absurd h.1 (Nat.lt_irrefl 0)
      | append_singleton front last =>
        rw [List.length_append, List.length_singleton, Nat.add_sub_cancel] at h
        rw [climb, if_pos hup, ← List.append_assoc, List.dropLast_concat]
        exact ih h.2
    · rw [if_neg hup] at h
      rw [climb, if_neg hup, List.append_assoc]
      apply ih
      rwa [List.length_append, List.length_singleton]

/-- Names that step above the root do not bring a root back that is none of them. -/
theorem not_mem_foldl_climb {names extra : Scope} {root : String} (h : stays extra.length names = false)
    (hnames : root ∉ names) (hextra : root ∉ extra) : root ∉ names.foldl climb (root :: extra) := by
  induction names generalizing extra with
  | nil => cases h
  | cons name rest ih =>
    rw [List.mem_cons, not_or] at hnames
    rw [stays] at h
    rw [List.foldl_cons]
    by_cases hup : name = ".."
    · rw [if_pos hup] at h
      rw [climb, if_pos hup]
      cases extra using List.reverseRecOn with
      | nil =>
        intro hmem
        rcases mem_foldl_climb hmem with hnil | ⟨hrest, -⟩
        · cases hnil
        · exact hnames.2 hrest
      | append_singleton front last =>
        rw [List.length_append, List.length_singleton, Nat.add_sub_cancel, decide_eq_true (Nat.succ_pos _),
          Bool.true_and] at h
        rw [← List.cons_append, List.dropLast_concat]
        exact ih h hnames.2 fun hfront => hextra (List.mem_append_left _ hfront)
    · rw [if_neg hup] at h
      rw [climb, if_neg hup, List.cons_append]
      apply ih _ hnames.2
      · rw [List.mem_append, List.mem_singleton, not_or]
        exact ⟨hextra, hnames.1⟩
      · rwa [List.length_append, List.length_singleton]

/-- Names lead to places below every root exactly when they never step back above where they began. -/
theorem below_iff {names : Scope} : (∀ root, root <+: names.foldl climb root) ↔ stays 0 names = true := by
  constructor
  · intro h
    by_contra hleaves
    rw [Bool.not_eq_true] at hleaves
    have hroot := (h [freshName names]).subset List.mem_cons_self
    exact @not_mem_foldl_climb names [] _ hleaves (freshName_not_mem names) List.not_mem_nil hroot
  · intro h root
    have hbelow := @foldl_climb_stays names [] h root
    rwa [List.append_nil] at hbelow

/-! ## Files that are read -/

/-- A file that is read stands at the place examined for a path of the list. -/
theorem mem_reads {isFile : Scope → Bool} {repo : Scope} {raws : List String} {read : String × Scope}
    (h : read ∈ reads isFile repo raws) : read.1 ∈ raws ∧ examined repo read.1 = some read.2 := by
  induction raws with
  | nil => cases h
  | cons raw rest ih =>
    rw [reads] at h
    cases hplace : examined repo raw with
    | none =>
      rw [hplace] at h
      exact (ih h).imp_left (List.mem_cons_of_mem raw)
    | some place =>
      rw [hplace] at h
      simp only at h
      split at h
      · rcases List.mem_cons.mp h with rfl | h
        · exact ⟨List.mem_cons_self, hplace⟩
        · exact (ih h).imp_left (List.mem_cons_of_mem raw)
      · cases h

/-- Where every place has a file, every path is read. -/
theorem reads_all {repo place : Scope} {raws : List String} {raw : String} (hraw : raw ∈ raws)
    (hplace : examined repo raw = some place) : (raw, place) ∈ reads (fun _ => true) repo raws := by
  induction raws with
  | nil => cases hraw
  | cons first rest ih =>
    rw [reads]
    rcases List.mem_cons.mp hraw with rfl | hrest
    · rw [hplace]
      exact List.mem_cons_self
    · cases examined repo first with
      | none => exact ih hrest
      | some _ => exact List.mem_cons_of_mem _ (ih hrest)

/-- The places examined for a path lie in the repository exactly when its names, behind the dots
and slashes in front, never step back above where they began. -/
theorem examined_inside_iff {raw : String} : (∀ repo place, examined repo raw = some place → repo <+: place) ↔
    stays 0 (pathParts (satisfiedPath raw)) = true := by
  rw [← below_iff]
  by_cases hempty : satisfiedPath raw = ""
  · have hnone : ∀ repo, examined repo raw = none := fun repo => if_pos hempty
    rw [hempty]
    refine iff_of_true (fun repo place h => ?_) fun root => List.prefix_refl root
    rw [hnone repo] at h
    cases h
  · have hsome : ∀ repo, examined repo raw = some (leads repo (satisfiedPath raw)) := fun repo => if_neg hempty
    constructor
    · exact fun h root => h root _ (hsome root)
    · intro h repo place hplace
      rw [hsome repo] at hplace
      rw [← Option.some.inj hplace]
      exact h repo

/-! ## Paths that are accepted -/

theorem head_splitOn {c : Char} (hc : c ≠ '/') (rest : List Char) :
    ∃ first later, (c :: rest).splitOn '/' = (c :: first) :: later ∧ rest.splitOn '/' = first :: later := by
  obtain ⟨first, later, hsplit⟩ := List.exists_cons_of_ne_nil (List.splitOn_ne_nil '/' rest)
  refine ⟨first, later, ?_, hsplit⟩
  rw [List.splitOn_cons_eq_if_modifyHead, if_neg (by simpa using hc), hsplit, List.modifyHead_cons]

/-- Between slashes at both ends, every part of a path stands between slashes. -/
theorem part_infix (front back : List (List Char)) (part : List Char) :
    ('/' :: (part ++ ['/'])) <:+: '/' :: (['/'].intercalate (front ++ part :: back) ++ ['/']) := by
  induction front with
  | nil =>
    rw [List.nil_append]
    cases back with
    | nil => rw [List.intercalate_singleton]
    | cons next back =>
      rw [List.intercalate_cons_cons]
      exact ⟨[], ['/'].intercalate (next :: back) ++ ['/'], by simp⟩
  | cons first front ih =>
    obtain ⟨next, more, hmore⟩ : ∃ next more, front ++ part :: back = next :: more :=
      List.exists_cons_of_ne_nil (by simp)
    rw [hmore] at ih
    rw [List.cons_append, hmore, List.intercalate_cons_cons]
    obtain ⟨u, v, huv⟩ := ih
    refine ⟨'/' :: (first ++ u), v, ?_⟩
    have hslash : '/' :: (first ++ u) ++ '/' :: (part ++ ['/']) ++ v =
        '/' :: (first ++ (u ++ '/' :: (part ++ ['/']) ++ v)) := by simp
    rw [hslash, huv]
    simp

/-- The checks an accepted path has passed. -/
theorem takes_checks {s : Subtask} {path : String} (h : takes s path = true) :
    startsWith "/" path = false ∧ path ≠ ".." ∧ startsWith "../" path = false ∧
      ¬ "/../".toList <:+: ("/" ++ path ++ "/").toList ∧ path ≠ "" := by
  simp only [takes, Bool.and_eq_true, decide_eq_true_eq, Bool.not_eq_true', Bool.or_eq_false_iff,
    decide_eq_false_iff_not] at h
  obtain ⟨⟨-, ⟨⟨habsolute, hup⟩, hback⟩, hinner⟩, hne⟩ := h
  exact ⟨habsolute, hup, hback, hinner, hne⟩

/-- The third reader names the collected path where the collector accepts it. -/
theorem safeRelPath_eq {s : Subtask} {raw : String} (h : takes s (relPath raw) = true) : safeRelPath raw = relPath raw := by
  obtain ⟨habsolute, hup, hback, hinner, hne⟩ := takes_checks h
  rw [safeRelPath, if_neg]
  rintro (h | h | h | h | h)
  · exact hne h
  · rw [habsolute] at h; cases h
  · exact hup h
  · rw [hback] at h; cases h
  · exact hinner h

/-- An accepted path is not empty, is not absolute and takes no step back. -/
theorem takes_path {s : Subtask} {path : String} (h : takes s path = true) :
    path ≠ "" ∧ path.toList.head? ≠ some '/' ∧ ".." ∉ pathParts path := by
  obtain ⟨habsolute, -, -, hup, hne⟩ := takes_checks h
  refine ⟨hne, fun hhead => ?_, fun hmem => hup ?_⟩
  · cases hpath : path.toList with
    | nil => rw [hpath] at hhead; cases hhead
    | cons c rest =>
      rw [hpath] at hhead
      obtain rfl : c = '/' := Option.some.inj hhead
      rw [startsWith, hpath] at habsolute
      simp [List.isPrefixOf] at habsolute
  · obtain ⟨⟨part, hpart, hname⟩, -⟩ := mem_pathParts.mp hmem
    obtain ⟨front, back, hsplit⟩ := List.append_of_mem hpart
    have hinfix := part_infix front back part
    rw [← hsplit, List.intercalate_splitOn] at hinfix
    have hpart' : part = ['.', '.'] := by
      rw [← String.toList_ofList (l := part), hname]
      rfl
    rw [hpart'] at hinfix
    simpa using hinfix

theorem dropDotSlash_front (text rest : List Char) : dropDotSlash text ≠ '.' :: '/' :: rest := by
  fun_induction dropDotSlash text with
  | case1 cs ih => exact ih
  | case2 cs h => exact fun hcs => h rest hcs

/-- Dots and slashes in front are dropped down to a text that begins with neither. -/
theorem dropWhile_dropDotSlash (text : List Char) :
    (dropDotSlash text).dropWhile (fun c => decide (c = '.' ∨ c = '/')) =
      text.dropWhile fun c => decide (c = '.' ∨ c = '/') := by
  fun_induction dropDotSlash text with
  | case1 cs ih => simpa using ih
  | case2 cs => rfl

theorem slashed_plain {raw : String} (h : '\\' ∉ (strip raw).toList) : slashed raw = (strip raw).toList := by
  rw [slashed, replaceChar, String.toList_ofList]
  conv_rhs => rw [← List.map_id (strip raw).toList]
  apply List.map_congr_left
  intro c hc
  have hne : c ≠ '\\' := fun he => h (he ▸ hc)
  rw [if_neg hne]
  rfl

theorem satisfiedPath_plain {raw : String} (h : '\\' ∉ (strip raw).toList) : satisfiedPath raw = lstripDots (relPath raw) := by
  rw [satisfiedPath, lstripDots, lstripDots, relPath, String.toList_ofList, slashed_plain h, dropWhile_dropDotSlash]

/-! ## Parts of a path with and without its front -/

theorem tail_splitOn_append (front text : List Char) {part : List Char} (h : part ∈ (text.splitOn '/').tail) :
    part ∈ ((front ++ text).splitOn '/').tail := by
  induction front with
  | nil => exact h
  | cons c front ih =>
    by_cases hc : c = '/'
    · rw [List.cons_append, List.splitOn_cons_eq_if_modifyHead, if_pos (by simpa using hc), List.tail_cons]
      exact List.mem_of_mem_tail ih
    · obtain ⟨first, later, hsplit, hrest⟩ := head_splitOn hc (front ++ text)
      rw [hrest, List.tail_cons] at ih
      rw [List.cons_append, hsplit, List.tail_cons]
      exact ih

/-- Where backslashes are read as slashes a path has more parts. -/
theorem splitOn_slashed (text : List Char) : (text.map fun c => if c = '\\' then '/' else c).splitOn '/' =
    (text.splitOn '/').flatMap fun part => (part.map fun c => if c = '\\' then '/' else c).splitOn '/' := by
  induction text with
  | nil => rfl
  | cons c rest ih =>
    by_cases hc : c = '/'
    · subst hc
      simp [List.splitOn_cons_eq_if_modifyHead, ih]
    · obtain ⟨first, later, hsplit, hrest⟩ := head_splitOn hc rest
      rw [hrest] at ih
      rw [hsplit, List.map_cons, List.flatMap_cons, List.map_cons]
      rw [List.flatMap_cons] at ih
      obtain ⟨g, gs, hg⟩ := List.exists_cons_of_ne_nil
        (List.splitOn_ne_nil '/' (first.map fun c => if c = '\\' then '/' else c))
      by_cases hb : c = '\\'
      · simp [hb, List.splitOn_cons_eq_if_modifyHead, ih]
      · simp [hb, hc, List.splitOn_cons_eq_if_modifyHead, ih, hg]

theorem mem_splitOn_slashed {text part : List Char} (h : part ∈ text.splitOn '/') (hpart : '\\' ∉ part) :
    part ∈ (text.map fun c => if c = '\\' then '/' else c).splitOn '/' := by
  rw [splitOn_slashed, List.mem_flatMap]
  refine ⟨part, h, ?_⟩
  have hid : part.map (fun c => if c = '\\' then '/' else c) = part := by
    conv_rhs => rw [← List.map_id part]
    apply List.map_congr_left
    intro c hc
    have hne : c ≠ '\\' := fun he => hpart (he ▸ hc)
    rw [if_neg hne]
    rfl
  have hslash : '/' ∉ part := fun hm => (ScopeOverlap.mem_splitOn h hm).2 rfl
  rw [hid, List.splitOn_eq_singleton hslash]
  exact List.mem_singleton_self part

/-- What `lstrip` leaves is empty or begins with another character. -/
theorem lstripDots_front (text : String) : lstripDots text = "" ∨
    ∃ d rest, (lstripDots text).toList = d :: rest ∧ d ≠ '.' ∧ d ≠ '/' := by
  cases hleft : (lstripDots text).toList with
  | nil => exact .inl (String.toList_inj.mp hleft)
  | cons d rest =>
    right
    rw [lstripDots, String.toList_ofList] at hleft
    have hnot := List.head?_dropWhile_not (fun c => decide (c = '.' ∨ c = '/')) text.toList
    rw [hleft] at hnot
    simp only [List.head?_cons, decide_eq_false_iff_not, not_or] at hnot
    exact ⟨d, rest, rfl, hnot⟩

/-- The first name of a path that begins with neither a dot nor a slash begins as the path does. -/
theorem pathParts_front {path : String} {d : Char} {rest : List Char} (h : path.toList = d :: rest) (hdot : d ≠ '.')
    (hslash : d ≠ '/') : ∃ first names, pathParts path = String.ofList (d :: first) :: names := by
  obtain ⟨first, later, hsplit, -⟩ := head_splitOn hslash rest
  have hne : String.ofList (d :: first) ≠ "" := by
    intro he
    have hlist := congrArg String.toList he
    rw [String.toList_ofList] at hlist
    cases hlist
  have hself : String.ofList (d :: first) ≠ "." := by
    intro he
    have hlist := congrArg String.toList he
    rw [String.toList_ofList] at hlist
    exact hdot (List.cons.inj hlist).1
  refine ⟨first, (later.map String.ofList).filter (fun part => decide (part ≠ "" ∧ part ≠ ".")), ?_⟩
  rw [pathParts, h, hsplit, List.map_cons, List.filter_cons_of_pos]
  exact decide_eq_true ⟨hne, hself⟩

/-- An accepted path takes no step back behind the dots and slashes in front either. -/
theorem no_up_satisfied {s : Subtask} {raw : String} (h : takes s (relPath raw) = true) :
    ".." ∉ pathParts (satisfiedPath raw) := by
  intro hmem
  obtain ⟨⟨part, hpart, hname⟩, -⟩ := mem_pathParts.mp hmem
  have hup : part = ['.', '.'] := by
    rw [← String.toList_ofList (l := part), hname]
    rfl
  have htail : part ∈ ((satisfiedPath raw).toList.splitOn '/').tail := by
    rcases lstripDots_front (strip raw) with hempty | ⟨d, rest, hleft, hdot, hslash⟩
    · rw [satisfiedPath, hempty] at hpart
      rw [hup] at hpart
      exact absurd (List.mem_singleton.mp hpart) (List.cons_ne_nil _ _)
    · obtain ⟨first, later, hsplit, -⟩ := head_splitOn hslash rest
      rw [satisfiedPath, hleft, hsplit] at hpart ⊢
      rcases List.mem_cons.mp hpart with hfirst | hlater
      · rw [hup] at hfirst
        exact absurd (List.cons.inj hfirst).1.symm hdot
      · exact hlater
  have hwhole : part ∈ (strip raw).toList.splitOn '/' := by
    rw [← List.takeWhile_append_dropWhile (p := fun c => decide (c = '.' ∨ c = '/')) (l := (strip raw).toList)]
    rw [satisfiedPath, lstripDots, String.toList_ofList] at htail
    exact List.mem_of_mem_tail (tail_splitOn_append _ _ htail)
  have hslashed := mem_splitOn_slashed hwhole (by rw [hup]; decide)
  apply (takes_path h).2.2
  rw [relPath, pathParts_dropDotSlash, mem_pathParts, String.toList_ofList, slashed, replaceChar, String.toList_ofList]
  refine ⟨⟨part, hslashed, hname⟩, ?_, ?_⟩ <;> decide

theorem leads_eq {path : String} (h : ".." ∉ pathParts path) (repo : Scope) : leads repo path = repo ++ pathParts path :=
  foldl_climb h repo

/-- What the collector names has no backslash. -/
theorem no_backslash_relPath {raw name : String} (h : name ∈ pathParts (relPath raw)) : '\\' ∉ name.toList := by
  obtain ⟨⟨part, hpart, rfl⟩, -⟩ := mem_pathParts.mp h
  rw [String.toList_ofList]
  intro hback
  have hmem := (ScopeOverlap.mem_splitOn hpart hback).1
  rw [relPath, String.toList_ofList] at hmem
  have hslashed := (dropDotSlash_suffix _).subset hmem
  rw [slashed, replaceChar, String.toList_ofList, List.mem_map] at hslashed
  obtain ⟨c, -, hc⟩ := hslashed
  split at hc
  · exact absurd hc (by decide)
  · rename_i hne
    exact hne hc

theorem exists_part {text : List Char} {c : Char} (h : c ∈ text) (hc : c ≠ '/') : ∃ part ∈ text.splitOn '/', c ∈ part := by
  induction text with
  | nil => cases h
  | cons d rest ih =>
    by_cases hd : d = '/'
    · rcases List.mem_cons.mp h with rfl | h
      · exact absurd hd hc
      · obtain ⟨part, hpart, hmem⟩ := ih h
        refine ⟨part, ?_, hmem⟩
        rw [List.splitOn_cons_eq_if_modifyHead, if_pos (by simpa using hd)]
        exact List.mem_cons_of_mem _ hpart
    · obtain ⟨first, later, hsplit, hrest⟩ := head_splitOn hd rest
      rw [hsplit]
      rcases List.mem_cons.mp h with rfl | h
      · exact ⟨c :: first, List.mem_cons_self, List.mem_cons_self⟩
      · obtain ⟨part, hpart, hmem⟩ := ih h
        rw [hrest] at hpart
        rcases List.mem_cons.mp hpart with rfl | hpart
        · exact ⟨d :: part, List.mem_cons_self, List.mem_cons_of_mem d hmem⟩
        · exact ⟨part, List.mem_cons_of_mem _ hpart, hmem⟩

/-- A name keeps a backslash of the path. -/
theorem backslash_satisfied {raw : String} (h : '\\' ∈ (strip raw).toList) :
    ∃ name ∈ pathParts (satisfiedPath raw), '\\' ∈ name.toList := by
  have hleft : '\\' ∈ (satisfiedPath raw).toList := by
    rw [← List.takeWhile_append_dropWhile (p := fun c => decide (c = '.' ∨ c = '/')) (l := (strip raw).toList)] at h
    rw [satisfiedPath, lstripDots, String.toList_ofList]
    rcases List.mem_append.mp h with h | h
    · have hfront := List.mem_takeWhile_imp h
      exact absurd hfront (by decide)
    · exact h
  obtain ⟨part, hpart, hmem⟩ := exists_part hleft (by decide)
  refine ⟨String.ofList part, mem_pathParts.mpr ⟨⟨part, hpart, rfl⟩, ?_, ?_⟩, by rwa [String.toList_ofList]⟩
  · intro he
    rw [← String.toList_ofList (l := part), he] at hmem
    cases hmem
  · intro he
    rw [← String.toList_ofList (l := part), he] at hmem
    exact absurd hmem (by decide)

/-- The first name of a collected path that begins with a dot begins with a dot. -/
theorem pathParts_dot {raw : String} (h : (relPath raw).toList.head? = some '.') {d : Char} (first : List Char)
    (names : Scope) (hnames : pathParts (relPath raw) = String.ofList (d :: first) :: names) : d = '.' := by
  cases hlist : (relPath raw).toList with
  | nil => rw [hlist] at h; cases h
  | cons c rest =>
    rw [hlist] at h
    obtain rfl : c = '.' := Option.some.inj h
    obtain ⟨part, later, hsplit, hrest⟩ := head_splitOn (by decide : '.' ≠ '/') rest
    rw [pathParts, hlist, hsplit, List.map_cons] at hnames
    have hne : String.ofList ('.' :: part) ≠ "" := by
      intro he
      have he' := congrArg String.toList he
      rw [String.toList_ofList] at he'
      cases he'
    cases part with
    | cons e part =>
      have hself : String.ofList ('.' :: e :: part) ≠ "." := by
        intro he
        have he' := congrArg String.toList he
        rw [String.toList_ofList] at he'
        cases (List.cons.inj he').2
      have hkeep : decide (String.ofList ('.' :: e :: part) ≠ "" ∧ String.ofList ('.' :: e :: part) ≠ ".") = true :=
        decide_eq_true ⟨hne, hself⟩
      rw [List.filter_cons, if_pos hkeep] at hnames
      have hhead := congrArg String.toList (List.cons.inj hnames).1
      rw [String.toList_ofList, String.toList_ofList] at hhead
      exact (List.cons.inj hhead).1.symm
    | nil =>
      exfalso
      cases rest with
      | nil =>
        rw [List.splitOn_nil] at hrest
        rw [← (List.cons.inj hrest).2] at hnames
        cases hnames
      | cons e rest =>
        by_cases hslash : e = '/'
        · rw [relPath, String.toList_ofList, hslash] at hlist
          exact dropDotSlash_front _ _ hlist
        · obtain ⟨more, _, hmore, -⟩ := head_splitOn hslash rest
          rw [hmore] at hrest
          cases (List.cons.inj hrest).1

/-- For an accepted path both readers mean one file exactly when it has no backslash and does not
begin with a dot. -/
theorem same_iff {s : Subtask} {raw : String} (h : takes s (relPath raw) = true) :
    (∀ repo, examined repo raw = some (leads repo (relPath raw))) ↔
      '\\' ∉ (strip raw).toList ∧ (relPath raw).toList.head? ≠ some '.' := by
  obtain ⟨hne, habsolute, hup⟩ := takes_path h
  have hupLeft := no_up_satisfied h
  constructor
  · intro hsame
    have hroot := hsame []
    have hleft : satisfiedPath raw ≠ "" := by
      intro hempty
      rw [examined, if_pos hempty] at hroot
      cases hroot
    have hnames : pathParts (satisfiedPath raw) = pathParts (relPath raw) := by
      rw [examined, if_neg hleft, leads_eq hupLeft, leads_eq hup, List.nil_append, List.nil_append] at hroot
      exact Option.some.inj hroot
    have hplain : '\\' ∉ (strip raw).toList := by
      intro hback
      obtain ⟨name, hname, hmem⟩ := backslash_satisfied hback
      rw [hnames] at hname
      exact no_backslash_relPath hname hmem
    refine ⟨hplain, fun hdot => ?_⟩
    rcases lstripDots_front (strip raw) with hempty | ⟨d, rest, hlist, hd, hslash⟩
    · exact hleft hempty
    · obtain ⟨first, names, hfront⟩ := pathParts_front hlist hd hslash
      rw [satisfiedPath, hfront] at hnames
      exact hd (pathParts_dot hdot first names hnames.symm)
  · rintro ⟨hplain, hdot⟩ repo
    have hpath : satisfiedPath raw = relPath raw := by
      rw [satisfiedPath_plain hplain, lstripDots]
      cases hlist : (relPath raw).toList with
      | nil => exact absurd (String.toList_inj.mp hlist) hne
      | cons c rest =>
        rw [hlist] at hdot habsolute
        have hc : ¬ (c = '.' ∨ c = '/') := by
          rintro (rfl | rfl)
          · exact hdot rfl
          · exact habsolute rfl
        rw [List.dropWhile_cons_of_neg (by simpa using hc), ← hlist, String.ofList_toList]
    rw [examined, hpath, if_neg hne]

/-! ## The condition -/

/-- The readers agree on the paths of a subtask exactly when no accepted path has a backslash or
begins, behind the `./` in front, with a dot, and no refused path, behind the dots and slashes
in front, steps back above where it began. -/
theorem readersAgree_iff (s : Subtask) : ReadersAgree s ↔ ∀ raw ∈ paths s,
    if takes s (relPath raw) = true then '\\' ∉ (strip raw).toList ∧ (relPath raw).toList.head? ≠ some '.'
    else stays 0 (pathParts (satisfiedPath raw)) = true := by
  constructor
  · intro h raw hraw
    split
    · rename_i htakes
      exact (same_iff htakes).mp (h.same raw hraw htakes)
    · rename_i htakes
      rw [Bool.not_eq_true] at htakes
      apply examined_inside_iff.mp
      intro repo place hplace
      exact h.inside (fun _ => true) repo _ (reads_all hraw hplace) htakes
  · intro h
    constructor
    · intro raw hraw htakes
      have hplain := h raw hraw
      rw [if_pos htakes] at hplain
      exact (same_iff htakes).mpr hplain
    · intro isFile repo read hread htakes
      obtain ⟨hraw, hplace⟩ := mem_reads hread
      have hstays := h read.1 hraw
      rw [if_neg (by rw [htakes]; exact Bool.false_ne_true)] at hstays
      exact examined_inside_iff.mpr hstays repo read.2 hplace

/-- A file of a directory that begins with a dot is looked for without the dot, and a path that
goes back twice behind one name leads out of the repository. -/
theorem hidden_file_missed :
    ¬ ReadersAgree (oneFile ".github/ci.yml") ∧ ¬ ReadersAgree (oneFile "src/../../secrets.env") := by
  constructor
  · intro h
    have hsame := h.same ".github/ci.yml" (by decide) (by decide) []
    exact absurd hsame (by decide)
  · intro h
    have hread := h.inside (fun _ => true) ["repo"] ("src/../../secrets.env", ["secrets.env"]) (by decide) (by decide)
    exact absurd hread (by decide)

end PathReaders
