import TandemAgents.Effects
import TandemAgents.GitStatus
import TandemAgents.ScopeOverlap

/-!
# Syncing a worker's worktree

What git reports of the worktree is read line by line and done to the target: a path with a D is
removed, every other one is copied if there is a file. A line is taken for a plain name, so a
quoted one is looked up with its quotes, and of a rename only the new path is seen.
-/
namespace WorktreeSync

open FileTree GitStatus PythonText Scheduler ScopeOverlap

set_option maxRecDepth 20000

/-! ## Reading the lines -/

/-- `_is_internal_worktree_artifact`. -/
def isInternalWorktreeArtifact (pathText : String) : Bool :=
  let normalized := stripBy (fun c => decide (c = '/')) (replaceChar '\\' '/' pathText)
  decide (normalized = ".aca") || ".aca/".toList.isPrefixOf normalized.toList

/-- What stands behind the first `->`. -/
def afterArrow : List Char → Option (List Char)
  | '-' :: '>' :: rest => some rest
  | _ :: cs => afterArrow cs
  | [] => none

/-- `_status_path`. -/
def statusPath (rawLine : List Char) : String :=
  let pathText := strip (String.ofList (rawLine.drop 3))
  match afterArrow pathText.toList with
  | some rest => strip (String.ofList rest)
  | none => pathText

structure Change where
  status : List Char
  path : String
  deriving DecidableEq, Repr

/-- The change of a line of `list_worktree_changes`. -/
def changeOf (rawLine : List Char) : Option Change :=
  if strip (String.ofList rawLine) = "" then none
  else if statusPath rawLine = "" then none
  else if isInternalWorktreeArtifact (statusPath rawLine) then none
  else some ⟨rawLine.take 2, statusPath rawLine⟩

/-- `list_worktree_changes`, of the lines git prints. -/
def listWorktreeChanges (lines : List (List Char)) : List Change := lines.filterMap changeOf

/-- `_safe_status_rel_path`, or none where it raises. -/
def safeStatusRelPath (path : String) : Option String :=
  let rel := dropDotSlash (replaceChar '\\' '/' (strip path)).toList
  if decide (rel = []) || "/".toList.isPrefixOf rel || decide (rel = "..".toList) || "../".toList.isPrefixOf rel ||
      decide ("/../".toList <:+: '/' :: rel ++ ['/']) then none
  else some (String.ofList rel)

/-! ## Doing them to the target -/

variable {Content : Type}

abbrev Files (Content : Type) : Type := Tree String Content

abbrev Act (Content α : Type) : Type := EStateM Unit (Files Content) α

/-- An operation on the target that may raise. -/
def attempt (command : Files Content → Option (Files Content)) : Act Content Unit := fun t =>
  match command t with
  | some u => .ok () u
  | none => .error () t

/-- The body of the loop: the path that is appended to `copied`, if any. -/
def applyChange (source : Files Content) (change : Change) : Act Content (Option String) :=
  match safeStatusRelPath change.path with
  | none => throw ()
  | some relPath =>
    if 'D' ∈ change.status then do
      attempt fun t => some (t.delete (pathParts relPath))
      return some relPath
    else match source.fileAt (pathParts relPath) with
      | none => return none
      | some content => do
        attempt fun t => t.copyTo (pathParts relPath) content
        return some relPath

def applyChanges (source : Files Content) : List Change → Act Content (List String)
  | [] => return []
  | change :: rest => do
    let named ← applyChange source change
    let more ← applyChanges source rest
    return named.toList ++ more

/-- `_ensure_run_worktree_destination`, whose answer is `allowed`. -/
def ensureRunWorktreeDestination (allowed : Bool) : Act Content Unit := if allowed then return () else throw ()

section
variable [DecidableEq Content] (allowed : Bool) (g : Checkout Content)

/-- `sync_worktree_changes`, acting on the run checkout. -/
def syncWorktreeChanges : Act Content (List String) := do
  ensureRunWorktreeDestination allowed
  applyChanges g.files (listWorktreeChanges (lines g))

/-- `_overlay_worktree_changes`, acting on the new worktree. -/
def overlayWorktreeChanges : Act Content (List String) := do
  ensureRunWorktreeDestination allowed
  applyChanges g.files (listWorktreeChanges (lines g))

end

/-! ## An exact sync -/

def Internal (p : Path) : Prop := p.head? = some ".aca"

instance (p : Path) : Decidable (Internal p) := inferInstanceAs (Decidable (p.head? = some ".aca"))

/-- The path counts, and the worktree differs from its head there. -/
def Changed (g : Checkout Content) (p : Path) : Prop := ¬ Internal p ∧ g.files.fileAt p ≠ g.head p

/-- The call returns; where the worktree differs from its head the target is the worktree, elsewhere
it is as it was, and the changed paths are named. -/
structure Exact (g : Checkout Content) (m : Act Content (List String)) (t : Files Content) (named : List String)
    (u : Files Content) : Prop where
  returns : m t = .ok named u
  changed : ∀ p, Changed g p → u.fileAt p = g.files.fileAt p
  unchanged : ∀ p, ¬ Changed g p → u.fileAt p = t.fileAt p
  names : ∀ x, x ∈ named ↔ ∃ p, Changed g p ∧ x = spelled p

def IsExact (g : Checkout Content) (m : Act Content (List String)) (t : Files Content) : Prop :=
  ∃ named u, Exact g m t named u

/-- The index has what the head has wherever the worktree does; a changed path that is not in the
index is not ignored, and a renamed one has a file again. In the target nothing is in the way of a
file, and no deletion takes a file along that is not changed. -/
structure Faithful (g : Checkout Content) (t : Files Content) : Prop where
  reverted : ∀ p, ¬ Internal p → g.files.fileAt p = g.head p →
    g.index p = g.head p ∨ isSource g p = true ∧ g.ignored p = true
  shown : ∀ p, Changed g p → g.index p = none → g.files.fileAt p ≠ none → g.ignored p = false
  restored : ∀ p, Changed g p → isSource g p = true → g.files.fileAt p ≠ none
  way : ∀ q, ¬ Internal q → Presence g q → ∀ r, Above r q → t.fileAt r ≠ none → ∃ d, Deletion g d ∧ d <+: r
  place : ∀ q, ¬ Internal q → Presence g q → t.isDir q = true → ∃ d, Deletion g d ∧ d <+: q
  below : ∀ d, ¬ Internal d → Deletion g d → ∀ p, d <+: p → t.fileAt p ≠ none → g.files.fileAt p ≠ g.head p

/-! ## Plain names -/

/-- The path is printed as it is spelled, and no arrow stands in it. -/
structure PlainPath (p : Path) : Prop where
  chars : ∀ c ∈ (spelled p).toList, isPlainChar c = true
  arrow : ¬ ['-', '>'] <:+: (spelled p).toList

/-- A name as git has it. -/
def Named (p : Path) : Prop := p ≠ [] ∧ ∀ name ∈ p, name ≠ "" ∧ name ≠ "." ∧ name ≠ ".." ∧ '/' ∉ name.toList

section
variable {p : Path}

theorem isSpace_of_plain {c : Char} (h : isPlainChar c = true) : isSpace c = false := by
  simp only [isPlainChar, Bool.and_eq_true, decide_eq_true_eq] at h
  simp only [isSpace, Bool.or_eq_false_iff, Bool.and_eq_false_iff, decide_eq_false_iff_not]
  omega

/-- The pieces of a spelled path are its names. -/
theorem splitOn_spelled (h : Named p) : (spelled p).toList.splitOn '/' = p.map String.toList := by
  rw [spelled, String.toList_intercalate]
  apply List.splitOn_intercalate
  · intro l hl
    obtain ⟨name, hname, rfl⟩ := List.mem_map.mp hl
    exact (h.2 name hname).2.2.2
  · simpa using h.1

theorem PlainPath.no_backslash (h : PlainPath p) : '\\' ∉ (spelled p).toList := by
  intro hc
  have hplain := h.chars _ hc
  simp [isPlainChar] at hplain

theorem mem_spelled {name : String} (hname : name ∈ p) {c : Char} (hc : c ∈ name.toList) : c ∈ (spelled p).toList := by
  rw [spelled, String.toList_intercalate]
  induction p with
  | nil => cases hname
  | cons first rest ih =>
    cases rest with
    | nil =>
      rw [List.mem_singleton] at hname
      simpa [List.intercalate, ← hname] using hc
    | cons second rest =>
      rw [List.map_cons, List.map_cons, List.intercalate_cons_cons, ← List.map_cons]
      rcases List.mem_cons.mp hname with rfl | hname
      · exact List.mem_append_left _ (List.mem_append_left _ hc)
      · exact List.mem_append_right _ (ih hname)

theorem pathParts_spelled (h : Named p) (hplain : PlainPath p) : pathParts (spelled p) = p := by
  apply pathParts_join
  intro name hname
  obtain ⟨hnil, hdot, -, hslash⟩ := h.2 name hname
  exact ⟨hnil, hdot, hslash, fun hc => hplain.no_backslash (mem_spelled hname hc)⟩

theorem spelled_ne_nil (h : Named p) : spelled p ≠ "" := by
  intro he
  have hsplit := splitOn_spelled h
  rw [he] at hsplit
  cases p with
  | nil => exact h.1 rfl
  | cons name names =>
    have hname : name.toList = [] := (List.cons.inj hsplit).1.symm
    exact (h.2 name List.mem_cons_self).1 (String.toList_eq_nil_iff.mp hname)

theorem strip_plain {text : String} (h : ∀ c ∈ text.toList, isPlainChar c = true) : strip text = text :=
  stripBy_eq_self fun c hc => isSpace_of_plain (h c hc)

theorem replaceChar_plain (hplain : PlainPath p) : replaceChar '\\' '/' (spelled p) = spelled p := by
  rw [replaceChar, ← String.toList_inj, String.toList_ofList]
  conv => rhs; rw [← List.map_id (spelled p).toList]
  apply List.map_congr_left
  intro c hc
  have hne : c ≠ '\\' := fun he => hplain.no_backslash (he ▸ hc)
  rw [if_neg hne, id]

/-- Behind a slash a spelled path begins with a name, and before one it ends in a name. -/
theorem head_spelled (h : Named p) : ∀ c ∈ (spelled p).toList.head?, c ≠ '/' := by
  rintro c hc rfl
  obtain ⟨rest, hrest⟩ := List.head?_eq_some_iff.mp hc
  have hsplit := splitOn_spelled h
  rw [hrest, ← List.nil_append ('/' :: rest), List.splitOn_append_cons_self] at hsplit
  have hmem : ([] : List Char) ∈ p.map String.toList := by
    rw [← hsplit]
    exact List.mem_append_left _ (by simp)
  obtain ⟨name, hname, hnil⟩ := List.mem_map.mp hmem
  exact (h.2 name hname).1 (String.toList_eq_nil_iff.mp hnil)

theorem last_spelled (h : Named p) : ∀ c ∈ (spelled p).toList.getLast?, c ≠ '/' := by
  rintro c hc rfl
  obtain ⟨front, hfront⟩ := List.getLast?_eq_some_iff.mp hc
  have hsplit := splitOn_spelled h
  rw [hfront, List.splitOn_append_cons_self] at hsplit
  have hmem : ([] : List Char) ∈ p.map String.toList := by
    rw [← hsplit]
    exact List.mem_append_right _ (by simp)
  obtain ⟨name, hname, hnil⟩ := List.mem_map.mp hmem
  exact (h.2 name hname).1 (String.toList_eq_nil_iff.mp hnil)

theorem dropDotSlash_spelled (h : Named p) : dropDotSlash (spelled p).toList = (spelled p).toList := by
  rw [dropDotSlash.eq_def]
  split
  · rename_i rest htext
    have hsplit := splitOn_spelled h
    rw [htext] at hsplit
    have hcut : ('.' :: '/' :: rest).splitOn '/' = ['.'] :: rest.splitOn '/' := List.splitOn_append_cons_self ['.'] rest
    have hmem : ['.'] ∈ p.map String.toList := by
      rw [← hsplit, hcut]
      exact List.mem_cons_self
    obtain ⟨name, hname, hdot⟩ := List.mem_map.mp hmem
    exact absurd (String.toList_inj.mp (hdot.trans (by decide : ['.'] = ".".toList))) (h.2 name hname).2.1
  · rfl

/-- No name is the parent directory. -/
theorem no_up (h : Named p) : ¬ "/../".toList <:+: '/' :: (spelled p).toList ++ ['/'] := by
  rintro ⟨front, back, htext⟩
  have hleft : (front ++ "/../".toList ++ back).splitOn '/' = front.splitOn '/' ++ (['.', '.'] :: back.splitOn '/') := by
    have hassoc : front ++ "/../".toList ++ back = front ++ '/' :: (['.', '.'] ++ '/' :: back) := by simp
    rw [hassoc, List.splitOn_append_cons_self, List.splitOn_append_cons_self]
    rfl
  have hright : ('/' :: (spelled p).toList ++ ['/']).splitOn '/' = [[]] ++ (p.map String.toList ++ [[]]) := by
    have hassoc : '/' :: (spelled p).toList ++ ['/'] = [] ++ '/' :: ((spelled p).toList ++ '/' :: []) := by simp
    rw [hassoc, List.splitOn_append_cons_self, List.splitOn_append_cons_self, splitOn_spelled h]
    rfl
  have hmem : ['.', '.'] ∈ [[]] ++ (p.map String.toList ++ [[]]) := by
    rw [← hright, ← htext, hleft]
    simp
  simp only [List.mem_append, List.mem_singleton, reduceCtorEq, or_false, false_or] at hmem
  obtain ⟨name, hname, hup⟩ := List.mem_map.mp hmem
  exact (h.2 name hname).2.2.1 (String.toList_inj.mp (hup.trans (by decide : ['.', '.'] = "..".toList)))

theorem safeStatusRelPath_plain (h : Named p) (hplain : PlainPath p) : safeStatusRelPath (spelled p) = some (spelled p) := by
  have hnil : (spelled p).toList ≠ [] := fun he => spelled_ne_nil h (String.toList_eq_nil_iff.mp he)
  have hslash : ¬ "/".toList <+: (spelled p).toList := by
    rintro ⟨rest, hrest⟩
    exact head_spelled h '/' (by rw [← hrest]; rfl) rfl
  have hup : (spelled p).toList ≠ "..".toList := by
    intro he
    apply no_up h
    rw [he]
    exact ⟨[], [], rfl⟩
  have hbelow : ¬ "../".toList <+: (spelled p).toList := by
    rintro ⟨rest, hrest⟩
    apply no_up h
    rw [← hrest]
    exact ⟨[], rest ++ ['/'], by simp⟩
  rw [safeStatusRelPath, strip_plain hplain.chars, replaceChar_plain hplain, dropDotSlash_spelled h, if_neg,
    String.ofList_toList]
  simp only [Bool.or_eq_true, decide_eq_true_eq, List.isPrefixOf_iff_prefix, not_or]
  exact ⟨⟨⟨⟨hnil, hslash⟩, hup⟩, hbelow⟩, no_up h⟩

/-- The artifacts of the agent are those below its directory. -/
theorem isInternal_spelled (h : Named p) (hplain : PlainPath p) :
    isInternalWorktreeArtifact (spelled p) = true ↔ Internal p := by
  have hstrip : stripBy (fun c => decide (c = '/')) (spelled p) = spelled p :=
    stripBy_eq_of_ends (fun c hc => decide_eq_false (head_spelled h c hc)) fun c hc => decide_eq_false (last_spelled h c hc)
  rw [isInternalWorktreeArtifact, replaceChar_plain hplain, hstrip]
  simp only [Bool.or_eq_true, decide_eq_true_eq, List.isPrefixOf_iff_prefix]
  have hsplit := splitOn_spelled h
  constructor
  · rintro (he | ⟨rest, hrest⟩)
    · have hp := pathParts_spelled h hplain
      rw [he] at hp
      rw [Internal, ← hp]
      decide +kernel
    · have hcut : (spelled p).toList = ".aca".toList ++ '/' :: rest := by
        rw [← hrest]
        rfl
      rw [hcut, List.splitOn_append_cons_self] at hsplit
      have hone : ".aca".toList.splitOn '/' = [".aca".toList] := List.splitOn_eq_singleton (by decide)
      rw [hone] at hsplit
      cases p with
      | nil => cases hsplit
      | cons first names =>
        have hfirst : ".aca".toList = first.toList := (List.cons.inj hsplit).1
        rw [Internal, List.head?_cons, String.toList_inj.mp hfirst.symm]
  · intro hi
    cases p with
    | nil => cases hi
    | cons first names =>
      rw [Internal, List.head?_cons, Option.some.injEq] at hi
      subst hi
      cases names with
      | nil =>
        left
        simp [spelled]
      | cons second names =>
        right
        rw [spelled, String.toList_intercalate, List.map_cons, List.map_cons, List.intercalate_cons_cons]
        exact ⟨_, (List.append_assoc ..).symm.trans rfl⟩

/-! ## Reading a plain line -/

theorem afterArrow_none {text : List Char} (h : ¬ ['-', '>'] <:+: text) : afterArrow text = none := by
  fun_induction afterArrow text with
  | case1 rest => exact absurd ⟨[], rest, rfl⟩ h
  | case2 c cs hnot ih => exact ih fun hin => h (hin.trans (List.suffix_cons c cs).isInfix)
  | case3 => rfl

/-- The first arrow of a rename is the one that git printed. -/
theorem afterArrow_rename {old new : List Char} (h : ¬ ['-', '>'] <:+: old) :
    afterArrow (old ++ (' ' :: '-' :: '>' :: new)) = some new := by
  induction old with
  | nil => rfl
  | cons c cs ih =>
    have hcs : ¬ ['-', '>'] <:+: cs := fun hin => h (hin.trans (List.suffix_cons c cs).isInfix)
    rw [List.cons_append, afterArrow.eq_def]
    split
    · rename_i rest hrest
      obtain ⟨hc, htail⟩ := List.cons.inj hrest
      cases cs with
      | nil => cases htail
      | cons d ds =>
        have hd : d = '>' := (List.cons.inj htail).1
        exact absurd ⟨[], ds, by rw [hc, hd]; rfl⟩ h
    · rename_i hcons
      obtain ⟨-, rfl⟩ := List.cons.inj hcons
      exact ih hcs
    · rename_i hnil
      cases hnil

/-- What is printed begins with no blank. -/
theorem head_quoted {name : String} (h : name ≠ "") : ∃ c cs, quoted name = c :: cs ∧ isSpace c = false := by
  rw [quoted]
  split
  · rename_i hplain
    cases htext : name.toList with
    | nil => exact absurd (String.toList_eq_nil_iff.mp htext) h
    | cons c cs =>
      rw [htext] at hplain
      exact ⟨c, cs, rfl, isSpace_of_plain (List.all_eq_true.mp hplain c List.mem_cons_self)⟩
  · exact ⟨'"', _, rfl, by decide⟩

theorem strip_blank (text : List Char) : strip (String.ofList (' ' :: text)) = strip (String.ofList text) := by
  rw [strip, strip, stripBy, stripBy, String.toList_ofList, String.toList_ofList, List.dropWhile_cons, if_pos (by decide)]

theorem statusPath_plain {status : List Char} (hlen : status.length = 3) (hplain : PlainPath p) :
    statusPath (status ++ quoted (spelled p)) = spelled p := by
  rw [statusPath, quoted_plain hplain.chars, ← hlen, List.drop_left, String.ofList_toList, strip_plain hplain.chars]
  simp only [afterArrow_none hplain.arrow]

theorem statusPath_rename {status : List Char} {old : Path} (hlen : status.length = 3) (h : Named p) (hplain : PlainPath p)
    (hold : Named old) (harrow : ¬ ['-', '>'] <:+: quoted (spelled old)) :
    statusPath (status ++ (quoted (spelled old) ++ " -> ".toList ++ quoted (spelled p))) = spelled p := by
  obtain ⟨c, cs, hc, hcblank⟩ := head_quoted (spelled_ne_nil hold)
  obtain ⟨front, d, hd⟩ : ∃ front d, (spelled p).toList = front ++ [d] := by
    rcases List.eq_nil_or_concat' (spelled p).toList with hnil | hlast
    · exact absurd (String.toList_eq_nil_iff.mp hnil) (spelled_ne_nil h)
    · exact hlast
  have hdplain : isPlainChar d = true := hplain.chars d (by rw [hd]; simp)
  have htext : quoted (spelled old) ++ " -> ".toList ++ (spelled p).toList =
      quoted (spelled old) ++ (' ' :: '-' :: '>' :: (' ' :: (spelled p).toList)) := by simp
  have hstrip : strip (String.ofList (quoted (spelled old) ++ " -> ".toList ++ (spelled p).toList)) =
      String.ofList (quoted (spelled old) ++ " -> ".toList ++ (spelled p).toList) := by
    apply stripBy_eq_of_ends
    · intro x hx
      rw [String.toList_ofList, hc, List.cons_append, List.cons_append, List.head?_cons, Option.mem_some_iff] at hx
      exact hx ▸ hcblank
    · intro x hx
      rw [String.toList_ofList, hd, ← List.append_assoc, List.getLast?_concat, Option.mem_some_iff] at hx
      exact hx ▸ isSpace_of_plain hdplain
  rw [statusPath, quoted_plain hplain.chars, ← hlen, List.drop_left, hstrip, htext, String.toList_ofList,
    afterArrow_rename harrow]
  simp only [strip_blank, String.ofList_toList, strip_plain hplain.chars]

/-- A line has a plain path behind its status. -/
theorem changeOf_plain {line status : List Char} (h : Named p) (hplain : PlainPath p) (hpath : statusPath line = spelled p)
    (hstatus : line.take 2 = status) : (Internal p → changeOf line = none) ∧
      (¬ Internal p → changeOf line = some ⟨status, spelled p⟩) := by
  have hblank : strip (String.ofList line) ≠ "" := by
    intro he
    have hall := of_stripBy_eq_empty he
    rw [String.toList_ofList] at hall
    have hrest : strip (String.ofList (line.drop 3)) = "" := by
      rw [strip, stripBy, String.toList_ofList, List.dropWhile_eq_nil_iff.mpr fun c hc => hall c (List.mem_of_mem_drop hc)]
      rfl
    have hnone : statusPath line = "" := by
      rw [statusPath, hrest]
      rfl
    exact spelled_ne_nil h (hpath.symm.trans hnone)
  constructor
  · intro hi
    rw [changeOf, if_neg hblank, hpath, if_neg (spelled_ne_nil h), if_pos ((isInternal_spelled h hplain).mpr hi)]
  · intro hi
    rw [changeOf, if_neg hblank, hpath, if_neg (spelled_ne_nil h),
      if_neg fun he => hi ((isInternal_spelled h hplain).mp he), hstatus]

end

/-! ## The edits of a checkout -/

section
variable [DecidableEq Content] (g : Checkout Content)

def trackedEdit (p : Path) : Option (Edit String Content) :=
  if Internal p then none
  else if indexStatus g p = 'D' ∨ worktreeStatus g p = 'D' then some (.delete p)
  else (g.files.fileAt p).map (.copy p)

def otherEdit (p : Path) : Option (Edit String Content) :=
  if Internal p then none else (g.files.fileAt p).map (.copy p)

/-- What the lines stand for, when they are read as they are meant. -/
def edits : List (Edit String Content) :=
  (g.tracked.filter (isListed g)).filterMap (trackedEdit g) ++ (g.others.filter fun p => !g.ignored p).filterMap (otherEdit g)

/-- The printed paths are plain, and the old path of a rename has no arrow. -/
structure Plain : Prop where
  tracked : ∀ p ∈ g.tracked, isListed g p = true →
    PlainPath p ∧ ∀ old, g.renamedFrom p = some old → ¬ ['-', '>'] <:+: quoted (spelled old)
  others : ∀ p ∈ g.others, g.ignored p = false → PlainPath p

end

section
variable {g : Checkout Content} {p : Path}

theorem named_tracked (h : p ∈ g.tracked) : Named p := g.named p (List.mem_append_left _ h)

theorem named_others (h : p ∈ g.others) : Named p := g.named p (List.mem_append_right _ h)

variable [DecidableEq Content]

theorem mem_edits_delete : .delete p ∈ edits g ↔ ¬ Internal p ∧ Deletion g p := by
  rw [edits, List.mem_append, List.mem_filterMap, List.mem_filterMap]
  constructor
  · rintro (⟨q, hq, hedit⟩ | ⟨q, -, hedit⟩)
    · rw [List.mem_filter] at hq
      have hs := (isListed_iff.mp hq.2).1
      rw [trackedEdit] at hedit
      split at hedit
      · cases hedit
      · split at hedit
        · cases hedit
          exact ⟨‹_›, (deletion_iff hs).mp ‹_›⟩
        · obtain ⟨c, -, hc⟩ := Option.map_eq_some_iff.mp hedit
          cases hc
    · rw [otherEdit] at hedit
      split at hedit
      · cases hedit
      · obtain ⟨c, -, hc⟩ := Option.map_eq_some_iff.mp hedit
        cases hc
  · rintro ⟨hi, hd⟩
    refine .inl ⟨p, List.mem_filter.mpr ⟨hd.mem, hd.isListed⟩, ?_⟩
    rw [trackedEdit, if_neg hi, if_pos ((deletion_iff (isListed_iff.mp hd.isListed).1).mpr hd)]

theorem mem_edits_copy {c : Content} : .copy p c ∈ edits g ↔ ¬ Internal p ∧ Presence g p ∧ g.files.fileAt p = some c := by
  rw [edits, List.mem_append, List.mem_filterMap, List.mem_filterMap]
  constructor
  · rintro (⟨q, hq, hedit⟩ | ⟨q, hq, hedit⟩)
    · rw [List.mem_filter] at hq
      have hs := (isListed_iff.mp hq.2).1
      rw [trackedEdit] at hedit
      split at hedit
      · cases hedit
      · split at hedit
        · cases hedit
        · rename_i hi hd
          obtain ⟨c', hf, hc⟩ := Option.map_eq_some_iff.mp hedit
          cases hc
          exact ⟨hi, (presence_of_listed hq.2 fun h => hd ((deletion_iff hs).mpr h)).2, hf⟩
    · rw [List.mem_filter, Bool.not_eq_true'] at hq
      rw [otherEdit] at hedit
      split at hedit
      · cases hedit
      · rename_i hi
        obtain ⟨c', hf, hc⟩ := Option.map_eq_some_iff.mp hedit
        cases hc
        have hother := (g.others_iff p).mp hq.1
        exact ⟨hi, ⟨hother.2, .inr ⟨hother.1, hq.2⟩⟩, hf⟩
  · rintro ⟨hi, hpresence, hf⟩
    by_cases hindex : g.index p = none
    · have hignored := hpresence.2.resolve_left fun h => h.1 hindex
      refine .inr ⟨p, List.mem_filter.mpr ⟨(g.others_iff p).mpr ⟨hindex, hpresence.1⟩, by simp [hignored.2]⟩, ?_⟩
      rw [otherEdit, if_neg hi, hf, Option.map_some]
    · obtain ⟨hl, hd⟩ := hpresence.isListed hindex
      refine .inl ⟨p, List.mem_filter.mpr ⟨(g.tracked_iff p).mpr (.inr hindex), hl⟩, ?_⟩
      rw [trackedEdit, if_neg hi, if_neg fun h => hd ((deletion_iff (isListed_iff.mp hl).1).mp h), hf, Option.map_some]

theorem trackedEdit_path {e : Edit String Content} (h : trackedEdit g p = some e) : e = .delete p ∨ ∃ c, e = .copy p c := by
  rw [trackedEdit] at h
  split at h
  · cases h
  · split at h
    · exact .inl (Option.some.inj h).symm
    · obtain ⟨c, -, rfl⟩ := Option.map_eq_some_iff.mp h
      exact .inr ⟨c, rfl⟩

/-- What is copied is a file of the worktree, and deletions come in the order of their paths. -/
theorem sound_edits (g : Checkout Content) : Sound (edits g) where
  ne_nil := by
    intro e he
    constructor
    · rintro rfl
      exact (named_tracked (mem_edits_delete.mp he).2.mem).1 rfl
    · rintro c rfl
      have hfile := (mem_edits_copy.mp he).2.2
      rw [Tree.fileAt, g.files.root] at hfile
      cases hfile
  order := by
    rw [edits, List.pairwise_append]
    refine ⟨?_, ?_, ?_⟩
    · rw [List.pairwise_filterMap]
      apply (g.sorted.filter _).imp
      intro p q hpq e he f hf x c d hx hd
      subst hx hd
      obtain rfl : q = d := by
        rcases trackedEdit_path hf with h | ⟨c', h⟩
        · exact (Edit.delete.inj h).symm
        · cases h
      obtain rfl : p = x := by
        rcases trackedEdit_path he with h | ⟨c', h⟩
        · cases h
        · exact (Edit.copy.inj h).1.symm
      exact hpq
    · rw [List.pairwise_filterMap]
      apply List.pairwise_of_forall
      intro p q e _ f hf x c d _ hd
      subst hd
      rw [otherEdit] at hf
      split at hf
      · cases hf
      · obtain ⟨c', -, hc⟩ := Option.map_eq_some_iff.mp hf
        cases hc
    · intro e _ f hf x c d _ hd
      subst hd
      obtain ⟨q, -, hq⟩ := List.mem_filterMap.mp hf
      rw [otherEdit] at hq
      split at hq
      · cases hq
      · obtain ⟨c', -, hc⟩ := Option.map_eq_some_iff.mp hq
        cases hc
  apart := by
    intro q c q' c' hq hq' hpre
    have hfile := (mem_edits_copy.mp hq).2.2
    have hfile' := (mem_edits_copy.mp hq').2.2
    by_cases he : q = q'
    · subst he
      exact ⟨rfl, Option.some.inj (hfile.symm.trans hfile')⟩
    · have hdir : g.files.isDir q = true := Tree.isDir_of_above ⟨hpre, he⟩ (by rw [Tree.fileAt_iff.mp hfile']; simp)
      rw [Tree.fileAt_of_isDir hdir] at hfile
      cases hfile

end

/-! ## The code does the edits -/

section
variable {p : Path}

def editPath : Edit String Content → Path
  | .delete p => p
  | .copy p _ => p

/-- The body of the loop does an edit and names its path. -/
structure Does (source : Files Content) (change : Change) (e : Edit String Content) : Prop where
  done : ∀ t u, e.apply t = some u → applyChange source change t = .ok (some (spelled (editPath e))) u
  failed : ∀ t, e.apply t = none → applyChange source change t = .error () t

theorem does_delete {source : Files Content} {status : List Char} (h : Named p) (hplain : PlainPath p) (hd : 'D' ∈ status) :
    Does source ⟨status, spelled p⟩ (.delete p) := by
  have hsafe := safeStatusRelPath_plain h hplain
  have hparts := pathParts_spelled h hplain
  constructor
  · intro t u hu
    unfold applyChange
    simp only [hsafe, if_pos hd, hparts]
    cases hu
    rfl
  · intro t hnone
    cases hnone

theorem does_copy {source : Files Content} {status : List Char} {c : Content} (h : Named p) (hplain : PlainPath p)
    (hd : 'D' ∉ status) (hfile : source.fileAt p = some c) : Does source ⟨status, spelled p⟩ (.copy p c) := by
  have hsafe := safeStatusRelPath_plain h hplain
  have hparts := pathParts_spelled h hplain
  constructor
  · intro t u hu
    unfold applyChange
    simp only [hsafe, if_neg hd, hparts, hfile]
    have hdone : attempt (fun t => t.copyTo p c) t = .ok () u := by
      rw [attempt, show t.copyTo p c = some u from hu]
    rw [Effects.run_bind_ok hdone]
    rfl
  · intro t hnone
    unfold applyChange
    simp only [hsafe, if_neg hd, hparts, hfile]
    have hfail : attempt (fun t => t.copyTo p c) t = .error () t := by
      rw [attempt, show t.copyTo p c = none from hnone]
    exact Effects.run_bind_error hfail

theorem run_cons (e : Edit String Content) (es : List (Edit String Content)) (t : Files Content) :
    run (e :: es) t = (e.apply t).bind (run es) := by
  rw [← List.singleton_append, run_append, run_single]

/-- The loop does the edits and names their paths, or raises where an edit cannot be done. -/
theorem applyChanges_run {source : Files Content} {changes : List Change} {es : List (Edit String Content)}
    (h : List.Forall₂ (Does source) changes es) (t : Files Content) :
    (∀ u, run es t = some u → applyChanges source changes t = .ok (es.map fun e => spelled (editPath e)) u) ∧
      (run es t = none → ∃ v, applyChanges source changes t = .error () v) := by
  induction h generalizing t with
  | nil => exact ⟨fun u hu => by cases hu; rfl, fun hnone => by cases hnone⟩
  | @cons change e changes es hdoes hrest ih =>
    rw [run_cons]
    cases hu : e.apply t with
    | none => exact ⟨nofun, fun _ => ⟨t, Effects.run_bind_error (hdoes.failed t hu)⟩⟩
    | some u =>
      have hbind : applyChanges source (change :: changes) t =
          (applyChanges source changes >>= fun more => pure ((some (spelled (editPath e))).toList ++ more)) u :=
        Effects.run_bind_ok (hdoes.done t u hu)
      rw [hbind, Option.bind_some]
      constructor
      · intro v hv
        rw [Effects.run_bind_ok ((ih u).1 v hv)]
        rfl
      · intro hnone
        obtain ⟨v, hv⟩ := (ih u).2 hnone
        exact ⟨v, Effects.run_bind_error hv⟩

theorem forall₂_filterMap {α β γ : Type} {R : β → γ → Prop} {f : α → Option β} {k : α → Option γ} {l : List α}
    (h : ∀ a ∈ l, (f a = none ∧ k a = none) ∨ ∃ b c, f a = some b ∧ k a = some c ∧ R b c) :
    List.Forall₂ R (l.filterMap f) (l.filterMap k) := by
  induction l with
  | nil => exact .nil
  | cons a l ih =>
    have hrest := ih fun b hb => h b (List.mem_cons_of_mem _ hb)
    rcases h a List.mem_cons_self with ⟨hf, hk⟩ | ⟨b, c, hf, hk, hR⟩
    · rw [List.filterMap_cons_none hf, List.filterMap_cons_none hk]
      exact hrest
    · rw [List.filterMap_cons_some hf, List.filterMap_cons_some hk]
      exact .cons hR hrest

variable [DecidableEq Content] {g : Checkout Content}

theorem does_tracked (hplain : Plain g) (hp : p ∈ g.tracked) (hl : isListed g p = true) :
    (changeOf (trackedLine g p) = none ∧ trackedEdit g p = none) ∨
      ∃ change e, changeOf (trackedLine g p) = some change ∧ trackedEdit g p = some e ∧ Does g.files change e := by
  have hnamed := named_tracked hp
  obtain ⟨hpath, hold⟩ := hplain.tracked p hp hl
  have hstatus : statusPath (trackedLine g p) = spelled p := by
    have hline : trackedLine g p = [indexStatus g p, worktreeStatus g p, ' '] ++ printed g p := rfl
    rw [hline, printed]
    cases hr : g.renamedFrom p with
    | none => exact statusPath_plain rfl hpath
    | some old =>
      have holdNamed := named_tracked ((g.tracked_iff old).mpr (.inl (g.renamed p old hr).2.2.1))
      exact statusPath_rename rfl hnamed hpath holdNamed (hold old hr)
  have hchange : (Internal p → changeOf (trackedLine g p) = none) ∧
      (¬ Internal p → changeOf (trackedLine g p) = some ⟨[indexStatus g p, worktreeStatus g p], spelled p⟩) :=
    changeOf_plain hnamed hpath hstatus rfl
  by_cases hi : Internal p
  · left
    refine ⟨hchange.1 hi, ?_⟩
    rw [trackedEdit, if_pos hi]
  · right
    by_cases hd : indexStatus g p = 'D' ∨ worktreeStatus g p = 'D'
    · refine ⟨_, .delete p, hchange.2 hi, by rw [trackedEdit, if_neg hi, if_pos hd], does_delete hnamed hpath ?_⟩
      simpa [eq_comm] using hd
    · have hs := (isListed_iff.mp hl).1
      have hpresence := (presence_of_listed hl fun h => hd ((deletion_iff hs).mpr h)).2
      obtain ⟨c, hc⟩ := Option.ne_none_iff_exists'.mp hpresence.1
      refine ⟨_, .copy p c, hchange.2 hi, by rw [trackedEdit, if_neg hi, if_neg hd, hc, Option.map_some],
        does_copy hnamed hpath ?_ hc⟩
      simpa [eq_comm] using hd

theorem does_other (hplain : Plain g) (hp : p ∈ g.others) (hignored : g.ignored p = false) :
    (changeOf (otherLine p) = none ∧ otherEdit g p = none) ∨
      ∃ change e, changeOf (otherLine p) = some change ∧ otherEdit g p = some e ∧ Does g.files change e := by
  have hnamed := named_others hp
  have hpath := hplain.others p hp hignored
  have hstatus : statusPath (otherLine p) = spelled p := statusPath_plain rfl hpath
  have hchange : (Internal p → changeOf (otherLine p) = none) ∧
      (¬ Internal p → changeOf (otherLine p) = some ⟨['?', '?'], spelled p⟩) := changeOf_plain hnamed hpath hstatus rfl
  obtain ⟨c, hc⟩ := Option.ne_none_iff_exists'.mp ((g.others_iff p).mp hp).2
  by_cases hi : Internal p
  · left
    refine ⟨hchange.1 hi, ?_⟩
    rw [otherEdit, if_pos hi]
  · right
    exact ⟨_, .copy p c, hchange.2 hi, by rw [otherEdit, if_neg hi, hc, Option.map_some], does_copy hnamed hpath (by decide) hc⟩

/-- Of plain names the lines are read as they are meant. -/
theorem changes_do (hplain : Plain g) : List.Forall₂ (Does g.files) (listWorktreeChanges (lines g)) (edits g) := by
  have htracked : List.Forall₂ (Does g.files) ((g.tracked.filter (isListed g)).filterMap fun p => changeOf (trackedLine g p))
      ((g.tracked.filter (isListed g)).filterMap (trackedEdit g)) := by
    apply forall₂_filterMap
    intro p hp
    rw [List.mem_filter] at hp
    exact does_tracked hplain hp.1 hp.2
  have hothers : List.Forall₂ (Does g.files) ((g.others.filter fun p => !g.ignored p).filterMap fun p => changeOf (otherLine p))
      ((g.others.filter fun p => !g.ignored p).filterMap (otherEdit g)) := by
    apply forall₂_filterMap
    intro p hp
    rw [List.mem_filter, Bool.not_eq_true'] at hp
    exact does_other hplain hp.1 hp.2
  have hchanges : listWorktreeChanges (lines g) =
      ((g.tracked.filter (isListed g)).filterMap fun p => changeOf (trackedLine g p)) ++
        ((g.others.filter fun p => !g.ignored p).filterMap fun p => changeOf (otherLine p)) := by
    simp only [listWorktreeChanges, lines, List.filterMap_append, List.filterMap_map, Function.comp_def]
  rw [hchanges, edits]
  exact List.rel_append htracked hothers

theorem sync_run (hplain : Plain g) (t : Files Content) :
    (∀ u, run (edits g) t = some u → syncWorktreeChanges true g t = .ok ((edits g).map fun e => spelled (editPath e)) u) ∧
      (run (edits g) t = none → ∃ v, syncWorktreeChanges true g t = .error () v) :=
  applyChanges_run (changes_do hplain) t

end

/-! ## When the sync is exact -/

section
variable {g : Checkout Content} {p : Path} {t : Files Content}

/-- The path is named. -/
def Mentioned (g : Checkout Content) (p : Path) : Prop := ¬ Internal p ∧ (Deletion g p ∨ Presence g p)

theorem named_of_differs (h : g.files.fileAt p ≠ g.head p) : Named p := by
  by_cases hhead : g.head p = none
  · rw [hhead] at h
    by_cases hindex : g.index p = none
    · exact named_others ((g.others_iff p).mpr ⟨hindex, h⟩)
    · exact named_tracked ((g.tracked_iff p).mpr (.inr hindex))
  · exact named_tracked ((g.tracked_iff p).mpr (.inl hhead))

theorem named_of_mentioned (h : Mentioned g p) : Named p := by
  rcases h.2 with hd | hpresence
  · exact named_tracked hd.mem
  · by_cases hindex : g.index p = none
    · exact named_others ((g.others_iff p).mpr ⟨hindex, hpresence.1⟩)
    · exact named_tracked ((g.tracked_iff p).mpr (.inr hindex))

/-! ### The condition -/

theorem Faithful.changed_of_mentioned (h : Faithful g t) (hm : Mentioned g p) : Changed g p := by
  refine ⟨hm.1, fun hsame => ?_⟩
  have hno : isSource g p = true → g.index p = none := fun hs => (index_of_isSource hs).2
  rcases hm.2 with (⟨hhead, hindex, hs⟩ | ⟨hindex, hfile⟩) | ⟨hfile, ⟨hindex, hdiff⟩ | ⟨hindex, hignored⟩⟩
  · rcases h.reverted p hm.1 hsame with he | ⟨hs', -⟩
    · exact hhead (he ▸ hindex)
    · rw [hs] at hs'
      cases hs'
  · rcases h.reverted p hm.1 hsame with he | ⟨hs, -⟩
    · exact hindex (he.trans (hsame.symm.trans hfile))
    · exact hindex (hno hs)
  · rcases h.reverted p hm.1 hsame with he | ⟨hs, -⟩
    · rcases hdiff with hdiff | hdiff
      · exact hdiff he
      · exact hdiff (hsame.trans he.symm)
    · exact hindex (hno hs)
  · rcases h.reverted p hm.1 hsame with he | ⟨-, hg⟩
    · exact hfile (hsame.trans (he.symm.trans hindex))
    · rw [hignored] at hg
      cases hg

theorem Faithful.presence (h : Faithful g t) (hp : Changed g p) (hfile : g.files.fileAt p ≠ none) : Presence g p := by
  by_cases hindex : g.index p = none
  · exact ⟨hfile, .inr ⟨hindex, h.shown p hp hindex hfile⟩⟩
  · refine ⟨hfile, .inl ⟨hindex, ?_⟩⟩
    by_cases he : g.index p = g.head p
    · exact .inr fun hf => hp.2 (hf.trans he)
    · exact .inl he

theorem Faithful.deletion (h : Faithful g t) (hp : Changed g p) (hfile : g.files.fileAt p = none) : Deletion g p := by
  by_cases hindex : g.index p = none
  · refine .inl ⟨fun hh => hp.2 (hfile.trans hh.symm), hindex, ?_⟩
    by_contra hs
    exact h.restored p hp (by simpa using hs) hfile
  · exact .inr ⟨hindex, hfile⟩

theorem Faithful.mentioned (h : Faithful g t) (p : Path) : Mentioned g p ↔ Changed g p := by
  refine ⟨h.changed_of_mentioned, fun hp => ⟨hp.1, ?_⟩⟩
  by_cases hfile : g.files.fileAt p = none
  · exact .inl (h.deletion hp hfile)
  · exact .inr (h.presence hp hfile)

variable [DecidableEq Content] {u : Files Content}

theorem mem_names {x : String} : x ∈ (edits g).map (fun e => spelled (editPath e)) ↔ ∃ p, Mentioned g p ∧ x = spelled p := by
  rw [List.mem_map]
  constructor
  · rintro ⟨e, he, rfl⟩
    cases e with
    | delete p =>
      have hd := mem_edits_delete.mp he
      exact ⟨p, ⟨hd.1, .inl hd.2⟩, rfl⟩
    | copy p c =>
      have hc := mem_edits_copy.mp he
      exact ⟨p, ⟨hc.1, .inr hc.2.1⟩, rfl⟩
  · rintro ⟨p, ⟨hi, hd | hpresence⟩, rfl⟩
    · exact ⟨.delete p, mem_edits_delete.mpr ⟨hi, hd⟩, rfl⟩
    · obtain ⟨c, hc⟩ := Option.ne_none_iff_exists'.mp hpresence.1
      exact ⟨.copy p c, mem_edits_copy.mpr ⟨hi, hpresence, hc⟩, rfl⟩

theorem spelled_inj {p q : Path} (hp : Named p) (hq : Named q) (h : spelled p = spelled q) : p = q := by
  have hsplit : p.map String.toList = q.map String.toList := by
    rw [← splitOn_spelled hp, ← splitOn_spelled hq, h]
  exact List.map_injective_iff.mpr (fun _ _ => String.toList_inj.mp) hsplit

/-- The names are right exactly if the paths are. -/
theorem names_iff : (∀ x, x ∈ (edits g).map (fun e => spelled (editPath e)) ↔ ∃ p, Changed g p ∧ x = spelled p) ↔
    ∀ p, Mentioned g p ↔ Changed g p := by
  constructor
  · intro h p
    constructor
    · intro hp
      obtain ⟨q, hq, hspelled⟩ := (h (spelled p)).mp (mem_names.mpr ⟨p, hp, rfl⟩)
      rwa [spelled_inj (named_of_mentioned hp) (named_of_differs hq.2) hspelled]
    · intro hp
      obtain ⟨q, hq, hspelled⟩ := mem_names.mp ((h (spelled p)).mpr ⟨p, hp, rfl⟩)
      rwa [spelled_inj (named_of_differs hp.2) (named_of_mentioned hq) hspelled]
  · intro h x
    rw [mem_names]
    exact ⟨fun ⟨p, hp, hx⟩ => ⟨p, (h p).mp hp, hx⟩, fun ⟨p, hp, hx⟩ => ⟨p, (h p).mpr hp, hx⟩⟩

theorem internal_below {d : Path} (hne : d ≠ []) (hdp : d <+: p) : Internal d ↔ Internal p := by
  obtain ⟨rest, rfl⟩ := hdp
  cases d with
  | nil => exact absurd rfl hne
  | cons name names => rfl

theorem deletes_edits : Deletes (edits g) p ↔ ∃ d, (¬ Internal d ∧ Deletion g d) ∧ d <+: p := by
  constructor
  · rintro ⟨d, hd, hdp⟩
    exact ⟨d, mem_edits_delete.mp hd, hdp⟩
  · rintro ⟨d, hd, hdp⟩
    exact ⟨d, mem_edits_delete.mpr hd, hdp⟩

/-! ### From the sync to the condition -/

/-- What an exact sync is, in the edits. -/
structure ExactEdits (g : Checkout Content) (t u : Files Content) : Prop where
  returns : run (edits g) t = some u
  changed : ∀ p, Changed g p → u.fileAt p = g.files.fileAt p
  unchanged : ∀ p, ¬ Changed g p → u.fileAt p = t.fileAt p
  mentioned : ∀ p, Mentioned g p ↔ Changed g p

theorem isExact_iff (hplain : Plain g) : IsExact g (syncWorktreeChanges true g) t ↔ ∃ u, ExactEdits g t u := by
  have hsync := sync_run hplain t
  constructor
  · rintro ⟨named, u, h⟩
    cases hrun : run (edits g) t with
    | none =>
      obtain ⟨v, hv⟩ := hsync.2 hrun
      have hreturns := h.returns
      rw [hv] at hreturns
      cases hreturns
    | some v =>
      have hreturns := h.returns
      rw [hsync.1 v hrun] at hreturns
      cases hreturns
      exact ⟨u, ⟨hrun, h.changed, h.unchanged, names_iff.mp h.names⟩⟩
  · rintro ⟨u, h⟩
    exact ⟨_, u, ⟨hsync.1 u h.returns, h.changed, h.unchanged, names_iff.mpr h.mentioned⟩⟩

theorem ExactEdits.clear (h : ExactEdits g t u) : Clear (edits g) t where
  way := fun q c hq r hr hfile => way_of_run (fun e he => ((sound_edits g).ne_nil e he).1) h.returns hq hr hfile
  place := by
    intro q c hq hdir
    by_contra hdel
    obtain ⟨hi, hpresence, hfile⟩ := mem_edits_copy.mp hq
    have hkept := (run_keeps (fun e he => ((sound_edits g).ne_nil e he).1) hdel h.returns).2 hdir
    have hchanged := h.changed q ((h.mentioned q).mp ⟨hi, .inr hpresence⟩)
    rw [Tree.fileAt_of_isDir hkept, hfile] at hchanged
    cases hchanged

theorem ExactEdits.result (h : ExactEdits g t u) : Result (edits g) t u := by
  obtain ⟨v, hv, hresult⟩ := run_result (sound_edits g) h.clear
  obtain rfl := Option.some.inj (hv.symm.trans h.returns)
  exact hresult

theorem ExactEdits.faithful (h : ExactEdits g t u) : Faithful g t where
  reverted := by
    intro p hi hsame
    by_contra hindex
    rw [not_or] at hindex
    have hsilent : ¬ Mentioned g p := fun hm => ((h.mentioned p).mp hm).2 hsame
    by_cases hs : isSource g p = true
    · obtain ⟨hhead, hnone⟩ := index_of_isSource hs
      have hignored : g.ignored p = false := Bool.not_eq_true _ ▸ fun hg => hindex.2 ⟨hs, hg⟩
      exact hsilent ⟨hi, .inr ⟨hsame ▸ hhead, .inr ⟨hnone, hignored⟩⟩⟩
    · have hl : isListed g p = true := isListed_iff.mpr ⟨Bool.not_eq_true _ ▸ hs, .inl hindex.1⟩
      by_cases hd : Deletion g p
      · exact hsilent ⟨hi, .inl hd⟩
      · exact hsilent ⟨hi, .inr (presence_of_listed hl hd).2⟩
  shown := by
    intro p hp hindex hfile
    by_contra hignored
    have hpresence : ¬ Presence g p := fun hpr => hignored (hpr.2.resolve_left fun ho => ho.1 hindex).2
    have hdel := ((h.mentioned p).mpr hp).2.resolve_right hpresence
    have hcopied : ∀ c, .copy p c ∉ edits g := fun c hc => hpresence (mem_edits_copy.mp hc).2.1
    have hgone := h.result.gone hcopied ⟨p, mem_edits_delete.mpr ⟨hp.1, hdel⟩, List.prefix_refl p⟩
    rw [h.changed p hp] at hgone
    exact hfile hgone
  restored := by
    intro p hp hs
    obtain ⟨-, hnone⟩ := index_of_isSource hs
    rcases ((h.mentioned p).mpr hp).2 with (⟨-, -, hno⟩ | ⟨hindex, -⟩) | hpresence
    · rw [hs] at hno
      cases hno
    · exact absurd hnone hindex
    · exact hpresence.1
  way := by
    intro q hi hpresence r hr hfile
    obtain ⟨c, hc⟩ := Option.ne_none_iff_exists'.mp hpresence.1
    obtain ⟨d, hd, hdr⟩ := deletes_edits.mp (h.clear.way q c (mem_edits_copy.mpr ⟨hi, hpresence, hc⟩) r hr hfile)
    exact ⟨d, hd.2, hdr⟩
  place := by
    intro q hi hpresence hdir
    obtain ⟨c, hc⟩ := Option.ne_none_iff_exists'.mp hpresence.1
    obtain ⟨d, hd, hdq⟩ := deletes_edits.mp (h.clear.place q c (mem_edits_copy.mpr ⟨hi, hpresence, hc⟩) hdir)
    exact ⟨d, hd.2, hdq⟩
  below := by
    intro d hi hd p hdp hfile hsame
    have hout : ¬ Changed g p := fun hp => hp.2 hsame
    have hcopied : ∀ c, .copy p c ∉ edits g := by
      intro c hc
      obtain ⟨hip, hpresence, -⟩ := mem_edits_copy.mp hc
      exact hout ((h.mentioned p).mp ⟨hip, .inr hpresence⟩)
    have hgone := h.result.gone hcopied ⟨d, mem_edits_delete.mpr ⟨hi, hd⟩, hdp⟩
    rw [h.unchanged p hout] at hgone
    exact hfile hgone

/-! ### From the condition to the sync -/

theorem Faithful.clear (h : Faithful g t) : Clear (edits g) t := by
  have hinternal : ∀ d q, Deletion g d → d <+: q → ¬ Internal q → ¬ Internal d := fun d q hd hdq hi hid =>
    hi ((internal_below (named_tracked hd.mem).1 hdq).mp hid)
  constructor
  · intro q c hq r hr hfile
    obtain ⟨hi, hpresence, -⟩ := mem_edits_copy.mp hq
    obtain ⟨d, hd, hdr⟩ := h.way q hi hpresence r hr hfile
    exact deletes_edits.mpr ⟨d, ⟨hinternal d q hd (hdr.trans hr.1) hi, hd⟩, hdr⟩
  · intro q c hq hdir
    obtain ⟨hi, hpresence, -⟩ := mem_edits_copy.mp hq
    obtain ⟨d, hd, hdq⟩ := h.place q hi hpresence hdir
    exact deletes_edits.mpr ⟨d, ⟨hinternal d q hd hdq hi, hd⟩, hdq⟩

/-- No file of the target that a deletion takes along is an unchanged one. -/
theorem Faithful.not_deletes (h : Faithful g t) (hp : ¬ Changed g p) (hfile : t.fileAt p ≠ none) : ¬ Deletes (edits g) p := by
  intro hdel
  obtain ⟨d, ⟨hi, hd⟩, hdp⟩ := deletes_edits.mp hdel
  have hip : ¬ Internal p := fun hip => hi ((internal_below (named_tracked hd.mem).1 hdp).mpr hip)
  exact hp ⟨hip, h.below d hi hd p hdp hfile⟩

theorem Faithful.exactEdits (h : Faithful g t) : ∃ u, ExactEdits g t u := by
  obtain ⟨u, hu, hresult⟩ := run_result (sound_edits g) h.clear
  have hcopied : ∀ p c, .copy p c ∈ edits g → Changed g p := by
    intro p c hc
    obtain ⟨hi, hpresence, -⟩ := mem_edits_copy.mp hc
    exact (h.mentioned p).mp ⟨hi, .inr hpresence⟩
  refine ⟨u, hu, fun p hp => ?_, fun p hp => ?_, h.mentioned⟩
  · cases hfile : g.files.fileAt p with
    | some c =>
      have hpresence := h.presence hp (by rw [hfile]; simp)
      exact Tree.fileAt_iff.mpr (hresult.copied p c (mem_edits_copy.mpr ⟨hp.1, hpresence, hfile⟩))
    | none =>
      refine hresult.gone (fun c hc => ?_) ⟨p, mem_edits_delete.mpr ⟨hp.1, h.deletion hp hfile⟩, List.prefix_refl p⟩
      rw [(mem_edits_copy.mp hc).2.2] at hfile
      cases hfile
  · have hfresh : ∀ c, .copy p c ∉ edits g := fun c hc => hp (hcopied p c hc)
    by_cases hparent : Parent (edits g) p
    · have hnone : u.fileAt p = none := Tree.fileAt_of_isDir (Tree.isDir_iff.mpr (hresult.parent p hparent))
      rw [hnone]
      by_contra hfile
      obtain ⟨q, c, hq, hpq⟩ := hparent
      exact h.not_deletes hp (Ne.symm hfile) (h.clear.way q c hq p hpq (Ne.symm hfile))
    · rcases hresult.other p hfresh hparent with ⟨hdel, hnone⟩ | ⟨-, hsame⟩
      · have hgone : u.fileAt p = none := by rw [Tree.fileAt, hnone]
        rw [hgone]
        by_contra hfile
        exact h.not_deletes hp (Ne.symm hfile) hdel
      · rw [Tree.fileAt, Tree.fileAt, hsame]

/-- Of plain names, a sync and an overlay are exact under the same condition. -/
theorem sync_exact_iff (hplain : Plain g) : (IsExact g (syncWorktreeChanges true g) t ↔ Faithful g t) ∧
    (IsExact g (overlayWorktreeChanges true g) t ↔ Faithful g t) := by
  have hsync : IsExact g (syncWorktreeChanges true g) t ↔ Faithful g t := by
    rw [isExact_iff hplain]
    exact ⟨fun ⟨_, h⟩ => h.faithful, fun h => h.exactEdits⟩
  exact ⟨hsync, hsync⟩

end

/-! ## Checkouts of one directory -/

/-- Files in the root only. -/
def flat (files : String → Option Nat) : Files Nat where
  node := fun p => match p with
    | [] => some .dir
    | [name] => (files name).map .file
    | _ => none
  root := rfl
  closed := by
    intro p n hp
    cases p with
    | nil => rfl
    | cons name names => exact absurd (by cases names <;> rfl) hp

theorem fileAt_flat (files : String → Option Nat) (p : Path) :
    (flat files).fileAt p = match p with
      | [name] => files name
      | _ => none := by
  match p with
  | [] => rfl
  | [name] =>
    simp only [Tree.fileAt, flat]
    cases files name <;> rfl
  | _ :: _ :: _ => rfl

theorem chars_plain {text : String} (h : text.toList.all isPlainChar = true) : ∀ c ∈ text.toList, isPlainChar c = true :=
  List.all_eq_true.mp h

/-- One file was changed in the worktree. -/
def editedCheckout : Checkout Nat where
  head := fun p => if p = ["a"] then some 1 else none
  index := fun p => if p = ["a"] then some 1 else none
  files := flat fun name => if name = "a" then some 2 else none
  ignored := fun _ => false
  renamedFrom := fun _ => none
  tracked := [["a"]]
  others := []
  tracked_iff := by
    intro p
    by_cases hp : p = ["a"] <;> simp [hp]
  others_iff := by
    intro p
    rw [fileAt_flat]
    by_cases hp : p = ["a"]
    · simp [hp]
    · simp only [List.not_mem_nil, hp, if_false, true_and, ne_eq, false_iff, not_not]
      split
      · rename_i name
        have hname : name ≠ "a" := fun he => hp (by rw [he])
        rw [if_neg hname]
      · rfl
  sorted := List.pairwise_singleton _ _
  named := by decide
  renamed := nofun

/-- The file was renamed, and git reports it so. -/
def renamedCheckout : Checkout Nat where
  head := fun p => if p = ["old"] then some 1 else none
  index := fun p => if p = ["new"] then some 1 else none
  files := flat fun name => if name = "new" then some 1 else none
  ignored := fun _ => false
  renamedFrom := fun p => if p = ["new"] then some ["old"] else none
  tracked := [["new"], ["old"]]
  others := []
  tracked_iff := by
    intro p
    by_cases hnew : p = ["new"] <;> by_cases hold : p = ["old"] <;> simp [hnew, hold]
  others_iff := by
    intro p
    rw [fileAt_flat]
    by_cases hp : p = ["new"]
    · simp [hp]
    · simp only [List.not_mem_nil, hp, if_false, true_and, ne_eq, false_iff, not_not]
      split
      · rename_i name
        have hname : name ≠ "new" := fun he => hp (by rw [he])
        rw [if_neg hname]
      · rfl
  sorted := by decide
  named := by decide
  renamed := by
    intro p old h
    by_cases hp : p = ["new"]
    · simp only [hp, if_true, Option.some.injEq] at h
      simp [hp, ← h]
    · simp [hp] at h

theorem edited_plain : Plain editedCheckout := by
  constructor
  · intro p hp _
    obtain rfl := List.mem_singleton.mp hp
    exact ⟨⟨chars_plain (by decide +kernel), by decide +kernel⟩, nofun⟩
  · intro p hp
    cases hp

theorem edited_faithful : Faithful editedCheckout (flat fun _ => none) := by
  have hsource : ∀ p, isSource editedCheckout p = false := fun _ => rfl
  have hindex : ∀ p, editedCheckout.index p = editedCheckout.head p := fun _ => rfl
  have hempty : ∀ p, (flat fun _ => none).fileAt p = none := by
    intro p
    rw [fileAt_flat]
    split <;> rfl
  have hdeletion : ∀ q, ¬ Deletion editedCheckout q := by
    rintro q (⟨hhead, hnone, -⟩ | ⟨hsome, hfile⟩)
    · exact hhead hnone
    · by_cases hq : q = ["a"]
      · subst hq
        cases hfile
      · simp [editedCheckout, hq] at hsome
  constructor
  · exact fun p _ _ => .inl (hindex p)
  · exact fun _ _ _ _ => rfl
  · intro p _ hs
    rw [hsource] at hs
    cases hs
  · exact fun q _ _ r _ hfile => absurd (hempty r) hfile
  · intro q _ hpresence hdir
    have hq : q = [] := by
      match q with
      | [] => rfl
      | [_] => cases hdir
      | _ :: _ :: _ => cases hdir
    subst hq
    exact absurd rfl hpresence.1
  · exact fun d _ hd => absurd hd (hdeletion d)

/-- An edited file is synced. -/
theorem edited_exact : IsExact editedCheckout (syncWorktreeChanges true editedCheckout) (flat fun _ => none) :=
  (sync_exact_iff edited_plain).1.mpr edited_faithful

theorem renamed_plain : Plain renamedCheckout := by
  constructor
  · intro p hp hl
    have hp' : p = ["new"] := by
      rcases List.mem_cons.mp hp with rfl | hp
      · rfl
      · obtain rfl := List.mem_singleton.mp hp
        cases hl
    subst hp'
    refine ⟨⟨chars_plain (by decide +kernel), by decide +kernel⟩, fun old hold => ?_⟩
    cases hold
    decide +kernel
  · intro p hp
    cases hp

/-- Of a rename the old path stays in the target. -/
theorem renamed_stays : ¬ IsExact renamedCheckout (syncWorktreeChanges true renamedCheckout)
    (flat fun name => if name = "old" then some 1 else none) := by
  intro h
  obtain ⟨u, hu⟩ := (isExact_iff renamed_plain).mp h
  exact hu.faithful.restored ["old"] ⟨by decide, by decide⟩ rfl rfl

/-- A new file with a blank in its name. -/
def blankCheckout : Checkout Nat where
  head := fun _ => none
  index := fun _ => none
  files := flat fun name => if name = "a b" then some 1 else none
  ignored := fun _ => false
  renamedFrom := fun _ => none
  tracked := []
  others := [["a b"]]
  tracked_iff := by simp
  others_iff := by
    intro p
    rw [fileAt_flat]
    by_cases hp : p = ["a b"]
    · simp [hp]
    · simp only [List.mem_singleton, hp, true_and, ne_eq, false_iff, not_not]
      split
      · rename_i name
        have hname : name ≠ "a b" := fun he => hp (by rw [he])
        rw [if_neg hname]
      · rfl
  sorted := .nil
  named := by decide
  renamed := nofun

/-- The quoted name is looked up with its quotes, and the file is not synced. -/
theorem blank_missed (t : Files Nat) : ¬ IsExact blankCheckout (syncWorktreeChanges true blankCheckout) t := by
  rintro ⟨named, u, h⟩
  have hchanges : listWorktreeChanges (lines blankCheckout) = [⟨"??".toList, "\"a b\""⟩] := by decide +kernel
  have hsafe : safeStatusRelPath "\"a b\"" = some "\"a b\"" := by decide +kernel
  have hmissing : blankCheckout.files.fileAt (pathParts "\"a b\"") = none := by decide +kernel
  have hone : applyChange blankCheckout.files ⟨"??".toList, "\"a b\""⟩ t = .ok none t := by
    unfold applyChange
    simp only [hsafe, if_neg (show 'D' ∉ "??".toList by decide), hmissing]
    rfl
  have hrun : syncWorktreeChanges true blankCheckout t = .ok [] t := by
    have hall : applyChanges blankCheckout.files (listWorktreeChanges (lines blankCheckout)) t = .ok [] t := by
      rw [hchanges]
      exact Effects.run_bind_ok hone
    exact hall
  have hreturns := h.returns
  rw [hrun] at hreturns
  obtain ⟨hnamed, -⟩ := EStateM.Result.ok.inj hreturns
  have hname := (h.names "a b").mpr ⟨["a b"], ⟨by decide, by decide⟩, by decide⟩
  rw [← hnamed] at hname
  cases hname

end WorktreeSync
