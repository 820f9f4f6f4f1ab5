import Mathlib.Data.List.Basic
import TandemAgents.FileTree

/-!
# The short status of a git checkout

`git status --porcelain --untracked-files=all` prints a line for each path where the head, the
index and the working tree differ, and for each untracked file that is not ignored. A rename has
one line with two names, and a name with a blank or an unusual character is quoted. Names are
bytes, given as the characters of these codes.
-/
namespace GitStatus

open FileTree

set_option maxRecDepth 20000

abbrev Path := List String

/-! ## Printing a path -/

/-- The path as it is spelled in the repository. -/
def spelled (p : Path) : String := String.intercalate "/" p

def octal (n : Nat) : List Char :=
  ['\\', Nat.digitChar (n / 64 % 8), Nat.digitChar (n / 8 % 8), Nat.digitChar (n % 8)]

/-- A character that is printed as it is, also in a name that is not quoted; the blank is not among them. -/
def isPlainChar (c : Char) : Bool := decide (32 < c.toNat) && decide (c.toNat < 127) && decide (c ≠ '"') && decide (c ≠ '\\')

def escapeChar (c : Char) : List Char :=
  if isPlainChar c || decide (c = ' ') then [c]
  else match c.toNat with
    | 7 => ['\\', 'a']
    | 8 => ['\\', 'b']
    | 9 => ['\\', 't']
    | 10 => ['\\', 'n']
    | 11 => ['\\', 'v']
    | 12 => ['\\', 'f']
    | 13 => ['\\', 'r']
    | 34 => ['\\', '"']
    | 92 => ['\\', '\\']
    | n => octal n

def quoted (name : String) : List Char :=
  if name.toList.all isPlainChar then name.toList else '"' :: name.toList.flatMap escapeChar ++ ['"']

theorem quoted_plain {name : String} (h : ∀ c ∈ name.toList, isPlainChar c = true) : quoted name = name.toList :=
  if_pos (List.all_eq_true.mpr h)

/-! ## The checkout -/

/-- Head, index and working tree; `renamedFrom` gives the old path of a new one that git takes
for a rename, `tracked` and `others` the paths in the order in which they are printed. -/
structure Checkout (Content : Type) where
  head : Path → Option Content
  index : Path → Option Content
  files : Tree String Content
  ignored : Path → Bool
  renamedFrom : Path → Option Path
  tracked : List Path
  others : List Path
  tracked_iff : ∀ p, p ∈ tracked ↔ head p ≠ none ∨ index p ≠ none
  others_iff : ∀ p, p ∈ others ↔ index p = none ∧ files.fileAt p ≠ none
  sorted : tracked.Pairwise fun p q => ¬ q <+: p
  named : ∀ p ∈ tracked ++ others, p ≠ [] ∧ ∀ name ∈ p, name ≠ "" ∧ name ≠ "." ∧ name ≠ ".." ∧ '/' ∉ name.toList
  renamed : ∀ p old, renamedFrom p = some old → head p = none ∧ index p ≠ none ∧ head old ≠ none ∧ index old = none

variable {Content : Type} (g : Checkout Content)

/-- The path was renamed away. -/
def isSource (p : Path) : Bool := g.tracked.any fun q => decide (g.renamedFrom q = some p)

/-- A line with a deletion. -/
def Deletion (p : Path) : Prop :=
  g.head p ≠ none ∧ g.index p = none ∧ isSource g p = false ∨ g.index p ≠ none ∧ g.files.fileAt p = none

/-- A line without one, of a path with a file. -/
def Presence (p : Path) : Prop :=
  g.files.fileAt p ≠ none ∧
    (g.index p ≠ none ∧ (g.index p ≠ g.head p ∨ g.files.fileAt p ≠ g.index p) ∨ g.index p = none ∧ g.ignored p = false)

def printed (p : Path) : List Char :=
  match g.renamedFrom p with
  | some old => quoted (spelled old) ++ " -> ".toList ++ quoted (spelled p)
  | none => quoted (spelled p)

section
variable {g} {p : Path}

theorem index_of_isSource (h : isSource g p = true) : g.head p ≠ none ∧ g.index p = none := by
  obtain ⟨q, -, hq⟩ := List.any_eq_true.mp h
  have hold := g.renamed q p (of_decide_eq_true hq)
  exact ⟨hold.2.2.1, hold.2.2.2⟩

theorem Deletion.mem (h : Deletion g p) : p ∈ g.tracked := by
  rcases h with ⟨hh, -, -⟩ | ⟨hi, -⟩
  · exact (g.tracked_iff p).mpr (.inl hh)
  · exact (g.tracked_iff p).mpr (.inr hi)

end

/-! ## The lines -/

section
variable [DecidableEq Content]

/-- How the index differs from the head. -/
def indexStatus (p : Path) : Char :=
  if (g.renamedFrom p).isSome then 'R'
  else match g.head p, g.index p with
    | none, some _ => 'A'
    | some _, none => 'D'
    | some a, some b => if a = b then ' ' else 'M'
    | none, none => ' '

/-- How the working tree differs from the index. -/
def worktreeStatus (p : Path) : Char :=
  match g.index p, g.files.fileAt p with
  | some _, none => 'D'
  | some a, some b => if a = b then ' ' else 'M'
  | none, _ => ' '

/-- A tracked path has a line if its status is not blank; a path renamed away has none. -/
def isListed (p : Path) : Bool :=
  !isSource g p && (decide (indexStatus g p ≠ ' ') || decide (worktreeStatus g p ≠ ' '))

def trackedLine (p : Path) : List Char := indexStatus g p :: worktreeStatus g p :: ' ' :: printed g p

def otherLine (p : Path) : List Char := "?? ".toList ++ quoted (spelled p)

def lines : List (List Char) :=
  (g.tracked.filter (isListed g)).map (trackedLine g) ++ (g.others.filter fun p => !g.ignored p).map otherLine

end

/-! ## What a line says -/

section
variable [DecidableEq Content] {g} {p : Path}

theorem indexStatus_blank : indexStatus g p = ' ' ↔ g.index p = g.head p := by
  rw [indexStatus]
  cases hr : g.renamedFrom p with
  | some old =>
    have hnew := g.renamed p old hr
    simp [hnew.1, hnew.2.1]
  | none =>
    cases hh : g.head p <;> cases hi : g.index p <;> simp
    rename_i a b
    by_cases hab : a = b
    · simp [hab]
    · simp [hab, Ne.symm hab]

theorem worktreeStatus_blank : worktreeStatus g p = ' ' ↔ g.index p = none ∨ g.files.fileAt p = g.index p := by
  rw [worktreeStatus]
  cases hi : g.index p <;> cases hf : g.files.fileAt p <;> simp
  rename_i a b
  by_cases hab : a = b
  · simp [hab]
  · simp [hab, Ne.symm hab]

theorem isListed_iff : isListed g p = true ↔
    isSource g p = false ∧ (g.index p ≠ g.head p ∨ g.index p ≠ none ∧ g.files.fileAt p ≠ g.index p) := by
  simp only [isListed, Bool.and_eq_true, Bool.not_eq_true', Bool.or_eq_true, decide_eq_true_eq, ne_eq, indexStatus_blank,
    worktreeStatus_blank, not_or]

/-- The line of a path has a D exactly for a deletion. -/
theorem deletion_iff (hs : isSource g p = false) : indexStatus g p = 'D' ∨ worktreeStatus g p = 'D' ↔ Deletion g p := by
  have hindex : indexStatus g p = 'D' ↔ g.head p ≠ none ∧ g.index p = none := by
    rw [indexStatus]
    cases hr : g.renamedFrom p with
    | some old =>
      have hnew := g.renamed p old hr
      simp [hnew.1]
    | none =>
      cases hh : g.head p <;> cases hi : g.index p <;> simp
      rename_i a b
      by_cases hab : a = b <;> simp [hab]
  have hworktree : worktreeStatus g p = 'D' ↔ g.index p ≠ none ∧ g.files.fileAt p = none := by
    rw [worktreeStatus]
    cases hi : g.index p <;> cases hf : g.files.fileAt p <;> simp
    rename_i a b
    by_cases hab : a = b <;> simp [hab]
  rw [hindex, hworktree, Deletion, hs]
  simp

theorem Deletion.isListed (h : Deletion g p) : isListed g p = true := by
  apply isListed_iff.mpr
  rcases h with ⟨hh, hi, hs⟩ | ⟨hi, hf⟩
  · exact ⟨hs, .inl fun he => hh (he ▸ hi)⟩
  · refine ⟨?_, .inr ⟨hi, fun he => hi (he ▸ hf)⟩⟩
    by_contra hs
    exact hi (index_of_isSource (by simpa using hs)).2

/-- A listed path is deleted or has a file. -/
theorem presence_of_listed (hl : isListed g p = true) (hd : ¬ Deletion g p) : g.index p ≠ none ∧ Presence g p := by
  obtain ⟨hs, hdiff⟩ := isListed_iff.mp hl
  have hi : g.index p ≠ none := by
    intro hi
    rcases hdiff with hdiff | hdiff
    · exact hd (.inl ⟨fun hh => hdiff (hi.trans hh.symm), hi, hs⟩)
    · exact hdiff.1 hi
  refine ⟨hi, fun hf => hd (.inr ⟨hi, hf⟩), .inl ⟨hi, ?_⟩⟩
  exact hdiff.imp id And.right

theorem Presence.isListed (h : Presence g p) (hi : g.index p ≠ none) : isListed g p = true ∧ ¬ Deletion g p := by
  have hdiff := h.2.resolve_right fun ho => hi ho.1
  refine ⟨isListed_iff.mpr ⟨?_, hdiff.2.imp id fun hf => ⟨hi, hf⟩⟩, ?_⟩
  · by_contra hs
    exact hi (index_of_isSource (by simpa using hs)).2
  · rintro (⟨-, hnone, -⟩ | ⟨-, hnone⟩)
    · exact hi hnone
    · exact h.1 hnone

end

end GitStatus
