import Mathlib.Logic.Encodable.Basic
import Mathlib.Data.List.Basic

/-!
# Resetting a blocked checkout

Before a blocked or rejected attempt gives the shared checkout back, its changes are written
to an artifact as a diff against `HEAD`, then the checkout is reset and cleaned. The commands
of git see different files: the diff those of the index, the reset those of the index and of
`HEAD`, the cleaning those of neither. What is only in the index, or in no place git tracks, is
in no diff.
-/
namespace WorktreeReset

set_option maxRecDepth 20000

/-! ## Text -/

/-- The line ends of a command's output, as `subprocess` reads it in text mode. -/
def universalNewlines : List Char → List Char
  | [] => []
  | '\r' :: '\n' :: cs => '\n' :: universalNewlines cs
  | c :: cs => (if c = '\r' then '\n' else c) :: universalNewlines cs

theorem universalNewlines_plain (s : List Char) : '\r' ∉ universalNewlines s := by
  fun_induction universalNewlines s with
  | case1 => simp
  | case2 cs ih => simpa using ih
  | case3 c cs h ih =>
    by_cases hc : c = '\r'
    · simp [hc, ih]
    · simp [hc, ih, Ne.symm hc]

/-- A text is read as it is where it holds no carriage return, and only there. -/
theorem universalNewlines_eq {s : List Char} : universalNewlines s = s ↔ '\r' ∉ s := by
  constructor
  · intro h
    rw [← h]
    exact universalNewlines_plain s
  · intro h
    fun_induction universalNewlines s with
    | case1 => rfl
    | case2 cs ih => simp at h
    | case3 c cs hnot ih =>
      simp only [List.mem_cons, not_or] at h
      rw [if_neg (Ne.symm h.1), ih h.2]

/-! ## Git -/

/-- The change of one file: its path, and what it held in `HEAD` and holds now. -/
structure FileDiff (Path Content : Type) where
  path : Path
  old : Option Content
  new : Option Content

/-- What git knows of files besides their contents: which untracked files of a checkout it
ignores, and how it prints a change. Changes are printed differently. With its line ends
translated, a printed change still begins with its path and says whether the file is deleted. -/
structure Git (Path Content : Type) where
  ignored : (Path → Option Content) → Path → Bool
  print : FileDiff Path Content → List Char
  print_inj : ∀ d d', print d = print d' → d = d'
  print_header : ∀ d d', universalNewlines (print d) = print d' → d.path = d'.path ∧ (d.new = none ↔ d'.new = none)

/-- A checkout: the contents in `HEAD`, in the index and on disk, at the paths that occur. -/
structure Checkout (Path Content : Type) where
  head : Path → Option Content
  index : Path → Option Content
  worktree : Path → Option Content
  paths : List Path
  complete : ∀ p, p ∉ paths → head p = none ∧ index p = none ∧ worktree p = none

/-- How a command ends that only reads: `run_command` may raise, as for an output that is no
text, or there is a return code. -/
inductive Answer where
  | raised
  | exited (ok : Bool)
  deriving DecidableEq

/-- A command that writes: its return code, and the paths it got to. -/
structure Command (Path : Type) where
  ok : Bool
  reached : Path → Bool
  all_reached : ok = true → ∀ p, reached p = true

/-- What the calls of one preservation come to. -/
structure Turn (Path : Type) where
  status : Answer
  diff : Answer
  written : Bool
  reset : Command Path
  clean : Command Path

section
variable {Path Content : Type}

/-- `git reset --hard HEAD`, as far as it got. -/
def resetHard (reached : Path → Bool) (s : Checkout Path Content) : Checkout Path Content where
  head := s.head
  index p := if reached p then s.head p else s.index p
  worktree p := if reached p && decide (s.index p ≠ none ∨ s.head p ≠ none) then s.head p else s.worktree p
  paths := s.paths
  complete := by
    intro p hp
    obtain ⟨hhead, hindex, hworktree⟩ := s.complete p hp
    simp [hhead, hindex, hworktree]

/-- `git clean -fd`, as far as it got. -/
def cleanForce (g : Git Path Content) (reached : Path → Bool) (s : Checkout Path Content) : Checkout Path Content where
  head := s.head
  index := s.index
  worktree p := if reached p && decide (s.index p = none) && !g.ignored s.worktree p then none else s.worktree p
  paths := s.paths
  complete := by
    intro p hp
    obtain ⟨hhead, hindex, hworktree⟩ := s.complete p hp
    simp [hhead, hindex, hworktree]

/-- The checkout after the reset and the cleaning. -/
def resetAndCleaned (g : Git Path Content) (t : Turn Path) (s : Checkout Path Content) : Checkout Path Content :=
  cleanForce g t.clean.reached (resetHard t.reset.reached s)

/-- A content is on disk or staged. -/
def Held (s : Checkout Path Content) (p : Path) (c : Content) : Prop := s.worktree p = some c ∨ s.index p = some c

variable {g : Git Path Content} {t : Turn Path} {s : Checkout Path Content}

/-- The reset leaves a file of the index or of `HEAD` as it is in `HEAD`. -/
theorem held_reset {p : Path} {c : Content} (hreached : t.reset.reached p = true) (htracked : s.index p ≠ none ∨ s.head p ≠ none)
    (h : Held (resetAndCleaned g t s) p c) : s.head p = some c := by
  obtain hdisk | hstaged := h
  · simp only [resetAndCleaned, cleanForce, resetHard, hreached, htracked, Bool.true_and, decide_true, if_true] at hdisk
    split at hdisk
    · cases hdisk
    · exact hdisk
  · simpa [resetAndCleaned, cleanForce, resetHard, hreached] using hstaged

/-- A file of the index the reset does not get to stays. -/
theorem held_unreached {p : Path} {c : Content} (hreached : t.reset.reached p = false) (hindex : s.index p ≠ none)
    (h : Held s p c) : Held (resetAndCleaned g t s) p c := by
  obtain hdisk | hstaged := h
  · left
    simp [resetAndCleaned, cleanForce, resetHard, hreached, hindex, hdisk]
  · right
    simp [resetAndCleaned, cleanForce, resetHard, hreached, hstaged]

/-- An untracked file stays if it is ignored then, or if the cleaning does not get to it. -/
theorem held_untracked {p : Path} {c : Content} (hindex : s.index p = none) (hdisk : s.worktree p = some c)
    (hout : t.reset.reached p = false ∨ s.head p = none) : Held (resetAndCleaned g t s) p c ↔
      (t.clean.reached p = true → g.ignored (resetHard t.reset.reached s).worktree p = true) := by
  have hindex' : (resetHard t.reset.reached s).index p = none := by
    obtain hreached | hhead := hout
    · simp [resetHard, hreached, hindex]
    · simp [resetHard, hhead, hindex]
  have hdisk' : (resetHard t.reset.reached s).worktree p = some c := by
    obtain hreached | hhead := hout
    · simp [resetHard, hreached, hdisk]
    · simp [resetHard, hhead, hindex, hdisk]
  unfold Held resetAndCleaned cleanForce
  simp only [hindex', hdisk', decide_true, Bool.and_true]
  cases t.clean.reached p <;> cases g.ignored (resetHard t.reset.reached s).worktree p <;> simp

end

/-! ## The artifact -/

section
variable {Path Content : Type} [DecidableEq Content] (g : Git Path Content)

/-- `git status --short --untracked-files=all`: the paths of its lines. -/
def statusPaths (s : Checkout Path Content) : List Path :=
  s.paths.filter fun p => decide (s.head p ≠ s.index p ∨ (s.index p ≠ none ∧ s.worktree p ≠ s.index p) ∨
    (s.index p = none ∧ s.worktree p ≠ none ∧ g.ignored s.worktree p = false))

/-- The change of a path as `git diff HEAD` sees it: a file that is not in the index is deleted. -/
def diffAt (s : Checkout Path Content) (p : Path) : FileDiff Path Content :=
  ⟨p, s.head p, if s.index p = none then none else s.worktree p⟩

/-- `git diff --binary HEAD`. -/
def diffHead (s : Checkout Path Content) : List (FileDiff Path Content) :=
  (s.paths.map (diffAt s)).filter fun d => decide (d.old ≠ d.new)

/-! ## The preservation -/

/-- What the artifact is made of. -/
inductive Artifact (Path : Type) where
  | diff (sections : List (List Char))
  | status (paths : List Path)

/-- The checkout after the call, the artifact that is written, whether the reset was called for,
and which of the two notes is made about it. -/
structure Outcome (Path Content : Type) where
  checkout : Checkout Path Content
  artifact : Option (Artifact Path)
  ran : Bool
  cleaned : Bool

/-- The call returns or raises before it changes anything. -/
def untouched (s : Checkout Path Content) : Outcome Path Content := ⟨s, none, false, false⟩

/-- The artifact: the diff, or the status where there is none. -/
def artifactOf (ok : Bool) (s : Checkout Path Content) : Artifact Path :=
  if ok = true ∧ diffHead s ≠ [] then .diff ((diffHead s).map fun d => universalNewlines (g.print d))
  else .status (statusPaths g s)

/-- `_preserve_and_reset_blocked_worktree`. -/
def preserveAndReset (t : Turn Path) (s : Checkout Path Content) : Outcome Path Content :=
  match t.status with
  | .raised => untouched s
  | .exited ok =>
    if ok = false ∨ statusPaths g s = [] then untouched s
    else
      match t.diff with
      | .raised => untouched s
      | .exited ok =>
        if t.written = false then untouched s
        else
          { checkout := resetAndCleaned g t s
            artifact := some (artifactOf g ok s)
            ran := true
            cleaned := t.reset.ok && t.clean.ok }

/-! ## Nothing is lost -/

/-- A content is read back from an artifact: its change is in it as git printed it. -/
def Restorable (s : Checkout Path Content) (artifact : Option (Artifact Path)) (p : Path) (c : Content) : Prop :=
  ∃ sections, artifact = some (.diff sections) ∧ g.print ⟨p, s.head p, some c⟩ ∈ sections

/-- The diff could be captured. -/
def Captured (t : Turn Path) (s : Checkout Path Content) : Prop := t.diff = .exited true ∧ diffHead s ≠ []

/-- Each content that is not in `HEAD` is still there or in the artifact, and without a captured
diff there is no reset. -/
structure LosesNothing (t : Turn Path) (s : Checkout Path Content) : Prop where
  kept : ∀ p c, Held s p c → s.head p ≠ some c →
    Held (preserveAndReset g t s).checkout p c ∨ Restorable g s (preserveAndReset g t s).artifact p c
  guarded : ¬ Captured t s → (preserveAndReset g t s).ran = false

/-- The call does not come to the reset. -/
def Untouched (t : Turn Path) (s : Checkout Path Content) : Prop :=
  t.status ≠ .exited true ∨ statusPaths g s = [] ∨ t.diff = .raised ∨ t.written = false

/-- What the reset and the cleaning get to is in the diff, or in `HEAD`. -/
structure Covered (t : Turn Path) (s : Checkout Path Content) : Prop where
  /-- A changed file is printed without carriage returns. -/
  changed : ∀ p c, s.index p ≠ none → s.worktree p = some c → s.head p ≠ some c → t.reset.reached p = true →
    '\r' ∉ g.print (diffAt s p)
  /-- What is staged is on disk. -/
  staged : ∀ p c, s.index p = some c → s.head p ≠ some c → t.reset.reached p = true → s.worktree p = some c
  /-- A file that is only taken out of the index is the one of `HEAD`. -/
  removed : ∀ p c, s.index p = none → s.head p ≠ none → s.worktree p = some c → s.head p ≠ some c →
    t.reset.reached p = false
  /-- An untracked file is ignored, also with the rules of `HEAD`. -/
  untracked : ∀ p c, s.index p = none → s.worktree p = some c → s.head p ≠ some c → t.clean.reached p = true →
    g.ignored (resetHard t.reset.reached s).worktree p = true

/-! ## The call -/

variable {g} {t : Turn Path} {s : Checkout Path Content}

theorem preserve_untouched (h : Untouched g t s) : preserveAndReset g t s = untouched s := by
  unfold preserveAndReset
  obtain hstatus | hempty | hdiff | hwritten := h
  · cases hanswer : t.status with
    | raised => rfl
    | exited ok =>
      cases ok with
      | false => simp
      | true => exact absurd hanswer hstatus
  · cases t.status <;> simp [hempty]
  · cases t.status <;> simp [hdiff]
  · cases t.status with
    | raised => rfl
    | exited ok => cases t.diff <;> simp [hwritten]

theorem preserve_ran (h : ¬ Untouched g t s) : ∃ ok, t.diff = .exited ok ∧
    preserveAndReset g t s = ⟨resetAndCleaned g t s, some (artifactOf g ok s), true, t.reset.ok && t.clean.ok⟩ := by
  simp only [Untouched, not_or, not_not] at h
  obtain ⟨hstatus, hdirty, hdiff, hwritten⟩ := h
  cases hanswer : t.diff with
  | raised => exact absurd hanswer hdiff
  | exited ok =>
    refine ⟨ok, rfl, ?_⟩
    simp [preserveAndReset, hstatus, hdirty, hanswer, hwritten]

/-! ## Files in the diff -/

theorem mem_diffHead {d : FileDiff Path Content} : d ∈ diffHead s ↔ d = diffAt s d.path ∧ d.old ≠ d.new := by
  simp only [diffHead, List.mem_filter, List.mem_map, decide_eq_true_eq]
  constructor
  · rintro ⟨⟨p, -, rfl⟩, hne⟩
    exact ⟨rfl, hne⟩
  · rintro ⟨hd, hne⟩
    refine ⟨⟨d.path, ?_, hd.symm⟩, hne⟩
    by_contra hout
    obtain ⟨hhead, hindex, -⟩ := s.complete d.path hout
    rw [hd] at hne
    simp [diffAt, hhead, hindex] at hne

/-- A content that is read back is the one on disk of a file in the index. -/
theorem restorable_iff (hcaptured : Captured t s) {p : Path} {c : Content} :
    Restorable g s (some (artifactOf g true s)) p c ↔
      universalNewlines (g.print (diffAt s p)) = g.print ⟨p, s.head p, some c⟩ ∧ diffAt s p ∈ diffHead s := by
  unfold artifactOf Restorable
  rw [if_pos ⟨rfl, hcaptured.2⟩]
  constructor
  · rintro ⟨sections, hsections, hmem⟩
    have hsections := Artifact.diff.inj (Option.some.inj hsections)
    rw [← hsections, List.mem_map] at hmem
    obtain ⟨d, hd, hprint⟩ := hmem
    obtain ⟨hpath, -⟩ := g.print_header d _ hprint
    have hpath : d.path = p := hpath
    have hat : d = diffAt s p := by
      rw [← hpath]
      exact (mem_diffHead.mp hd).1
    rw [← hat]
    exact ⟨hprint, hd⟩
  · rintro ⟨hprint, hd⟩
    refine ⟨_, rfl, ?_⟩
    rw [← hprint]
    exact List.mem_map_of_mem hd

theorem restorable_tracked (hcaptured : Captured t s) {p : Path} {c : Content}
    (h : Restorable g s (some (artifactOf g true s)) p c) : s.index p ≠ none ∧ ∃ w, s.worktree p = some w ∧ s.head p ≠ some w := by
  obtain ⟨hprint, hd⟩ := (restorable_iff hcaptured).mp h
  obtain ⟨-, hnew⟩ := g.print_header _ _ hprint
  have hsome : (diffAt s p).new ≠ none := fun hnone => absurd (hnew.mp hnone) (Option.some_ne_none c)
  have hne := (mem_diffHead.mp hd).2
  have hindex : s.index p ≠ none := fun hindex => hsome (by rw [diffAt, if_pos hindex])
  simp only [diffAt, if_neg hindex] at hsome hne
  obtain ⟨w, hw⟩ := Option.ne_none_iff_exists'.mp hsome
  rw [hw] at hne
  exact ⟨hindex, w, hw, hne⟩

/-- Of a file in the index, the content on disk is read back if it is printed without carriage
returns. -/
theorem restorable_worktree (hcaptured : Captured t s) {p : Path} {c : Content} (hindex : s.index p ≠ none)
    (hdisk : s.worktree p = some c) (hnew : s.head p ≠ some c) :
    Restorable g s (some (artifactOf g true s)) p c ↔ '\r' ∉ g.print (diffAt s p) := by
  have hat : diffAt s p = ⟨p, s.head p, some c⟩ := by rw [diffAt, if_neg hindex, hdisk]
  have hmem : diffAt s p ∈ diffHead s := by
    rw [mem_diffHead, hat]
    exact ⟨hat.symm, hnew⟩
  rw [restorable_iff hcaptured, hat, universalNewlines_eq, ← hat]
  exact ⟨fun h => h.1, fun h => ⟨h, hmem⟩⟩

/-! ## Preservation -/

/-- Contents are kept if what the commands get to is covered by the captured diff. -/
theorem kept_of_covered (hcaptured : Captured t s) (h : Covered g t s) {p : Path} {c : Content} (hheld : Held s p c)
    (hnew : s.head p ≠ some c) :
    Held (resetAndCleaned g t s) p c ∨ Restorable g s (some (artifactOf g true s)) p c := by
  by_cases hindex : s.index p = none
  · have hdisk : s.worktree p = some c := by
      obtain hdisk | hstaged := hheld
      · exact hdisk
      · rw [hindex] at hstaged
        cases hstaged
    left
    have hout : t.reset.reached p = false ∨ s.head p = none := by
      by_cases hhead : s.head p = none
      · exact .inr hhead
      · exact .inl (h.removed p c hindex hhead hdisk hnew)
    exact (held_untracked hindex hdisk hout).mpr (h.untracked p c hindex hdisk hnew)
  · cases hreached : t.reset.reached p with
    | false => exact .inl (held_unreached hreached hindex hheld)
    | true =>
      have hdisk : s.worktree p = some c := by
        obtain hdisk | hstaged := hheld
        · exact hdisk
        · exact h.staged p c hstaged hnew hreached
      exact .inr ((restorable_worktree hcaptured hindex hdisk hnew).mpr (h.changed p c hindex hdisk hnew hreached))

/-- The captured diff covers what the commands get to if contents are kept. -/
theorem covered_of_kept (hcaptured : Captured t s)
    (h : ∀ p c, Held s p c → s.head p ≠ some c →
      Held (resetAndCleaned g t s) p c ∨ Restorable g s (some (artifactOf g true s)) p c) : Covered g t s := by
  have hchanged : ∀ p c, s.index p ≠ none → s.worktree p = some c → s.head p ≠ some c → t.reset.reached p = true →
      '\r' ∉ g.print (diffAt s p) := by
    intro p c hindex hdisk hnew hreached
    obtain hheld | hrestorable := h p c (.inl hdisk) hnew
    · exact absurd (held_reset hreached (.inl hindex) hheld) hnew
    · exact (restorable_worktree hcaptured hindex hdisk hnew).mp hrestorable
  have hremoved : ∀ p c, s.index p = none → s.head p ≠ none → s.worktree p = some c → s.head p ≠ some c →
      t.reset.reached p = false := by
    intro p c hindex hhead hdisk hnew
    by_contra hreached
    rw [Bool.not_eq_false] at hreached
    obtain hheld | hrestorable := h p c (.inl hdisk) hnew
    · exact hnew (held_reset hreached (.inr hhead) hheld)
    · exact (restorable_tracked hcaptured hrestorable).1 hindex
  constructor
  · exact hchanged
  · intro p c hstaged hnew hreached
    have hindex : s.index p ≠ none := by simp [hstaged]
    obtain hheld | hrestorable := h p c (.inr hstaged) hnew
    · exact absurd (held_reset hreached (.inl hindex) hheld) hnew
    · obtain ⟨-, w, hw, hwnew⟩ := restorable_tracked hcaptured hrestorable
      have hplain := hchanged p w hindex hw hwnew hreached
      have hprint := ((restorable_iff hcaptured).mp hrestorable).1
      rw [universalNewlines_eq.mpr hplain] at hprint
      have hsame := congrArg FileDiff.new (g.print_inj _ _ hprint)
      rw [diffAt, if_neg hindex] at hsame
      exact hsame
  · exact hremoved
  · intro p c hindex hdisk hnew
    have hout : t.reset.reached p = false ∨ s.head p = none := by
      by_cases hhead : s.head p = none
      · exact .inr hhead
      · exact .inl (hremoved p c hindex hhead hdisk hnew)
    obtain hheld | hrestorable := h p c (.inl hdisk) hnew
    · exact (held_untracked hindex hdisk hout).mp hheld
    · exact absurd hindex (restorable_tracked hcaptured hrestorable).1

end

/-! ## A new file -/

/-- Changes are told apart by their numbers, printed in strokes; nothing is ignored. -/
def strokeGit : Git Nat Nat where
  ignored _ _ := false
  print d := List.replicate (Encodable.encode (d.path, d.old, d.new)) '|'
  print_inj := by
    rintro ⟨path, old, new⟩ ⟨path', old', new'⟩ h
    have hlength := congrArg List.length h
    rw [List.length_replicate, List.length_replicate] at hlength
    have hsame := Encodable.encode_injective hlength
    simp only [Prod.mk.injEq] at hsame
    obtain ⟨rfl, rfl, rfl⟩ := hsame
    rfl
  print_header := by
    rintro ⟨path, old, new⟩ ⟨path', old', new'⟩ h
    have hplain : '\r' ∉ List.replicate (Encodable.encode (path, old, new)) '|' := by
      intro hmem
      exact absurd (List.eq_of_mem_replicate hmem) (by decide)
    rw [universalNewlines_eq.mpr hplain] at h
    have hlength := congrArg List.length h
    rw [List.length_replicate, List.length_replicate] at hlength
    have hsame := Encodable.encode_injective hlength
    simp only [Prod.mk.injEq] at hsame
    obtain ⟨rfl, -, rfl⟩ := hsame
    exact ⟨rfl, Iff.rfl⟩

/-- A checkout in which one file is new, and not known to git. -/
def newFile : Checkout Nat Nat where
  head _ := none
  index _ := none
  worktree p := if p = 1 then some 7 else none
  paths := [1]
  complete := by
    intro p hp
    simp only [List.mem_singleton] at hp
    simp [hp]

/-- All commands succeed. -/
def allSucceed : Turn Nat where
  status := .exited true
  diff := .exited true
  written := true
  reset := ⟨true, fun _ => true, fun _ _ => rfl⟩
  clean := ⟨true, fun _ => true, fun _ _ => rfl⟩

end WorktreeReset
