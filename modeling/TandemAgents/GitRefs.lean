import Mathlib.Data.List.Basic
import Mathlib.Logic.Function.Basic

/-!
# References of a git repository

Branches and the stash point at commits; what no reference reaches is lost. A command of git
either has its documented effect or fails and leaves the repository as it is.
-/
namespace GitRefs

set_option maxRecDepth 20000

/-- Commits, and the changes a working tree may have against them. -/
structure History (Commit Change : Type) where
  /-- The second commit is the first or one of its ancestors. -/
  reaches : Commit → Commit → Bool
  /-- The change is to a tracked file. -/
  tracked : Change → Bool
  /-- The change is an untracked file where the commit has a file or a directory. -/
  inTheWay : Commit → Change → Bool
  /-- The commit that `git stash` makes. -/
  stash : Commit → List Change → Commit
  keeps : Commit → Change → Bool
  reaches_refl : ∀ c, reaches c c = true
  reaches_trans : ∀ a b c, reaches a b = true → reaches b c = true → reaches a c = true
  keeps_stash : ∀ c changes x, x ∈ changes → keeps (stash c changes) x = true

inductive Head (Name Commit : Type) where
  | branch : Name → Head Name Commit
  | detached : Commit → Head Name Commit
  deriving DecidableEq, Repr

/-- `remote` is the remote-tracking reference of one branch; `archives` are branches that are
only ever made, under a name no other branch has. -/
structure Repo (Name Commit Change : Type) where
  branches : Name → Option Commit
  head : Head Name Commit
  remote : Option Commit
  dirty : List Change
  archives : List Commit
  stashes : List Commit

variable {Name Commit Change : Type}

namespace Repo

def headCommit (s : Repo Name Commit Change) : Option Commit :=
  match s.head with
  | .branch n => s.branches n
  | .detached c => some c

def kept (s : Repo Name Commit Change) : List Commit := s.archives ++ s.stashes

theorem headCommit_branch {s : Repo Name Commit Change} {n : Name} (hhead : s.head = .branch n) : s.headCommit = s.branches n := by
  rw [headCommit, hhead]

end Repo

/-! ## Nothing is lost -/

section
variable (h : History Commit Change)

/-- A branch, an archive or a stash reaches the commit. -/
def Saved (s : Repo Name Commit Change) (c : Commit) : Prop :=
  (∃ n tip, s.branches n = some tip ∧ h.reaches tip c = true) ∨ ∃ tip ∈ s.kept, h.reaches tip c = true

/-- The change is in the working tree, an archive or a stash. -/
def Held (s : Repo Name Commit Change) (x : Change) : Prop := x ∈ s.dirty ∨ ∃ tip ∈ s.kept, h.keeps tip x = true

/-- What `s` leads to has everything of `s`; only the branch `name` may have been moved. -/
structure NothingLost (name : Name) (s t : Repo Name Commit Change) : Prop where
  commits : ∀ n tip c, s.branches n = some tip → h.reaches tip c = true → Saved h t c
  branches : ∀ n, n ≠ name → ∀ tip, s.branches n = some tip → t.branches n = some tip
  changes : ∀ x ∈ s.dirty, Held h t x
  archives : s.kept ⊆ t.kept

end

section
variable {h : History Commit Change} {name : Name} {s t u : Repo Name Commit Change}

theorem Saved.of_branch {n : Name} {tip : Commit} (hn : s.branches n = some tip) : Saved h s tip :=
  .inl ⟨n, tip, hn, h.reaches_refl tip⟩

theorem Saved.of_kept {tip : Commit} (hk : tip ∈ s.kept) : Saved h s tip := .inr ⟨tip, hk, h.reaches_refl tip⟩

theorem Saved.of_reaches {c d : Commit} (hs : Saved h s c) (hr : h.reaches c d = true) : Saved h s d := by
  cases hs with
  | inl hb =>
    obtain ⟨n, tip, hn, hc⟩ := hb
    exact .inl ⟨n, tip, hn, h.reaches_trans tip c d hc hr⟩
  | inr hk =>
    obtain ⟨tip, htip, hc⟩ := hk
    exact .inr ⟨tip, htip, h.reaches_trans tip c d hc hr⟩

/-- It is enough that the tips are saved. -/
theorem NothingLost.of_tips (htips : ∀ n tip, s.branches n = some tip → Saved h t tip)
    (hbranches : ∀ n, n ≠ name → ∀ tip, s.branches n = some tip → t.branches n = some tip)
    (hchanges : ∀ x ∈ s.dirty, Held h t x) (harchives : s.kept ⊆ t.kept) : NothingLost h name s t where
  commits := fun n tip _ hn hr => (htips n tip hn).of_reaches hr
  branches := hbranches
  changes := hchanges
  archives := harchives

/-- Where no branch is moved. -/
theorem NothingLost.of_unmoved (hbranches : ∀ n tip, s.branches n = some tip → t.branches n = some tip)
    (hchanges : ∀ x ∈ s.dirty, Held h t x) (harchives : s.kept ⊆ t.kept) : NothingLost h name s t :=
  .of_tips (fun n tip hn => .of_branch (hbranches n tip hn)) (fun n _ => hbranches n) hchanges harchives

theorem NothingLost.refl (s : Repo Name Commit Change) : NothingLost h name s s :=
  .of_unmoved (fun _ _ hn => hn) (fun _ hx => .inl hx) (List.Subset.refl _)

theorem NothingLost.trans (hst : NothingLost h name s t) (htu : NothingLost h name t u) : NothingLost h name s u where
  commits := by
    intro n tip c hn hr
    cases hst.commits n tip c hn hr with
    | inl hb =>
      obtain ⟨m, tip', hm, hc⟩ := hb
      exact htu.commits m tip' c hm hc
    | inr hk =>
      obtain ⟨tip', htip, hc⟩ := hk
      exact .inr ⟨tip', htu.archives htip, hc⟩
  branches := fun n hn tip hs => htu.branches n hn tip (hst.branches n hn tip hs)
  changes := by
    intro x hx
    cases hst.changes x hx with
    | inl hd => exact htu.changes x hd
    | inr hk =>
      obtain ⟨tip, htip, hc⟩ := hk
      exact .inr ⟨tip, htu.archives htip, hc⟩
  archives := fun _ ha => htu.archives (hst.archives ha)

end

/-! ## Commands -/

section
variable (h : History Commit Change)

/-- `git fetch`, which finds the remote at this commit. -/
def fetch (found : Commit) (s : Repo Name Commit Change) : Option (Repo Name Commit Change) :=
  some { s with remote := some found }

/-- `git rev-parse HEAD`. -/
def revParseHead (s : Repo Name Commit Change) : Option (Repo Name Commit Change) := s.headCommit.map fun _ => s

/-- `git update-ref` of a new archive to a commit. -/
def archive (commit : Option Commit) (s : Repo Name Commit Change) : Option (Repo Name Commit Change) :=
  commit.map fun c => { s with archives := c :: s.archives }

/-- `git stash push --include-untracked`; without a change it does nothing. -/
def stashPush (s : Repo Name Commit Change) : Option (Repo Name Commit Change) :=
  if s.dirty.isEmpty then some s
  else s.headCommit.map fun c => { s with dirty := [], stashes := h.stash c s.dirty :: s.stashes }

/-- What `git reset --hard` leaves of a change. -/
def survives (target : Commit) (x : Change) : Bool := !(h.tracked x || h.inTheWay target x)

end

section
variable [DecidableEq Name] (h : History Commit Change)

/-- The checked-out branch, or the detached head, is moved. -/
def Repo.moveHead (s : Repo Name Commit Change) (c : Commit) : Repo Name Commit Change :=
  match s.head with
  | .branch n => { s with branches := Function.update s.branches n (some c) }
  | .detached _ => { s with head := .detached c }

/-- `git checkout NAME`; a name that only the remote has gets a branch. -/
def checkout (name : Name) (s : Repo Name Commit Change) : Option (Repo Name Commit Change) :=
  match s.branches name with
  | some _ => some { s with head := .branch name }
  | none => s.remote.map fun r => { s with branches := Function.update s.branches name (some r), head := .branch name }

/-- `git reset --hard TARGET`. -/
def resetHard (target : Commit) (s : Repo Name Commit Change) : Option (Repo Name Commit Change) :=
  some { s.moveHead target with dirty := s.dirty.filter (survives h target) }

/-- The second half of `git pull --ff-only`. -/
def fastForward (target : Commit) (s : Repo Name Commit Change) : Option (Repo Name Commit Change) :=
  match s.headCommit with
  | none => some (s.moveHead target)
  | some c =>
    if h.reaches c target then some s
    else if h.reaches target c then some (s.moveHead target)
    else none

/-- A new branch at a commit. -/
def newBranch (name : Name) (base : Option Commit) (s : Repo Name Commit Change) : Option (Repo Name Commit Change) :=
  match s.branches name with
  | some _ => none
  | none => base.map fun c => { s with branches := Function.update s.branches name (some c) }

/-- `git checkout -b NAME BASE`. -/
def checkoutNew (name : Name) (base : Option Commit) (s : Repo Name Commit Change) : Option (Repo Name Commit Change) :=
  (newBranch name base s).map fun t => { t with head := .branch name }

end

/-! ## What a command does -/

section
variable {h : History Commit Change} {name : Name} {s t : Repo Name Commit Change}

theorem nothingLost_fetch {found : Commit} (hc : fetch found s = some t) : NothingLost h name s t := by
  cases hc
  exact .of_unmoved (fun _ _ hn => hn) (fun _ hx => .inl hx) (List.Subset.refl _)

theorem archive_eq_some {commit : Option Commit} (hc : archive commit s = some t) :
    ∃ c, commit = some c ∧ t = { s with archives := c :: s.archives } := by
  simp only [archive, Option.map_eq_some_iff] at hc
  obtain ⟨c, hcommit, rfl⟩ := hc
  exact ⟨c, hcommit, rfl⟩

theorem nothingLost_archive {commit : Option Commit} (hc : archive commit s = some t) : NothingLost h name s t := by
  obtain ⟨c, -, rfl⟩ := archive_eq_some hc
  exact .of_unmoved (fun _ _ hn => hn) (fun _ hx => .inl hx) (List.subset_cons_self c _)

/-- After a push to the stash the tree is clean. -/
theorem stashPush_dirty (hc : stashPush h s = some t) : t.dirty = [] := by
  rw [stashPush] at hc
  split at hc
  · cases hc
    exact List.isEmpty_iff.mp ‹_›
  · obtain ⟨c, -, rfl⟩ := Option.map_eq_some_iff.mp hc
    rfl

theorem nothingLost_stashPush (hc : stashPush h s = some t) : NothingLost h name s t := by
  rw [stashPush] at hc
  split at hc
  · cases hc
    exact .refl s
  · obtain ⟨c, -, rfl⟩ := Option.map_eq_some_iff.mp hc
    refine NothingLost.of_unmoved (fun _ _ hn => hn) ?_ ?_
    · intro x hx
      exact .inr ⟨h.stash c s.dirty, by simp [Repo.kept], h.keeps_stash c s.dirty x hx⟩
    · intro a ha
      simp only [Repo.kept, List.mem_append, List.mem_cons] at ha ⊢
      tauto

end

section
variable [DecidableEq Name] {h : History Commit Change} {name : Name} {s t : Repo Name Commit Change}

/-- A branch that was not there takes none away. -/
theorem unmoved_update {n m : Name} {c tip : Commit} (hnone : s.branches m = none) (hn : s.branches n = some tip) :
    Function.update s.branches m (some c) n = some tip := by
  have hne : n ≠ m := fun he => by simp [he ▸ hnone] at hn
  rw [Function.update_of_ne hne, hn]


theorem checkout_eq_some (hc : checkout name s = some t) :
    (s.branches name ≠ none ∧ t = { s with head := .branch name }) ∨ s.branches name = none ∧ ∃ r, s.remote = some r ∧
      t = { s with branches := Function.update s.branches name (some r), head := .branch name } := by
  cases hn : s.branches name with
  | some c => simp_all [checkout]
  | none =>
    simp only [checkout, hn, Option.map_eq_some_iff] at hc
    obtain ⟨r, hr, rfl⟩ := hc
    exact .inr ⟨rfl, r, hr, rfl⟩

theorem checkout_head {n : Name} (hc : checkout n s = some t) : t.head = .branch n := by
  obtain ⟨-, rfl⟩ | ⟨-, r, -, rfl⟩ := checkout_eq_some hc <;> rfl

theorem checkout_dirty {n : Name} (hc : checkout n s = some t) : t.dirty = s.dirty := by
  obtain ⟨-, rfl⟩ | ⟨-, r, -, rfl⟩ := checkout_eq_some hc <;> rfl

theorem nothingLost_checkout {n : Name} (hc : checkout n s = some t) : NothingLost h name s t := by
  obtain ⟨-, rfl⟩ | ⟨hnone, r, -, rfl⟩ := checkout_eq_some hc
  · exact .of_unmoved (fun _ _ hn => hn) (fun _ hx => .inl hx) (List.Subset.refl _)
  · exact .of_unmoved (fun _ _ hn => unmoved_update hnone hn) (fun _ hx => .inl hx) (List.Subset.refl _)

theorem newBranch_eq_some {n : Name} {base : Option Commit} (hc : newBranch n base s = some t) :
    s.branches n = none ∧ ∃ c, base = some c ∧ t = { s with branches := Function.update s.branches n (some c) } := by
  rw [newBranch] at hc
  split at hc
  · cases hc
  · obtain ⟨c, hbase, rfl⟩ := Option.map_eq_some_iff.mp hc
    exact ⟨‹_›, c, hbase, rfl⟩

theorem nothingLost_newBranch {n : Name} {base : Option Commit} (hc : newBranch n base s = some t) :
    NothingLost h name s t := by
  obtain ⟨hnone, c, -, rfl⟩ := newBranch_eq_some hc
  exact .of_unmoved (fun _ _ hn => unmoved_update hnone hn) (fun _ hx => .inl hx) (List.Subset.refl _)

theorem checkoutNew_eq_some {n : Name} {base : Option Commit} (hc : checkoutNew n base s = some t) :
    ∃ v, newBranch n base s = some v ∧ t = { v with head := .branch n } := by
  obtain ⟨v, hv, rfl⟩ := Option.map_eq_some_iff.mp hc
  exact ⟨v, hv, rfl⟩

theorem nothingLost_checkoutNew {n : Name} {base : Option Commit} (hc : checkoutNew n base s = some t) :
    NothingLost h name s t := by
  obtain ⟨v, hv, rfl⟩ := checkoutNew_eq_some hc
  exact (nothingLost_newBranch hv).trans (.of_unmoved (fun _ _ hn => hn) (fun _ hx => .inl hx) (List.Subset.refl _))

/-! ## Moving the checked-out branch -/

/-- The branch that may be moved is checked out, and the new commit or an archive has its old one. -/
theorem nothingLost_moveHead {c : Commit} (hhead : s.head = .branch name)
    (hold : ∀ tip, s.branches name = some tip → h.reaches c tip = true ∨ tip ∈ s.kept) :
    NothingLost h name s (s.moveHead c) := by
  have hmove : s.moveHead c = { s with branches := Function.update s.branches name (some c) } := by
    simp only [Repo.moveHead, hhead]
  rw [hmove]
  apply NothingLost.of_tips
  · intro n tip hn
    by_cases he : n = name
    · subst he
      cases hold tip hn with
      | inl hr => exact Saved.of_reaches (.of_branch (n := n) (Function.update_self ..)) hr
      | inr hk => exact .of_kept hk
    · exact .of_branch (n := n) (by rw [← hn]; exact Function.update_of_ne he ..)
  · intro n hne tip hn
    rw [← hn]
    exact Function.update_of_ne hne ..
  · exact fun x hx => .inl hx
  · exact List.Subset.refl _

theorem fastForward_eq_some {c : Commit} (hc : fastForward h c s = some t) :
    t = s ∨ t = s.moveHead c ∧ ∀ tip, s.headCommit = some tip → h.reaches c tip = true := by
  rw [fastForward] at hc
  cases hh : s.headCommit with
  | none => simp_all
  | some tip =>
    simp only [hh] at hc
    split at hc
    · exact .inl (Option.some.inj hc).symm
    · split at hc
      · exact .inr ⟨(Option.some.inj hc).symm, fun tip' he => by rw [← Option.some.inj he]; assumption⟩
      · cases hc

theorem nothingLost_fastForward {c : Commit} (hhead : s.head = .branch name) (hc : fastForward h c s = some t) :
    NothingLost h name s t := by
  obtain rfl | ⟨rfl, hold⟩ := fastForward_eq_some hc
  · exact .refl _
  · exact nothingLost_moveHead hhead fun tip hn => .inl (hold tip (by rw [Repo.headCommit_branch hhead, hn]))

/-- Nothing that the reset drops is only in the working tree. -/
def Dispensable (h : History Commit Change) (target : Commit) (s : Repo Name Commit Change) : Prop :=
  ∀ x ∈ s.dirty, survives h target x = false → ∃ tip ∈ s.kept, h.keeps tip x = true

theorem changes_reset {target : Commit} (hdirty : Dispensable h target s) :
    ∀ x ∈ s.dirty, Held h { s.moveHead target with dirty := s.dirty.filter (survives h target) } x := by
  intro x hx
  cases hsurvive : survives h target x with
  | true => exact .inl (List.mem_filter.mpr ⟨hx, hsurvive⟩)
  | false =>
    obtain ⟨tip, htip, hkeeps⟩ := hdirty x hx hsurvive
    refine .inr ⟨tip, ?_, hkeeps⟩
    cases hh : s.head <;> simpa only [Repo.kept, Repo.moveHead, hh] using htip

theorem nothingLost_resetHard {target : Commit} (hhead : s.head = .branch name)
    (hold : ∀ tip, s.branches name = some tip → tip ∈ s.kept) (hdirty : Dispensable h target s)
    (hc : resetHard h target s = some t) : NothingLost h name s t := by
  cases hc
  have hmove := nothingLost_moveHead (h := h) (c := target) hhead fun tip hn => .inr (hold tip hn)
  exact { hmove with changes := changes_reset hdirty }

end
end GitRefs
