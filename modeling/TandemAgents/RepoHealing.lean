import TandemAgents.Effects
import TandemAgents.GitRefs
import TandemAgents.SecurityBundle

/-!
# Healing the repository cache

A default branch that is ahead of its remote is archived and reset. What is archived is the head,
what is reset is the branch that is checked out: the sync and the run branch first check out the
default branch and look for a clean tree, the run worktree does neither.
-/
namespace RepoHealing

open Effects GitRefs PythonText

set_option maxRecDepth 20000

/-! ## Configuration -/

/-- What `_remote_url_for_existing_repo` finds. -/
inductive Url where
  | known
  | missing
  | refused
  deriving DecidableEq, Repr

/-- `inWorkspace` is the answer of `_path_is_within` for the checkout. -/
structure Config where
  inWorkspace : Bool
  path : String
  defaultBranch : String
  remoteName : String
  url : Url
  deriving Repr

def Config.branch (cfg : Config) : String := orElse cfg.defaultBranch "main"

/-- `_is_managed_repository_cache`. -/
def isManagedRepositoryCache (cfg : Config) : Bool :=
  let rawPath := SecurityBundle.rstripSlash (replaceChar '\\' '/' (strip cfg.path))
  cfg.inWorkspace && (decide (rawPath = "") || decide (rawPath = "/workspace/repos") || decide (rawPath = "workspace/repos") ||
    "/workspace/repos/".toList.isPrefixOf rawPath.toList || "workspace/repos/".toList.isPrefixOf rawPath.toList)

/-- `_validate_remote_name`. -/
def validRemoteName (cfg : Config) : Bool :=
  let remote := (orElse (strip (orElse cfg.remoteName "origin")) "origin").toList
  !(["/", "~", "./", "../"].any (fun front => front.toList.isPrefixOf remote) || decide ("://".toList <:+: remote) ||
    decide ('\\' ∈ remote))

/-- `_is_aca_run_branch`. -/
def isAcaRunBranch (branch : String) : Bool :=
  "aca/".toList.isPrefixOf branch.toList && !"aca/archive/".toList.isPrefixOf branch.toList

/-! ## Commands that may fail -/

/-- The places where git or the file system answers. -/
inductive Step where
  | status | currentBranch | dirtyHead | previousStash | stash | currentStash | dirtyRef
  | fetch | checkout | verify | divergence | shortHead | updateRef | reset | pullFetch | pullMerge | recheck
  | destination | branchExists | room | create | current
  deriving DecidableEq, Repr

/-- Which commands succeed, and where a fetch finds the default branch of the remote. -/
structure Turn (Commit : Type) where
  ok : Step → Bool
  fetched : Commit
  pulled : Commit

variable {Commit Change : Type}

abbrev Cache (Commit Change : Type) : Type := Repo String Commit Change

abbrev Act (Commit Change α : Type) : Type := EStateM Unit (Cache Commit Change) α

/-- `run_command` and the check of its return code. -/
def git (t : Turn Commit) (step : Step) (command : Cache Commit Change → Option (Cache Commit Change)) :
    Act Commit Change Unit := fun s =>
  match if t.ok step then command s else none with
  | some u => .ok () u
  | none => .error () s

/-- `if not ...: raise`. -/
def check (p : Cache Commit Change → Bool) : Act Commit Change Unit := fun s => if p s then .ok () s else .error () s

/-! ## The module's functions -/

section
variable [DecidableEq Commit] (h : History Commit Change) (cfg : Config) (t : Turn Commit)

/-- `_default_branch_divergence`: whether the default branch is behind its remote, and whether it is ahead. -/
def defaultBranchDivergence (step : Step) : Act Commit Change (Bool × Bool) := fun s =>
  match if t.ok step then s.remote else none, s.branches cfg.branch with
  | some r, some c => .ok (!h.reaches c r, !h.reaches r c) s
  | _, _ => .error () s

/-- `_archive_local_default_branch`. -/
def archiveLocalDefaultBranch : Act Commit Change Unit := do
  git t .shortHead revParseHead
  git t .updateRef fun s => archive s.headCommit s

/-- `_archive_and_reset_managed_default_branch`. -/
def archiveAndResetManagedDefaultBranch : Act Commit Change Unit := do
  check fun _ => isManagedRepositoryCache cfg
  archiveLocalDefaultBranch t
  git t .reset fun s => s.remote.bind fun r => resetHard h r s

/-- `_heal_or_fast_forward_default_branch`. -/
def healOrFastForwardDefaultBranch : Act Commit Change Unit := do
  let (behind, ahead) ← defaultBranchDivergence h cfg t .divergence
  if ahead then archiveAndResetManagedDefaultBranch h cfg t
  else if behind then
    git t .pullFetch (fetch t.pulled)
    git t .pullMerge (fastForward h t.pulled)
  else return ()

/-- `_heal_managed_default_branch_ahead`. -/
def healManagedDefaultBranchAhead : Act Commit Change Unit := do
  let (behind, ahead) ← defaultBranchDivergence h cfg t .divergence
  if ahead then archiveAndResetManagedDefaultBranch h cfg t
  else check fun _ => !behind

/-- `_ensure_default_branch_matches_remote`. -/
def ensureDefaultBranchMatchesRemote : Act Commit Change Unit := do
  let (behind, ahead) ← defaultBranchDivergence h cfg t .recheck
  check fun _ => !ahead && !behind

/-- The branch that `current_repository_branch` names is a run branch. -/
def onRunBranch (s : Cache Commit Change) : Bool :=
  match s.head with
  | .branch n => (s.branches n).isSome && isAcaRunBranch n
  | .detached _ => false

/-- `_rev_parse_ref` of the stash. -/
def stashRef (step : Step) (s : Cache Commit Change) : Option Commit := if t.ok step then s.stashes.head? else none

/-- The rest of `_archive_dirty_managed_run_branch`, once the stash was read before. -/
def archiveStashed (previous : Option Commit) : Act Commit Change Unit := do
  git t .stash (stashPush h)
  check fun s => (stashRef t .currentStash s).isSome && decide (stashRef t .currentStash s ≠ previous)
  git t .dirtyRef fun s => archive s.stashes.head? s

/-- `_archive_dirty_managed_run_branch`, or an error where it finds nothing to archive. -/
def archiveDirtyManagedRunBranch : Act Commit Change Unit := do
  check fun s => isManagedRepositoryCache cfg && t.ok .currentBranch && onRunBranch s
  git t .dirtyHead revParseHead
  let s ← get
  archiveStashed h t (stashRef t .previousStash s)

/-- What the sync does with uncommitted changes. -/
def archiveDirty : Act Commit Change Unit := do
  let s ← get
  if s.dirty.isEmpty then return () else archiveDirtyManagedRunBranch h cfg t

/-- The sync of a repository whose remote is known. -/
def syncWithRemote : Act Commit Change Unit := do
  git t .fetch (fetch t.fetched)
  git t .checkout (checkout cfg.branch)
  healOrFastForwardDefaultBranch h cfg t
  ensureDefaultBranchMatchesRemote h cfg t

/-- `_sync_existing_repository`. -/
def syncExistingRepository : Act Commit Change Unit := do
  check fun _ => cfg.inWorkspace
  git t .status some
  archiveDirty h cfg t
  check fun _ => validRemoteName cfg && decide (cfg.url ≠ .refused)
  match cfg.url with
  | .known => syncWithRemote h cfg t
  | _ => return ()

def remoteRef (s : Cache Commit Change) : Option (Cache Commit Change) := s.remote.map fun _ => s

/-- A run branch is never one that exists. -/
def freeName (name : String) : Act Commit Change Unit := check fun s => !(t.ok .branchExists && (s.branches name).isSome)

/-- `checkout_run_branch`. -/
def checkoutRunBranch (name : String) : Act Commit Change Unit := do
  check fun _ => validRemoteName cfg && cfg.inWorkspace
  git t .checkout (checkout cfg.branch)
  git t .status some
  check fun s => s.dirty.isEmpty
  git t .verify remoteRef
  healManagedDefaultBranchAhead h cfg t
  freeName t name
  git t .create fun s => checkoutNew name s.remote s
  git t .current some

/-- The steps of `checkout_run_worktree` behind the healing. -/
def addWorktree (name : String) : Act Commit Change Unit := do
  freeName t name
  git t .room some
  git t .create fun s => newBranch name s.remote s
  git t .current some

/-- `checkout_run_worktree`. -/
def checkoutRunWorktree (name : String) : Act Commit Change Unit := do
  check fun _ => validRemoteName cfg && cfg.inWorkspace
  git t .destination some
  git t .verify remoteRef
  healManagedDefaultBranchAhead h cfg t
  addWorktree t name

end

/-! ## Losing nothing -/

section
variable (h : History Commit Change) (cfg : Config)

/-- The default branch has no commit that the remote lacks. -/
def Level (s : Cache Commit Change) : Prop :=
  ∀ r c, s.remote = some r → s.branches cfg.branch = some c → h.reaches r c = true

/-- Whatever fails on the way nothing is lost, and on success the default branch is level. -/
def Safe (m : Turn Commit → Act Commit Change Unit) (s : Cache Commit Change) : Prop :=
  ∀ t, NothingLost h cfg.branch s (endState (m t s)) ∧ (isOk (m t s) = true → Level h cfg (endState (m t s)))

end

/-! ## Rules -/

section
variable {h : History Commit Change} {name : String} {s₀ : Cache Commit Change} {A B : Cache Commit Change → Prop}
  {t : Turn Commit} {step : Step} {α β : Type}

/-- Nothing of `s₀` is lost on any way out; `A` holds before and `B` on return. -/
structure Steps (h : History Commit Change) (name : String) (s₀ : Cache Commit Change) (A : Cache Commit Change → Prop)
    (m : Act Commit Change α) (B : α → Cache Commit Change → Prop) : Prop where
  leads : Leads (fun s => NothingLost h name s₀ s ∧ A s) m (fun a s => NothingLost h name s₀ s ∧ B a s)
    (fun _ => NothingLost h name s₀)

theorem Steps.bind {m : Act Commit Change α} {f : α → Act Commit Change β} {C : α → Cache Commit Change → Prop}
    {D : β → Cache Commit Change → Prop} (hm : Steps h name s₀ A m C) (hf : ∀ a, Steps h name s₀ (C a) (f a) D) :
    Steps h name s₀ A (m >>= f) D := ⟨Leads.bind hm.leads fun a => (hf a).leads⟩

theorem Steps.pure {a : α} {C : α → Cache Commit Change → Prop} (hC : ∀ s, A s → C a s) :
    Steps h name s₀ A (pure a) C := ⟨Leads.pure fun s hs => ⟨hs.1, hC s hs.2⟩⟩

/-- What is known of the state at the start may be assumed of it. -/
theorem Steps.of_start {m : Act Commit Change α} {C : α → Cache Commit Change → Prop}
    (hm : ∀ s, A s → Steps h name s₀ (fun u => u = s) m C) : Steps h name s₀ A m C :=
  ⟨fun s hs => (hm s hs.2).leads s ⟨hs.1, rfl⟩⟩

theorem Steps.get_bind {f : Cache Commit Change → Act Commit Change β} {D : β → Cache Commit Change → Prop}
    (hf : ∀ s, A s → Steps h name s₀ (fun u => u = s) (f s) D) : Steps h name s₀ A (get >>= f) D :=
  ⟨fun s hs => (hf s hs.2).leads s ⟨hs.1, rfl⟩⟩

theorem Steps.check {p : Cache Commit Change → Bool} : Steps h name s₀ A (check p) (fun _ s => A s ∧ p s = true) := by
  constructor
  intro s hs
  by_cases hp : p s = true
  · simpa only [RepoHealing.check, hp, if_true] using ⟨hs.1, hs.2, trivial⟩
  · simpa only [RepoHealing.check, hp, Bool.false_eq_true, if_false] using hs.1

theorem git_cases (t : Turn Commit) (step : Step) (command : Cache Commit Change → Option (Cache Commit Change))
    (s : Cache Commit Change) :
    (∃ u, command s = some u ∧ git t step command s = .ok () u) ∨ git t step command s = .error () s := by
  rw [git]
  cases hc : (if t.ok step then command s else none) with
  | none => exact .inr rfl
  | some u =>
    split at hc
    · exact .inl ⟨u, hc, rfl⟩
    · cases hc

theorem Steps.git {command : Cache Commit Change → Option (Cache Commit Change)}
    (hcommand : ∀ s u, A s → command s = some u → NothingLost h name s u ∧ B u) :
    Steps h name s₀ A (git t step command) (fun _ => B) := by
  constructor
  intro s hs
  obtain ⟨u, hu, hrun⟩ | hrun := git_cases t step command s
  · rw [hrun]
    exact ⟨hs.1.trans (hcommand s u hs.2 hu).1, (hcommand s u hs.2 hu).2⟩
  · rw [hrun]
    exact hs.1

/-- A command that only reads. -/
theorem Steps.read {command : Cache Commit Change → Option (Cache Commit Change)}
    (hcommand : ∀ s u, command s = some u → u = s) : Steps h name s₀ A (RepoHealing.git t step command) (fun _ => A) := by
  apply Steps.git
  intro s u hs hu
  cases hcommand s u hu
  exact ⟨.refl s, hs⟩

theorem Steps.status : Steps h name s₀ A (RepoHealing.git t step some) (fun _ => A) :=
  Steps.read fun _ _ hu => (Option.some.inj hu).symm

theorem Steps.weaken {m : Act Commit Change α} {A' : Cache Commit Change → Prop} {C D : α → Cache Commit Change → Prop}
    (hm : Steps h name s₀ A m C) (hA : ∀ s, A' s → A s) (hC : ∀ a s, C a s → D a s) : Steps h name s₀ A' m D :=
  ⟨hm.leads.weaken (fun s hs => ⟨hs.1, hA s hs.2⟩) (fun a s hs => ⟨hs.1, hC a s hs.2⟩) (fun _ _ hs => hs)⟩

theorem Steps.safe {cfg : Config} {m : Turn Commit → Act Commit Change Unit}
    (hm : ∀ t, Steps h cfg.branch s₀ (fun u => u = s₀) (m t) (fun _ => Level h cfg)) : Safe h cfg m s₀ := by
  intro t
  have hrun := (hm t).leads s₀ ⟨.refl s₀, rfl⟩
  cases hr : m t s₀ with
  | ok a u =>
    rw [hr] at hrun
    exact ⟨hrun.1, fun _ => hrun.2⟩
  | error e u =>
    rw [hr] at hrun
    exact ⟨hrun, nofun⟩

end

/-! ## What each function does -/

section
variable {h : History Commit Change} {cfg : Config} {t : Turn Commit} {s₀ : Cache Commit Change}
  {A : Cache Commit Change → Prop}

theorem revParseHead_eq_some {s u : Cache Commit Change} (hu : revParseHead s = some u) : u = s ∧ s.headCommit ≠ none := by
  obtain ⟨c, hc, rfl⟩ := Option.map_eq_some_iff.mp hu
  exact ⟨rfl, by simp [hc]⟩

theorem remoteRef_eq_some {s u : Cache Commit Change} (hu : remoteRef s = some u) : u = s := by
  obtain ⟨c, hc, rfl⟩ := Option.map_eq_some_iff.mp hu
  rfl

/-- How the default branch stands to the remote, as the answer of a divergence says. -/
structure Stands (h : History Commit Change) (cfg : Config) (behind ahead : Bool) (s : Cache Commit Change) : Prop where
  behind_iff : ∀ r c, s.remote = some r → s.branches cfg.branch = some c → (behind = true ↔ h.reaches c r = false)
  ahead_iff : ∀ r c, s.remote = some r → s.branches cfg.branch = some c → (ahead = true ↔ h.reaches r c = false)
  known : ∃ r c, s.remote = some r ∧ s.branches cfg.branch = some c

theorem Stands.level {behind : Bool} {s : Cache Commit Change} (hs : Stands h cfg behind false s) : Level h cfg s := by
  intro r c hr hc
  have hahead := hs.ahead_iff r c hr hc
  simpa using hahead

theorem divergence_steps {step : Step} : Steps h cfg.branch s₀ A (defaultBranchDivergence h cfg t step)
    (fun a s => A s ∧ Stands h cfg a.1 a.2 s) := by
  constructor
  intro s hs
  rw [defaultBranchDivergence]
  cases hr : (if t.ok step then s.remote else none) with
  | none => exact hs.1
  | some r =>
    cases hc : s.branches cfg.branch with
    | none => exact hs.1
    | some c =>
      have hremote : s.remote = some r := by
        split at hr
        · exact hr
        · cases hr
      refine ⟨hs.1, hs.2, ?_, ?_, r, c, hremote, hc⟩
      · intro r' c' hr' hc'
        simp_all
      · intro r' c' hr' hc'
        simp_all

theorem ensure_steps : Steps h cfg.branch s₀ A (ensureDefaultBranchMatchesRemote h cfg t) (fun _ => Level h cfg) := by
  apply Steps.bind divergence_steps
  rintro ⟨behind, ahead⟩
  apply Steps.weaken Steps.check (fun _ hs => hs)
  rintro _ s ⟨⟨-, hs⟩, hp⟩
  simp only [Bool.and_eq_true, Bool.not_eq_true'] at hp
  rw [hp.1] at hs
  exact hs.level

/-- The default branch is checked out and the tree is clean. -/
structure Settled (cfg : Config) (s : Cache Commit Change) : Prop where
  head : s.head = .branch cfg.branch
  clean : s.dirty = []

theorem Settled.of_same {s u : Cache Commit Change} (hs : Settled cfg s) (hhead : u.head = s.head) (hdirty : u.dirty = s.dirty) :
    Settled cfg u := ⟨hhead.trans hs.head, hdirty.trans hs.clean⟩

/-- The archive has what the default branch had. -/
theorem reset_settled {s v u : Cache Commit Change} {r : Commit} (hs : Settled cfg s) (hv : archive s.headCommit s = some v)
    (hr : v.remote = some r) (hu : resetHard h r v = some u) : NothingLost h cfg.branch v u ∧ Level h cfg u := by
  obtain ⟨c, hc, rfl⟩ := archive_eq_some hv
  have hbranch : s.branches cfg.branch = some c := by rw [← Repo.headCommit_branch hs.head, hc]
  constructor
  · refine nothingLost_resetHard hs.head ?_ ?_ hu
    · intro tip htip
      have : tip = c := Option.some.inj (htip.symm.trans hbranch)
      simp [Repo.kept, this]
    · intro x hx
      rw [hs.clean] at hx
      cases hx
  · cases hu
    intro r' c' hr' hc'
    simp only [Repo.moveHead, hs.head, Function.update_self] at hr' hc'
    cases hc'
    rw [hr] at hr'
    cases hr'
    exact h.reaches_refl r

theorem archiveAndReset_settled (hA : ∀ s, A s → Settled cfg s) :
    Steps h cfg.branch s₀ A (archiveAndResetManagedDefaultBranch h cfg t) (fun _ => Level h cfg) := by
  apply Steps.bind Steps.check
  intro _
  apply Steps.bind (C := fun _ v => ∃ s, Settled cfg s ∧ archive s.headCommit s = some v)
  · apply Steps.bind (Steps.read fun s u hu => (revParseHead_eq_some hu).1)
    intro _
    apply Steps.git
    intro s v hs hv
    exact ⟨nothingLost_archive hv, s, hA s hs.1, hv⟩
  · intro _
    apply Steps.git
    rintro v u ⟨s, hs, hv⟩ hu
    obtain ⟨r, hr, hreset⟩ := Option.bind_eq_some_iff.mp hu
    exact reset_settled hs hv hr hreset

theorem healManaged_settled (hA : ∀ s, A s → Settled cfg s) :
    Steps h cfg.branch s₀ A (healManagedDefaultBranchAhead h cfg t) (fun _ => Level h cfg) := by
  apply Steps.bind divergence_steps
  rintro ⟨behind, ahead⟩
  cases ahead with
  | true => exact archiveAndReset_settled fun s hs => hA s hs.1
  | false => exact Steps.weaken Steps.check (fun _ hs => hs) fun _ _ hs => hs.1.2.level

/-- The pull moves the default branch forward only. -/
theorem healOrFastForward_settled (hA : ∀ s, A s → Settled cfg s) :
    Steps h cfg.branch s₀ A (healOrFastForwardDefaultBranch h cfg t) (fun _ _ => True) := by
  apply Steps.bind divergence_steps
  rintro ⟨behind, ahead⟩
  cases ahead with
  | true => exact (archiveAndReset_settled fun s hs => hA s hs.1).weaken (fun _ hs => hs) fun _ _ _ => trivial
  | false =>
    cases behind with
    | false => exact Steps.pure fun _ _ => trivial
    | true =>
      apply Steps.bind (C := fun _ => Settled cfg)
      · apply Steps.git
        intro s u hs hu
        cases hu
        exact ⟨nothingLost_fetch rfl, (hA s hs.1).of_same rfl rfl⟩
      · intro _
        apply Steps.git
        intro s u hs hu
        exact ⟨nothingLost_fastForward hs.head hu, trivial⟩

theorem checkout_settled (hA : ∀ s, A s → s.dirty = []) :
    Steps h cfg.branch s₀ A (git t .checkout (checkout cfg.branch)) (fun _ => Settled cfg) := by
  apply Steps.git
  intro s u hs hu
  exact ⟨nothingLost_checkout hu, checkout_head hu, (checkout_dirty hu).trans (hA s hs)⟩

theorem syncWithRemote_steps (hA : ∀ s, A s → s.dirty = []) :
    Steps h cfg.branch s₀ A (syncWithRemote h cfg t) (fun _ => Level h cfg) := by
  apply Steps.bind (C := fun _ s => s.dirty = [])
  · apply Steps.git
    intro s u hs hu
    cases hu
    exact ⟨nothingLost_fetch rfl, hA s hs⟩
  · intro _
    apply Steps.bind (checkout_settled fun _ hs => hs)
    intro _
    apply Steps.bind (healOrFastForward_settled fun _ hs => hs)
    intro _
    exact ensure_steps

theorem freeName_steps {name : String} : Steps h cfg.branch s₀ A (freeName t name) (fun _ => A) :=
  Steps.check.weaken (fun _ hs => hs) fun _ _ hs => hs.1

/-- The base of a run branch is the remote's default branch, also where the run branch takes its name. -/
theorem newBranch_level {name : String} {s u : Cache Commit Change} (hs : Level h cfg s)
    (hu : newBranch name s.remote s = some u) : Level h cfg u := by
  obtain ⟨-, c, hbase, rfl⟩ := newBranch_eq_some hu
  intro r d hr hd
  by_cases hname : cfg.branch = name
  · subst hname
    have hcd : c = d := Option.some.inj ((Function.update_self cfg.branch (some c) s.branches).symm.trans hd)
    have hrc : r = c := Option.some.inj (hr.symm.trans hbase)
    rw [← hcd, hrc]
    exact h.reaches_refl c
  · exact hs r d hr (by rw [← hd]; exact (Function.update_of_ne hname ..).symm)

/-- The branches and the remote are where they were. -/
def SameRefs (s u : Cache Commit Change) : Prop := u.branches = s.branches ∧ u.remote = s.remote

theorem SameRefs.level {s u : Cache Commit Change} (hsame : SameRefs s u) (hs : Level h cfg s) : Level h cfg u := by
  intro r c hr hc
  rw [hsame.2] at hr
  rw [hsame.1] at hc
  exact hs r c hr hc

theorem checkoutRunBranch_steps (name : String) :
    Steps h cfg.branch s₀ A (checkoutRunBranch h cfg t name) (fun _ => Level h cfg) := by
  apply Steps.bind Steps.check
  intro _
  apply Steps.bind (C := fun _ s => s.head = .branch cfg.branch)
  · apply Steps.git
    exact fun s u _ hu => ⟨nothingLost_checkout hu, checkout_head hu⟩
  · intro _
    apply Steps.bind Steps.status
    intro _
    apply Steps.bind (C := fun _ => Settled cfg)
    · exact Steps.check.weaken (fun _ hs => hs) fun _ s hs => ⟨hs.1, List.isEmpty_iff.mp hs.2⟩
    · intro _
      apply Steps.bind (Steps.read fun _ _ => remoteRef_eq_some)
      intro _
      apply Steps.bind (healManaged_settled fun _ hs => hs)
      intro _
      apply Steps.bind freeName_steps
      intro _
      apply Steps.bind (C := fun _ => Level h cfg)
      · apply Steps.git
        intro s u hs hu
        obtain ⟨v, hv, rfl⟩ := checkoutNew_eq_some hu
        have hlevel : Level h cfg v := newBranch_level hs hv
        exact ⟨nothingLost_checkoutNew hu, hlevel⟩
      · intro _
        exact Steps.status

theorem checkoutRunBranch_safe (h : History Commit Change) (cfg : Config) (name : String) (s : Cache Commit Change) :
    Safe h cfg (fun t => checkoutRunBranch h cfg t name) s :=
  Steps.safe fun _ => checkoutRunBranch_steps name

end

/-! ## The sync -/

section
variable [DecidableEq Commit] {h : History Commit Change} {cfg : Config} {t : Turn Commit} {s₀ s : Cache Commit Change}

/-- The sync goes on without a remote. -/
structure EndsEarly (cfg : Config) (s : Cache Commit Change) : Prop where
  inWorkspace : cfg.inWorkspace = true
  remoteName : validRemoteName cfg = true
  missing : cfg.url = .missing
  clean : s.dirty = [] ∨ isManagedRepositoryCache cfg = true ∧ onRunBranch s = true

theorem archiveStashed_steps {previous : Option Commit} : Steps h cfg.branch s₀ (SameRefs s) (archiveStashed h t previous)
    (fun _ u => SameRefs s u ∧ u.dirty = []) := by
  apply Steps.bind (C := fun _ u => SameRefs s u ∧ u.dirty = [])
  · apply Steps.git
    intro v u hv hu
    refine ⟨nothingLost_stashPush hu, ?_, stashPush_dirty hu⟩
    rw [stashPush] at hu
    split at hu
    · cases hu
      exact hv
    · obtain ⟨c, -, rfl⟩ := Option.map_eq_some_iff.mp hu
      exact hv
  · intro _
    apply Steps.bind Steps.check
    intro _
    apply Steps.git
    intro v u hv hu
    obtain ⟨c, -, rfl⟩ := archive_eq_some hu
    exact ⟨nothingLost_archive hu, hv.1⟩

theorem archiveDirty_steps : Steps h cfg.branch s (fun u => u = s) (archiveDirty h cfg t)
    (fun _ u => (SameRefs s u ∧ u.dirty = []) ∧ (s.dirty = [] ∨ isManagedRepositoryCache cfg = true ∧ onRunBranch s = true)) := by
  apply Steps.get_bind
  rintro _ rfl
  split
  · rename_i hclean
    have hdirty := List.isEmpty_iff.mp hclean
    apply Steps.pure
    rintro _ rfl
    exact ⟨⟨⟨rfl, rfl⟩, hdirty⟩, .inl hdirty⟩
  · apply Steps.bind Steps.check
    intro _
    apply Steps.bind (Steps.read fun _ _ hu => (revParseHead_eq_some hu).1)
    intro _
    apply Steps.get_bind
    rintro u ⟨rfl, hp⟩
    simp only [Bool.and_eq_true] at hp
    apply Steps.weaken archiveStashed_steps
    · rintro _ rfl
      exact ⟨rfl, rfl⟩
    · exact fun _ _ hs => ⟨hs, .inr ⟨hp.1.1, hp.2⟩⟩

theorem syncExistingRepository_steps (hearly : EndsEarly cfg s → Level h cfg s) :
    Steps h cfg.branch s (fun u => u = s) (syncExistingRepository h cfg t) (fun _ => Level h cfg) := by
  apply Steps.bind Steps.check
  intro _
  apply Steps.bind Steps.status
  intro _
  apply Steps.of_start
  rintro _ ⟨rfl, hworkspace⟩
  apply Steps.bind archiveDirty_steps
  intro _
  apply Steps.bind Steps.check
  intro _
  cases hurl : cfg.url with
  | known => exact syncWithRemote_steps fun _ hs => hs.1.1.2
  | missing =>
    apply Steps.pure
    rintro u ⟨⟨⟨hsame, -⟩, hclean⟩, hremote⟩
    simp only [Bool.and_eq_true] at hremote
    exact hsame.level (hearly ⟨hworkspace, hremote.1, hurl, hclean⟩)
  | refused =>
    apply Steps.pure
    rintro u ⟨-, hremote⟩
    simp at hremote

end

/-! ## The run worktree -/

section
variable {h : History Commit Change} {cfg : Config} {t : Turn Commit} {name : String} {r c : Commit} {s : Cache Commit Change}

/-- The healing archives the commit `c` and resets to `r`. -/
structure Heals (h : History Commit Change) (cfg : Config) (r c : Commit) (s : Cache Commit Change) : Prop where
  remoteName : validRemoteName cfg = true
  managed : isManagedRepositoryCache cfg = true
  remote : s.remote = some r
  ahead : ∃ tip, s.branches cfg.branch = some tip ∧ h.reaches r tip = false
  head : s.headCommit = some c

def archived (c : Commit) (s : Cache Commit Change) : Cache Commit Change := { s with archives := c :: s.archives }

/-- The cache after the healing. -/
def healed (h : History Commit Change) (r c : Commit) (s : Cache Commit Change) : Cache Commit Change :=
  { (archived c s).moveHead r with dirty := s.dirty.filter (survives h r) }

/-- The healing does no harm: what it drops is archived, and the default branch is checked out.
Another head is left where it is only if it is at the remote's commit, or detached; then the call
does not succeed if the name of the run branch is taken. -/
structure Spared (h : History Commit Change) (cfg : Config) (name : String) (r c : Commit) (s : Cache Commit Change) : Prop where
  dispensable : Dispensable h r (archived c s)
  place : s.head = .branch cfg.branch ∨ s.branches name ≠ none ∧ ∀ n, s.head = .branch n → c = r

theorem healed_branches_of_ne {n : String} (hn : s.head ≠ .branch n) : (healed h r c s).branches n = s.branches n := by
  cases hh : s.head with
  | detached d => simp [healed, archived, Repo.moveHead, hh]
  | branch m =>
    have hne : n ≠ m := fun he => hn (by rw [hh, he])
    simpa only [healed, archived, Repo.moveHead, hh] using Function.update_of_ne hne ..

theorem healed_branches_self {n : String} (hn : s.head = .branch n) : (healed h r c s).branches n = some r := by
  simpa only [healed, archived, Repo.moveHead, hn] using Function.update_self ..

theorem healed_remote : (healed h r c s).remote = s.remote := by
  cases hh : s.head <;> simp [healed, archived, Repo.moveHead, hh]

theorem healed_kept : (healed h r c s).kept = c :: s.kept := by
  cases hh : s.head <;> simp [healed, archived, Repo.moveHead, Repo.kept, hh]

theorem nothingLost_archived : NothingLost h name s (archived c s) := by
  have harchive : archive (some c) s = some (archived c s) := rfl
  exact nothingLost_archive harchive

theorem resetHard_archived (r : Commit) : resetHard h r (archived c s) = some (healed h r c s) := rfl

/-- A head that is at the remote's commit, or detached, takes no branch along. -/
theorem nothingLost_healed_elsewhere (hhead : s.headCommit = some c)
    (hdirty : Dispensable h r (archived c s)) (hat : ∀ n, s.head = .branch n → c = r) :
    NothingLost h cfg.branch (archived c s) (healed h r c s) := by
  apply NothingLost.of_unmoved
  · intro n tip hn
    by_cases hb : s.head = .branch n
    · have htip : s.branches n = some c := by rw [← Repo.headCommit_branch hb, hhead]
      rw [healed_branches_self hb, ← hat n hb, ← htip]
      exact hn
    · rw [healed_branches_of_ne hb]
      exact hn
  · exact changes_reset hdirty
  · rw [healed_kept]
    exact List.Subset.refl _

/-- After the healing of a spared cache. -/
theorem nothingLost_healed (hheals : Heals h cfg r c s) (hspared : Spared h cfg name r c s) :
    NothingLost h cfg.branch (archived c s) (healed h r c s) ∧
      (Level h cfg (healed h r c s) ∨ (healed h r c s).branches name ≠ none) := by
  cases hspared.place with
  | inl hdefault =>
    have hbranch : s.branches cfg.branch = some c := by rw [← Repo.headCommit_branch hdefault, hheals.head]
    constructor
    · refine nothingLost_resetHard hdefault ?_ hspared.dispensable (resetHard_archived r)
      intro tip htip
      have : tip = c := Option.some.inj (htip.symm.trans hbranch)
      simp [Repo.kept, archived, this]
    · refine .inl fun r' c' hr' hc' => ?_
      rw [healed_remote, hheals.remote] at hr'
      rw [healed_branches_self hdefault] at hc'
      cases hr'
      cases hc'
      exact h.reaches_refl r
  | inr hother =>
    have hlost : NothingLost h cfg.branch (archived c s) (healed h r c s) :=
      nothingLost_healed_elsewhere hheals.head hspared.dispensable hother.2
    refine ⟨hlost, .inr ?_⟩
    obtain ⟨tip, htip⟩ := Option.ne_none_iff_exists'.mp hother.1
    by_cases hb : s.head = .branch name
    · simp [healed_branches_self hb]
    · simp [healed_branches_of_ne hb, htip]

theorem heal_steps (hname : validRemoteName cfg = true) (hspared : ∀ r c, Heals h cfg r c s → Spared h cfg name r c s) :
    Steps h cfg.branch s (fun u => u = s) (healManagedDefaultBranchAhead h cfg t)
      (fun _ u => Level h cfg u ∨ u.branches name ≠ none) := by
  apply Steps.bind divergence_steps
  rintro ⟨behind, ahead⟩
  cases ahead with
  | false => exact Steps.check.weaken (fun _ hs => hs) fun _ _ hs => .inl hs.1.2.level
  | true =>
    apply Steps.of_start
    intro u hu
    have hstands := hu.2
    rw [hu.1] at hstands ⊢
    apply Steps.bind Steps.check
    intro _
    apply Steps.of_start
    intro v hv
    have hmanaged := hv.2
    rw [hv.1]
    apply Steps.bind (C := fun _ v => ∃ r c, Heals h cfg r c s ∧ v = archived c s)
    · apply Steps.bind (Steps.read fun u v hv => (revParseHead_eq_some hv).1)
      intro _
      apply Steps.git
      rintro _ v rfl hv
      obtain ⟨c, hc, rfl⟩ := archive_eq_some hv
      obtain ⟨r, tip, hr, htip⟩ := hstands.known
      exact ⟨nothingLost_archived, r, c, ⟨hname, hmanaged, hr, ⟨tip, htip, (hstands.ahead_iff r tip hr htip).mp rfl⟩, hc⟩, rfl⟩
    · intro _
      apply Steps.git
      rintro _ u ⟨r, c, hheals, rfl⟩ hu
      have hremote : (archived c s).remote = some r := hheals.remote
      rw [hremote, Option.bind_some, resetHard_archived] at hu
      cases hu
      exact nothingLost_healed hheals (hspared r c hheals)

theorem addWorktree_steps {s₀ : Cache Commit Change} : Steps h cfg.branch s₀ (fun u => Level h cfg u ∨ u.branches name ≠ none)
    (addWorktree t name) (fun _ => Level h cfg) := by
  apply Steps.bind freeName_steps
  intro _
  apply Steps.bind Steps.status
  intro _
  apply Steps.bind (C := fun _ => Level h cfg)
  · apply Steps.git
    intro s u hs hu
    refine ⟨nothingLost_newBranch hu, newBranch_level (hs.resolve_right fun hne => hne ?_) hu⟩
    exact (newBranch_eq_some hu).1
  · intro _
    exact Steps.status

theorem checkoutRunWorktree_steps (hspared : ∀ r c, Heals h cfg r c s → Spared h cfg name r c s) :
    Steps h cfg.branch s (fun u => u = s) (checkoutRunWorktree h cfg t name) (fun _ => Level h cfg) := by
  apply Steps.bind Steps.check
  intro _
  apply Steps.of_start
  rintro _ ⟨rfl, hadmitted⟩
  simp only [Bool.and_eq_true] at hadmitted
  apply Steps.bind Steps.status
  intro _
  apply Steps.bind (Steps.read fun _ _ => remoteRef_eq_some)
  intro _
  apply Steps.bind (heal_steps hadmitted.1 hspared)
  intro _
  exact addWorktree_steps

/-! ## The harm of an unspared healing -/

theorem check_of {p : Cache Commit Change → Bool} (hp : p s = true) : check p s = .ok () s := by
  rw [check, hp]
  rfl

theorem git_of {step : Step} {command : Cache Commit Change → Option (Cache Commit Change)} {u : Cache Commit Change}
    (hok : t.ok step = true) (hu : command s = some u) : git t step command s = .ok () u := by
  rw [git, hok, if_pos rfl, hu]

theorem git_refused {step : Step} {command : Cache Commit Change → Option (Cache Commit Change)}
    (hok : t.ok step = false) : git t step command s = .error () s := by
  rw [git, hok]
  rfl

/-- The commands up to the new worktree succeed. -/
def UpToWorktree (t : Turn Commit) : Prop :=
  ∀ step ∈ [Step.destination, .verify, .divergence, .shortHead, .updateRef, .reset], t.ok step = true

theorem archiveAndReset_run (ht : UpToWorktree t) (hheals : Heals h cfg r c s) :
    archiveAndResetManagedDefaultBranch h cfg t s = .ok () (healed h r c s) := by
  have hcheck : check (fun _ => isManagedRepositoryCache cfg) s = .ok () s := check_of hheals.managed
  have hhead : git t .shortHead revParseHead s = .ok () s :=
    git_of (ht _ (by simp)) (by rw [revParseHead, hheals.head, Option.map_some])
  have harchive : git t .updateRef (fun u => archive u.headCommit u) s = .ok () (archived c s) :=
    git_of (ht _ (by simp)) (by rw [archive, hheals.head, Option.map_some, archived])
  have hreset : git t .reset (fun u => u.remote.bind fun r => resetHard h r u) (archived c s) = .ok () (healed h r c s) := by
    have hremote : (archived c s).remote = some r := hheals.remote
    exact git_of (ht _ (by simp)) (by rw [hremote, Option.bind_some, resetHard_archived])
  have hboth : archiveLocalDefaultBranch t s = .ok () (archived c s) := (run_bind_ok hhead).trans harchive
  exact (run_bind_ok hcheck).trans ((run_bind_ok hboth).trans hreset)

theorem heal_run (ht : UpToWorktree t) (hheals : Heals h cfg r c s) :
    healManagedDefaultBranchAhead h cfg t s = .ok () (healed h r c s) := by
  obtain ⟨tip, htip, hahead⟩ := hheals.ahead
  have hdivergence : defaultBranchDivergence h cfg t .divergence s = .ok (!h.reaches tip r, true) s := by
    have hok : t.ok .divergence = true := ht _ (by simp)
    simp only [defaultBranchDivergence, hok, if_true, hheals.remote, htip, hahead, Bool.not_false]
  exact (run_bind_ok hdivergence).trans (archiveAndReset_run ht hheals)

theorem checkoutRunWorktree_run (ht : UpToWorktree t) (hheals : Heals h cfg r c s) :
    checkoutRunWorktree h cfg t name s = addWorktree t name (healed h r c s) := by
  have hworkspace : cfg.inWorkspace = true := by
    have hmanaged := hheals.managed
    simp only [isManagedRepositoryCache, Bool.and_eq_true] at hmanaged
    exact hmanaged.1
  have hcheck : check (fun _ => validRemoteName cfg && cfg.inWorkspace) s = .ok () s :=
    check_of (by rw [hheals.remoteName, hworkspace, Bool.and_self])
  have hdestination : git t .destination some s = .ok () s := git_of (ht _ (by simp)) rfl
  have hverify : git t .verify remoteRef s = .ok () s :=
    git_of (ht _ (by simp)) (by rw [remoteRef, hheals.remote, Option.map_some])
  exact (run_bind_ok hcheck).trans ((run_bind_ok hdestination).trans ((run_bind_ok hverify).trans
    (run_bind_ok (heal_run ht hheals))))

/-- A step that leaves the repository alone hands it to the next one. -/
theorem endState_bind_unchanged {m : Act Commit Change Unit} {f : Unit → Act Commit Change Unit} {u : Cache Commit Change}
    (hm : (∃ x, m u = .ok x u) ∨ m u = .error () u) (hf : ∀ x, endState (f x u) = u) : endState ((m >>= f) u) = u := by
  obtain ⟨x, hm⟩ | hm := hm
  · rw [run_bind_ok hm]
    exact hf x
  · rw [run_bind_error hm]
    rfl

/-- The new worktree is refused: the cache stays as the healing left it. -/
theorem addWorktree_refused (hcreate : t.ok .create = false) (u : Cache Commit Change) :
    endState (addWorktree t name u) = u := by
  apply endState_bind_unchanged
  · rw [freeName, check]
    split
    · exact .inl ⟨(), rfl⟩
    · exact .inr rfl
  · intro _
    apply endState_bind_unchanged
    · obtain ⟨v, hv, hrun⟩ | hrun := git_cases t .room some u
      · cases hv
        exact .inl ⟨(), hrun⟩
      · exact .inr hrun
    · intro _
      rw [run_bind_error (git_refused hcreate)]
      rfl

/-- The turn in which every command succeeds but those at one step. -/
def without (c : Commit) (step : Step) : Turn Commit where
  ok := fun x => decide (x ≠ step)
  fetched := c
  pulled := c

theorem nothingLost_of_safe (hheals : Heals h cfg r c s) (hsafe : Safe h cfg (fun t => checkoutRunWorktree h cfg t name) s) :
    NothingLost h cfg.branch s (healed h r c s) := by
  have ht : UpToWorktree (without r .create) := by
    simp [UpToWorktree, without]
  have hrun : NothingLost h cfg.branch s (endState (checkoutRunWorktree h cfg (without r .create) name s)) :=
    (hsafe (without r .create)).1
  rw [checkoutRunWorktree_run ht hheals, addWorktree_refused rfl] at hrun
  exact hrun

/-- Where another head is checked out, a run worktree is made beside a default branch that is still ahead. -/
theorem default_of_safe (hheals : Heals h cfg r c s) (hname : s.branches name = none)
    (hsafe : Safe h cfg (fun t => checkoutRunWorktree h cfg t name) s) : s.head = .branch cfg.branch := by
  by_contra hother
  obtain ⟨tip, htip, hahead⟩ := hheals.ahead
  have ht : UpToWorktree (without r .status) := by
    simp [UpToWorktree, without]
  have hfree : (healed h r c s).branches name = none := by
    rw [healed_branches_of_ne, hname]
    intro hb
    have hhead := hheals.head
    rw [Repo.headCommit_branch hb, hname] at hhead
    cases hhead
  have hremote : (healed h r c s).remote = some r := healed_remote.trans hheals.remote
  have hdone : addWorktree (without r .status) name (healed h r c s) =
      .ok () { healed h r c s with branches := Function.update (healed h r c s).branches name (some r) } := by
    have hfreeName : freeName (without r .status) name (healed h r c s) = .ok () (healed h r c s) := check_of (by simp [hfree])
    have hroom : git (without r .status) .room some (healed h r c s) = .ok () (healed h r c s) := git_of rfl rfl
    have hcreate : git (without r .status) .create (fun u => newBranch name u.remote u) (healed h r c s) =
        .ok () { healed h r c s with branches := Function.update (healed h r c s).branches name (some r) } :=
      git_of rfl (by simp only [newBranch, hfree, hremote, Option.map_some])
    exact (run_bind_ok hfreeName).trans ((run_bind_ok hroom).trans ((run_bind_ok hcreate).trans (git_of rfl rfl)))
  have hlevel : isOk (checkoutRunWorktree h cfg (without r .status) name s) = true →
      Level h cfg (endState (checkoutRunWorktree h cfg (without r .status) name s)) := (hsafe (without r .status)).2
  rw [checkoutRunWorktree_run ht hheals, hdone] at hlevel
  have hne : cfg.branch ≠ name := fun he => by simp [he, hname] at htip
  have hbranch : Function.update (healed h r c s).branches name (some r) cfg.branch = some tip := by
    rw [Function.update_of_ne hne, healed_branches_of_ne hother, htip]
  have hreaches := hlevel rfl r tip hremote hbranch
  rw [hahead] at hreaches
  cases hreaches

theorem spared_of_safe (hheals : Heals h cfg r c s) (hsafe : Safe h cfg (fun t => checkoutRunWorktree h cfg t name) s) :
    Spared h cfg name r c s := by
  have hlost := nothingLost_of_safe hheals hsafe
  constructor
  · intro x hx hdropped
    cases hlost.changes x hx with
    | inl hd =>
      have hsurvives := (List.mem_filter.mp hd).2
      rw [hdropped] at hsurvives
      cases hsurvives
    | inr hk =>
      rw [healed_kept] at hk
      exact hk
  · by_cases hname : s.branches name = none
    · exact .inl (default_of_safe hheals hname hsafe)
    · by_cases hdefault : s.head = .branch cfg.branch
      · exact .inl hdefault
      · refine .inr ⟨hname, fun n hn => ?_⟩
        have hne : n ≠ cfg.branch := fun he => hdefault (by rw [hn, he])
        have hbranch : s.branches n = some c := by rw [← Repo.headCommit_branch hn, hheals.head]
        have hmoved := hlost.branches n hne c hbranch
        rw [healed_branches_self hn] at hmoved
        exact (Option.some.inj hmoved).symm

end

/-! ## The three entry points -/

section
variable [DecidableEq Commit] (h : History Commit Change) (cfg : Config)

/-- A dirty run branch is archived. -/
theorem archiveDirtyManagedRunBranch_run {s : Cache Commit Change} (r : Commit) (hmanaged : isManagedRepositoryCache cfg = true)
    (hbranch : onRunBranch s = true) (hdirty : s.dirty.isEmpty = false) :
    ∃ u, SameRefs s u ∧ archiveDirtyManagedRunBranch h cfg (without r .previousStash) s = .ok () u := by
  obtain ⟨c, hc⟩ : ∃ c, s.headCommit = some c := by
    rw [onRunBranch] at hbranch
    rw [Repo.headCommit]
    cases hh : s.head with
    | branch n =>
      simp only [hh, Bool.and_eq_true] at hbranch
      exact Option.isSome_iff_exists.mp hbranch.1
    | detached d => exact ⟨d, rfl⟩
  let stashed : Cache Commit Change := { s with dirty := [], stashes := h.stash c s.dirty :: s.stashes }
  let kept : Cache Commit Change := { stashed with archives := h.stash c s.dirty :: s.archives }
  refine ⟨kept, ⟨rfl, rfl⟩, ?_⟩
  have hcheck : check (fun u => isManagedRepositoryCache cfg && (without r .previousStash).ok .currentBranch && onRunBranch u) s =
      .ok () s := check_of (by simp [hmanaged, hbranch, without])
  have hhead : git (without r .previousStash) .dirtyHead revParseHead s = .ok () s :=
    git_of rfl (by rw [revParseHead, hc, Option.map_some])
  have hstash : git (without r .previousStash) .stash (stashPush h) s = .ok () stashed :=
    git_of rfl (by simp only [stashPush, hdirty, Bool.false_eq_true, if_false, hc, Option.map_some, stashed])
  have hseen : check (fun u => (stashRef (without r .previousStash) .currentStash u).isSome &&
      decide (stashRef (without r .previousStash) .currentStash u ≠ stashRef (without r .previousStash) .previousStash s)) stashed =
      .ok () stashed := check_of (by simp [stashRef, without, stashed])
  have hkept : git (without r .previousStash) .dirtyRef (fun u => archive u.stashes.head? u) stashed = .ok () kept := git_of rfl rfl
  exact (run_bind_ok hcheck).trans ((run_bind_ok hhead).trans ((run_bind_ok hstash).trans ((run_bind_ok hseen).trans hkept)))

/-- The sync that ends without a remote leaves the branches as they are. -/
theorem syncExistingRepository_early {s : Cache Commit Change} (hearly : EndsEarly cfg s)
    (hsafe : Safe h cfg (syncExistingRepository h cfg) s) : Level h cfg s := by
  intro r tip hr htip
  have harchived : ∃ u, SameRefs s u ∧ archiveDirty h cfg (without r .previousStash) s = .ok () u := by
    cases hdirty : s.dirty.isEmpty with
    | true =>
      refine ⟨s, ⟨rfl, rfl⟩, ?_⟩
      change (if s.dirty.isEmpty then pure () else archiveDirtyManagedRunBranch h cfg (without r .previousStash)) s = .ok () s
      rw [hdirty]
      rfl
    | false =>
      obtain ⟨hmanaged, hbranch⟩ := hearly.clean.resolve_left fun he => by simp [he] at hdirty
      obtain ⟨u, hsame, hrun⟩ := archiveDirtyManagedRunBranch_run h cfg r hmanaged hbranch hdirty
      refine ⟨u, hsame, ?_⟩
      change (if s.dirty.isEmpty then pure () else archiveDirtyManagedRunBranch h cfg (without r .previousStash)) s = .ok () u
      rw [hdirty]
      exact hrun
  obtain ⟨u, hsame, hdirty⟩ := harchived
  have hworkspace : check (fun _ => cfg.inWorkspace) s = .ok () s := check_of hearly.inWorkspace
  have hstatus : git (without r .previousStash) .status some s = .ok () s := git_of rfl rfl
  have hremote : check (fun _ => validRemoteName cfg && decide (cfg.url ≠ .refused)) u = .ok () u :=
    check_of (by simp [hearly.remoteName, hearly.missing])
  have hrun : syncExistingRepository h cfg (without r .previousStash) s = .ok () u := by
    refine (run_bind_ok hworkspace).trans ((run_bind_ok hstatus).trans ((run_bind_ok hdirty).trans ((run_bind_ok hremote).trans ?_)))
    rw [hearly.missing]
    rfl
  have hlevel := (hsafe (without r .previousStash)).2
  rw [hrun] at hlevel
  exact hlevel rfl r tip (hsame.2.trans hr) (by rw [← htip, ← hsame.1]; rfl)

/-- The run branch is always made without a loss. The sync falls short only where it ends without
a remote, and the run worktree where it heals a cache that is not spared. -/
theorem healing_safe_iff (s : Cache Commit Change) :
    (Safe h cfg (syncExistingRepository h cfg) s ↔ (EndsEarly cfg s → Level h cfg s)) ∧
    (∀ name, Safe h cfg (fun t => checkoutRunBranch h cfg t name) s) ∧
    (∀ name, Safe h cfg (fun t => checkoutRunWorktree h cfg t name) s ↔
      ∀ r c, Heals h cfg r c s → Spared h cfg name r c s) := by
  refine ⟨⟨fun hsafe hearly => ?_, fun hearly => ?_⟩, fun name => ?_, fun name => ⟨fun hsafe r c hheals => ?_, fun hspared => ?_⟩⟩
  · exact syncExistingRepository_early h cfg hearly hsafe
  · exact Steps.safe fun _ => syncExistingRepository_steps hearly
  · exact checkoutRunBranch_safe h cfg name s
  · exact spared_of_safe hheals hsafe
  · exact Steps.safe fun _ => checkoutRunWorktree_steps hspared

end

/-! ## A run worktree beside a feature branch -/

/-- Commits as the changes they are made of, the latest first. -/
def stackedHistory : History (List Nat) Nat where
  reaches := fun a b => b.isSuffixOf a
  tracked := fun _ => true
  inTheWay := fun _ _ => false
  stash := fun c changes => changes ++ c
  keeps := fun c x => decide (x ∈ c)
  reaches_refl := fun c => List.isSuffixOf_iff_suffix.mpr (List.suffix_refl c)
  reaches_trans := fun _ _ _ hab hbc => List.isSuffixOf_iff_suffix.mpr
    ((List.isSuffixOf_iff_suffix.mp hbc).trans (List.isSuffixOf_iff_suffix.mp hab))
  keeps_stash := fun _ _ _ hx => decide_eq_true (List.mem_append_left _ hx)

def cacheConfig : Config where
  inWorkspace := true
  path := ""
  defaultBranch := "main"
  remoteName := "origin"
  url := .known

/-- The default branch has a commit of its own, and so has the feature branch that is checked out. -/
def featureCache : Cache (List Nat) Nat where
  branches := fun n => if n = "main" then some [2, 1] else if n = "feature" then some [3, 1] else none
  head := .branch "feature"
  remote := some [1]
  dirty := [4]
  archives := []
  stashes := []

/-- The feature branch is moved. -/
theorem feature_moved : ¬ Safe stackedHistory cacheConfig
    (fun t => checkoutRunWorktree stackedHistory cacheConfig t "aca/run") featureCache := by
  intro hsafe
  have hheals : Heals stackedHistory cacheConfig [1] [3, 1] featureCache :=
    ⟨by decide +kernel, by decide +kernel, rfl, ⟨[2, 1], rfl, rfl⟩, rfl⟩
  have hlost := nothingLost_of_safe hheals hsafe
  have hmoved := hlost.branches "feature" (by decide) [3, 1] rfl
  rw [healed_branches_self rfl] at hmoved
  cases hmoved

end RepoHealing
