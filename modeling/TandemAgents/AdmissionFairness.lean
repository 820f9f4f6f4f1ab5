import TandemAgents.AdmissionLoop

/-!
# A plan accounts for every task and is fair

Every task the planner looks at ends up admitted or blocked, once, and nothing remains
in a queue. While two projects both wait, neither is ahead of the other by more than one
task.
-/
namespace AdmissionFairness

open KeyedTable PythonText TaskContract CoordinationStore Scheduler RoundRobin AdmissionLoop

set_option maxRecDepth 20000

/-- What every entry of a plan says of its task. -/
structure Ref where
  taskKey : String
  projectKey : String
  repoKey : String

def taskRef (t : Listed) : Ref := ⟨t.task.taskKey, taskProjectKey t.task, taskRepoKey t.task⟩
def admittedRef (e : Admitted) : Ref := ⟨e.taskKey, e.projectKey, e.repoKey⟩
def blockedRef (e : Blocked) : Ref := ⟨e.taskKey, e.projectKey, e.repoKey⟩

/-- The queued tasks a plan is about. -/
def plannedQueue (cfg : Config) (projectKeys : List String) (limit : Option Int) (queued : List Listed) : List Listed :=
  (queued.filter (fun t => inProjects projectKeys t.task)).take (requestedLimit cfg limit).toNat

def plannedActive (all : List Listed) : List Listed := all.filter (fun t => t.task.state.isActive)

/-! ## Entries name their task -/

theorem gateTask_ref {lower : String → String} {cfg : Config} {x : Services} {t : Listed} {e : Blocked}
    (h : gateTask lower cfg x t = some e) : blockedRef e = taskRef t := by
  unfold gateTask gateEntry at h
  cases ht : withheldByTriage cfg x t.task with
  | true =>
    rw [ht, if_pos rfl] at h
    obtain rfl := Option.some.inj h
    simp only [blockedRef, taskRef]
  | false =>
    cases hl : withheldByLinear lower x t.task with
    | some b =>
      simp only [ht, hl, Bool.false_eq_true, if_false] at h
      obtain rfl := Option.some.inj h
      simp only [blockedRef, taskRef]
    | none =>
      simp only [ht, hl, Bool.false_eq_true, if_false] at h
      split_ifs at h
      · obtain rfl := Option.some.inj h
        simp only [blockedRef, taskRef]
      · obtain rfl := Option.some.inj h
        simp only [blockedRef, taskRef]

theorem refuse_ref {cap : Capacity} {l : Ledger} {project : String} {t : Listed} {e : Blocked}
    (h : refuse cap l project t = some e) : blockedRef e = ⟨t.task.taskKey, project, taskRepoKey t.task⟩ := by
  unfold refuse loopEntry at h
  dsimp only at h
  split_ifs at h <;> obtain rfl := Option.some.inj h <;> simp only [blockedRef]

theorem admittedEntry_ref (cfg : Config) (x : Services) (queued : List Listed) (project : String) (t : Listed) :
    admittedRef (admittedEntry cfg x queued project t) = ⟨t.task.taskKey, project, taskRepoKey t.task⟩ := by
  simp only [admittedRef, admittedEntry]

theorem drainedEntry_ref (reason : BlockReason) (t : Listed) : blockedRef (drainedEntry reason t) = taskRef t := by
  simp only [blockedRef, drainedEntry, taskRef]

/-! ## Every task is accounted for -/

/-- All tasks of a loop, where they stand. -/
def refs (s : Loop) : List Ref := s.admitted.map admittedRef ++ (s.blocked.map blockedRef ++ s.left.map taskRef)

/-- A blocked task moves from its queue to the blocked ones. -/
theorem refs_block {s : Loop} {project : String} {t : Listed} {e : Blocked} (ht : s.head? project = some t)
    (he : blockedRef e = taskRef t) : (refs (s.block project e)).Perm (refs s) := by
  have hleft := (left_popleft ht).map taskRef
  rw [List.map_cons] at hleft
  rw [refs, refs, Loop.block_admitted, Loop.block_blocked, Loop.block_left, List.map_append, List.map_singleton, he,
    List.append_assoc, List.singleton_append]
  exact (hleft.symm.append_left _).append_left _

theorem refs_admitted {s : Loop} {e : Admitted} (ht : s.head? e.projectKey = some e.task)
    (he : admittedRef e = taskRef e.task) : (refs ( s.admit e)).Perm (refs s) := by
  have hleft := (left_popleft ht).map taskRef
  rw [List.map_cons] at hleft
  rw [refs, refs, Loop.admit_admitted, Loop.admit_blocked, Loop.admit_left, List.map_append, List.map_singleton, he,
    List.append_assoc, List.singleton_append]
  refine List.Perm.append_left _ ?_
  exact List.perm_middle.symm.trans (hleft.symm.append_left _)

section
variable {lower : String → String} {cfg : Config} {x : Services} {queued active : List Listed}

/-- The gate blocks a task or lets it through. -/
theorem gate_refs (queued : List Listed) : ((gateBlocked lower cfg x queued).map blockedRef ++
    (candidates lower cfg x queued).map taskRef).Perm (queued.map taskRef) := by
  induction queued with
  | nil => exact List.Perm.refl _
  | cons t ts ih =>
    unfold gateBlocked candidates at ih ⊢
    rw [List.filterMap_cons, List.filter_cons, List.map_cons]
    cases hg : gateTask lower cfg x t with
    | some e =>
      have href := gateTask_ref hg
      simp only [Option.isNone_some, Bool.false_eq_true, decide_false, if_false, List.map_cons, href,
        List.cons_append]
      exact ih.cons _
    | none =>
      simp only [Option.isNone_none, decide_true, if_true, List.map_cons]
      exact List.perm_middle.trans (ih.cons _)

theorem loopStart_refs : (refs (loopStart lower cfg x queued active)).Perm (queued.map taskRef) := by
  have hleft := (groupedQueue_tasks lower cfg x queued).map taskRef
  have hstart : refs (loopStart lower cfg x queued active) = (gateBlocked lower cfg x queued).map blockedRef ++
      ((groupedQueue lower cfg x queued).rows.flatMap (·.tasks)).map taskRef := rfl
  rw [hstart]
  exact (hleft.append_left _).trans (gate_refs queued)

theorem loopEnd_refs : (refs (loopEnd lower cfg x queued active)).Perm (queued.map taskRef) := by
  have hinv : Sorted (loopEnd lower cfg x queued active).grouped ∧
      (refs (loopEnd lower cfg x queued active)).Perm (queued.map taskRef) := by
    refine loopEnd_invariant (I := fun s => Sorted s.grouped ∧ (refs s).Perm (queued.map taskRef))
      ⟨groupedQueue_sorted lower cfg x queued, loopStart_refs⟩ (fun s project t e h ht he => ?_)
      (fun s project t h ht _ _ => ?_)
    · have href : blockedRef e = taskRef t := by
        rw [refuse_ref he, taskRef, h.1.head ht]
      exact ⟨h.1.popleft project, (refs_block ht href).trans h.2⟩
    · have href : admittedRef (admittedEntry cfg x queued project t) = taskRef t := by
        rw [admittedEntry_ref, taskRef, h.1.head ht]
      exact ⟨h.1.popleft project, (refs_admitted ht href).trans h.2⟩
  exact hinv.2

/-! ## The loop comes to an end -/

variable (cfg x queued active) in
theorem planned_less (s : Loop) (project : String) (h : (planned cfg x queued active).waiting s project = true) :
    ((planned cfg x queued active).serve s project).left.length < s.left.length := by
  obtain ⟨t, ht, ⟨e, -, hs⟩ | ⟨-, hs⟩⟩ := planned_serve h
  · have hlen := (left_popleft ht).length_eq
    rw [hs, Loop.block_left, hlen, List.length_cons]
    exact Nat.lt_succ_self _
  · have hlen := (left_popleft ht).length_eq
    rw [hs, Loop.admit_left, admittedEntry_projectKey, hlen, List.length_cons]
    exact Nat.lt_succ_self _

theorem loopStart_left : (loopStart lower cfg x queued active).left.length ≤ queued.length := by
  have hlen := (groupedQueue_tasks lower cfg x queued).length_eq
  have hleft : (loopStart lower cfg x queued active).left =
      (groupedQueue lower cfg x queued).rows.flatMap (·.tasks) := rfl
  rw [hleft, hlen]
  exact List.length_filter_le _ _

/-- No project joins the loop later. -/
theorem loopEnd_projects (project : String) (h : ((loopEnd lower cfg x queued active).head? project).isSome = true) :
    project ∈ orderedProjects (groupedQueue lower cfg x queued) := by
  have hinv : ∀ p, ((loopEnd lower cfg x queued active).head? p).isSome = true →
      p ∈ orderedProjects (groupedQueue lower cfg x queued) := by
    refine loopEnd_invariant (I := fun s => ∀ p, (s.head? p).isSome = true →
      p ∈ orderedProjects (groupedQueue lower cfg x queued)) ?_ ?_ ?_
    · intro p hp
      have hmem : p ∈ orderedProjects (loopStart lower cfg x queued active).grouped := mem_orderedProjects hp
      exact hmem
    · intro s p t e hI _ _ q hq
      rw [Loop.block_head?] at hq
      exact hI q (head?_popleft hq)
    · intro s p t hI _ _ _ q hq
      rw [Loop.admit_head?] at hq
      exact hI q (head?_popleft hq)
  exact hinv project h

/-- The loop stops because no room or no task is left, and more passes change nothing. -/
def Terminates (lower : String → String) (cfg : Config) (x : Services) (queued active : List Listed) : Prop :=
  ¬ (((loopEnd lower cfg x queued active).admitted.length : Int) < (capacity cfg x active).maxTotal ∧
    (loopEnd lower cfg x queued active).pending = true) ∧
  ∀ more : Nat, admissionLoop (capacity cfg x active) (admittedEntry cfg x queued)
      (orderedProjects (groupedQueue lower cfg x queued)) (queued.length + more)
      (loopStart lower cfg x queued active) = loopEnd lower cfg x queued active

theorem loop_terminates : Terminates lower cfg x queued active := by
  constructor
  rotate_left
  · intro more
    have hmore := Server.rounds_enough (fun s : Loop => s.left.length) (planned_less cfg x queued active)
      (orderedProjects (groupedQueue lower cfg x queued)) queued.length more
      (loopStart lower cfg x queued active) loopStart_left
    rw [loopEnd_eq, ← hmore]
    exact admissionLoop_eq _ _ _
  · rintro ⟨hroom, hpending⟩
    have hidle := Server.rounds_end (fun s : Loop => s.left.length) (planned_less cfg x queued active)
      (orderedProjects (groupedQueue lower cfg x queued)) queued.length
      (loopStart lower cfg x queued active) loopStart_left
    rw [← loopEnd_eq] at hidle
    obtain hfull | hnone := hidle
    · exact absurd hroom (not_lt.mpr (planned_full.mp hfull))
    · obtain ⟨project, hp⟩ := head?_of_pending hpending
      have hfalse : ((loopEnd lower cfg x queued active).head? project).isSome = false :=
        hnone project (loopEnd_projects project hp)
      exact Bool.false_ne_true (hfalse.symm.trans hp)

/-- Tasks are left over only where a total capacity is reached. -/
theorem capacityReason_of_full {n : Nat} (h : (capacity cfg x active).maxTotal ≤ n) :
    (capacityReason cfg x active n).isSome = true := by
  unfold capacity remainingWorkerSlots remainingActiveSlots at h
  unfold capacityReason
  dsimp only at h
  split_ifs with hworkers hactive
  · rfl
  · rfl
  · exfalso
    split_ifs at h with hpos <;> omega

theorem loopEnd_left (h : (capacityReason cfg x active (loopEnd lower cfg x queued active).admitted.length).isSome = false) :
    (loopEnd lower cfg x queued active).left = [] := by
  have hroom : ((loopEnd lower cfg x queued active).admitted.length : Int) < (capacity cfg x active).maxTotal := by
    refine not_le.mp fun hfull => ?_
    rw [capacityReason_of_full hfull] at h
    cases h
  refine left_of_not_pending (Bool.eq_false_iff.mpr fun hpending => ?_)
  exact loop_terminates.1 ⟨hroom, hpending⟩

/-! ## No project gets ahead -/

/-- The start of the loop and what every visit leaves behind. -/
def moments (lower : String → String) (cfg : Config) (x : Services) (queued active : List Listed) : List Loop :=
  loopStart lower cfg x queued active :: (planned cfg x queued active).rounds
    (orderedProjects (groupedQueue lower cfg x queued)) queued.length (loopStart lower cfg x queued active)

/-- How many tasks of a project are admitted or blocked. -/
def served (s : Loop) (project : String) : Nat :=
  s.admitted.countP (fun e => e.projectKey = project) + s.blocked.countP (fun e => e.projectKey = project)

/-- How many of these the loop itself has added. -/
def consumed (start s : Loop) (project : String) : Nat :=
  s.admitted.countP (fun e => e.projectKey = project) +
    (s.blocked.drop start.blocked.length).countP (fun e => e.projectKey = project)

theorem served_block (s : Loop) (project p : String) (e : Blocked) :
    served (s.block project e) p = served s p + (if e.projectKey = p then 1 else 0) := by
  rw [served, Loop.block_admitted, Loop.block_blocked, List.countP_append]
  by_cases h : e.projectKey = p <;> simp [served, h, Nat.add_assoc]

theorem served_admitted (s : Loop) (p : String) (e : Admitted) :
    served ( s.admit e) p = served s p + (if e.projectKey = p then 1 else 0) := by
  rw [served, Loop.admit_admitted, Loop.admit_blocked, List.countP_append]
  by_cases h : e.projectKey = p <;> simp [served, h, Nat.add_right_comm]

theorem served_serve {s : Loop} {project : String} (h : (planned cfg x queued active).waiting s project = true)
    (p : String) : served ((planned cfg x queued active).serve s project) p =
      served s p + (if project = p then 1 else 0) := by
  obtain ⟨t, ht, ⟨e, he, hs⟩ | ⟨-, hs⟩⟩ := planned_serve h
  · have href := congrArg Ref.projectKey (refuse_ref he)
    have hkey : e.projectKey = project := href
    rw [hs, served_block, hkey]
  · rw [hs, served_admitted, admittedEntry_projectKey]

variable (cfg x queued active) in
theorem served_counting : Server.Counting (planned cfg x queued active) served where
  self s project h := by rw [served_serve h, if_pos rfl]
  other s project p h hne := by rw [served_serve h, if_neg fun heq => hne heq.symm, Nat.add_zero]
  fewer s project p h hp := by
    obtain ⟨t, -, ⟨e, -, hs⟩ | ⟨-, hs⟩⟩ := planned_serve h
    · rw [hs] at hp
      have hq : ((s.block project e).head? p).isSome = true := hp
      rw [Loop.block_head?] at hq
      exact head?_popleft hq
    · rw [hs] at hp
      have hq : (( s.admit (admittedEntry cfg x queued project t)).head? p).isSome = true := hp
      rw [Loop.admit_head?] at hq
      exact head?_popleft hq

/-- The loop adds behind what the gate has blocked. -/
theorem moments_blocked {m : Loop} (hm : m ∈ moments lower cfg x queued active) :
    (loopStart lower cfg x queued active).blocked <+: m.blocked := by
  obtain rfl | hm := List.mem_cons.mp hm
  · exact List.prefix_rfl
  · refine Server.rounds_invariant (I := fun s : Loop => (loopStart lower cfg x queued active).blocked <+: s.blocked)
      (fun s project hs _ hw => ?_) _ _ _ List.prefix_rfl m hm
    obtain ⟨t, -, ⟨e, -, hserve⟩ | ⟨-, hserve⟩⟩ := planned_serve hw
    · rw [hserve, Loop.block_blocked]
      exact hs.trans (List.prefix_append _ _)
    · rw [hserve, Loop.admit_blocked]
      exact hs

theorem served_eq_consumed {start s : Loop} (hadm : start.admitted = []) (h : start.blocked <+: s.blocked)
    (p : String) : served s p = consumed start s p + served start p := by
  obtain ⟨rest, hrest⟩ := h
  rw [served, consumed, served, hadm, ← hrest, List.drop_left, List.countP_append, List.countP_nil]
  omega

/-- Of two projects that both wait neither is ahead by more than one task. -/
def Fair (lower : String → String) (cfg : Config) (x : Services) (queued active : List Listed) : Prop :=
  ∀ m ∈ moments lower cfg x queued active, ∀ p q : String,
    (m.head? p).isSome = true → (m.head? q).isSome = true →
      consumed (loopStart lower cfg x queued active) m p ≤ consumed (loopStart lower cfg x queued active) m q + 1

theorem loop_fair : Fair lower cfg x queued active := by
  intro m hm p q hp hq
  have hfair := Server.rounds_fair (served_counting cfg x queued active)
    (orderedProjects_nodup (groupedQueue lower cfg x queued)) queued.length
    (fun _ hk => mem_orderedProjects (s := loopStart lower cfg x queued active) hk) (List.mem_cons.mp hm) hp hq
  have hprefix := moments_blocked hm
  have hcp := served_eq_consumed rfl hprefix p
  have hcq := served_eq_consumed rfl hprefix q
  omega

end

/-! ## The plan -/

theorem planOf_admitted (lower : String → String) (cfg : Config) (x : Services) (projectKeys : List String)
    (limit : Option Int) (queued all : List Listed) :
    (planOf lower cfg x projectKeys limit queued all).admitted =
      (loopEnd lower cfg x (plannedQueue cfg projectKeys limit queued) (plannedActive all)).admitted := rfl

/-- The tasks left over are blocked too, so that nothing remains. -/
theorem planOf_blocked (lower : String → String) (cfg : Config) (x : Services) (projectKeys : List String)
    (limit : Option Int) (queued all : List Listed) :
    (planOf lower cfg x projectKeys limit queued all).blocked.map blockedRef =
        (loopEnd lower cfg x (plannedQueue cfg projectKeys limit queued) (plannedActive all)).blocked.map blockedRef ++
          (loopEnd lower cfg x (plannedQueue cfg projectKeys limit queued) (plannedActive all)).left.map taskRef ∧
      (planOf lower cfg x projectKeys limit queued all).remaining = [] := by
  unfold planOf
  dsimp only
  cases hr : (capacityReason cfg x (all.filter (fun t => t.task.state.isActive)) (loopEnd lower cfg x
      ((queued.filter (fun t => inProjects projectKeys t.task)).take (requestedLimit cfg limit).toNat)
      (all.filter (fun t => t.task.state.isActive))).admitted.length) with
  | some r =>
    constructor
    · rw [Option.map_some, Option.getD_some, List.map_append, List.map_map]
      have hdrained : blockedRef ∘ drainedEntry r = taskRef := funext fun t => drainedEntry_ref r t
      rw [hdrained]
      rfl
    · rfl
  | none =>
    have hleft := loopEnd_left (Option.isSome_eq_false_iff.mpr (Option.isNone_iff_eq_none.mpr hr))
    constructor
    · rw [plannedQueue, plannedActive, hleft]
      simp
    · rw [hleft]
      rfl

/-- The admission loop comes to an end. Its plan names each queued task it is about
once, as admitted or as blocked, and leaves none. While two projects both wait, the loop
is at most one task further with one of them. -/
theorem plan_complete (lower : String → String) (cfg : Config) (x : Services) (projectKeys : List String)
    (limit : Option Int) (queued all : List Listed) :
    Terminates lower cfg x (plannedQueue cfg projectKeys limit queued) (plannedActive all) ∧
      ((planOf lower cfg x projectKeys limit queued all).admitted.map admittedRef ++
        (planOf lower cfg x projectKeys limit queued all).blocked.map blockedRef).Perm
          ((plannedQueue cfg projectKeys limit queued).map taskRef) ∧
      (planOf lower cfg x projectKeys limit queued all).remaining = [] ∧
      Fair lower cfg x (plannedQueue cfg projectKeys limit queued) (plannedActive all) := by
  obtain ⟨hblocked, hremaining⟩ := planOf_blocked lower cfg x projectKeys limit queued all
  refine ⟨loop_terminates, ?_, hremaining, loop_fair⟩
  rw [planOf_admitted, hblocked]
  exact loopEnd_refs

end AdmissionFairness
