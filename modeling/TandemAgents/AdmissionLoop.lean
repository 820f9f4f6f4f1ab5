import Mathlib.Data.List.Count
import Mathlib.Data.List.Induction
import TandemAgents.RoundRobin
import TandemAgents.Scheduler

/-!
# The steps of the admission loop

The admission loop is a round robin over the projects, which blocks or admits the first
queued task of each. What the tallies say of the running tasks, and what lets a task
through, is stated once for all later arguments.
-/
namespace AdmissionLoop

open KeyedTable PythonText TaskContract CoordinationStore Scheduler RoundRobin

set_option maxRecDepth 20000

/-! ## The tallies -/

/-- The tallies over a list of tasks. -/
def tally (ts : List KnownTask) : Ledger :=
  ts.foldl (fun l t => l.occupy (taskProjectKey t) (taskRepoKey t) (taskFileScopes t)) .empty

theorem tally_ofActive (active : List Listed) : Ledger.ofActive active = tally (active.map (·.task)) := by
  rw [tally, List.foldl_map]
  rfl

theorem tally_snoc (ts : List KnownTask) (t : KnownTask) :
    tally (ts ++ [t]) = (tally ts).occupy (taskProjectKey t) (taskRepoKey t) (taskFileScopes t) := by
  rw [tally, List.foldl_append]
  rfl

theorem tally_byProject (ts : List KnownTask) (p : String) :
    (tally ts).activeByProject p = ts.countP (fun t => taskProjectKey t = p) := by
  induction ts using List.reverseRecOn with
  | nil => rfl
  | append_singleton ts t ih =>
    rw [tally_snoc, List.countP_append, ← ih]
    by_cases h : p = taskProjectKey t
    · simp [Ledger.occupy, h]
    · have h' : ¬ taskProjectKey t = p := fun heq => h heq.symm
      simp [Ledger.occupy, h, h']

theorem tally_byRepo (ts : List KnownTask) (r : String) :
    (tally ts).activeByRepo r = ts.countP (fun t => taskRepoKey t = r) := by
  induction ts using List.reverseRecOn with
  | nil => rfl
  | append_singleton ts t ih =>
    rw [tally_snoc, List.countP_append, ← ih]
    by_cases h : r = taskRepoKey t
    · simp [Ledger.occupy, h]
    · have h' : ¬ taskRepoKey t = r := fun heq => h heq.symm
      simp [Ledger.occupy, h, h']

theorem occupy_locked (l : Ledger) (p r : String) (scopes : List Scope) (r' : String) :
    (l.occupy p r scopes).activeRepoLocked r' = true ↔ (r' = r ∧ scopes = []) ∨ l.activeRepoLocked r' = true := by
  by_cases h : r' = r ∧ scopes = [] <;> simp [Ledger.occupy, h]

theorem occupy_scopes (l : Ledger) (p r : String) (scopes : List Scope) (r' : String) (x : Scope) :
    x ∈ (l.occupy p r scopes).activeScopesByRepo r' ↔ x ∈ l.activeScopesByRepo r' ∨ (r' = r ∧ x ∈ scopes) := by
  by_cases h : r' = r <;> simp [Ledger.occupy, h]

theorem exists_mem_snoc {α : Type} {xs : List α} {y : α} {P : α → Prop} :
    (∃ x ∈ xs ++ [y], P x) ↔ P y ∨ ∃ x ∈ xs, P x := by
  simp only [List.mem_append, List.mem_singleton, or_and_right, exists_or, exists_eq_left]
  exact or_comm

theorem tally_locked (ts : List KnownTask) (r : String) :
    (tally ts).activeRepoLocked r = true ↔ ∃ t ∈ ts, taskRepoKey t = r ∧ taskFileScopes t = [] := by
  induction ts using List.reverseRecOn with
  | nil => simp [tally, Ledger.empty]
  | append_singleton ts t ih =>
    rw [tally_snoc, occupy_locked, ih, exists_mem_snoc, eq_comm (a := r)]

theorem tally_scopes (ts : List KnownTask) (r : String) (x : Scope) :
    x ∈ (tally ts).activeScopesByRepo r ↔ ∃ t ∈ ts, taskRepoKey t = r ∧ x ∈ taskFileScopes t := by
  induction ts using List.reverseRecOn with
  | nil => simp [tally, Ledger.empty]
  | append_singleton ts t ih =>
    rw [tally_snoc, occupy_scopes, ih, exists_mem_snoc, or_comm, eq_comm (a := r)]

/-! ## Tasks that can run side by side -/

/-- One path is the other or lies under it. -/
def Overlap (a b : Scope) : Prop := a <+: b ∨ b <+: a

/-- Two tasks of one repository both name their files, and none of these overlap. -/
def Apart (t u : KnownTask) : Prop := taskRepoKey t = taskRepoKey u →
  taskFileScopes t ≠ [] ∧ taskFileScopes u ≠ [] ∧ ∀ a ∈ taskFileScopes t, ∀ b ∈ taskFileScopes u, ¬ Overlap a b

instance (a b : Scope) : Decidable (Overlap a b) := by unfold Overlap; infer_instance
instance (t u : KnownTask) : Decidable (Apart t u) := by unfold Apart; infer_instance

theorem Apart.symm {t u : KnownTask} (h : Apart t u) : Apart u t := by
  intro hrepo
  obtain ⟨ht, hu, hno⟩ := h hrepo.symm
  exact ⟨hu, ht, fun a ha b hb ho => hno b hb a ha (Or.symm ho)⟩

instance : Std.Symm Apart := ⟨fun _ _ h => h.symm⟩

/-- The comparison up to the shorter length is the prefix relation either way. -/
theorem pathsOverlap_iff {a b : Scope} (ha : a ≠ []) (hb : b ≠ []) : pathsOverlap a b = true ↔ Overlap a b := by
  unfold pathsOverlap Overlap
  simp only [decide_eq_true_eq, ne_eq, ha, hb, not_false_eq_true, true_and]
  rcases Nat.le_total a.length b.length with hle | hle
  · rw [Nat.min_eq_left hle, List.take_length]
    constructor
    · exact fun h => .inl (h ▸ List.take_prefix _ b)
    · rintro (h | h)
      · exact (List.prefix_iff_eq_take.mp h)
      · have hlen := h.length_le
        have heq : b = a := h.eq_of_length (by omega)
        rw [heq, List.take_length]
  · rw [Nat.min_eq_right hle, List.take_length]
    constructor
    · exact fun h => .inr (h ▸ List.take_prefix _ a)
    · rintro (h | h)
      · have hlen := h.length_le
        have heq : a = b := h.eq_of_length (by omega)
        rw [heq, List.take_length]
      · exact (List.prefix_iff_eq_take.mp h).symm

/-- A scope is not the empty path. -/
theorem scope_ne_nil {t : KnownTask} {a : Scope} (h : a ∈ taskFileScopes t) : a ≠ [] := by
  unfold taskFileScopes at h
  have hfold : ∀ (paths : List Scope) (acc : List Scope), (∀ x ∈ acc, x ≠ []) →
      ∀ x ∈ paths.foldl (fun scopes parts => if parts = [] ∨ parts ∈ scopes then scopes else scopes ++ [parts]) acc,
        x ≠ [] := by
    intro paths
    induction paths with
    | nil => exact fun acc hacc => hacc
    | cons p ps ih =>
      intro acc hacc
      apply ih
      dsimp only
      split
      · exact hacc
      · rename_i hp
        intro x hx
        rcases List.mem_append.mp hx with hx | hx
        · exact hacc x hx
        · rw [List.mem_singleton.mp hx]
          exact fun hnil => hp (.inl hnil)
  exact hfold _ [] (fun x hx => by cases hx) a h

/-- What lets a task through the five refusals. -/
theorem refuse_none_iff {cap : Capacity} {ts : List KnownTask} {project : String} {t : Listed} :
    refuse cap (tally ts) project t = none ↔
      (ts.countP (fun u => taskProjectKey u = project) : Int) < cap.maxPerProject ∧
      (ts.countP (fun u => taskRepoKey u = taskRepoKey t.task) : Int) < cap.maxPerRepo ∧
      ∀ u ∈ ts, Apart u t.task := by
  have happ : (∀ u ∈ ts, Apart u t.task) ↔ (tally ts).activeRepoLocked (taskRepoKey t.task) ≠ true ∧
      ¬ (taskFileScopes t.task = [] ∧ (tally ts).activeScopesByRepo (taskRepoKey t.task) ≠ []) ∧
      ∀ a ∈ (tally ts).activeScopesByRepo (taskRepoKey t.task), ∀ b ∈ taskFileScopes t.task, ¬ Overlap b a := by
    rw [ne_eq, tally_locked]
    constructor
    · intro hall
      refine ⟨?_, ?_, ?_⟩
      · rintro ⟨u, hu, hr, hs⟩
        exact (hall u hu hr).1 hs
      · rintro ⟨hnil, hne⟩
        obtain ⟨x, hx⟩ := List.exists_mem_of_ne_nil _ hne
        obtain ⟨u, hu, hr, -⟩ := (tally_scopes ts _ x).mp hx
        exact (hall u hu hr).2.1 hnil
      · intro a ha b hb ho
        obtain ⟨u, hu, hr, hau⟩ := (tally_scopes ts _ a).mp ha
        exact (hall u hu hr).2.2 a hau b hb (Or.symm ho)
    · rintro ⟨hlock, hwide, hno⟩ u hu hr
      have hscopes : taskFileScopes u ≠ [] := fun hnil => hlock ⟨u, hu, hr, hnil⟩
      have hmem : ∀ a ∈ taskFileScopes u, a ∈ (tally ts).activeScopesByRepo (taskRepoKey t.task) :=
        fun a ha => (tally_scopes ts _ a).mpr ⟨u, hu, hr, ha⟩
      refine ⟨hscopes, fun hnil => hwide ⟨hnil, ?_⟩, fun a ha b hb ho => hno a (hmem a ha) b hb (Or.symm ho)⟩
      obtain ⟨a, ha⟩ := List.exists_mem_of_ne_nil _ hscopes
      exact List.ne_nil_of_mem (hmem a ha)
  have hany : ((tally ts).activeScopesByRepo (taskRepoKey t.task)).any
        (fun active => (taskFileScopes t.task).any (fun scope => pathsOverlap scope active)) = true ↔
      ¬ ∀ a ∈ (tally ts).activeScopesByRepo (taskRepoKey t.task), ∀ b ∈ taskFileScopes t.task, ¬ Overlap b a := by
    simp only [List.any_eq_true, not_forall, not_not, exists_prop]
    constructor
    · rintro ⟨a, ha, b, hb, ho⟩
      obtain ⟨u, -, -, hau⟩ := (tally_scopes ts _ a).mp ha
      exact ⟨a, ha, b, hb, (pathsOverlap_iff (scope_ne_nil hb) (scope_ne_nil hau)).mp ho⟩
    · rintro ⟨a, ha, b, hb, ho⟩
      obtain ⟨u, -, -, hau⟩ := (tally_scopes ts _ a).mp ha
      exact ⟨a, ha, b, hb, (pathsOverlap_iff (scope_ne_nil hb) (scope_ne_nil hau)).mpr ho⟩
  rw [happ, ← tally_byProject, ← tally_byRepo]
  unfold refuse
  dsimp only
  split_ifs with hp hr hl hw ho
  · exact iff_of_false (fun h => by cases h) fun h => by omega
  · exact iff_of_false (fun h => by cases h) fun h => by omega
  · exact iff_of_false (fun h => by cases h) fun h => h.2.2.1 hl
  · exact iff_of_false (fun h => by cases h) fun h => h.2.2.2.1 hw
  · exact iff_of_false (fun h => by cases h) fun h => hany.mp ho h.2.2.2.2
  · have hfree := not_not.mp (mt hany.mpr ho)
    exact iff_of_true rfl ⟨by omega, by omega, hl, hw, hfree⟩

/-! ## The loop is a round robin -/

/-- What the loop does with the first task of a project. -/
def serve (cap : Capacity) (entry : String → Listed → Admitted) (s : Loop) (project : String) : Loop :=
  (s.head? project).elim s fun t =>
    (refuse cap s.ledger project t).elim ( s.admit (entry project t)) (s.block project)

def admission (cap : Capacity) (entry : String → Listed → Admitted) : Server Loop String where
  waiting s project := (s.head? project).isSome
  serve := serve cap entry
  full s := decide (cap.maxTotal ≤ s.admitted.length)

section
variable {cap : Capacity} {entry : String → Listed → Admitted}

theorem serve_block {s : Loop} {project : String} {t : Listed} {e : Blocked} (ht : s.head? project = some t)
    (he : refuse cap s.ledger project t = some e) : serve cap entry s project = s.block project e := by
  rw [serve, ht, Option.elim_some, he, Option.elim_some]

theorem serve_admitted {s : Loop} {project : String} {t : Listed} (ht : s.head? project = some t)
    (he : refuse cap s.ledger project t = none) : serve cap entry s project = s.admit (entry project t) := by
  rw [serve, ht, Option.elim_some, he, Option.elim_none]

/-- A visit blocks the first task of the project or admits it. -/
theorem serve_cases {s : Loop} {project : String} (h : (s.head? project).isSome = true) :
    ∃ t, s.head? project = some t ∧
      ((∃ e, refuse cap s.ledger project t = some e ∧ serve cap entry s project = s.block project e) ∨
        (refuse cap s.ledger project t = none ∧ serve cap entry s project = s.admit (entry project t))) := by
  obtain ⟨t, ht⟩ := Option.isSome_iff_exists.mp h
  cases he : refuse cap s.ledger project t with
  | some e => exact ⟨t, ht, .inl ⟨e, he, serve_block ht he⟩⟩
  | none => exact ⟨t, ht, .inr ⟨he, serve_admitted ht he⟩⟩

theorem waiting_eq (s : Loop) (project : String) :
    (admission cap entry).waiting s project = (s.head? project).isSome := rfl

theorem full_iff {s : Loop} : (admission cap entry).full s = true ↔ cap.maxTotal ≤ s.admitted.length :=
  decide_eq_true_iff

/-- A pass ends where its round does, and reports whether it served anyone. -/
theorem admissionPass_eq (projects : List String) (s : Loop) (h : (admission cap entry).full s = false) :
    admissionPass cap entry projects s =
      (!((admission cap entry).round projects s).isEmpty, ((admission cap entry).round projects s).getLastD s) := by
  induction projects generalizing s with
  | nil => rfl
  | cons project projects ih =>
    rw [admissionPass]
    cases ht : s.head? project with
    | none =>
      have hw : (admission cap entry).waiting s project = false := by rw [waiting_eq, ht]; rfl
      rw [Server.round_cons_skip hw]
      exact ih s h
    | some t =>
      have hw : (admission cap entry).waiting s project = true := by rw [waiting_eq, ht]; rfl
      rw [Server.round_cons_waiting hw, List.getLastD_cons]
      dsimp only
      cases he : refuse cap s.ledger project t with
      | some e =>
        have hserve : (admission cap entry).serve s project = s.block project e := serve_block ht he
        -- a blocked task leaves the number of admitted ones as it was
        have hfull : (admission cap entry).full (s.block project e) = false := h
        dsimp only
        rw [hserve, hfull, if_neg Bool.false_ne_true, ih _ hfull]
        rfl
      | none =>
        have hserve : (admission cap entry).serve s project = s.admit (entry project t) := serve_admitted ht he
        rw [hserve]
        cases hf : (admission cap entry).full ( s.admit (entry project t)) with
        | true =>
          have hge := full_iff.mp hf
          simp only [hge, if_true]
          rfl
        | false =>
          have hlt : ¬ cap.maxTotal ≤ ( s.admit (entry project t)).admitted.length :=
            fun hge => Bool.false_ne_true (hf.symm.trans (full_iff.mpr hge))
          simp only [hlt, if_false]
          rw [ih _ hf]
          rfl

/-- Nothing is pending exactly when no project has a first task. -/
theorem head?_of_not_pending {s : Loop} (h : s.pending = false) (project : String) : s.head? project = none := by
  unfold Loop.head?
  cases hq : s.grouped.find? project with
  | none => rfl
  | some q =>
    have hmem := (Table.find?_some hq).2
    have hall := List.any_eq_false.mp h q hmem
    have hnil : q.tasks = [] := by simpa using hall
    rw [Option.bind_some, hnil]
    rfl

theorem admissionLoop_eq (projects : List String) (fuel : Nat) (s : Loop) :
    admissionLoop cap entry projects fuel s = ((admission cap entry).rounds projects fuel s).getLastD s := by
  induction fuel generalizing s with
  | zero => rfl
  | succ fuel ih =>
    rw [admissionLoop]
    cases hf : (admission cap entry).full s with
    | true =>
      have hge := full_iff.mp hf
      rw [if_neg (fun h => absurd h.1 (not_lt.mpr hge)), Server.rounds_full hf]
      rfl
    | false =>
      have hlt : (s.admitted.length : Int) < cap.maxTotal := by
        refine not_le.mp fun hge => ?_
        rw [full_iff.mpr hge] at hf
        cases hf
      cases hp : s.pending with
      | false =>
        have hidle : (admission cap entry).Idle projects s :=
          .inr fun project _ => by rw [waiting_eq, head?_of_not_pending hp project]; rfl
        rw [if_neg (fun h => Bool.false_ne_true h.2), Server.rounds_idle hidle]
        rfl
      | true =>
        rw [if_pos ⟨hlt, rfl⟩, Server.rounds_succ hf, Server.getLastD_append]
        dsimp only
        rw [admissionPass_eq projects s hf, ih]
        dsimp only
        by_cases hnil : (admission cap entry).round projects s = []
        · have hidle : (admission cap entry).Idle projects s := .inr (Server.round_nil hnil)
          rw [hnil, List.getLastD_nil, Server.rounds_idle hidle]
          rfl
        · have hne : (!((admission cap entry).round projects s).isEmpty) = true := by
            simpa using hnil
          rw [if_pos hne]

end

/-! ## The queues -/

theorem admittedEntry_task (cfg : Config) (x : Services) (queued : List Listed) (project : String) (t : Listed) :
    (admittedEntry cfg x queued project t).task = t := rfl
theorem admittedEntry_projectKey (cfg : Config) (x : Services) (queued : List Listed) (project : String)
    (t : Listed) : (admittedEntry cfg x queued project t).projectKey = project := rfl
theorem admittedEntry_repoKey (cfg : Config) (x : Services) (queued : List Listed) (project : String) (t : Listed) :
    (admittedEntry cfg x queued project t).repoKey = taskRepoKey t.task := by
  simp only [admittedEntry]

theorem Loop.admit_admitted (s : Loop) (e : Admitted) : ( s.admit e).admitted = s.admitted ++ [e] := rfl
theorem Loop.admit_ledger (s : Loop) (e : Admitted) :
    ( s.admit e).ledger = s.ledger.occupy e.projectKey e.repoKey (taskFileScopes e.task.task) := rfl
theorem Loop.admit_blocked (s : Loop) (e : Admitted) : ( s.admit e).blocked = s.blocked := rfl
theorem Loop.admit_left (s : Loop) (e : Admitted) : ( s.admit e).left = (s.popleft e.projectKey).left := rfl
theorem Loop.admit_head? (s : Loop) (e : Admitted) : ( s.admit e).head? = (s.popleft e.projectKey).head? := rfl
theorem Loop.block_blocked (s : Loop) (project : String) (e : Blocked) :
    (s.block project e).blocked = s.blocked ++ [e] := rfl
theorem Loop.block_admitted (s : Loop) (project : String) (e : Blocked) :
    (s.block project e).admitted = s.admitted := rfl
theorem Loop.block_left (s : Loop) (project : String) (e : Blocked) :
    (s.block project e).left = (s.popleft project).left := rfl
theorem Loop.block_head? (s : Loop) (project : String) (e : Blocked) :
    (s.block project e).head? = (s.popleft project).head? := rfl

theorem head?_some {s : Loop} {project : String} {t : Listed} (h : s.head? project = some t) :
    ∃ q, s.grouped.find? project = some q ∧ q.tasks = t :: q.tasks.tail := by
  obtain ⟨q, hq, ht⟩ := Option.bind_eq_some_iff.mp h
  exact ⟨q, hq, (List.cons_head?_tail ht).symm⟩

theorem head?_popleft_ne {s : Loop} {project other : String} (h : other ≠ project) :
    (s.popleft project).head? other = s.head? other := by
  unfold Loop.head? Loop.popleft
  rw [Table.find?_modify, if_neg h]

theorem head?_popleft_self {s : Loop} {project : String} (h : ((s.popleft project).head? project).isSome = true) :
    (s.head? project).isSome = true := by
  unfold Loop.head? Loop.popleft at h
  rw [Table.find?_modify, if_pos rfl] at h
  unfold Loop.head?
  cases hq : s.grouped.find? project with
  | none => rw [hq] at h; cases h
  | some q =>
    rw [hq] at h
    cases htasks : q.tasks with
    | nil => simp [Queue.popleft, htasks] at h
    | cons t ts => simp [htasks]

theorem head?_popleft {s : Loop} {project other : String}
    (h : ((s.popleft project).head? other).isSome = true) : (s.head? other).isSome = true := by
  by_cases heq : other = project
  · subst heq
    exact head?_popleft_self h
  · rwa [head?_popleft_ne heq] at h

/-- Where a task is pending, some project has a first task. -/
theorem head?_of_pending {s : Loop} (h : s.pending = true) : ∃ project, (s.head? project).isSome = true := by
  obtain ⟨q, hq, hne⟩ := List.any_eq_true.mp h
  have htasks : q.tasks ≠ [] := of_decide_eq_true hne
  refine ⟨q.project, ?_⟩
  rw [Loop.head?, Table.mem_rows.mp hq, Option.bind_some, List.isSome_head?]
  simpa using htasks

theorem left_of_not_pending {s : Loop} (h : s.pending = false) : s.left = [] := by
  rw [Loop.left, List.flatMap_eq_nil_iff]
  intro q hq
  simpa using List.any_eq_false.mp h q hq

/-- A pop takes the first task off and leaves the others. -/
theorem left_popleft {s : Loop} {project : String} {t : Listed} (h : s.head? project = some t) :
    s.left.Perm (t :: (s.popleft project).left) := by
  obtain ⟨q, hq, htasks⟩ := head?_some h
  obtain ⟨l₁, l₂, hrows, hmod⟩ := Table.modify_rows hq Queue.popleft Queue.popleft_project
  have hbefore : s.left = l₁.flatMap (·.tasks) ++ t :: (q.tasks.tail ++ l₂.flatMap (·.tasks)) := by
    rw [Loop.left, hrows, List.flatMap_append, List.flatMap_cons, htasks]
    rfl
  have hafter : (s.popleft project).left = l₁.flatMap (·.tasks) ++ (q.tasks.tail ++ l₂.flatMap (·.tasks)) := by
    have hleft : (s.popleft project).left =
        (s.grouped.modify project Queue.popleft Queue.popleft_project).rows.flatMap (·.tasks) := rfl
    rw [hleft, hmod, List.flatMap_append, List.flatMap_cons]
    rfl
  rw [hbefore, hafter]
  exact List.perm_middle

/-- Each task stands in the queue of its project. -/
def Sorted (g : Grouped) : Prop := ∀ q ∈ g.rows, ∀ t ∈ q.tasks, taskProjectKey t.task = q.project

theorem Sorted.head {s : Loop} {project : String} {t : Listed} (hs : Sorted s.grouped)
    (h : s.head? project = some t) : taskProjectKey t.task = project := by
  obtain ⟨q, hq, htasks⟩ := head?_some h
  obtain ⟨hkey, hmem⟩ := Table.find?_some hq
  have hin : t ∈ q.tasks := by rw [htasks]; exact List.mem_cons_self
  rw [hs q hmem t hin, hkey]

theorem Sorted.popleft {s : Loop} (hs : Sorted s.grouped) (project : String) :
    Sorted (s.popleft project).grouped := by
  intro q hq t ht
  have hmem : q ∈ s.grouped.rows.map (fun q => if decide (q.project = project) then q.popleft else q) := hq
  obtain ⟨q', hq', rfl⟩ := List.mem_map.mp hmem
  split at ht
  · rename_i hp
    rw [if_pos hp, Queue.popleft_project]
    exact hs q' hq' t (List.mem_of_mem_tail ht)
  · rename_i hp
    rw [if_neg hp]
    exact hs q' hq' t ht

/-- A task joins the queue of its project behind the others. -/
theorem push_tasks (g : Grouped) (project : String) (t : Listed) :
    ((g.upsert ⟨project, [t]⟩ (Queue.push project t) (Queue.push_project project t)).rows.flatMap (·.tasks)).Perm
      (t :: g.rows.flatMap (·.tasks)) := by
  cases hq : g.find? (Queue.mk project [t]).project with
  | none =>
    rw [Table.upsert_rows_none hq, List.flatMap_append]
    exact List.perm_append_singleton t _
  | some q =>
    obtain ⟨l₁, l₂, hrows, hups⟩ := Table.upsert_rows_some hq (Queue.push project t) (Queue.push_project project t)
    have hpush : (q.push project t).tasks = q.tasks ++ [t] := rfl
    rw [hups, hrows, List.flatMap_append, List.flatMap_cons, List.flatMap_append, List.flatMap_cons, hpush,
      List.append_assoc, List.singleton_append, ← List.append_assoc, ← List.append_assoc]
    exact List.perm_middle

theorem push_sorted {g : Grouped} (hg : Sorted g) {project : String} {t : Listed}
    (ht : taskProjectKey t.task = project) :
    Sorted (g.upsert ⟨project, [t]⟩ (Queue.push project t) (Queue.push_project project t)) := by
  have hold := hg
  intro q hq u hu
  cases hfind : g.find? (Queue.mk project [t]).project with
  | none =>
    rw [Table.upsert_rows_none hfind] at hq
    obtain hq | hq := List.mem_append.mp hq
    · exact hold q hq u hu
    · rw [List.mem_singleton.mp hq] at hu ⊢
      rw [List.mem_singleton.mp hu]
      exact ht
  | some q' =>
    obtain ⟨l₁, l₂, hrows, hups⟩ :=
      Table.upsert_rows_some hfind (Queue.push project t) (Queue.push_project project t)
    obtain ⟨hkey, hmem⟩ := Table.find?_some hfind
    rw [hups] at hq
    obtain hq | hq := List.mem_append.mp hq
    · exact hold q (by rw [hrows]; exact List.mem_append_left _ hq) u hu
    · obtain rfl | hq := List.mem_cons.mp hq
      · obtain hu | hu := List.mem_append.mp hu
        · exact (hold q' hmem u hu).trans hkey
        · rw [List.mem_singleton.mp hu]
          exact ht
      · exact hold q (by rw [hrows]; exact List.mem_append_right _ (List.mem_cons_of_mem _ hq)) u hu

theorem groupTask_tasks (g : Grouped) (t : Listed) :
    ((groupTask g t).rows.flatMap (·.tasks)).Perm (t :: g.rows.flatMap (·.tasks)) := push_tasks g _ t

theorem groupTask_sorted {g : Grouped} (hg : Sorted g) (t : Listed) : Sorted (groupTask g t) := push_sorted hg rfl

theorem group_tasks (ts : List Listed) (g : Grouped) :
    ((ts.foldl groupTask g).rows.flatMap (·.tasks)).Perm (g.rows.flatMap (·.tasks) ++ ts) := by
  induction ts generalizing g with
  | nil => rw [List.append_nil]; exact List.Perm.refl _
  | cons t ts ih =>
    refine (ih (groupTask g t)).trans ?_
    exact ((groupTask_tasks g t).append_right ts).trans List.perm_middle.symm

theorem group_sorted (ts : List Listed) {g : Grouped} (hg : Sorted g) : Sorted (ts.foldl groupTask g) := by
  induction ts generalizing g with
  | nil => exact hg
  | cons t ts ih => exact ih (groupTask_sorted hg t)

/-! ## The loop of a plan -/

section
variable (lower : String → String) (cfg : Config) (x : Services) (queued active : List Listed)

/-- What the gating loop lets through. -/
def candidates : List Listed := queued.filter (fun t => decide ((gateTask lower cfg x t).isNone = true))

/-- The round robin of a plan. -/
def planned : Server Loop String := admission (capacity cfg x active) (admittedEntry cfg x queued)

theorem groupedQueue_tasks : ((groupedQueue lower cfg x queued).rows.flatMap (·.tasks)).Perm
    (candidates lower cfg x queued) := group_tasks _ _

theorem groupedQueue_sorted : Sorted (groupedQueue lower cfg x queued) :=
  group_sorted _ (fun q hq => by cases hq)

theorem orderedProjects_nodup (g : Grouped) : (orderedProjects g).Nodup :=
  (List.perm_insertionSort _ _).nodup_iff.mpr g.nodup

/-- Every project with a first task takes part. -/
theorem mem_orderedProjects {s : Loop} {project : String} (h : (s.head? project).isSome = true) :
    project ∈ orderedProjects s.grouped := by
  obtain ⟨t, ht⟩ := Option.isSome_iff_exists.mp h
  obtain ⟨q, hq, -⟩ := head?_some ht
  obtain ⟨hkey, hmem⟩ := Table.find?_some hq
  rw [orderedProjects, (List.perm_insertionSort _ _).mem_iff, ← hkey]
  exact List.mem_map_of_mem hmem

theorem loopEnd_eq : loopEnd lower cfg x queued active =
    ((planned cfg x queued active).rounds (orderedProjects (groupedQueue lower cfg x queued)) queued.length
      (loopStart lower cfg x queued active)).getLastD (loopStart lower cfg x queued active) :=
  admissionLoop_eq _ _ _

variable {lower cfg x queued active}

theorem planned_serve {s : Loop} {project : String} (h : (planned cfg x queued active).waiting s project = true) :
    ∃ t, s.head? project = some t ∧
      ((∃ e, refuse (capacity cfg x active) s.ledger project t = some e ∧
          (planned cfg x queued active).serve s project = s.block project e) ∨
        (refuse (capacity cfg x active) s.ledger project t = none ∧
          (planned cfg x queued active).serve s project = s.admit (admittedEntry cfg x queued project t))) :=
  serve_cases h

theorem planned_full {s : Loop} : (planned cfg x queued active).full s = true ↔
    (capacity cfg x active).maxTotal ≤ s.admitted.length := full_iff

theorem planned_room {s : Loop} (h : (planned cfg x queued active).full s = false) :
    (s.admitted.length : Int) < (capacity cfg x active).maxTotal := by
  refine not_le.mp fun hge => ?_
  have htrue : (planned cfg x queued active).full s = true := planned_full.mpr hge
  exact Bool.false_ne_true (h.symm.trans htrue)

/-- What a visit keeps and the start has, the end of the loop has. -/
theorem loopEnd_invariant {I : Loop → Prop} (start : I (loopStart lower cfg x queued active))
    (block : ∀ s project t e, I s → s.head? project = some t →
      refuse (capacity cfg x active) s.ledger project t = some e → I (s.block project e))
    (admitted : ∀ s project t, I s → s.head? project = some t →
      refuse (capacity cfg x active) s.ledger project t = none →
      (s.admitted.length : Int) < (capacity cfg x active).maxTotal →
      I ( s.admit (admittedEntry cfg x queued project t))) : I (loopEnd lower cfg x queued active) := by
  rw [loopEnd_eq]
  refine Server.rounds_last (fun s project hI hfull hw => ?_) _ _ _ start
  obtain ⟨t, ht, ⟨e, he, hs⟩ | ⟨he, hs⟩⟩ := planned_serve hw
  · rw [hs]
    exact block s project t e hI ht he
  · rw [hs]
    exact admitted s project t hI ht he (planned_room hfull)

end

end AdmissionLoop
