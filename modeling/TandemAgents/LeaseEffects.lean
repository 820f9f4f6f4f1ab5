import TandemAgents.Guarantees
import TandemAgents.StoreHistories

/-!
# What an operation does to the leases

One guarantee per operation, checked statement by statement. A lease row stays, keeps
its task and its expiry (unless its own heartbeat moves it), becomes active by the
insertion of a claim alone, and stops being active for a reason the operation has.
-/
namespace LeaseEffects

open KeyedTable PythonText TaskContract CoordinationStore Statements Statements.Prog
open LeaseOperations WorkerOperations TaskOperations OperationRuns StoreHistories

set_option maxRecDepth 20000

/-- The lease is active, and for this task. -/
def ActiveAt (s : Store) (id : Ident) (key : String) : Prop :=
  ∃ l, s.leases.find? id = some l ∧ l.status = .active ∧ l.taskKey = key

/-- The lease is active and has expired. -/
def DueAt (now : Int) (s : Store) (id : Ident) : Prop :=
  ∃ l, s.leases.find? id = some l ∧ l.status = .active ∧ l.expiresAtMs ≤ now

instance ActiveAt.decidable (s : Store) (id : Ident) (key : String) : Decidable (ActiveAt s id key) :=
  decidable_of_iff ((s.leases.find? id).any (fun l => decide (l.status = .active ∧ l.taskKey = key)) = true) (by
    simp [ActiveAt, Option.any_eq_true])

instance DueAt.decidable (now : Int) (s : Store) (id : Ident) : Decidable (DueAt now s id) :=
  decidable_of_iff ((s.leases.find? id).any (fun l => decide (l.status = .active ∧ l.expiresAtMs ≤ now)) = true) (by
    simp [DueAt, Option.any_eq_true])

/-- The lease was read as active and expired. -/
def SawDue (now : Int) (seen : List Store) (id : Ident) : Prop := ∃ s ∈ seen, DueAt now s id

instance SawDue.decidable (now : Int) (seen : List Store) (id : Ident) : Decidable (SawDue now seen id) :=
  inferInstanceAs (Decidable (∃ s ∈ seen, DueAt now s id))

/-- A worker not seen since the cutoff was read as working on the lease. -/
def SawStale (cutoff : Int) (seen : List Store) (id : Ident) : Prop :=
  ∃ s ∈ seen, ∃ w ∈ staleWorkers cutoff s, w.currentLeaseId = some id

/-- `now - stale_after`. -/
def staleCutoff (now staleAfterSeconds : Int) : Int :=
  now - secondsToMs defaultWorkerStaleAfterSeconds staleAfterSeconds

/-- Why an operation may end the lease of a task: `due` says that the lease has expired
by a time, `stale` that a worker not seen since a time works on it. -/
def EndsWhen (due stale : Int → Prop) (op : Op) (id : Ident) (key : String) : Prop :=
  match op with
  | .releaseLease _ leaseId _ _ => leaseId = id
  | .reapExpiredLeases now => due now
  | .reapStaleWorkers now after => stale (staleCutoff now after)
  | .claimTask now _ => due now ∨ stale (staleCutoff now defaultWorkerStaleAfterSeconds)
  | .operatorMove _ moved _ _ clear => moved = key ∧ clear = true
  | _ => False

/-- The reasons of an operation that has seen these states. -/
def Ends (op : Op) (seen : List Store) (id : Ident) (key : String) : Prop :=
  EndsWhen (fun now => SawDue now seen id) (fun cutoff => SawStale cutoff seen id) op id key

/-- A lease row before and after. -/
structure Moved (op : Op) (seen : List Store) (id : Ident) (l l' : LeaseRow) : Prop where
  key : l'.taskKey = l.taskKey
  active : l'.status = .active → l.status = .active
  expiry : l'.expiresAtMs = l.expiresAtMs ∨
    ∃ now ttl, op = .heartbeatLease now ttl id ∧ l'.expiresAtMs = now + secondsToMs defaultLeaseTtlSeconds ttl
  ends : l'.status ≠ l.status → Ends op seen id l.taskKey

/-- A lease row that a claim has inserted. -/
def Inserted (op : Op) (seen : List Store) (id : Ident) (l' : LeaseRow) : Prop :=
  ∃ now a, op = .claimTask now a ∧ a.leaseId = id ∧ l'.taskKey = a.key ∧
    (l'.status = .active ∨ Ends op seen id a.key)

structure LeaseEffect (op : Op) (seen : List Store) (s t : Store) : Prop where
  stays : ∀ id l, s.leases.find? id = some l → ∃ l', t.leases.find? id = some l'
  moved : ∀ id l', t.leases.find? id = some l' →
    Inserted op seen id l' ∨ ∃ l, s.leases.find? id = some l ∧ Moved op seen id l l'
  unique : UniqueActive s → UniqueActive t

/-! ## Composition -/

section
variable {op : Op} {seen : List Store} {s t u : Store} {id : Ident}

theorem SawDue.more {now : Int} (h : SawDue now seen id) (s : Store) : SawDue now (seen ++ [s]) id := by
  obtain ⟨x, hx, hd⟩ := h
  exact ⟨x, List.mem_append_left _ hx, hd⟩

theorem SawStale.more {cutoff : Int} (h : SawStale cutoff seen id) (s : Store) : SawStale cutoff (seen ++ [s]) id := by
  obtain ⟨x, hx, hw⟩ := h
  exact ⟨x, List.mem_append_left _ hx, hw⟩

theorem Ends.more {key : String} (h : Ends op seen id key) (s : Store) : Ends op (seen ++ [s]) id key := by
  cases op with
  | claimTask now a => exact h.imp (fun hd => hd.more s) (fun hs => hs.more s)
  | reapExpiredLeases now => exact SawDue.more h s
  | reapStaleWorkers now after => exact SawStale.more h s
  | _ => exact h

theorem Moved.refl (op : Op) (seen : List Store) (id : Ident) (l : LeaseRow) : Moved op seen id l l :=
  ⟨rfl, fun h => h, .inl rfl, fun hn => absurd rfl hn⟩

theorem Moved.trans {l l' l'' : LeaseRow} (h : Moved op seen id l l') (k : Moved op seen id l' l'') :
    Moved op seen id l l'' where
  key := k.key.trans h.key
  active ha := h.active (k.active ha)
  expiry := by
    rcases k.expiry with he | hb
    · rw [he]
      exact h.expiry
    · exact .inr hb
  ends hn := by
    by_cases hs : l'.status = l.status
    · exact h.key ▸ k.ends (hs ▸ hn)
    · exact h.ends hs

theorem Moved.more {l l' : LeaseRow} (h : Moved op seen id l l') (s : Store) : Moved op (seen ++ [s]) id l l' :=
  ⟨h.key, h.active, h.expiry, fun hn => (h.ends hn).more s⟩

theorem Inserted.move {l l' : LeaseRow} (h : Inserted op seen id l) (k : Moved op seen id l l') :
    Inserted op seen id l' := by
  obtain ⟨now, a, hop, hid, hkey, hact⟩ := h
  refine ⟨now, a, hop, hid, k.key.trans hkey, ?_⟩
  by_cases ha' : l'.status = .active
  · exact .inl ha'
  · exact .inr (hact.elim (fun ha => hkey ▸ k.ends (ha.symm ▸ ha')) (fun he => he))

theorem LeaseEffect.refl (op : Op) (seen : List Store) (s : Store) : LeaseEffect op seen s s where
  stays _ l h := ⟨l, h⟩
  moved id l h := .inr ⟨l, h, .refl op seen id l⟩
  unique h := h

theorem LeaseEffect.trans (h : LeaseEffect op seen s t) (k : LeaseEffect op seen t u) : LeaseEffect op seen s u where
  stays id l hl := by
    obtain ⟨l', hl'⟩ := h.stays id l hl
    exact k.stays id l' hl'
  moved id l'' hl'' := by
    rcases k.moved id l'' hl'' with hins | ⟨l', hl', hm⟩
    · exact .inl hins
    · rcases h.moved id l' hl' with hins | ⟨l, hl, hm'⟩
      · exact .inl (hins.move hm)
      · exact .inr ⟨l, hl, hm'.trans hm⟩
  unique hu := k.unique (h.unique hu)

theorem LeaseEffect.more (h : LeaseEffect op seen t u) (s : Store) : LeaseEffect op (seen ++ [s]) t u where
  stays := h.stays
  moved id l' hl' := by
    rcases h.moved id l' hl' with ⟨now, a, hop, hid, hkey, hact⟩ | ⟨l, hl, hm⟩
    · exact .inl ⟨now, a, hop, hid, hkey, hact.imp_right (fun he => he.more s)⟩
    · exact .inr ⟨l, hl, hm.more s⟩
  unique := h.unique

end

/-- The guarantee of an operation about the leases. -/
def leaseGuarantee (op : Op) : Guarantee Store where
  rel := LeaseEffect op
  refl := LeaseEffect.refl op
  trans _ _ _ _ := LeaseEffect.trans
  more _ s _ _ h := h.more s

/-! ## Single statements -/

section
variable {op : Op} {seen : List Store}

/-- Every lease row is moved in place. -/
theorem effect_moved {s t : Store} (h : ∀ id, (s.leases.find? id = none ∧ t.leases.find? id = none) ∨
      ∃ l l', s.leases.find? id = some l ∧ t.leases.find? id = some l' ∧ Moved op seen id l l') :
    LeaseEffect op seen s t where
  stays id l hl := by
    rcases h id with ⟨hs, -⟩ | ⟨_, l', -, hl', -⟩
    · cases hs.symm.trans hl
    · exact ⟨l', hl'⟩
  moved id l' hl' := by
    rcases h id with ⟨-, ht⟩ | ⟨l, k, hl, hk, hm⟩
    · cases ht.symm.trans hl'
    · cases hk.symm.trans hl'
      exact .inr ⟨l, hl, hm⟩
  unique hu a b ha hb haa hba hkey := by
    have hback : ∀ x, t.leases.find? x.leaseId = some x → x.status = .active →
        ∃ l, s.leases.find? l.leaseId = some l ∧ l.leaseId = x.leaseId ∧ l.status = .active ∧ l.taskKey = x.taskKey := by
      intro x hx hxa
      rcases h x.leaseId with ⟨-, ht⟩ | ⟨l, k, hl, hk, hm⟩
      · cases ht.symm.trans hx
      · cases hk.symm.trans hx
        have hid := Table.find?_key hl
        exact ⟨l, hid ▸ hl, hid, hm.active hxa, hm.key.symm⟩
    obtain ⟨l, hl, hlid, hla, hlk⟩ := hback a ha haa
    obtain ⟨m, hm, hmid, hma, hmk⟩ := hback b hb hba
    have hlm : l = m := hu l m hl hm hla hma (by rw [hlk, hmk, hkey])
    rw [← hlid, hlm, hmid, hb] at ha
    exact (Option.some.inj ha).symm

theorem effect_same {s t : Store} (h : t.leases = s.leases) : LeaseEffect op seen s t := by
  refine effect_moved fun id => ?_
  cases hl : s.leases.find? id with
  | none => exact .inl ⟨rfl, h ▸ hl⟩
  | some l => exact .inr ⟨l, l, rfl, h ▸ hl, .refl op seen id l⟩

theorem effect_modifyLease {s : Store} {k : Ident} {f : LeaseRow → LeaseRow} (hf : ∀ l, (f l).leaseId = l.leaseId)
    (h : ∀ l, s.leases.find? k = some l → Moved op seen k l (f l)) : LeaseEffect op seen s (s.modifyLease k f hf) := by
  refine effect_moved fun id => ?_
  rw [Store.modifyLease_leases, Table.find?_modify]
  cases hl : s.leases.find? id with
  | none =>
    left
    simp
  | some l =>
    right
    by_cases hk : id = k
    · subst hk
      exact ⟨l, f l, rfl, by rw [if_pos rfl, Option.map_some], h l hl⟩
    · exact ⟨l, l, rfl, by rw [if_neg hk], .refl op seen id l⟩

/-- A lease that is ended for a reason the operation has. -/
theorem moved_retire {id : Ident} {l : LeaseRow} {now : Int} {status : LeaseStatus} {reason : Option String}
    (hs : status ≠ .active) (h : Ends op seen id l.taskKey) : Moved op seen id l (l.retire now status reason) :=
  ⟨rfl, fun ha => absurd ha hs, .inl rfl, fun _ => h⟩

theorem moved_close {id : Ident} {l : LeaseRow} {now : Int} {status : LeaseStatus} {reason : Option String}
    (hs : status ≠ .active) (h : Ends op seen id l.taskKey) : Moved op seen id l (l.close now status reason) := by
  unfold LeaseRow.close
  split
  · exact moved_retire hs h
  · exact .refl op seen id l

theorem moved_beat {id : Ident} {l : LeaseRow} {now ttl : Int} (h : op = .heartbeatLease now ttl id) :
    Moved op seen id l (l.beat now (now + secondsToMs defaultLeaseTtlSeconds ttl)) := by
  unfold LeaseRow.beat
  split
  · exact ⟨rfl, fun ha => ha, .inr ⟨now, ttl, h, rfl⟩, fun hn => absurd rfl hn⟩
  · exact .refl op seen id l

theorem effect_retireActive {s : Store} {key : String} {now : Int} {reason : String}
    (h : ∀ id, Ends op seen id key) : LeaseEffect op seen s (retireActiveLeases key now reason s) := by
  refine effect_moved fun id => ?_
  rw [retireActiveLeases, Table.find?_update]
  cases hl : s.leases.find? id with
  | none => exact .inl ⟨rfl, rfl⟩
  | some l =>
    by_cases hk : l.taskKey = key ∧ l.status = .active
    · have hm : Moved op seen id l (l.retire now .stale (some reason)) := moved_retire (by simp) (hk.1 ▸ h id)
      exact .inr ⟨l, _, rfl, by simp [hk], hm⟩
    · exact .inr ⟨l, l, rfl, by simp [hk], .refl op seen id l⟩

/-- The insertion of a claim, which the index lets through. -/
theorem effect_insertLease {s t : Store} {now : Int} {a : ClaimArgs} {attempt : Nat}
    (hop : op = .claimTask now a) (h : s.insertLease (a.lease now attempt) = some t) : LeaseEffect op seen s t := by
  obtain ⟨rfl, hfree⟩ := insertLease_eq h
  constructor
  · intro id l hl
    rw [Store.putLease_leases]
    split
    · exact ⟨_, rfl⟩
    · exact ⟨l, hl⟩
  · intro id l' hl'
    rw [Store.putLease_leases] at hl'
    split at hl'
    · rename_i hid
      obtain rfl := Option.some.inj hl'
      exact .inl ⟨now, a, hop, hid.symm, rfl, .inl rfl⟩
    · exact .inr ⟨l', hl', .refl op seen id l'⟩
  · intro hu x y hx hy hxa hya hkey
    rw [Store.putLease_leases] at hx hy
    split at hx <;> split at hy
    · exact (Option.some.inj hx).symm.trans (Option.some.inj hy)
    · rename_i hne
      obtain rfl := Option.some.inj hx
      exact absurd (hfree y hy hkey.symm hya) hne
    · rename_i hne _
      obtain rfl := Option.some.inj hy
      exact absurd (hfree x hx hkey hxa) hne
    · exact hu x y hx hy hxa hya hkey

end

/-! ## The programs -/

/-- What the statements of a sweep do to the leases: nothing, or the end of one there is a
reason for. -/
structure Sweeping (Φ : List Store → (Store → Option Store) → Prop) (why : List Store → Ident → Prop) : Prop where
  same : ∀ (seen : List Store) (f : Store → Store), (∀ s, (f s).leases = s.leases) → Φ seen (fun s => some (f s))
  retire : ∀ (seen : List Store) (id : Ident) (now : Int) (reason : String), why seen id → Φ seen (fun s => some (s.modifyLease id
    (LeaseRow.retire now .stale (some reason)) (LeaseRow.retire_leaseId now .stale (some reason))))

section
variable {Φ : List Store → (Store → Option Store) → Prop} {op : Op} {seen : List Store}

/-- An update of another table. -/
theorem respects_same {f : Store → Store} (h : ∀ s, (f s).leases = s.leases) :
    (leaseGuarantee op).Respects seen (fun s => some (f s)) :=
  Guarantee.respects_some fun s => effect_same (h s)

theorem sweeping_lease {why : List Store → Ident → Prop}
    (h : ∀ seen id, why seen id → ∀ key, Ends op seen id key) : Sweeping (leaseGuarantee op).Respects why where
  same _ _ hf := respects_same hf
  retire seen id _ _ hw := Guarantee.respects_some fun _ => effect_modifyLease _ fun l _ =>
    moved_retire (by simp) (h seen id hw l.taskKey)

theorem each_retireRound {why : List Store → Ident → Prop} (hΦ : Sweeping Φ why) {now : Int} {reason : String}
    {l : LeaseRow} {workerId : Ident} (h : why seen l.leaseId) : (do
      retireLease now reason l.leaseId
      clearTaskClaimForLease l.taskKey l.leaseId now .stale "stale"
      releaseWorker now "idle" workerId : Sql Unit).Each Φ seen :=
  each_update_bind (hΦ.retire _ _ _ _ h) fun _ => each_update_bind (hΦ.same _ _ fun _ => rfl) fun _ =>
    each_update _ (hΦ.same _ _ fun _ => rfl)

theorem each_reapRows {now : Int} (hΦ : Sweeping Φ (SawDue now)) {rows : List LeaseRow}
    (h : ∀ l ∈ rows, SawDue now seen l.leaseId) : (forEach (reapExpiredLease now) rows).Each Φ seen := by
  refine Each.forEach fun l hl seen' hs => each_retireRound hΦ ?_
  obtain ⟨s, hmem, hd⟩ := h l hl
  exact ⟨s, hs.subset hmem, hd⟩

theorem dueAt_of_mem {now : Int} {s : Store} {l : LeaseRow} (h : l ∈ expiredLeases now s) : DueAt now s l.leaseId := by
  simp only [expiredLeases, Table.mem_select, decide_eq_true_eq] at h
  exact ⟨l, h.1, h.2.1, h.2.2⟩

theorem sawDue_snoc {now : Int} {s : Store} {l : LeaseRow} (h : l ∈ expiredLeases now s) :
    SawDue now (seen ++ [s]) l.leaseId :=
  ⟨s, List.mem_append_right seen (List.mem_singleton_self s), dueAt_of_mem h⟩

theorem each_findDeadHosts (rows : List WorkerRow) (hosts : List Ident) (seen : List Store) :
    (findDeadHosts rows hosts).Each Φ seen := by
  induction hosts generalizing seen with
  | nil => trivial
  | cons host hosts ih => exact each_get_bind fun s => (ih _).bind fun _ _ _ => trivial

/-- The rows of a stale-worker sweep were read. -/
def ReadRows (cutoff : Int) (seen : List Store) (rows : List WorkerRow) : Prop :=
  ∀ w ∈ rows, ∃ s ∈ seen, w ∈ staleWorkers cutoff s

theorem ReadRows.more {cutoff : Int} {rows : List WorkerRow} {seen' : List Store} (h : ReadRows cutoff seen rows)
    (hs : seen <+: seen') : ReadRows cutoff seen' rows := by
  intro w hw
  obtain ⟨s, hmem, hst⟩ := h w hw
  exact ⟨s, hs.subset hmem, hst⟩

theorem each_reapStaleWorker {now cutoff : Int} (hΦ : Sweeping Φ (SawStale cutoff)) {dead : List Ident}
    {row : WorkerRow} (h : ReadRows cutoff seen [row]) : (reapStaleWorker now cutoff dead row).Each Φ seen := by
  have hrelease : ∀ seen', (do
      releaseWorker now "idle" row.workerId
      return some (row, none) : Sql (Option (WorkerRow × Option LeaseRow))).Each Φ seen' :=
    fun _ => each_update_bind (hΦ.same _ _ fun _ => rfl) fun _ => trivial
  unfold reapStaleWorker currentLease
  cases hid : row.currentLeaseId with
  | none => exact hrelease _
  | some leaseId =>
    by_cases htext : leaseId.text = ""
    · simp only [htext, if_true]
      exact hrelease _
    · simp only [htext, if_false]
      refine each_get_bind fun s => ?_
      cases hl : (s.leases.find? leaseId).filter (ownsActiveLease row) with
      | none => exact hrelease _
      | some l =>
        obtain ⟨hfind, -⟩ := Option.filter_eq_some_iff.mp hl
        have hkey : l.leaseId = leaseId := Table.find?_key hfind
        simp only
        split
        · obtain ⟨x, hx, hw⟩ := h row (List.mem_singleton_self row)
          have hsaw : ∀ seen', seen <+: seen' → SawStale cutoff seen' l.leaseId :=
            fun seen' hs => ⟨x, hs.subset hx, row, hw, by rw [hid, hkey]⟩
          refine each_update_bind (hΦ.retire _ _ _ _ (hsaw _ (List.prefix_append _ _)))
            fun _ => each_update_bind (hΦ.same _ _ fun _ => rfl) fun _ =>
              each_update_bind (hΦ.same _ _ fun _ => rfl) fun _ => trivial
        · trivial

theorem each_reapStaleRows {now cutoff : Int} (hΦ : Sweeping Φ (SawStale cutoff)) {dead : List Ident}
    {rows : List WorkerRow} (h : ReadRows cutoff seen rows) : (reapStaleRows now cutoff dead rows).Each Φ seen := by
  induction rows generalizing seen with
  | nil => trivial
  | cons row rows ih =>
    have hrow : ReadRows cutoff seen [row] := fun w hw => h w (List.mem_singleton.mp hw ▸ List.mem_cons_self)
    have hrows : ReadRows cutoff seen rows := fun w hw => h w (List.mem_cons_of_mem row hw)
    exact (each_reapStaleWorker hΦ hrow).bind fun _ seen' hs => (ih (hrows.more hs)).bind fun _ _ _ => trivial

theorem each_reapStaleWorkersLocked {now after : Int} (hΦ : Sweeping Φ (SawStale (staleCutoff now after))) :
    (reapStaleWorkersLocked now after).Each Φ seen := by
  refine each_get_bind fun s => (each_findDeadHosts _ _ _).bind fun dead seen' hs => ?_
  refine (each_reapStaleRows hΦ fun w hw => ⟨s, ?_, hw⟩).bind fun _ _ _ => trivial
  exact hs.subset (List.mem_append_right seen (List.mem_singleton_self s))

/-- A transition ends leases where it clears the claim. -/
theorem each_applyTaskState
    (hsame : ∀ (seen : List Store) (f : Store → Store), (∀ s, (f s).leases = s.leases) → Φ seen (fun s => some (f s)))
    {key : String} {state : TaskState} {now : Int} {a : Transition}
    (h : a.clearClaim = true → ∀ (seen : List Store) (reason : String), Φ seen (fun s => some (retireActiveLeases key now reason s))) :
    (applyTaskState key state now a).Each Φ seen := by
  have hclear : a.clearClaim = true → ∀ seen, (clearTaskClaim key now a.reason).Each Φ seen := by
    intro hc seen
    have hlast : ∀ seen, (update (taskRows key) (fun s => s.modifyTask key (TaskRow.clearClaim now)
        (TaskRow.clearClaim_key now)) : Sql Unit).Each Φ seen :=
      fun _ => each_update _ (hsame _ _ fun _ => rfl)
    refine each_get_bind fun s => ?_
    by_cases hrows : activeLeasesOf key s ≠ []
    · simp only [hrows, ne_eq, not_false_eq_true, if_true]
      refine each_update_bind (h hc _ _) fun _ => ?_
      refine Each.bind (Each.forEach fun _ _ _ _ => each_update _ (hsame _ _ fun _ => rfl)) ?_
      exact fun _ _ _ => hlast _
    · simp only [hrows, if_false]
      exact hlast _
  refine each_get_bind fun s => ?_
  cases s.tasks.find? key with
  | none => trivial
  | some row =>
    refine each_update_bind (hsame _ _ fun _ => rfl) fun _ => ?_
    have hend : ∀ seen, (if a.clearClaim then clearTaskClaim key now a.reason else pure PUnit.unit : Sql Unit).Each
        Φ seen := by
      intro seen
      by_cases hc : a.clearClaim = true
      · rw [if_pos hc]
        exact hclear hc seen
      · rw [if_neg hc]
        trivial
    by_cases hstate : row.state ≠ state
    · simp only [hstate, ne_eq, not_false_eq_true, if_true]
      exact each_update_bind (hsame _ _ fun _ => rfl) fun _ => hend _
    · simp only [hstate, if_false]
      exact hend _

theorem each_clearReclaimable (key : String) (now : Int) :
    (clearReclaimableTaskClaim key now).Each (leaseGuarantee op).Respects seen := by
  refine each_get_bind fun s => ?_
  cases s.tasks.find? key with
  | none => trivial
  | some row =>
    cases hl : row.claimedLeaseId with
    | none => simp only [hl]; trivial
    | some leaseId =>
      by_cases ht : leaseId.text = ""
      · simp only [hl, ht, if_true]; trivial
      · simp only [hl, ht, if_false]
        refine each_get_bind fun t => ?_
        by_cases ha : (t.leases.find? leaseId).any (fun l => decide (l.status = .active))
        · simp only [ha, if_true]; trivial
        · simp only [ha, if_false]
          exact each_update _ (respects_same fun _ => rfl)

theorem each_heartbeatLease {now ttl : Int} {leaseId : Ident} (hop : op = .heartbeatLease now ttl leaseId) :
    (heartbeatLease now ttl leaseId).Each (leaseGuarantee op).Respects seen := by
  refine each_get_bind fun s => ?_
  cases hrow : s.leases.find? leaseId with
  | none => trivial
  | some row =>
    have hid : row.leaseId = leaseId := Table.find?_key hrow
    refine each_updateCount_bind (Guarantee.respects_some fun t => effect_modifyLease _ fun l _ => ?_) fun t => ?_
    · exact moved_beat (hid ▸ hop)
    · split
      · trivial
      · exact each_update_bind (respects_same fun _ => rfl) fun _ =>
          each_update_bind (respects_same fun _ => rfl) fun _ => each_get _ _

theorem ReleaseStatus.toLease_ne (status : ReleaseStatus) : status.toLease ≠ .active := by cases status <;> simp [ReleaseStatus.toLease]

theorem each_releaseLease {now : Int} {leaseId : Ident} {status : ReleaseStatus} {reason : Option String}
    (hop : op = .releaseLease now leaseId status reason) :
    (releaseLease now leaseId status reason).Each (leaseGuarantee op).Respects seen := by
  have hends : ∀ seen key, Ends op seen leaseId key := fun _ _ => hop ▸ rfl
  refine each_get_bind fun s => ?_
  cases s.leases.find? leaseId with
  | none => trivial
  | some row =>
    refine each_updateCount_bind (Guarantee.respects_some fun t => effect_modifyLease _ fun l _ => ?_) fun t => ?_
    · exact moved_close (ReleaseStatus.toLease_ne status) (hends _ l.taskKey)
    · split
      · exact each_get _ _
      · exact each_update_bind (respects_same fun _ => rfl) fun _ =>
          each_update_bind (respects_same fun _ => rfl) fun _ => each_get _ _

/-- The statements of a claim that take its lease and write the rows of its task. -/
theorem each_writeClaim {now : Int} {a : ClaimArgs} (hop : op = .claimTask now a) (attempt : Nat) :
    (writeClaim now a attempt).Each (leaseGuarantee op).Respects seen := by
  refine Each.bind (each_insertRow _ fun s t h => effect_insertLease hop h) fun _ _ _ => ?_
  refine each_update_bind (respects_same fun _ => rfl) fun _ => each_update_bind (respects_same fun _ => rfl) fun _ =>
    each_update_bind (respects_same fun _ => rfl) fun _ => each_applyTaskState (fun _ _ => respects_same) fun h => by cases h

theorem each_claimTask {env : Env} {now : Int} {a : ClaimArgs} (hop : op = .claimTask now a) :
    (claimTask env now a).Each (leaseGuarantee op).Respects seen := by
  have hdue : ∀ seen id, SawDue now seen id → ∀ key, Ends op seen id key := by
    intro seen id h key
    subst hop
    exact .inl h
  have hstale : ∀ seen id, SawStale (staleCutoff now defaultWorkerStaleAfterSeconds) seen id →
      ∀ key, Ends op seen id key := by
    intro seen id h key
    subst hop
    exact .inr h
  have hlock : ∀ seen, (lockTaskKey env a.key).Each (leaseGuarantee op).Respects seen := by
    intro seen
    unfold lockTaskKey
    cases env.backend with
    | postgres => exact fun _ => trivial
    | sqlite => trivial
  have hreap : ∀ seen, (reapExpiredLeasesLocked now).Each (leaseGuarantee op).Respects seen :=
    fun seen => each_get_bind fun s => each_reapRows (sweeping_lease hdue) fun l hl => sawDue_snoc hl
  intro _
  refine (hlock _).bind fun _ _ _ => (hreap _).bind fun _ _ _ => ?_
  refine (each_reapStaleWorkersLocked (sweeping_lease hstale)).bind fun _ _ _ => ?_
  refine each_get_bind fun s => each_get_bind fun t => ?_
  dsimp only
  split
  · trivial
  · refine each_get_bind fun u => ?_
    split
    · exact each_get_bind fun _ => trivial
    · refine each_get_bind fun v => (each_writeClaim hop _).bind fun _ _ _ => ?_
      exact fun _ => each_get_bind fun _ => each_get_bind fun _ => trivial

theorem each_transition {now : Int} {key : String} {state : TaskState} {a : Transition}
    (h : a.clearClaim = true → ∀ seen id, Ends op seen id key) :
    (transitionTaskState now key state a).Each (leaseGuarantee op).Respects seen :=
  (each_applyTaskState (fun _ _ => respects_same) fun hc _ _ => Guarantee.respects_some fun _ =>
    effect_retireActive (h hc _)).bind fun _ _ _ => each_get _ _

/-- Every operation keeps to its guarantee. -/
theorem each_prog (env : Env) (op : Op) : (op.prog env).Each (leaseGuarantee op).Respects [] := by
  cases op with
  | claimTask now a => exact (each_claimTask rfl).bind fun _ _ _ => trivial
  | heartbeatLease now ttl leaseId => exact (each_heartbeatLease rfl).bind fun _ _ _ => trivial
  | releaseLease now leaseId status reason => exact (each_releaseLease rfl).bind fun _ _ _ => trivial
  | reapExpiredLeases now =>
    refine Each.bind ?_ fun _ _ _ => trivial
    intro _
    refine each_get_bind fun s => Each.bind (each_reapRows (sweeping_lease fun _ _ h _ => ?_)
      fun l hl => sawDue_snoc hl) fun _ _ _ _ => trivial
    exact h
  | reapStaleWorkers now after =>
    refine Each.bind ?_ fun _ _ _ => trivial
    intro _
    refine each_get_bind fun s => (each_findDeadHosts _ _ _).bind fun dead seen' hs => ?_
    have hread : ReadRows (staleCutoff now after) seen'
        ((staleWorkers (staleCutoff now after) s).insertionSort (fun a b => a.lastSeenAtMs ≤ b.lastSeenAtMs)) := by
      intro w hw
      refine ⟨s, hs.subset (List.mem_append_right _ (List.mem_singleton_self s)), ?_⟩
      exact (List.perm_insertionSort _ _).mem_iff.mp hw
    refine Each.bind (each_reapStaleRows (sweeping_lease fun _ _ h _ => ?_) hread) fun _ _ _ _ => trivial
    exact h
  | registerTask now task repo status =>
    refine Each.bind ?_ fun _ _ _ => trivial
    refine each_update_bind (respects_same fun _ => rfl) fun _ => ?_
    exact (each_clearReclaimable _ _).bind fun _ _ _ => each_get _ _
  | markTask mark now key me expires reason =>
    refine Each.bind ?_ fun _ _ _ => trivial
    cases mark <;> exact each_transition fun h => by cases h
  | operatorMove now key state reason clear =>
    refine Each.bind (each_transition fun h _ _ => ?_) fun _ _ _ => trivial
    exact ⟨rfl, h⟩
  | registerWorker now workerId hostId role status capabilities runId leaseId =>
    refine Each.bind ?_ fun _ _ _ => trivial
    exact each_update_bind (respects_same fun _ => rfl) fun _ => trivial
  | heartbeatWorker now workerId fields =>
    refine Each.bind ?_ fun _ _ _ => trivial
    refine each_get_bind fun s => ?_
    cases s.workers.find? workerId with
    | none => trivial
    | some w => exact each_update_bind (respects_same fun _ => rfl) fun _ => each_get _ _

end

end LeaseEffects
