import TandemAgents.StoreSessions

/-!
# Claims exclude each other

A claim sweeps, checks and inserts. While it is open, nothing but a heartbeat that sets
an active lease back before the claim's clock can put an expired lease of its task in
front of it; so on SQLite, and on Postgres but for such a heartbeat, the insertion finds
the task free. Where the check is passed by in this way the unique index refuses.
-/
namespace ClaimExclusion

open KeyedTable PythonText TaskContract CoordinationStore Statements Statements.Prog
open LeaseOperations WorkerOperations TaskOperations OperationRuns StoreHistories LeaseEffects StoreSessions

set_option maxRecDepth 20000

/-- An active lease of the task that has expired. -/
def DueFor (now : Int) (key : String) (s : Store) (id : Ident) : Prop :=
  ∃ l, s.leases.find? id = some l ∧ l.status = .active ∧ l.taskKey = key ∧ l.expiresAtMs ≤ now

/-- What a claim at `now` relies on: no lease of the task becomes active, its own stays
so, and, when `strict`, no active lease of the task comes to have expired. -/
structure Calm (strict : Prop) (now : Int) (a : ClaimArgs) (s t : Store) : Prop where
  active : ∀ id, ActiveAt t id a.key → ActiveAt s id a.key
  due : strict → ∀ id, DueFor now a.key t id → DueFor now a.key s id
  own : ActiveAt s a.leaseId a.key → ActiveAt t a.leaseId a.key

def calm (strict : Prop) (now : Int) (a : ClaimArgs) : Rely Store where
  rel := Calm strict now a
  refl _ := ⟨fun _ h => h, fun _ _ h => h, fun h => h⟩
  trans _ _ _ h k :=
    ⟨fun id hu => h.active id (k.active id hu), fun hs id hu => h.due hs id (k.due hs id hu), fun hs => k.own (h.own hs)⟩

/-- A claim commits its own lease. -/
def claimAim (strict : Prop) (now : Int) (a : ClaimArgs) : Aim Store where
  rely := calm strict now a
  strict := strict
  commits s := ActiveAt s a.leaseId a.key

/-! ## The statements of a claim and the rely -/

section
variable {strict : Prop} {now : Int} {a : ClaimArgs} {s t : Store}

theorem activeAt_same {s' : Store} {id : Ident} {key : String} (h : s'.leases = s.leases) :
    ActiveAt s' id key ↔ ActiveAt s id key := by
  rw [ActiveAt, h, ActiveAt]

theorem dueFor_same {s' : Store} {id : Ident} {key : String} (h : s'.leases = s.leases) :
    DueFor now key s' id ↔ DueFor now key s id := by
  rw [DueFor, h, DueFor]

theorem activeAt_retire {id k : Ident} {key reason : String} {n : Int} :
    ActiveAt (s.modifyLease k (LeaseRow.retire n .stale (some reason)) (LeaseRow.retire_leaseId n .stale (some reason)))
      id key ↔ id ≠ k ∧ ActiveAt s id key := by
  simp only [ActiveAt, Store.modifyLease_leases, Table.find?_modify]
  by_cases hk : id = k
  · simp [hk, LeaseRow.retire]
  · simp [hk]

theorem dueFor_retire {id k : Ident} {key reason : String} {n : Int} :
    DueFor now key (s.modifyLease k (LeaseRow.retire n .stale (some reason))
      (LeaseRow.retire_leaseId n .stale (some reason))) id ↔ id ≠ k ∧ DueFor now key s id := by
  simp only [DueFor, Store.modifyLease_leases, Table.find?_modify]
  by_cases hk : id = k
  · simp [hk, LeaseRow.retire]
  · simp [hk]

theorem Calm.same {f : Store → Store} (hf : ∀ s, (f s).leases = s.leases) (h : Calm strict now a s t) :
    Calm strict now a (f s) (f t) where
  active id := by
    rw [activeAt_same (hf s), activeAt_same (hf t)]
    exact h.active id
  due hs id := by
    rw [dueFor_same (hf s), dueFor_same (hf t)]
    exact h.due hs id
  own := by
    rw [activeAt_same (hf s), activeAt_same (hf t)]
    exact h.own

theorem Calm.retire {k : Ident} {n : Int} {reason : String} (h : Calm strict now a s t) : Calm strict now a
    (s.modifyLease k (LeaseRow.retire n .stale (some reason)) (LeaseRow.retire_leaseId n .stale (some reason)))
    (t.modifyLease k (LeaseRow.retire n .stale (some reason)) (LeaseRow.retire_leaseId n .stale (some reason))) where
  active id := by
    rw [activeAt_retire, activeAt_retire]
    exact And.imp_right (h.active id)
  due hs id := by
    rw [dueFor_retire, dueFor_retire]
    exact And.imp_right (h.due hs id)
  own := by
    rw [activeAt_retire, activeAt_retire]
    exact And.imp_right h.own

/-- What the index lets through it lets through later. -/
theorem carries_insertLease (attempt : Nat) :
    (calm strict now a).Carries (fun s => s.insertLease (a.lease now attempt)) := by
  intro s t u hst hu
  obtain ⟨rfl, hfree⟩ := insertLease_eq hu
  cases hv : t.insertLease (a.lease now attempt) with
  | none =>
    obtain ⟨l, hl, hk, ha, hne⟩ := insertLease_isNone.mp hv
    obtain ⟨m, hm, hma, hmk⟩ := hst.active l.leaseId ⟨l, hl, ha, hk⟩
    have hid := Table.find?_key hm
    exact absurd (hid.symm.trans (hfree m (hid ▸ hm) hmk hma)) hne
  | some v =>
    obtain ⟨rfl, -⟩ := insertLease_eq hv
    refine ⟨_, hv, ?_, ?_, ?_⟩
    · rintro id ⟨l, hl, ha, hk⟩
      rw [Store.putLease_leases] at hl
      by_cases hid : id = (a.lease now attempt).leaseId
      · exact ⟨l, by rw [Store.putLease_leases, if_pos hid]; rwa [if_pos hid] at hl, ha, hk⟩
      · rw [if_neg hid] at hl
        obtain ⟨m, hm, hma, hmk⟩ := hst.active id ⟨l, hl, ha, hk⟩
        exact ⟨m, by rw [Store.putLease_leases, if_neg hid, hm], hma, hmk⟩
    · rintro hs id ⟨l, hl, ha, hk, he⟩
      rw [Store.putLease_leases] at hl
      by_cases hid : id = (a.lease now attempt).leaseId
      · exact ⟨l, by rw [Store.putLease_leases, if_pos hid]; rwa [if_pos hid] at hl, ha, hk, he⟩
      · rw [if_neg hid] at hl
        obtain ⟨m, hm, hma, hmk, hme⟩ := hst.due hs id ⟨l, hl, ha, hk, he⟩
        exact ⟨m, by rw [Store.putLease_leases, if_neg hid, hm], hma, hmk, hme⟩
    · intro _
      exact ⟨a.lease now attempt, by rw [Store.putLease_leases]; exact if_pos rfl, rfl, rfl⟩

/-! ## The claim is safe -/

/-- No lease of the task is left that has expired. -/
def NoneDue (strict : Prop) (now : Int) (a : ClaimArgs) (s : Store) : Prop := strict → ∀ id, ¬ DueFor now a.key s id

/-- No lease of the task is active. -/
def Free (strict : Prop) (a : ClaimArgs) (s : Store) : Prop := strict → ∀ id, ¬ ActiveAt s id a.key

theorem NoneDue.calm (h : NoneDue strict now a s) (hst : Calm strict now a s t) : NoneDue strict now a t :=
  fun hs id hd => h hs id (hst.due hs id hd)

theorem Free.calm (h : Free strict a s) (hst : Calm strict now a s t) : Free strict a t :=
  fun hs id ha => h hs id (hst.active id ha)

/-- The sweep ends every expired lease of the task: the rows still to come cover those
that are left. -/
theorem safe_reapExpired : (reapExpiredLeasesLocked now).Safe (claimAim strict now a) (fun _ => NoneDue strict now a) s := by
  let J (rows : List LeaseRow) (s : Store) : Prop := strict → ∀ id, DueFor now a.key s id → ∃ l ∈ rows, l.leaseId = id
  have hJ : ∀ rows s t, Calm strict now a s t → J rows s → J rows t :=
    fun rows s t hst h hs id hd => h hs id (hst.due hs id hd)
  have hround : ∀ l rows s, J (l :: rows) s →
      (reapExpiredLease now l).Safe (claimAim strict now a) (fun _ => J rows) s := by
    intro l rows s h
    have hsame : ∀ (rs : Store → List RowName) (f : Store → Store), (∀ s, (f s).leases = s.leases) →
        ∀ s, J rows s → (update rs f : Sql Unit).Safe (claimAim strict now a) (fun _ => J rows) s := by
      intro rs f hf s hs
      refine safe_update (fun s t hst => Calm.same hf hst) (hJ rows) fun t ht hstr id hd => ?_
      exact hJ rows s t ht hs hstr id ((dueFor_same (hf t)).mp hd)
    refine Safe.bind (Q := fun _ => J rows) ?_ fun _ t ht => ?_
    · refine safe_update (fun s t hst => Calm.retire hst) (hJ rows) fun t ht hstr id hd => ?_
      obtain ⟨hne, hd⟩ := dueFor_retire.mp hd
      obtain ⟨m, hm, rfl⟩ := hJ _ s t ht h hstr id hd
      rcases List.mem_cons.mp hm with rfl | hm
      · exact absurd rfl hne
      · exact ⟨m, hm, rfl⟩
    · refine Safe.bind (Q := fun _ => J rows) (hsame _ _ ?_ t ht) fun _ u hu => hsame _ _ ?_ u hu
      · exact fun _ => rfl
      · exact fun _ => rfl
  intro t _
  have hstart : J (expiredLeases now t) t := by
    rintro - id ⟨l, hl, ha, hk, he⟩
    have hid := Table.find?_key hl
    refine ⟨l, ?_, hid⟩
    simp only [expiredLeases, Table.mem_select, decide_eq_true_eq]
    exact ⟨hid ▸ hl, ha, he⟩
  refine (Safe.forEach hJ hround hstart).weaken fun _ u hu hs id hd => ?_
  obtain ⟨l, hl, -⟩ := hu hs id hd
  cases hl

theorem keeps_same {J : Store → Prop} (hJ : ∀ s t : Store, t.leases = s.leases → J s → J t) {f : Store → Store}
    (hf : ∀ s, (f s).leases = s.leases) : (calm strict now a).Keeps J (fun s => some (f s)) :=
  Rely.keeps_some (fun _ _ h => Calm.same hf h) fun s => hJ s (f s) (hf s)

/-- The statements of the stale-worker sweep bring no expired lease back. -/
theorem sweeping_calm (why : List Store → Ident → Prop) :
    Sweeping (fun _ f => (calm strict now a).Keeps (NoneDue strict now a) f) why where
  same _ f hf := keeps_same (fun s t ht h hs id hd => h hs id ((dueFor_same ht).mp hd)) hf
  retire _ id n reason _ := by
    refine Rely.keeps_some (fun s t h => Calm.retire h) fun s h hs i hd => ?_
    exact h hs i (dueFor_retire.mp hd).2

theorem safe_reapStale (after : Int) (h : NoneDue strict now a s) :
    (reapStaleWorkersLocked now after).Safe (claimAim strict now a) (fun _ => NoneDue strict now a) s :=
  safe_of_each (fun _ _ hst h => NoneDue.calm h hst) (reapStaleWorkersLocked_plain now after) []
    (each_reapStaleWorkersLocked (sweeping_calm _)) h

/-- With no expired lease left, a check that finds no live one finds the task free. -/
theorem free_of_check (h : NoneDue strict now a s) (hl : liveLease a.key now s = none) : Free strict a s := by
  rintro hs id ⟨l, hfind, ha, hk⟩
  have hid := Table.find?_key hfind
  have hlive : now < l.expiresAtMs := by
    by_contra he
    exact h hs id ⟨l, hfind, ha, hk, by omega⟩
  have hnil := List.head?_eq_none_iff.mp hl
  have hmem : l ∈ (s.leases.select (fun l => decide (l.taskKey = a.key ∧ l.status = .active ∧ now < l.expiresAtMs))
      ).insertionSort (fun a b => b.expiresAtMs ≤ a.expiresAtMs) := by
    rw [(List.perm_insertionSort _ _).mem_iff, Table.mem_select]
    exact ⟨hid ▸ hfind, by simp [hk, ha, hlive]⟩
  rw [hnil] at hmem
  cases hmem

/-- The upserts behind the insertion leave the leases alone. -/
theorem safe_writeClaim (attempt : Nat) (h : Free strict a s) :
    (writeClaim now a attempt).Safe (claimAim strict now a) (fun _ t => ActiveAt t a.leaseId a.key) s := by
  have hown : ∀ s t : Store, t.leases = s.leases → ActiveAt s a.leaseId a.key → ActiveAt t a.leaseId a.key :=
    fun s t ht hs => (activeAt_same ht).mpr hs
  refine Safe.bind (Q := fun _ t => ActiveAt t a.leaseId a.key) ?_ fun _ t ht => ?_
  · refine ⟨carries_insertLease attempt, fun t ht => ⟨fun hs hnone => ?_, fun u hu v hv => ?_⟩⟩
    · obtain ⟨l, hl, hk, ha, -⟩ := insertLease_isNone.mp hnone
      exact (Free.calm h ht) hs l.leaseId ⟨l, hl, ha, hk⟩
    · obtain ⟨rfl, -⟩ := insertLease_eq hu
      exact hv.own ⟨a.lease now attempt, by rw [Store.putLease_leases]; exact if_pos rfl, rfl, rfl⟩
  · refine safe_of_each (fun _ _ (hst : Calm strict now a _ _) hs => hst.own hs) ?_ [] ?_ ht
    · exact (update_plain _ _).bind fun _ => (update_plain _ _).bind fun _ => (update_plain _ _).bind fun _ =>
        applyTaskState_plain _ _ _ _
    · refine each_update_bind (keeps_same hown fun _ => rfl) fun _ => each_update_bind (keeps_same hown fun _ => rfl)
        fun _ => each_update_bind (keeps_same hown fun _ => rfl) fun _ => ?_
      exact each_applyTaskState (fun _ _ => keeps_same hown) fun hc => by cases hc

theorem safe_decideClaim (env : Env) (h : NoneDue strict now a s) :
    (decideClaim env now a).Safe (claimAim strict now a) (fun _ _ => True) s := by
  refine safe_get_bind fun t ht => safe_get_bind fun u hu => ?_
  have hdue : NoneDue strict now a u := (h.calm ht).calm hu
  dsimp only
  split
  · exact fun _ _ => trivial
  · refine safe_get_bind fun v hv => ?_
    have hdue : NoneDue strict now a v := hdue.calm hv
    split
    · exact safe_get_bind fun _ _ _ _ => trivial
    · rename_i hl
      refine safe_get_bind fun w hw => ?_
      have hfree : Free strict a w := (free_of_check hdue hl).calm hw
      refine (safe_writeClaim _ hfree).bind fun _ x hx y hy => ?_
      exact Calm.own hy hx

theorem safe_claimBody (env : Env) (s : Store) : (claimBody env now a).Safe (claimAim strict now a) (fun _ _ => True) s := by
  refine Safe.bind (Q := fun _ _ => True) ?_ fun _ _ _ _ _ => trivial
  refine safe_reapExpired.bind fun _ t ht => ?_
  exact (safe_reapStale _ ht).bind fun _ u hu => safe_decideClaim env hu

end

/-! ## Claims among other sessions -/

/-- A heartbeat sets an active lease of the task back, from after a time to at or before it. -/
def SetsBack {ι : Type} (P : ι → Op) (now : Int) (key : String) (c : StoreConfig ι) (j : ι) (d : StoreConfig ι) : Prop :=
  ∃ t ttl id l l', P j = .heartbeatLease t ttl id ∧ c.db.leases.find? id = some l ∧ d.db.leases.find? id = some l' ∧
    l.status = .active ∧ l.taskKey = key ∧ now < l.expiresAtMs ∧ l'.expiresAtMs = t + secondsToMs defaultLeaseTtlSeconds ttl ∧
    l'.expiresAtMs ≤ now

section
variable {ι : Type} [DecidableEq ι] {env : Env} {A : StoreConfig ι → ι → StoreConfig ι → Prop} {P : ι → Op}
  {c d : StoreConfig ι} {i j : ι} {strict : Prop} {now : Int} {a : ClaimArgs}

/-- Two claims of one task are not inside at once. -/
theorem inside_unique {key : String} (h : StoreRuns env A (start env P) c)
    (hi : (c.session i).Inside (claimLock env key)) (hj : (c.session j).Inside (claimLock env key)) : i = j := by
  cases hb : env.backend with
  | sqlite =>
    have hruns : Runs .exclusive A (start env P) c := by
      rw [StoreRuns, hb] at h
      exact h
    exact oneWriter_runs hruns i j hi.1 hj.1
  | postgres =>
    have hlock : claimLock env key = some (env.hashtext key) := by rw [claimLock, hb]
    exact disjointLocks_runs h i j _ (hi.2 _ hlock) (hj.2 _ hlock)

/-- What another session commits while a claim is inside is what the claim relies on. -/
theorem calm_step (hfresh : FreshLeases P) (hi : P i = .claimTask now a) (h : StoreRuns env A (start env P) c)
    (hs : Step (isolation env.backend) c j d) (hij : i ≠ j) (hin : (c.session i).Inside (claimLock env a.key))
    (hback : strict → ¬ SetsBack P now a.key c j d) : Calm strict now a c.db d.db := by
  by_cases hdb : d.db = c.db
  · rw [hdb]
    exact (calm strict now a).refl c.db
  have heffect := ((guarded_runs h).step hs).2
  have hmoved : ∀ id l', d.db.leases.find? id = some l' → l'.taskKey = a.key →
      ∃ l, c.db.leases.find? id = some l ∧ Moved (P j) (c.session j).seen id l l' := by
    intro id l' hl' hkey
    rcases heffect.moved id l' hl' with ⟨now', b, hj, -, hb, -⟩ | hm
    · rcases (claim_bracketed hj h).changes (claimBody_inTx env now' b) hs with heq | ⟨hjin, -⟩
      · exact absurd heq hdb
      · rw [← hb, hkey] at hjin
        exact absurd (inside_unique h hin hjin) hij
    · exact hm
  constructor
  · rintro id ⟨l', hl', ha, hk⟩
    obtain ⟨l, hl, hm⟩ := hmoved id l' hl' hk
    exact ⟨l, hl, hm.active ha, hm.key.symm.trans hk⟩
  · rintro hstr id ⟨l', hl', ha, hk, he⟩
    obtain ⟨l, hl, hm⟩ := hmoved id l' hl' hk
    refine ⟨l, hl, hm.active ha, hm.key.symm.trans hk, ?_⟩
    rcases hm.expiry with hsame | ⟨t, ttl, hj, hbeat⟩
    · rwa [← hsame]
    · by_contra hlive
      have hlive : now < l.expiresAtMs := by omega
      exact hback hstr ⟨t, ttl, id, l, l', hj, hl, hl', hm.active ha, hm.key.symm.trans hk, hlive, hbeat, he⟩
  · rintro ⟨l, hl, -⟩
    exact absurd hin (claim_over hfresh hi h hl).not_inside

/-- A claim stays safe in every run without such a heartbeat. -/
theorem shielded_runs (hfresh : FreshLeases P) (hi : P i = .claimTask now a)
    (h : StoreRuns env (fun c j d => strict → (c.session i).tx.isSome → ¬ SetsBack P now a.key c j d) (start env P) c) :
    (c.session i).Inside (claimLock env a.key) → (c.session i).Shielded (claimAim strict now a) c.db := by
  induction h with
  | refl => exact fun hin => by cases hin.1
  | @step d e j hr hs ha ih =>
    refine (claim_bracketed hi hr).shielded_step (safe_claimBody env) ih hs fun hij hin => ?_
    exact calm_step hfresh hi hr hs hij hin fun hstr => ha hstr hin.1

/-- The `COMMIT` of a claim leaves its lease active. -/
theorem claim_commits (hfresh : FreshLeases P) (hi : P i = .claimTask now a) (h : StoreRuns env A (start env P) c)
    (hc : Commits c i d) : ActiveAt d.db a.leaseId a.key ∧ (d.session i).Over := by
  obtain ⟨⟨k, hk⟩, hin, hdb, hover⟩ := Commits.result (claim_bracketed hi h) hc
  have hruns := h.mono (B := fun c j d => False → (c.session i).tx.isSome → ¬ SetsBack P now a.key c j d)
    fun _ _ _ _ hf => hf.elim
  rw [hdb]
  exact ⟨(shielded_runs hfresh hi hruns hin).commit hk, hover⟩

/-- A claim whose insertion is refused was passed by a heartbeat, on Postgres. -/
theorem refused_setsBack (hfresh : FreshLeases P) (hi : P i = .claimTask now a)
    (h : StoreRuns env A (start env P) c) (hrefused : (c.session i).Refused c.db) : env.backend = .postgres ∧
      ∃ d j e, StoreRuns env anyStep (start env P) d ∧ Step (isolation env.backend) d j e ∧
        StoreRuns env anyStep e c ∧ (d.session i).tx.isSome ∧ SetsBack P now a.key d j e := by
  rcases h.meets_or (B := fun c j d => True → (c.session i).tx.isSome → ¬ SetsBack P now a.key c j d) with
    hall | ⟨d, j, e, hd, hs, hbad, he⟩
  · exact absurd hrefused ((claim_bracketed hi h).not_refused trivial (shielded_runs hfresh hi hall))
  · have hbad : (d.session i).tx.isSome ∧ SetsBack P now a.key d j e := by
      by_contra hno
      exact hbad fun _ hopen hback => hno ⟨hopen, hback⟩
    have hany : ∀ {x y}, Runs (isolation env.backend) A x y → StoreRuns env anyStep x y :=
      fun hr => hr.mono fun _ _ _ _ => trivial
    refine ⟨?_, d, j, e, hd.mono fun _ _ _ _ => trivial, hs, hany he, hbad.1, hbad.2⟩
    cases hb : env.backend with
    | postgres => rfl
    | sqlite =>
      -- nothing else commits while the claim is open
      obtain ⟨t, ttl, id, l, l', hj, hl, hl', -, -, hlive, -, hdue⟩ := hbad.2
      have hij : j ≠ i := by
        rintro rfl
        cases hi.symm.trans hj
      rw [hb] at hd hs
      rw [(oneWriter_runs hd).frame hbad.1 hij hs] at hl'
      cases hl.symm.trans hl'
      omega

/-- On SQLite, what a sweep read as expired is expired in the store it sweeps. -/
theorem dueAt_of_sawDue {own : Option Int} {body : Sql Outcome} {id : Ident} {t : Int}
    (hopens : ((P i).prog env).Opens own body) (hbody : body.InTx) (hmode : env.backend = .sqlite)
    (h : StoreRuns env A (start env P) c) (hopen : (c.session i).tx.isSome)
    (hbeat : ∀ now ttl, P i ≠ .heartbeatLease now ttl id) (hins : ∀ now b, P i = .claimTask now b → b.leaseId ≠ id)
    (hsaw : SawDue t (c.session i).seen id) : DueAt t c.db id := by
  obtain ⟨s, hs, hdue⟩ := hsaw
  refine recalls_runs (p := fun i => (P i).prog env) (K := fun db s => DueAt t s id → DueAt t db id) hopens hbody
    (fun _ hr => dueAt_view hr hbeat hins) ?_ h hopen s hs hdue
  intro d j e hr hij hopen hs s hK
  rw [hmode] at hr hs
  rw [(oneWriter_runs hr).frame hopen hij.symm hs]
  exact hK

/-- How a lease of a task leaves the active ones: a sweep had read it as expired, and on
SQLite it is expired in the store. -/
def LeftFor (env : Env) (P : ι → Op) (c : StoreConfig ι) (k : ι) (id : Ident) (key : String) : Prop :=
  Ends (P k) (c.session k).seen id key ∧ (env.backend = .sqlite →
    EndsWhen (fun now => DueAt now c.db id) (fun cutoff => SawStale cutoff (c.session k).seen id) (P k) id key)

/-- A step that ends the lease of a claim that has committed. -/
theorem leftFor_of_step {k : ι} (hfresh : FreshLeases P) (hi : P i = .claimTask now a)
    (h : StoreRuns env A (start env P) c) (hover : (c.session i).Over)
    (hs : Step (isolation env.backend) c k d) (hc : ActiveAt c.db a.leaseId a.key)
    (hd : ¬ ActiveAt d.db a.leaseId a.key) : LeftFor env P c k a.leaseId a.key := by
  obtain ⟨l, hl, hact, hkey⟩ := hc
  have hdb : d.db ≠ c.db := by
    intro heq
    exact hd ⟨l, heq ▸ hl, hact, hkey⟩
  have hins : ∀ n b, P k = .claimTask n b → b.leaseId ≠ a.leaseId := by
    intro n b hk hb
    obtain rfl : k = i := hfresh k i _ _ _ _ hk hi hb
    rcases hs.session k with ⟨hne, -⟩ | ⟨-, hadv | ⟨-, heq⟩⟩
    · exact hne rfl
    · exact hdb (hover.advance hadv).1
    · exact hdb heq
  have hends : Ends (P k) (c.session k).seen a.leaseId a.key := by
    have heffect := ((guarded_runs h).step hs).2
    obtain ⟨l', hl'⟩ := heffect.stays _ _ hl
    rcases heffect.moved _ _ hl' with ⟨n, b, hk, hb, -⟩ | ⟨m, hm, hmoved⟩
    · exact absurd hb (hins n b hk)
    · obtain rfl := Option.some.inj (hl.symm.trans hm)
      refine hkey ▸ hmoved.ends fun hsame => hd ⟨l', hl', hsame.trans hact, hmoved.key.trans hkey⟩
  refine ⟨hends, fun hmode => ?_⟩
  cases hk : P k with
  | reapExpiredLeases n =>
    rw [hk] at hends
    rcases (reap_bracketed hk h).changes (reapBody_inTx n) hs with heq | ⟨hin, -⟩
    · exact absurd heq hdb
    · exact dueAt_of_sawDue (hk ▸ reap_opens env n) (reapBody_inTx n) hmode h hin.1 (by simp [hk]) hins hends
  | claimTask n b =>
    rw [hk] at hends
    refine hends.imp_left fun hsaw => ?_
    rcases (claim_bracketed hk h).changes (claimBody_inTx env n b) hs with heq | ⟨hin, -⟩
    · exact absurd heq hdb
    · exact dueAt_of_sawDue (hk ▸ claim_opens env n b) (claimBody_inTx env n b) hmode h hin.1 (by simp [hk]) hins hsaw
  | _ =>
    rw [hk] at hends
    exact hends

/-- Between two claims of a task that commit, the lease of the first leaves the active ones. -/
theorem between_claims {b : ClaimArgs} {now' : Int} {c₀ c₁ c₂ : StoreConfig ι} (hfresh : FreshLeases P)
    (hi : P i = .claimTask now a) (hj : P j = .claimTask now' b) (hij : i ≠ j) (hkey : b.key = a.key)
    (h₀ : StoreRuns env A (start env P) c₀) (hci : Commits c₀ i c₁) (h₁ : StoreRuns env A c₁ c₂)
    (ha : ∀ c i d, A c i d) (hcj : Commits c₂ j c) :
    ∃ d k e, StoreRuns env A c₁ d ∧ Step (isolation env.backend) d k e ∧ StoreRuns env A e c ∧
      ActiveAt d.db a.leaseId a.key ∧ ¬ ActiveAt e.db a.leaseId a.key ∧ LeftFor env P d k a.leaseId a.key := by
  have hr₁ : StoreRuns env A (start env P) c₁ := h₀.step i hci.step (ha _ _ _)
  have hr₂ : StoreRuns env A (start env P) c₂ := hr₁.trans h₁
  have hr : StoreRuns env A (start env P) c := hr₂.step j hcj.step (ha _ _ _)
  obtain ⟨hactive, hover⟩ := claim_commits hfresh hi h₀ hci
  have hgone : ¬ ActiveAt c.db a.leaseId a.key := by
    rintro ⟨l, hl, hla, hlk⟩
    obtain ⟨m, hm, hma, hmk⟩ := (claim_commits hfresh hj hr₂ hcj).1
    have hlid := Table.find?_key hl
    have hmid := Table.find?_key hm
    have hlm : l = m := uniqueActive_runs hr l m (hlid ▸ hl) (hmid ▸ hm) hla hma (by rw [hlk, hmk, hkey])
    exact hij (hfresh i j _ _ _ _ hi hj (by rw [← hlid, hlm, hmid]))
  obtain ⟨d, k, e, hd, hs, -, he, hon, hoff⟩ :=
    (h₁.step j hcj.step (ha _ _ _)).exists_last (I := fun c => ActiveAt c.db a.leaseId a.key) hactive hgone
  have hover' : (d.session i).Over :=
    hd.invariant (I := fun c => (c.session i).Over) hover fun _ _ _ ho hs _ => ho.step hs
  exact ⟨d, k, e, hd, hs, he, hon, hoff, leftFor_of_step hfresh hi (hr₁.trans hd) hover' hs hon hoff⟩

/-- At most one lease of a task is active; a claim meets another one at its insertion
only on Postgres, behind a heartbeat that set it back; and between two claims of a task
the lease of the first is released, swept or cleared. -/
theorem claims_exclude (hfresh : FreshLeases P) (h : StoreRuns env anyStep (start env P) c) :
    UniqueActive c.db ∧
    (∀ i now a, P i = .claimTask now a → (c.session i).Refused c.db → env.backend = .postgres ∧
      ∃ d j e, StoreRuns env anyStep (start env P) d ∧ Step (isolation env.backend) d j e ∧
        StoreRuns env anyStep e c ∧ (d.session i).tx.isSome ∧ SetsBack P now a.key d j e) ∧
    ∀ i j now now' a b c₀ c₁ c₂, P i = .claimTask now a → P j = .claimTask now' b → i ≠ j → b.key = a.key →
      StoreRuns env anyStep (start env P) c₀ → Commits c₀ i c₁ → StoreRuns env anyStep c₁ c₂ → Commits c₂ j c →
      ∃ d k e, StoreRuns env anyStep c₁ d ∧ Step (isolation env.backend) d k e ∧ StoreRuns env anyStep e c ∧
        ActiveAt d.db a.leaseId a.key ∧ ¬ ActiveAt e.db a.leaseId a.key ∧ LeftFor env P d k a.leaseId a.key := by
  refine ⟨uniqueActive_runs h, fun i now a hi => refused_setsBack hfresh hi h, ?_⟩
  intro i j now now' a b c₀ c₁ c₂ hi hj hij hkey h₀ hci h₁ hcj
  exact between_claims hfresh hi hj hij hkey h₀ hci h₁ (fun _ _ _ => trivial) hcj

end

/-! ## Runs -/

/-- A claim, and another one of the same task when the lease of the first has expired. -/
def takeover : Fin 2 → Op
  | 0 => .claimTask 0 (claimBy "a" (plainTask "T1"))
  | 1 => .claimTask 1500 (claimBy "b" (plainTask "T1"))

/-- The task of these runs. -/
def contested : String := (taskKey (plainTask "T1")).1

/-- On SQLite the second claim takes the task over, and only because the first lease left. -/
theorem takeover_excludes : ∃ c₁ c, StoreRuns sqliteEnv anyStep c₁ c ∧
    ActiveAt c₁.db (Ident.of "lease-a") contested ∧ ActiveAt c.db (Ident.of "lease-b") contested ∧ UniqueActive c.db ∧
    ∃ d k e, StoreRuns sqliteEnv anyStep c₁ d ∧ Step .exclusive d k e ∧ StoreRuns sqliteEnv anyStep e c ∧
      ActiveAt d.db (Ident.of "lease-a") contested ∧ ¬ ActiveAt e.db (Ident.of "lease-a") contested ∧
      LeftFor sqliteEnv takeover d k (Ident.of "lease-a") contested := by
  have hfresh : FreshLeases takeover := freshLeases_of (by decide +kernel)
  have hrun : (follow (isolation sqliteEnv.backend) anyStep (start sqliteEnv takeover) (List.replicate 13 0)).any (fun c₀ =>
      (c₀.session 0).atCommit && (follow (isolation sqliteEnv.backend) anyStep c₀ [0]).any (fun c₁ =>
        decide (ActiveAt c₁.db (Ident.of "lease-a") contested) &&
        (follow (isolation sqliteEnv.backend) anyStep c₁ (List.replicate 16 1)).any (fun c₂ =>
          (c₂.session 1).atCommit && (follow (isolation sqliteEnv.backend) anyStep c₂ [1]).any (fun c =>
            decide (ActiveAt c.db (Ident.of "lease-b") contested))))) = true := by decide +kernel
  simp only [Option.any_eq_true, Bool.and_eq_true, decide_eq_true_eq] at hrun
  obtain ⟨c₀, h₀, hat₀, c₁, h₁, ha, c₂, h₂, hat₂, c, h₃, hb⟩ := hrun
  have hr₀ := follow_runs h₀
  have hc₁ := commits_of_follow hat₀ h₁
  have hr₂ := follow_runs h₂
  have hc := commits_of_follow hat₂ h₃
  have hr : StoreRuns sqliteEnv anyStep c₁ c := hr₂.step 1 hc.step trivial
  have hall := claims_exclude hfresh ((hr₀.step 0 hc₁.step trivial).trans hr)
  exact ⟨c₁, c, hr, ha, hb, hall.1, hall.2.2 0 1 0 1500 _ _ c₀ c₁ c₂ rfl rfl (by decide) rfl hr₀ hc₁ hr₂ hc⟩

/-- A heartbeat that was held up sets the lease back under a claim that has swept. -/
def setBack : Fin 4 → Op
  | 0 => .claimTask 0 (claimBy "a" (plainTask "T1"))
  | 1 => .heartbeatLease 900 1 (Ident.of "lease-a")
  | 2 => .claimTask 1500 (claimBy "b" (plainTask "T1"))
  | 3 => .heartbeatLease 100 1 (Ident.of "lease-a")

/-- A heartbeat renews a lease that a sweep has read as expired. -/
def renewed : Fin 4 → Op
  | 0 => .claimTask 0 (claimBy "a" (plainTask "T1"))
  | 1 => .reapExpiredLeases 1000
  | 2 => .heartbeatLease 999 1 (Ident.of "lease-a")
  | 3 => .claimTask 1000 (claimBy "b" (plainTask "T1"))

/-- On Postgres the index can refuse a claim, and a sweep can end a lease before it
expires and let another claim in. -/
theorem heartbeats_break_exclusion :
    (∃ c, StoreRuns postgresEnv anyStep (start postgresEnv setBack) c ∧ (c.session 2).Refused c.db) ∧
    ∃ c d e, StoreRuns postgresEnv anyStep (start postgresEnv renewed) c ∧ Step .readCommitted c 1 d ∧
      StoreRuns postgresEnv anyStep d e ∧ ActiveAt c.db (Ident.of "lease-a") contested ∧
      ¬ DueAt 1000 c.db (Ident.of "lease-a") ∧ ¬ ActiveAt d.db (Ident.of "lease-a") contested ∧
      ActiveAt e.db (Ident.of "lease-b") contested := by
  constructor
  · have hrun : (follow (isolation postgresEnv.backend) anyStep (start postgresEnv setBack)
        (List.replicate 17 0 ++ List.replicate 5 1 ++ List.replicate 6 2 ++ [3, 3, 2, 2])).any (fun c =>
        decide ((c.session 2).Refused c.db)) = true := by decide +kernel
    simp only [Option.any_eq_true, decide_eq_true_eq] at hrun
    obtain ⟨c, hc, hrefused⟩ := hrun
    exact ⟨c, follow_runs hc, hrefused⟩
  · have hrun : (follow (isolation postgresEnv.backend) anyStep (start postgresEnv renewed)
        (List.replicate 17 0 ++ [1, 1, 2, 2, 2, 2, 2, 1, 1, 1])).any (fun c =>
        decide (ActiveAt c.db (Ident.of "lease-a") contested ∧ ¬ DueAt 1000 c.db (Ident.of "lease-a")) &&
        (follow (isolation postgresEnv.backend) anyStep c [1]).any (fun d =>
          decide (¬ ActiveAt d.db (Ident.of "lease-a") contested) &&
          (follow (isolation postgresEnv.backend) anyStep d (List.replicate 17 3)).any (fun e =>
            decide (ActiveAt e.db (Ident.of "lease-b") contested)))) = true := by decide +kernel
    simp only [Option.any_eq_true, Bool.and_eq_true, decide_eq_true_eq] at hrun
    obtain ⟨c, hc, ⟨hactive, hdue⟩, d, hd, hgone, e, he, hb⟩ := hrun
    exact ⟨c, d, e, follow_runs hc, (follow_one hd).1, follow_runs he, hactive, hdue, hgone, hb⟩

end ClaimExclusion
