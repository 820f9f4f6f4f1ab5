import TandemAgents.StoreSessions

/-!
# Heartbeats against the expiry sweep

A heartbeat commits its three updates one by one, and a sweep ends the leases it has
read as expired by id alone. Where no heartbeat reaches past a sweep that has read its
lease, none sets an expiry back, and nothing ends a lease between the updates of its
heartbeat, a heartbeat that succeeds protects its lease.
-/
namespace HeartbeatRace

open KeyedTable PythonText TaskContract CoordinationStore Statements Statements.Prog
open LeaseOperations WorkerOperations TaskOperations OperationRuns StoreHistories LeaseEffects StoreSessions

set_option maxRecDepth 20000

abbrev StoreSession := Session Store RowName Outcome

/-- `expires_at` of a heartbeat. -/
def beatExpiry (now ttl : Int) : Int := now + secondsToMs defaultLeaseTtlSeconds ttl

def Live (s : Store) (id : Ident) : Prop := ∃ l, s.leases.find? id = some l ∧ l.status = .active

/-- The first `UPDATE` of the heartbeat found its lease active. -/
def Beaten (id : Ident) (x : StoreSession) : Prop := ∃ s, x.seen[1]? = some s ∧ Live s id

/-- The heartbeat has its task or its worker row still to write. -/
def Midway (id : Ident) (x : StoreSession) : Prop := Beaten id x ∧ x.prog.isSome ∧ x.seen.length ≤ 3

/-- The heartbeat is at its first `UPDATE`. -/
def AtUpdate (x : StoreSession) : Prop := x.seen.length = 1 ∧ ∃ rows f k, x.prog = some (.exec rows f k)

/-- The heartbeat has returned its lease. -/
def Returned (x : StoreSession) : Prop := ∃ lease, x.prog = some (.ret (.lease (some lease)))

instance Live.decidable (s : Store) (id : Ident) : Decidable (Live s id) :=
  decidable_of_iff ((s.leases.find? id).any (fun l => decide (l.status = .active)) = true) (by
    simp [Live, Option.any_eq_true])

instance Beaten.decidable (id : Ident) (x : StoreSession) : Decidable (Beaten id x) :=
  decidable_of_iff ((x.seen[1]?).any (fun s => decide (Live s id)) = true) (by simp [Beaten, Option.any_eq_true])

instance Midway.decidable (id : Ident) (x : StoreSession) : Decidable (Midway id x) :=
  inferInstanceAs (Decidable (_ ∧ _))

instance AtUpdate.decidable (x : StoreSession) : Decidable (AtUpdate x) :=
  match hp : x.prog with
  | some (.exec rows f k) => decidable_of_iff (x.seen.length = 1) ⟨fun h => ⟨h, rows, f, k, hp⟩, And.left⟩
  | none => isFalse (by rintro ⟨-, _, _, _, hq⟩; cases hp.symm.trans hq)
  | some (.ret _) => isFalse (by rintro ⟨-, _, _, _, hq⟩; cases hp.symm.trans hq)
  | some (.query _) => isFalse (by rintro ⟨-, _, _, _, hq⟩; cases hp.symm.trans hq)
  | some (.beginTx _) => isFalse (by rintro ⟨-, _, _, _, hq⟩; cases hp.symm.trans hq)
  | some (.lock _ _) => isFalse (by rintro ⟨-, _, _, _, hq⟩; cases hp.symm.trans hq)
  | some (.commit _) => isFalse (by rintro ⟨-, _, _, _, hq⟩; cases hp.symm.trans hq)

/-- The lease a session has returned. -/
def returned (x : StoreSession) : Option LeaseRow :=
  match x.prog with
  | some (.ret (.lease l)) => l
  | _ => none

instance Returned.decidable (x : StoreSession) : Decidable (Returned x) :=
  decidable_of_iff ((returned x).isSome = true) (by
    unfold returned Returned
    split
    · rename_i l hp
      rw [hp]
      cases l <;> simp
    · rename_i hne
      constructor
      · intro h
        cases h
      · rintro ⟨l, hp⟩
        exact absurd hp (hne (some l)))

/-! ## The stages of a heartbeat -/

/-- What `heartbeat_lease` returns. -/
def respond (p : Sql (Option LeaseRow)) : Sql Outcome := p >>= fun r => ret (.lease r)

/-- The last `UPDATE` of a heartbeat and its final read. -/
def heartbeatWorkerRow (now : Int) (row : LeaseRow) : Sql (Option LeaseRow) := do
  update (workerRows row.workerId)
    (fun s => s.modifyWorker row.workerId (WorkerRow.beat now row.leaseId) (WorkerRow.beat_workerId_of now row))
  getLease row.leaseId

section
variable (now ttl expiresAt : Int) (id : Ident) (row : LeaseRow)

theorem respond_heartbeatLease : respond (heartbeatLease now ttl id) = .query (fun s =>
    match s.leases.find? id with
    | none => ret (.lease none)
    | some row => respond (heartbeatFound now (beatExpiry now ttl) row)) := by
  refine congrArg Prog.query (funext fun s => ?_)
  dsimp only [Prog.bind]
  cases s.leases.find? id <;> rfl

theorem respond_heartbeatFound : respond (heartbeatFound now expiresAt row) = .exec (activeLeaseRows row.leaseId)
    (fun s => some (s.modifyLease row.leaseId (LeaseRow.beat now expiresAt) (LeaseRow.beat_leaseId now expiresAt)))
    (fun s => if activeLeaseCount row.leaseId s = 0 then ret (.lease none)
      else respond (heartbeatTask now expiresAt row)) := by
  refine congrArg (Prog.exec _ _) (funext fun s => ?_)
  dsimp only [Prog.bind]
  split <;> rfl

theorem respond_heartbeatTask : respond (heartbeatTask now expiresAt row) = .exec (taskRows row.taskKey)
    (fun s => some (s.modifyTask row.taskKey (TaskRow.extendLease now expiresAt) (TaskRow.extendLease_key now expiresAt)))
    (fun _ => respond (heartbeatWorkerRow now row)) := rfl

theorem respond_heartbeatWorkerRow : respond (heartbeatWorkerRow now row) = .exec (workerRows row.workerId)
    (fun s => some (s.modifyWorker row.workerId (WorkerRow.beat now row.leaseId) (WorkerRow.beat_workerId now row.leaseId)))
    (fun _ => respond (getLease row.leaseId)) := rfl

end

/-- Where a heartbeat is, by what it has seen. -/
inductive BeatStage (now ttl : Int) (id : Ident) (x : StoreSession) : Prop where
  | reading : x.prog = some (respond (heartbeatLease now ttl id)) → x.seen = [] → BeatStage now ttl id x
  | found {s : Store} {row : LeaseRow} : row.leaseId = id →
      x.prog = some (respond (heartbeatFound now (beatExpiry now ttl) row)) → x.seen = [s] → BeatStage now ttl id x
  | first {s t : Store} {row : LeaseRow} : row.leaseId = id → Live t id →
      x.prog = some (respond (heartbeatTask now (beatExpiry now ttl) row)) → x.seen = [s, t] → BeatStage now ttl id x
  | second {s t u : Store} {row : LeaseRow} : row.leaseId = id → Live t id →
      x.prog = some (respond (heartbeatWorkerRow now row)) → x.seen = [s, t, u] → BeatStage now ttl id x
  | written : Beaten id x → 4 ≤ x.seen.length → (∀ p, x.prog = some p → p.ReadOnly) → BeatStage now ttl id x
  | missed : ¬ Beaten id x → x.prog = some (ret (.lease none)) → BeatStage now ttl id x
  | stopped : x.prog = none → BeatStage now ttl id x

/-- No row of these tables is changed. -/
structure SameRows (s t : Store) : Prop where
  tasks : t.tasks = s.tasks
  workers : t.workers = s.workers
  leases : ∀ id, t.leases.find? id = s.leases.find? id

/-- What a statement of a heartbeat does. -/
inductive BeatEffect (now ttl : Int) (id : Ident) (x : StoreSession) (db db' : Store) (y : StoreSession) : Prop where
  | quiet : SameRows db db' → (Beaten id y → Beaten id x) → (Midway id y → Midway id x) → BeatEffect now ttl id x db db' y
  | extend : AtUpdate x → Live db id → db' = db.modifyLease id (LeaseRow.beat now (beatExpiry now ttl))
      (LeaseRow.beat_leaseId now (beatExpiry now ttl)) → BeatEffect now ttl id x db db' y
  | rows : Midway id x → db'.leases = db.leases → BeatEffect now ttl id x db db' y

section
variable {now ttl : Int} {id : Ident} {x y : StoreSession} {db db' : Store}

theorem SameRows.refl (s : Store) : SameRows s s := ⟨rfl, rfl, fun _ => rfl⟩

theorem live_iff {s : Store} : Live s id ↔ activeLeaseCount id s ≠ 0 := by
  rw [ne_eq, activeLeaseCount_eq_zero]
  constructor
  · rintro ⟨l, hl, ha⟩ hnone
    cases hnone.symm.trans (activeLease?_eq_some.mpr ⟨hl, ha⟩)
  · intro h
    obtain ⟨l, hl⟩ := Option.ne_none_iff_exists'.mp h
    exact ⟨l, activeLease?_eq_some.mp hl⟩

/-- A beat of a lease that is not active. -/
theorem sameRows_beat (h : ¬ Live db id) (expiresAt : Int) : SameRows db
    (db.modifyLease id (LeaseRow.beat now expiresAt) (LeaseRow.beat_leaseId now expiresAt)) := by
  refine ⟨rfl, rfl, fun k => ?_⟩
  rw [Store.modifyLease_leases, Table.find?_modify]
  split
  · rename_i hk
    cases hl : db.leases.find? k with
    | none => rfl
    | some l =>
      have hna : l.status ≠ .active := fun ha => h ⟨l, hk ▸ hl, ha⟩
      rw [Option.map_some, LeaseRow.beat, if_neg hna]
  · rfl

theorem not_beaten_of_short (h : x.seen.length ≤ 1) : ¬ Beaten id x := by
  rintro ⟨s, hs, -⟩
  have := (List.getElem?_eq_some_iff.mp hs).1
  omega

theorem beaten_of_seen {s t : Store} {l : List Store} (h : x.seen = s :: t :: l) : Beaten id x ↔ Live t id := by
  simp [Beaten, h]

theorem Beaten.more (h : Beaten id x) (hs : x.seen <+: y.seen) : Beaten id y := by
  obtain ⟨s, hget, hlive⟩ := h
  obtain ⟨l, hl⟩ := hs
  have hlt := (List.getElem?_eq_some_iff.mp hget).1
  exact ⟨s, by rw [← hl, List.getElem?_append_left hlt, hget], hlive⟩

/-- One statement of a heartbeat. -/
theorem BeatStage.advance (h : BeatStage now ttl id x) (htx : x.tx = none) (ha : x.Advance db db' y) :
    BeatStage now ttl id y ∧ y.tx = none ∧ BeatEffect now ttl id x db db' y := by
  have hview : x.view db = db := Session.view_none htx db
  cases h with
  | reading hp hseen =>
    rw [respond_heartbeatLease] at hp
    obtain ⟨rfl, rfl⟩ := ha.of_query hp
    rw [hview]
    have hshort : ∀ p, ¬ Beaten id (x.goOn p db') := fun p => not_beaten_of_short (by simp [hseen])
    refine ⟨?_, htx, .quiet (.refl db') (fun hb => absurd hb (hshort _)) fun hm => absurd hm.1 (hshort _)⟩
    cases hrow : db'.leases.find? id with
    | none => exact .missed (hshort _) (by rw [Session.goOn_prog])
    | some row => exact .found (Table.find?_key hrow) (by rw [Session.goOn_prog]) (by rw [Session.goOn_seen, hseen]; rfl)
  | @found s row hid hp hseen =>
    rw [respond_heartbeatFound] at hp
    obtain ⟨rfl, rfl⟩ := ha.of_update hp htx
    subst hid
    have hseen' : ∀ p, (x.goOn p db).seen = [s, db] := fun p => by rw [Session.goOn_seen, hseen]; rfl
    by_cases hc : activeLeaseCount row.leaseId db = 0
    · have hdead : ¬ Live db row.leaseId := fun hl => live_iff.mp hl hc
      have hno : ∀ p, ¬ Beaten row.leaseId (x.goOn p db) := fun p hb => hdead ((beaten_of_seen (hseen' p)).mp hb)
      rw [if_pos hc]
      exact ⟨.missed (hno _) rfl, htx, .quiet (sameRows_beat hdead _) (fun hb => absurd hb (hno _))
        fun hm => absurd hm.1 (hno _)⟩
    · have hlive : Live db row.leaseId := live_iff.mpr hc
      have hlen : x.seen.length = 1 := by rw [hseen, List.length_singleton]
      rw [if_neg hc]
      exact ⟨.first rfl hlive rfl (hseen' _), htx, .extend ⟨hlen, _, _, _, hp⟩ hlive rfl⟩
  | @first s t row hid hlive hp hseen =>
    have hmid : Midway id x := ⟨(beaten_of_seen hseen).mpr hlive, by rw [hp]; rfl, by rw [hseen]; simp⟩
    rw [respond_heartbeatTask] at hp
    obtain ⟨rfl, rfl⟩ := ha.of_update hp htx
    exact ⟨.second hid hlive rfl (by rw [Session.goOn_seen, hseen]; rfl), htx, .rows hmid rfl⟩
  | @second s t u row hid hlive hp hseen =>
    have hmid : Midway id x := ⟨(beaten_of_seen hseen).mpr hlive, by rw [hp]; rfl, by rw [hseen]; simp⟩
    rw [respond_heartbeatWorkerRow] at hp
    obtain ⟨rfl, rfl⟩ := ha.of_update hp htx
    have hseen' : (x.goOn (respond (getLease row.leaseId)) db).seen = [s, t, u, db] := by
      rw [Session.goOn_seen, hseen]
      rfl
    refine ⟨.written ((beaten_of_seen hseen').mpr hlive) (by rw [hseen']; simp) fun p hq => ?_, htx, .rows hmid rfl⟩
    obtain rfl := Option.some.inj hq
    exact fun _ => trivial
  | written hb hlen hro =>
    have hover : x.Over := ⟨htx, hro⟩
    obtain ⟨rfl, hy⟩ := hover.advance ha
    have hkeep : x.seen <+: y.seen := ha.seen_prefix
    have hlen' : 4 ≤ y.seen.length := hlen.trans hkeep.length_le
    exact ⟨.written (hb.more hkeep) hlen' hy.2, hy.1, .quiet (.refl _) (fun _ => hb) fun hm => by have := hm.2.2; omega⟩
  | missed hb hp =>
    cases ha with
    | rollback hq => exact ⟨.missed hb hp, rfl, .quiet (.refl _) (fun h => h) fun h => h⟩
    | _ hq => cases hp.symm.trans hq
  | stopped hp =>
    cases ha with
    | _ hq => cases hp.symm.trans hq

end

/-! ## Careful runs -/

/-- What a step must not do. -/
structure Careful {ι : Type} (P : ι → Op) (c : StoreConfig ι) (i : ι) (d : StoreConfig ι) : Prop where
  /-- No heartbeat reaches past a sweep that has read its lease as expired and is not over. -/
  late : ∀ t ttl id r now, P i = .heartbeatLease t ttl id → AtUpdate (c.session i) → Live c.db id →
    P r = .reapExpiredLeases now → (c.session r).tx.isSome → SawDue now (c.session r).seen id → beatExpiry t ttl ≤ now
  /-- No heartbeat sets the expiry of its lease back. -/
  back : ∀ t ttl id l, P i = .heartbeatLease t ttl id → AtUpdate (c.session i) → c.db.leases.find? id = some l →
    l.status = .active → l.expiresAtMs ≤ beatExpiry t ttl
  /-- Nothing ends a lease between the first and the last update of its heartbeat. -/
  midway : ∀ h t ttl id, P h = .heartbeatLease t ttl id → Midway id (c.session h) → Live c.db id → Live d.db id

/-- The arguments of a heartbeat. -/
def beatOf : Op → Option (Int × Int × Ident)
  | .heartbeatLease now ttl id => some (now, ttl, id)
  | _ => none

/-- The clock of a separate sweep. -/
def reapOf : Op → Option Int
  | .reapExpiredLeases now => some now
  | _ => none

theorem beatOf_eq {op : Op} {now ttl : Int} {id : Ident} : beatOf op = some (now, ttl, id) ↔ op = .heartbeatLease now ttl id := by
  cases op <;> simp [beatOf]

theorem reapOf_eq {op : Op} {now : Int} : reapOf op = some now ↔ op = .reapExpiredLeases now := by
  cases op <;> simp [reapOf]

instance Careful.decidable {ι : Type} [Fintype ι] (P : ι → Op) (c : StoreConfig ι) (i : ι) (d : StoreConfig ι) :
    Decidable (Careful P c i d) :=
  decidable_of_iff
    ((∀ b ∈ beatOf (P i), AtUpdate (c.session i) →
        (Live c.db b.2.2 → ∀ r, ∀ now ∈ reapOf (P r), (c.session r).tx.isSome → SawDue now (c.session r).seen b.2.2 →
          beatExpiry b.1 b.2.1 ≤ now) ∧
        ∀ l ∈ c.db.leases.find? b.2.2, l.status = .active → l.expiresAtMs ≤ beatExpiry b.1 b.2.1) ∧
      ∀ h, ∀ b ∈ beatOf (P h), Midway b.2.2 (c.session h) → Live c.db b.2.2 → Live d.db b.2.2)
    ⟨fun hc => ⟨fun t ttl id r now hi hat hl hr => (hc.1 (t, ttl, id) (beatOf_eq.mpr hi) hat).1 hl r now (reapOf_eq.mpr hr),
        fun t ttl id l hi hat hl => (hc.1 (t, ttl, id) (beatOf_eq.mpr hi) hat).2 l hl,
        fun h t ttl id hi => hc.2 h (t, ttl, id) (beatOf_eq.mpr hi)⟩,
      fun hc => ⟨fun b hb hat => ⟨fun hl r now hr => hc.late b.1 b.2.1 b.2.2 r now (beatOf_eq.mp hb) hat hl (reapOf_eq.mp hr),
        fun l hl => hc.back b.1 b.2.1 b.2.2 l (beatOf_eq.mp hb) hat hl⟩,
        fun h b hb => hc.midway h b.1 b.2.1 b.2.2 (beatOf_eq.mp hb)⟩⟩

section
variable {ι : Type} [DecidableEq ι] {env : Env} {A : StoreConfig ι → ι → StoreConfig ι → Prop} {P : ι → Op}
  {c d : StoreConfig ι} {i j : ι} {now ttl : Int} {id : Ident}

theorem beat_stages (hi : P i = .heartbeatLease now ttl id) (h : StoreRuns env A (start env P) c) :
    BeatStage now ttl id (c.session i) ∧ (c.session i).tx = none := by
  refine h.invariant (I := fun c => BeatStage now ttl id (c.session i) ∧ (c.session i).tx = none) ?_ ?_
  · refine ⟨.reading ?_ rfl, rfl⟩
    change some ((P i).prog env) = _
    rw [hi]
    rfl
  · rintro d j e ⟨hstage, htx⟩ hs -
    rcases hs.session i with ⟨-, hj⟩ | ⟨rfl, ha | ⟨hx, -⟩⟩
    · rw [hj]
      exact ⟨hstage, htx⟩
    · obtain ⟨hy, hytx, -⟩ := hstage.advance htx ha
      exact ⟨hy, hytx⟩
    · rw [hx]
      exact ⟨.stopped rfl, rfl⟩

/-- What a step of a heartbeat does. -/
theorem beat_step (hi : P i = .heartbeatLease now ttl id) (h : StoreRuns env A (start env P) c)
    (hs : Step (isolation env.backend) c i d) : BeatEffect now ttl id (c.session i) c.db d.db (d.session i) := by
  obtain ⟨hstage, htx⟩ := beat_stages hi h
  rcases hs.session i with ⟨hne, -⟩ | ⟨-, ha | ⟨hx, hdb⟩⟩
  · exact absurd rfl hne
  · exact (hstage.advance htx ha).2.2
  · rw [hx, hdb]
    refine .quiet (.refl c.db) (fun hb => hb) fun hm => ?_
    cases hm.2.1

/-- A lease row before and after a step. -/
structure RowStep (P : ι → Op) (c : StoreConfig ι) (j : ι) (id : Ident) (l l' : LeaseRow) : Prop where
  active : l'.status = .active → l.status = .active
  ends : l'.status ≠ l.status → Ends (P j) (c.session j).seen id l.taskKey
  expiry : l'.expiresAtMs = l.expiresAtMs ∨ ∃ t ttl, P j = .heartbeatLease t ttl id ∧ AtUpdate (c.session j) ∧
    l.status = .active ∧ l'.expiresAtMs = beatExpiry t ttl

theorem row_step (hfresh : FreshLeases P) (h : StoreRuns env A (start env P) c)
    (hs : Step (isolation env.backend) c j d) {l : LeaseRow} (hl : c.db.leases.find? id = some l) :
    ∃ l', d.db.leases.find? id = some l' ∧ RowStep P c j id l l' := by
  have hsame : d.db.leases.find? id = c.db.leases.find? id →
      ∃ l', d.db.leases.find? id = some l' ∧ RowStep P c j id l l' :=
    fun heq => ⟨l, heq.trans hl, fun ha => ha, fun hn => absurd rfl hn, .inl rfl⟩
  have heffect := ((guarded_runs h).step hs).2
  obtain ⟨l', hl'⟩ := heffect.stays id l hl
  rcases heffect.moved id l' hl' with ⟨n, a, hj, hid, -⟩ | ⟨m, hm, hmoved⟩
  · -- the claim that inserted the row is over
    have hover := claim_over hfresh hj h (hid.symm ▸ hl)
    rcases hs.session j with ⟨hne, -⟩ | ⟨-, ha | ⟨-, hdb⟩⟩
    · exact absurd rfl hne
    · exact hsame (by rw [(hover.advance ha).1])
    · exact hsame (by rw [hdb])
  · obtain rfl := Option.some.inj (hl.symm.trans hm)
    rcases hmoved.expiry with he | ⟨t, ttl, hj, he⟩
    · exact ⟨l', hl', hmoved.active, hmoved.ends, .inl he⟩
    · cases beat_step hj h hs with
      | quiet hrows _ _ => exact hsame (hrows.leases id)
      | rows _ hleases => exact hsame (by rw [hleases])
      | extend hat hlive hdb =>
        obtain ⟨m, hm, ha⟩ := hlive
        obtain rfl := Option.some.inj (hl.symm.trans hm)
        exact ⟨l', hl', hmoved.active, hmoved.ends, .inr ⟨t, ttl, hj, hat, ha, he⟩⟩

/-- The lease has, active or not, an expiry at or before a time. -/
def PastAt (now : Int) (s : Store) (id : Ident) : Prop := ∃ l, s.leases.find? id = some l ∧ l.expiresAtMs ≤ now

/-- What careful steps keep. -/
structure Kept (P : ι → Op) (c : StoreConfig ι) : Prop where
  beaten : ∀ i t ttl id, P i = .heartbeatLease t ttl id → Beaten id (c.session i) →
    ∃ l, c.db.leases.find? id = some l ∧ beatExpiry t ttl ≤ l.expiresAtMs
  read : ∀ r now, P r = .reapExpiredLeases now →
    (c.session r).Recalls (fun db s => ∀ id, DueAt now s id → PastAt now db id) c.db
  midway : ∀ i t ttl id, P i = .heartbeatLease t ttl id → Midway id (c.session i) → Live c.db id

omit [DecidableEq ι] in
theorem kept_start (env : Env) (P : ι → Op) : Kept P (start env P) where
  beaten i t ttl id _ hb := absurd hb (not_beaten_of_short (Nat.zero_le 1))
  read r now _ hopen := by cases hopen
  midway i t ttl id _ hm := absurd hm.1 (not_beaten_of_short (Nat.zero_le 1))

section
variable (hfresh : FreshLeases P) (hk : Kept P c) (h : StoreRuns env A (start env P) c)
  (hs : Step (isolation env.backend) c j d) (hc : Careful P c j d)
include hfresh hk h hs hc

/-- An expiry that a heartbeat has set is not undercut. -/
theorem Kept.beaten_step {t : Int} (hi : P i = .heartbeatLease t ttl id) (hb : Beaten id (d.session i)) :
    ∃ l, d.db.leases.find? id = some l ∧ beatExpiry t ttl ≤ l.expiresAtMs := by
  have hold : Beaten id (c.session i) → ∃ l, d.db.leases.find? id = some l ∧ beatExpiry t ttl ≤ l.expiresAtMs := by
    intro hb
    obtain ⟨l, hl, he⟩ := hk.beaten i t ttl id hi hb
    obtain ⟨l', hl', hrow⟩ := row_step hfresh h hs hl
    refine ⟨l', hl', ?_⟩
    rcases hrow.expiry with hsame | ⟨t', ttl', hj, hat, ha, hset⟩
    · rw [hsame]
      exact he
    · rw [hset]
      exact he.trans (hc.back t' ttl' id l hj hat hl ha)
  rcases hs.session i with ⟨-, hj⟩ | ⟨rfl, -⟩
  · exact hold (hj ▸ hb)
  · cases beat_step hi h hs with
    | quiet _ hback _ => exact hold (hback hb)
    | rows hmid _ => exact hold hmid.1
    | extend _ hlive hdb =>
      obtain ⟨l, hl, ha⟩ := hlive
      refine ⟨l.beat t (beatExpiry t ttl), ?_, ?_⟩
      · rw [hdb, Store.modifyLease_leases, Table.find?_modify, if_pos rfl, hl, Option.map_some]
      · rw [LeaseRow.beat, if_pos ha]

/-- What a sweep has read as expired stays so until the sweep is over. -/
theorem Kept.read_step {r : ι} (hr : P r = .reapExpiredLeases now) :
    (d.session r).Recalls (fun db s => ∀ id, DueAt now s id → PastAt now db id) d.db := by
  have hview : ∀ id, DueAt now ((c.session r).view c.db) id → PastAt now c.db id := by
    intro id hdue
    obtain ⟨l, hl, -, he⟩ := dueAt_view h (by simp [hr]) (by simp [hr]) hdue
    exact ⟨l, hl, he⟩
  rcases hs.session r with ⟨-, hsame⟩ | ⟨hrj, -⟩
  · rw [hsame]
    intro hopen s hmem id hdue
    obtain ⟨l, hl, he⟩ := hk.read r now hr hopen s hmem id hdue
    obtain ⟨l', hl', hrow⟩ := row_step hfresh h hs hl
    refine ⟨l', hl', ?_⟩
    rcases hrow.expiry with hold | ⟨t, ttl, hj, hat, ha, hset⟩
    · rw [hold]
      exact he
    · rw [hset]
      exact hc.late t ttl id r now hj hat ⟨l, hl, ha⟩ hr hopen ⟨s, hmem, hdue⟩
  · exact (hk.read r now hr).step (reap_bracketed hr h) hview hs fun hne => absurd hrj hne

omit hfresh in
theorem Kept.midway_step {t : Int} (hi : P i = .heartbeatLease t ttl id) (hm : Midway id (d.session i)) :
    Live d.db id := by
  rcases hs.session i with ⟨-, hj⟩ | ⟨rfl, -⟩
  · rw [hj] at hm
    exact hc.midway i t ttl id hi hm (hk.midway i t ttl id hi hm)
  · cases beat_step hi h hs with
    | quiet _ _ hback => exact hc.midway i t ttl id hi (hback hm) (hk.midway i t ttl id hi (hback hm))
    | rows hmid _ => exact hc.midway i t ttl id hi hmid (hk.midway i t ttl id hi hmid)
    | extend _ hlive hdb =>
      obtain ⟨l, hl, ha⟩ := hlive
      refine ⟨l.beat t (beatExpiry t ttl), ?_, ?_⟩
      · rw [hdb, Store.modifyLease_leases, Table.find?_modify, if_pos rfl, hl, Option.map_some]
      · rw [LeaseRow.beat, if_pos ha]
        exact ha

theorem Kept.step : Kept P d where
  beaten _ _ _ _ hi hb := hk.beaten_step hfresh h hs hc hi hb
  read _ _ hr := hk.read_step hfresh h hs hc hr
  midway _ _ _ _ hi hm := hk.midway_step h hs hc hi hm

end

theorem kept_runs (hfresh : FreshLeases P) (h : StoreRuns env (Careful P) (start env P) c) : Kept P c := by
  induction h with
  | refl => exact kept_start env P
  | step j hr hs hc ih => exact ih.step hfresh hr hs hc

/-- A heartbeat that has returned its lease found it active. -/
theorem beaten_of_returned {t : Int} (hi : P i = .heartbeatLease t ttl id)
    (h : StoreRuns env A (start env P) c) (hret : Returned (c.session i)) : Beaten id (c.session i) := by
  obtain ⟨l, hret⟩ := hret
  cases (beat_stages hi h).1 with
  | written hb _ _ => exact hb
  | missed _ hp => cases hp.symm.trans hret
  | stopped hp => cases hp.symm.trans hret
  | reading hp _ =>
    rw [respond_heartbeatLease] at hp
    cases hp.symm.trans hret
  | found _ hp _ =>
    rw [respond_heartbeatFound] at hp
    cases hp.symm.trans hret
  | first _ _ hp _ =>
    rw [respond_heartbeatTask] at hp
    cases hp.symm.trans hret
  | second _ _ hp _ =>
    rw [respond_heartbeatWorkerRow] at hp
    cases hp.symm.trans hret

/-- Once its lease is no longer active a heartbeat comes too late. -/
theorem not_beaten_runs (hfresh : FreshLeases P) {t : Int} (hi : P i = .heartbeatLease t ttl id)
    (h₀ : StoreRuns env A (start env P) c) {l : LeaseRow} (hl : c.db.leases.find? id = some l)
    (hdead : l.status ≠ .active) (hb : ¬ Beaten id (c.session i)) (h : StoreRuns env A c d) :
    ¬ Beaten id (d.session i) := by
  have hinv : (∃ l, d.db.leases.find? id = some l ∧ l.status ≠ .active) ∧ ¬ Beaten id (d.session i) := by
    induction h with
    | refl => exact ⟨⟨l, hl, hdead⟩, hb⟩
    | @step e f j hr hs _ ih =>
      obtain ⟨⟨m, hm, hmd⟩, hbe⟩ := ih
      obtain ⟨m', hm', hrow⟩ := row_step hfresh (h₀.trans hr) hs hm
      refine ⟨⟨m', hm', fun ha => hmd (hrow.active ha)⟩, ?_⟩
      rcases hs.session i with ⟨-, hj⟩ | ⟨rfl, -⟩
      · rwa [hj]
      · cases beat_step hi (h₀.trans hr) hs with
        | quiet _ hback _ => exact fun hbf => hbe (hback hbf)
        | rows hmid _ => exact absurd hmid.1 hbe
        | extend _ hlive _ =>
          obtain ⟨n, hn, hna⟩ := hlive
          obtain rfl := Option.some.inj (hm.symm.trans hn)
          exact absurd hna hmd
  exact hinv.2

/-- In a careful run, no sweep makes a lease stale before the expiry that a heartbeat which
succeeded has given it, and no heartbeat writes a task or worker row for a lease that is
not active. -/
theorem careful_heartbeats_protect {t : Int} (hfresh : FreshLeases P) (hi : P i = .heartbeatLease t ttl id)
    (h : StoreRuns env (Careful P) (start env P) c) :
    (Returned (c.session i) →
      ∀ r now d e m m', P r = .reapExpiredLeases now → StoreRuns env (Careful P) (start env P) d →
        Step (isolation env.backend) d r e → Careful P d r e → StoreRuns env (Careful P) e c →
        d.db.leases.find? id = some m → m.status ≠ .stale → e.db.leases.find? id = some m' → m'.status = .stale →
        beatExpiry t ttl ≤ now) ∧
    ∀ d, Step (isolation env.backend) c i d → ¬ Live c.db id → d.db.tasks = c.db.tasks ∧ d.db.workers = c.db.workers := by
  constructor
  · intro hret r now d e m m' hr hd hs hcareful he hm hold hm' hstale
    have hk := kept_runs hfresh hd
    have hchanged : e.db ≠ d.db := by
      intro hdb
      rw [hdb] at hm'
      cases hm.symm.trans hm'
      exact hold hstale
    -- the sweep had read the lease as expired, and it still is
    obtain ⟨n, hn, hrow⟩ := row_step hfresh hd hs hm
    obtain rfl := Option.some.inj (hm'.symm.trans hn)
    have hsaw : SawDue now (d.session r).seen id := by
      have hends := hrow.ends (by rw [hstale]; exact Ne.symm hold)
      rw [hr] at hends
      exact hends
    have hpast : m.expiresAtMs ≤ now := by
      rcases (reap_bracketed hr hd).changes (reapBody_inTx now) hs with hdb | ⟨hin, -⟩
      · exact absurd hdb hchanged
      · obtain ⟨s, hmem, hdue⟩ := hsaw
        obtain ⟨k, hk', hle⟩ := hk.read r now hr hin.1 s hmem id hdue
        obtain rfl := Option.some.inj (hm.symm.trans hk')
        exact hle
    by_cases hb : Beaten id (d.session i)
    · obtain ⟨k, hk', hle⟩ := hk.beaten i t ttl id hi hb
      obtain rfl := Option.some.inj (hm.symm.trans hk')
      exact hle.trans hpast
    · -- the heartbeat would have had to find a stale lease active
      have hsame : e.session i = d.session i := by
        rcases hs.session i with ⟨-, hsame⟩ | ⟨rfl, -⟩
        · exact hsame
        · cases hi.symm.trans hr
      have hdead : m'.status ≠ .active := by
        rw [hstale]
        simp
      have hnot := not_beaten_runs hfresh hi (hd.step r hs hcareful) hm' hdead (hsame ▸ hb) he
      exact absurd (beaten_of_returned hi h hret) hnot
  · intro d hs hdead
    cases beat_step hi h hs with
    | quiet hrows _ _ => exact ⟨hrows.tasks, hrows.workers⟩
    | extend _ hlive _ => exact absurd hlive hdead
    | rows hmid _ => exact absurd ((kept_runs hfresh h).midway i t ttl id hi hmid) hdead

end

/-! ## Runs -/

/-- The status of a lease. -/
def leaseStatus (id : Ident) (s : Store) : Option LeaseStatus := (s.leases.find? id).map (·.status)

theorem leaseStatus_eq {id : Ident} {s : Store} {status : LeaseStatus} (h : leaseStatus id s = some status) :
    ∃ l, s.leases.find? id = some l ∧ l.status = status := Option.map_eq_some_iff.mp h

/-- A claim, a heartbeat of its lease and a sweep. -/
def beatThenReap (beat reap : Int) : Fin 3 → Op
  | 0 => .claimTask 0 (claimBy "a" (plainTask "T1"))
  | 1 => .heartbeatLease beat 1 (Ident.of "lease-a")
  | 2 => .reapExpiredLeases reap

theorem beatThenReap_fresh (beat reap : Int) : FreshLeases (beatThenReap beat reap) :=
  freshLeases_of fun i j hi hj => by
    match i, j with
    | 0, 0 => rfl
    | 0, 1 => cases hj
    | 0, 2 => cases hj
    | 1, _ => cases hi
    | 2, _ => cases hi

/-- One after the other they are careful: the sweep comes behind the expiry. -/
theorem beatThenReap_protected : ∃ d e, StoreRuns postgresEnv (Careful (beatThenReap 900 2000))
      (start postgresEnv (beatThenReap 900 2000)) d ∧ Step .readCommitted d 2 e ∧ Returned (e.session 1) ∧
    Live d.db (Ident.of "lease-a") ∧ leaseStatus (Ident.of "lease-a") e.db = some .stale ∧ beatExpiry 900 1 ≤ 2000 := by
  have hrun : (follow (isolation postgresEnv.backend) (Careful (beatThenReap 900 2000))
      (start postgresEnv (beatThenReap 900 2000)) (List.replicate 17 0 ++ List.replicate 5 1 ++ List.replicate 5 2)).any
      (fun d => decide (leaseStatus (Ident.of "lease-a") d.db = some .active) &&
        (follow (isolation postgresEnv.backend) (Careful (beatThenReap 900 2000)) d [2]).any (fun e =>
          decide (Returned (e.session 1) ∧ leaseStatus (Ident.of "lease-a") e.db = some .stale))) = true := by
    decide +kernel
  simp only [Option.any_eq_true, Bool.and_eq_true, decide_eq_true_eq] at hrun
  obtain ⟨d, hd, hlive, e, he, hret, hstale⟩ := hrun
  obtain ⟨m, hm, hactive⟩ := leaseStatus_eq hlive
  obtain ⟨m', hm', hms⟩ := leaseStatus_eq hstale
  obtain ⟨hs, hcareful, -⟩ := follow_one he
  refine ⟨d, e, follow_runs hd, hs, hret, ⟨m, hm, hactive⟩, hstale, ?_⟩
  exact (careful_heartbeats_protect (beatThenReap_fresh 900 2000) rfl ((follow_runs hd).step 2 hs hcareful)).1 hret 2 2000
    d e m m' rfl (follow_runs hd) hs hcareful .refl hm (by rw [hactive]; simp) hm' hms

/-- A claim, a heartbeat of its lease and a release. -/
def beatThenRelease : Fin 3 → Op
  | 0 => .claimTask 0 (claimBy "a" (plainTask "T1"))
  | 1 => .heartbeatLease 500 1 (Ident.of "lease-a")
  | 2 => .releaseLease 600 (Ident.of "lease-a") .completed none

/-- The expiry column of the row of the task. -/
def taskExpiry (s : Store) : Option (Option Int) :=
  (s.tasks.find? (taskKey (plainTask "T1")).1).map (·.leaseExpiresAtMs)

/-- A heartbeat between the read and the updates of a sweep succeeds and loses its lease
before it expires; and a heartbeat writes the row of a task whose lease was released
between its first two updates. -/
theorem heartbeats_not_protected :
    (∃ d e, StoreRuns postgresEnv anyStep (start postgresEnv (beatThenReap 999 1000)) d ∧ Step .readCommitted d 2 e ∧
      Returned (e.session 1) ∧ Live d.db (Ident.of "lease-a") ∧
      leaseStatus (Ident.of "lease-a") e.db = some .stale ∧ ¬ beatExpiry 999 1 ≤ 1000) ∧
    ∃ c d, StoreRuns postgresEnv anyStep (start postgresEnv beatThenRelease) c ∧ Step .readCommitted c 1 d ∧
      ¬ Live c.db (Ident.of "lease-a") ∧ taskExpiry d.db ≠ taskExpiry c.db := by
  constructor
  · have hrun : (follow (isolation postgresEnv.backend) anyStep (start postgresEnv (beatThenReap 999 1000))
        (List.replicate 17 0 ++ [2, 2] ++ List.replicate 5 1 ++ [2, 2, 2])).any (fun d =>
        decide (Live d.db (Ident.of "lease-a")) && (follow (isolation postgresEnv.backend) anyStep d [2]).any (fun e =>
          decide (Returned (e.session 1) ∧ leaseStatus (Ident.of "lease-a") e.db = some .stale))) = true := by
      decide +kernel
    simp only [Option.any_eq_true, Bool.and_eq_true, decide_eq_true_eq] at hrun
    obtain ⟨d, hd, hlive, e, he, hret, hstale⟩ := hrun
    exact ⟨d, e, follow_runs hd, (follow_one he).1, hret, hlive, hstale, by decide⟩
  · have hrun : (follow (isolation postgresEnv.backend) anyStep (start postgresEnv beatThenRelease)
        (List.replicate 17 0 ++ [1, 1] ++ List.replicate 5 2)).any (fun c =>
        decide (¬ Live c.db (Ident.of "lease-a")) && (follow (isolation postgresEnv.backend) anyStep c [1]).any (fun d =>
          decide (taskExpiry d.db ≠ taskExpiry c.db))) = true := by decide +kernel
    simp only [Option.any_eq_true, Bool.and_eq_true, decide_eq_true_eq] at hrun
    obtain ⟨c, hc, hdead, d, hd, hchanged⟩ := hrun
    exact ⟨c, d, follow_runs hc, (follow_one hd).1, hdead, hchanged⟩

end HeartbeatRace
