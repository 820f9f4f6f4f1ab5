import TandemAgents.DispatchTick

/-!
# The pull request of a run

The finalizer enqueues the creation of the pull request and makes one tick. It looks at the
items of that tick only, while other dispatchers claim and settle rows at any time between
its own statements. What it answers is the outcome of its row as long as they leave that row
to it.
-/
namespace PrOutcome

open KeyedTable PythonText JsonData PullRequests CoordinationStore Statements Outbox OutboxOutcomes DispatchTick

set_option maxRecDepth 20000

/-! ## The other processes -/

/-- An operation of another process on the outbox. -/
inductive Other where
  | enqueue (now : Int) (id : Nat) (x : Message)
  | claim (now limit : Int)
  | reap (now staleAfterSeconds : Int)
  | complete (now : Int) (id : Nat)
  | retry (now : Int) (id : Nat) (error : String) (terminal : Bool) (delaySeconds : Option Int)

def Other.run : Other → OutboxTable → OutboxTable
  | .enqueue now id x, s => ((enqueueOutbox now id x).run s).2
  | .claim now limit, s => ((claimPendingOutbox now limit).run s).2
  | .reap now staleAfterSeconds, s => ((reapStaleOutboxClaims now staleAfterSeconds).run s).2
  | .complete now id, s => ((completeOutbox now id).run s).2
  | .retry now id error terminal delaySeconds, s => ((retryOutbox now id error terminal delaySeconds).run s).2

/-- What the others do in a row. -/
def meddle (others : List Other) (s : OutboxTable) : OutboxTable := others.foldl (fun s a => a.run s) s

/-! ## The finalizer -/

/-- What the finalizer takes from its run. -/
structure Context where
  runId : String
  task : Dict
  branchName : String
  prBody : String
  defaultBranch : String
  slug : String

def Context.createKey (ctx : Context) : String := ctx.runId ++ ":github:create-pr"

def Context.payload (py : Python) (ctx : Context) : Dict :=
  [("run_id", .str ctx.runId), ("task", .obj ctx.task), ("head_branch", .str ctx.branchName),
    ("title", .str ("aca: " ++ py.str (ctx.task.get "title"))), ("body", .str ctx.prBody)]

/-- What is enqueued; `dumps` writes the payload. -/
def Context.message (py : Python) (dumps : Dict → String) (ctx : Context) : Message where
  kind := "github_pull_request.create"
  aggregateType := "task"
  aggregateId := py.str ((ctx.task.get "task_id").or (.str ctx.runId))
  payload := dumps (ctx.payload py)
  dedupeKey := some ctx.createKey

/-- The pull request a run is booked with. -/
structure Recorded where
  url : String
  lifecycle : Dict

/-- The lifecycle of a reply without a pull request. -/
def Context.waiting (ctx : Context) (prUrl : String) : Dict :=
  [("url", .str prUrl), ("head_branch", .str ctx.branchName), ("base_branch", .str (orElse ctx.defaultBranch "main")),
    ("base_repo", .str ctx.slug), ("lifecycle_state", .str "waiting-for-review"), ("terminal", .bool false)]

/-- The checks of one item. A row that raised has the status `failed` or `retry`. -/
def recognised (py : Runtime) (ctx : Context) : Item → Option Recorded
  | .raised _ _ _ => none
  | .reply result =>
    let payload := (result.get "payload").asDict.getD []
    let prUrl := strip (py.text (result.get "pr_url"))
    if py.text (payload.get "run_id") ≠ ctx.runId then none
    else if py.text (result.get "kind") ≠ "github_pull_request.create" then none
    else if !isDispatched py result then none
    else if prUrl = "" then none
    else
      let pullRequest := (result.get "pull_request").asDict.getD []
      some ⟨prUrl, if pullRequest.isEmpty then ctx.waiting prUrl else pullRequest⟩

/-- What the others do in the gaps of the finalizer: behind its enqueue, between sweep and claim,
and before each settlement and the return. -/
structure Gaps where
  enqueued : List Other
  reaped : List Other
  settling : Nat → List Other

/-- The loop over the batch with the others in between. -/
def settleAmid (py : Runtime) (m : Meets) (errors : List (String × String)) (others : Nat → List Other) :
    Nat → List OutboxRow → Tick → Tick × Bool
  | k, [], t => ({ t with outbox := meddle (others k) t.outbox }, false)
  | k, row :: rows, t =>
    let t := { t with outbox := meddle (others k) t.outbox }
    match settlement py m errors row with
    | none => (t, true)
    | some (c, item) => settleAmid py m errors others (k + 1) rows (t.settle (m.settledAt row) c item)

/-- When the finalizer enqueues, and the id the database draws. -/
structure Moment where
  enqueuedAt : Int
  id : Nat
  reapedAt : Int
  claimedAt : Int

section
variable (py : Runtime) (dumps : Dict → String) (ctx : Context) (m : Meets) (clock : Moment) (gaps : Gaps)
variable (o : OutboxTable)

def enqueuedOutbox : OutboxTable := ((enqueueOutbox clock.enqueuedAt clock.id (ctx.message py.toPython dumps)).run o).2

/-- The outbox as the claim of the finalizer finds it. -/
def foundOutbox : OutboxTable :=
  meddle gaps.reaped ((reapStaleOutboxClaims clock.reapedAt defaultOutboxStaleAfterSeconds).run
    (meddle gaps.enqueued (enqueuedOutbox py dumps ctx clock o))).2

/-- The batch, of at most 25 rows. -/
def batch : List OutboxRow := ((claimPendingOutbox clock.claimedAt 25).run (foundOutbox py dumps ctx clock gaps o)).1.getD []

def batchOutbox : OutboxTable := ((claimPendingOutbox clock.claimedAt 25).run (foundOutbox py dumps ctx clock gaps o)).2

/-- `_enqueue_and_dispatch_pr`: what it books the run with, if anything, unless it raises; and
the outbox when it returns. -/
def enqueueAndDispatchPr : Option (Option Recorded) × OutboxTable :=
  let claimed := batch py dumps ctx clock gaps o
  let (t, raised) := settleAmid py m (connectorErrors m claimed) gaps.settling 0 claimed
    { outbox := batchOutbox py dumps ctx clock gaps o }
  (if raised then none else some (t.items.findSome? (recognised py ctx)), t.outbox)

end

/-! ## What leaves a row as it was -/

/-- The row of an id stays, with its text, and is dispatched as before. -/
def Keep (i : Nat) (s t : OutboxTable) : Prop :=
  ∀ r, s.find? i = some r → ∃ r', t.find? i = some r' ∧ r'.dedupeKey = r.dedupeKey ∧ r'.kind = r.kind ∧
    r'.payload = r.payload ∧ (r'.status = .dispatched ↔ r.status = .dispatched)

section
variable {i : Nat} {s t u : OutboxTable}

theorem Keep.refl (i : Nat) (s : OutboxTable) : Keep i s s := fun r hr => ⟨r, hr, rfl, rfl, rfl, Iff.rfl⟩

theorem Keep.trans (h : Keep i s t) (k : Keep i t u) : Keep i s u := by
  intro r hr
  obtain ⟨r', hr', hkey, hkind, hpayload, hsent⟩ := h r hr
  obtain ⟨r'', hr'', hkey', hkind', hpayload', hsent'⟩ := k r' hr'
  exact ⟨r'', hr'', hkey'.trans hkey, hkind'.trans hkind, hpayload'.trans hpayload, hsent'.trans hsent⟩

theorem Keep.of_eq (h : t.find? i = s.find? i) : Keep i s t := by
  intro r hr
  exact ⟨r, h.trans hr, rfl, rfl, rfl, Iff.rfl⟩

/-- An update that leaves its row undispatched, if it is not of a dispatched row. -/
theorem Keep.modify (h : Keep i s t) (id : Nat) (f : OutboxRow → OutboxRow) (hf : ∀ r, (f r).id = r.id)
    (hd : ∀ r, (f r).dedupeKey = r.dedupeKey) (hkind : ∀ r, (f r).kind = r.kind)
    (hpayload : ∀ r, (f r).payload = r.payload)
    (hopen : ∀ r, (f r).status ≠ .dispatched) (hid : id = i → ∀ r, s.find? i = some r → r.status ≠ .dispatched) :
    Keep i s (t.modify id f hf hd) := by
  intro r hr
  obtain ⟨r', hr', hkey', hkind', hpayload', hsent'⟩ := h r hr
  rw [DedupeTable.find?_modify, hr']
  split
  · rename_i heq
    refine ⟨f r', rfl, (hd r').trans hkey', (hkind r').trans hkind', (hpayload r').trans hpayload', ?_⟩
    exact iff_of_false (hopen r') (hid heq.symm r hr)
  · exact ⟨r', rfl, hkey', hkind', hpayload', hsent'⟩

/-- Updates of rows that were selected undispatched. -/
theorem Keep.foldl {f : OutboxRow → OutboxTable → OutboxTable} {rows : List OutboxRow}
    (hstep : ∀ row ∈ rows, ∀ t, Keep i s t → Keep i s (f row t)) (h : Keep i s t) :
    Keep i s (rows.foldl (fun s row => f row s) t) := by
  induction rows generalizing t with
  | nil => exact h
  | cons row rows ih =>
    rw [List.foldl_cons]
    exact ih (fun r hr => hstep r (List.mem_cons_of_mem row hr)) (hstep row List.mem_cons_self t h)

/-- The sweep and the claim of a dispatcher. -/
theorem keep_reap (i : Nat) (now staleAfterSeconds : Int) (s : OutboxTable) :
    Keep i s ((reapStaleOutboxClaims now staleAfterSeconds).run s).2 := by
  rw [run_reapStaleOutboxClaims]
  refine Keep.foldl (fun row hrow t h => ?_) (Keep.refl i s)
  refine h.modify row.id _ _ _ (fun _ => rfl) (fun _ => rfl) (fun _ => by simp [OutboxRow.release]) ?_
  intro hid r hr
  obtain ⟨hfind, hopen⟩ := mem_staleClaims hrow
  rw [hid, hr] at hfind
  obtain rfl := Option.some.inj hfind
  exact hopen.1

theorem keep_claim (i : Nat) (now limit : Int) (s : OutboxTable) : Keep i s ((claimPendingOutbox now limit).run s).2 := by
  rw [run_claimPendingOutbox]
  refine Keep.foldl (fun row hrow t h => ?_) (Keep.refl i s)
  refine h.modify row.id _ _ _ (fun _ => rfl) (fun _ => rfl) (fun _ => by simp [OutboxRow.claim]) ?_
  intro hid r hr
  obtain ⟨hfind, hpending⟩ := mem_pendingRows hrow
  rw [hid, hr] at hfind
  obtain rfl := Option.some.inj hfind
  simp [hpending]

theorem keep_retry {id : Nat} (now : Int) (error : String) (terminal : Bool) (delaySeconds : Option Int)
    (h : id = i → ∀ r, s.find? i = some r → r.status ≠ .dispatched) :
    Keep i s ((retryOutbox now id error terminal delaySeconds).run s).2 := by
  rw [run_retryOutbox]
  cases s.find? id with
  | none => exact Keep.refl i s
  | some row =>
    dsimp only [retryRow]
    split
    · exact (Keep.refl i s).modify id _ _ _ (fun _ => rfl) (fun _ => rfl) (fun _ => by simp [OutboxRow.fail]) h
    · exact (Keep.refl i s).modify id _ _ _ (fun _ => rfl) (fun _ => rfl) (fun _ => by simp [OutboxRow.postpone]) h

theorem keep_enqueue (now : Int) (id : Nat) {x : Message} {r : OutboxRow} (hr : s.find? i = some r)
    (h : ∀ k, x.dedupeKey = some k → r.dedupeKey ≠ some k) : Keep i s ((enqueueOutbox now id x).run s).2 := by
  rw [run_enqueueOutbox]
  cases hi : s.insert (x.row now id) (OutboxRow.requeue now x.payload) (OutboxRow.requeue_id now x.payload)
      (OutboxRow.requeue_dedupeKey now x.payload) with
  | none => exact .refl i s
  | some t =>
    rw [Option.getD_some]
    apply Keep.of_eq
    obtain ⟨q, hq, hfind⟩ | ⟨-, hfree, hfind⟩ := DedupeTable.insert_eq hi
    · obtain ⟨hmem, hsome, hkey⟩ := DedupeTable.holder_some hq
      rw [hfind, if_neg]
      intro heq
      rw [heq, DedupeTable.mem_rows.mp hmem] at hr
      obtain rfl := Option.some.inj hr
      obtain ⟨k, hk⟩ := Option.ne_none_iff_exists'.mp hsome
      exact h k hk (hkey.trans hk)
    · rw [hfind, if_neg]
      intro heq
      rw [heq, hfree] at hr
      cases hr

end

/-! ## Others that leave a row alone -/

/-- An operation that does not enqueue under a key, does not complete its row, and does not take
it back once it is dispatched. -/
def Spares (key : String) (s : OutboxTable) : Other → Prop
  | .enqueue _ _ x => x.dedupeKey ≠ some key
  | .complete _ id => ∀ r, s.find? id = some r → r.dedupeKey ≠ some key
  | .retry _ id _ _ _ => ∀ r, s.find? id = some r → r.dedupeKey = some key → r.status ≠ .dispatched
  | .claim _ _ | .reap _ _ => True

/-- So do all of a row of operations, each where it comes. -/
def SparesAll (key : String) : List Other → OutboxTable → Prop
  | [], _ => True
  | a :: others, s => Spares key s a ∧ SparesAll key others (a.run s)

section
variable {key : String} {i : Nat}

/-- The row that holds a key, of an id. -/
def Holds (key : String) (i : Nat) (s : OutboxTable) : Prop := ∃ r, s.find? i = some r ∧ r.dedupeKey = some key

theorem Holds.keep {s t : OutboxTable} (h : Holds key i s) (hkeep : Keep i s t) : Holds key i t := by
  obtain ⟨r, hr, hkey⟩ := h
  obtain ⟨r', hr', hkey', -⟩ := hkeep r hr
  exact ⟨r', hr', hkey'.trans hkey⟩

theorem Spares.keep {s : OutboxTable} {a : Other} (h : Spares key s a) (hholds : Holds key i s) : Keep i s (a.run s) := by
  obtain ⟨r, hr, hkey⟩ := hholds
  cases a with
  | enqueue now id x =>
    refine keep_enqueue now id hr fun k hk hrow => ?_
    rw [hkey] at hrow
    exact h (hk.trans hrow.symm)
  | claim now limit => exact keep_claim i now limit s
  | reap now staleAfterSeconds => exact keep_reap i now staleAfterSeconds s
  | complete now id =>
    apply Keep.of_eq
    rw [Other.run, run_completeOutbox]
    cases hid : s.find? id with
    | none => rfl
    | some row =>
      have hne : i ≠ id := by
        rintro rfl
        exact h r hr hkey
      rw [completeRow, DedupeTable.find?_modify, if_neg hne]
  | retry now id error terminal delaySeconds =>
    apply keep_retry
    rintro rfl q hq
    rw [hr] at hq
    obtain rfl := Option.some.inj hq
    exact h r hr hkey

theorem SparesAll.keep {others : List Other} {s : OutboxTable} (h : SparesAll key others s) (hholds : Holds key i s) :
    Keep i s (meddle others s) := by
  induction others generalizing s with
  | nil => exact Keep.refl i s
  | cons a others ih =>
    have hstep := h.1.keep hholds
    exact hstep.trans (ih h.2 (hholds.keep hstep))

end

/-! ## The loop with the others in between -/

/-- The others spare the row of a key in all gaps of the loop. -/
def SparesLoop (key : String) (py : Runtime) (m : Meets) (errors : List (String × String)) (others : Nat → List Other) :
    Nat → List OutboxRow → Tick → Prop
  | k, [], t => SparesAll key (others k) t.outbox
  | k, row :: rows, t => SparesAll key (others k) t.outbox ∧
    match settlement py m errors row with
    | none => True
    | some (c, item) => SparesLoop key py m errors others (k + 1) rows
      ({ t with outbox := meddle (others k) t.outbox }.settle (m.settledAt row) c item)

/-- A row is settled as dispatched. -/
def Completes (py : Runtime) (m : Meets) (errors : List (String × String)) (row : OutboxRow) : Prop :=
  ∃ c item, settlement py m errors row = some (c, item) ∧ c.op = .complete

/-- The row of a key, and whether it is dispatched. -/
def Ends (key : String) (i : Nat) (s : OutboxTable) (sent : Prop) : Prop :=
  ∃ r, s.find? i = some r ∧ r.dedupeKey = some key ∧ (r.status = .dispatched ↔ sent)

section
variable {key : String} {i : Nat} {s t : OutboxTable} {sent sent' : Prop}

theorem Ends.holds (h : Ends key i s sent) : Holds key i s := by
  obtain ⟨r, hr, hkey, -⟩ := h
  exact ⟨r, hr, hkey⟩

theorem Ends.keep (h : Ends key i s sent) (hkeep : Keep i s t) : Ends key i t sent := by
  obtain ⟨r, hr, hkey, hsent⟩ := h
  obtain ⟨r', hr', hkey', -, -, hsent'⟩ := hkeep r hr
  exact ⟨r', hr', hkey'.trans hkey, hsent'.trans hsent⟩

theorem Ends.congr (h : Ends key i s sent) (hiff : sent ↔ sent') : Ends key i s sent' := by
  obtain ⟨r, hr, hkey, hsent⟩ := h
  exact ⟨r, hr, hkey, hsent.trans hiff⟩

/-- A call leaves the rows alone that it does not name. -/
theorem find?_run_ne (now : Int) {c : Call} (hne : c.id ≠ i) (s : OutboxTable) : (c.run now s).find? i = s.find? i := by
  obtain ⟨op, n, error⟩ := c
  cases n with
  | negSucc k => cases op <;> rfl
  | ofNat id =>
    have hid : i ≠ id := by
      rintro rfl
      exact hne rfl
    simp only [Call.run, Int.toNat?]
    cases op with
    | complete =>
      dsimp only
      rw [run_completeOutbox]
      cases s.find? id with
      | none => rfl
      | some row => rw [completeRow, DedupeTable.find?_modify, if_neg hid]
    | retry terminal =>
      dsimp only
      rw [run_retryOutbox]
      cases s.find? id with
      | none => rfl
      | some row =>
        dsimp only [retryRow]
        split <;> rw [DedupeTable.find?_modify, if_neg hid]

/-- A call leaves its own row dispatched just if it completes it. -/
theorem ends_run (now : Int) {c : Call} (hid : c.id = i) (h : Holds key i s) :
    Ends key i (c.run now s) (c.op = .complete) := by
  obtain ⟨r, hr, hkey⟩ := h
  obtain ⟨op, n, error⟩ := c
  dsimp only at hid
  subst hid
  have hnat : Int.toNat? (i : Int) = some i := rfl
  simp only [Call.run, hnat]
  cases op with
  | complete =>
    dsimp only
    rw [run_completeOutbox, hr]
    refine ⟨r.complete now, ?_, hkey, iff_of_true rfl rfl⟩
    rw [completeRow, DedupeTable.find?_modify, if_pos rfl, hr, Option.map_some]
  | retry terminal =>
    dsimp only
    rw [run_retryOutbox, hr]
    dsimp only [retryRow]
    split
    · refine ⟨r.fail now error, ?_, hkey, iff_of_false (by simp [OutboxRow.fail]) (by simp)⟩
      rw [DedupeTable.find?_modify, if_pos rfl, hr, Option.map_some]
    · refine ⟨r.postpone now (now + waitSeconds r.attempts none * 1000) error, ?_, hkey, ?_⟩
      rotate_left
      · exact iff_of_false (by simp [OutboxRow.postpone]) (by simp)
      rw [DedupeTable.find?_modify, if_pos rfl, hr, Option.map_some]

end

section
variable {py : Runtime} {m : Meets} {errors : List (String × String)} {others : Nat → List Other} {key : String} {i : Nat}

/-- The row of the key is dispatched behind the loop if it was settled so, or was so before and not settled. -/
theorem ends_settleAmid {rows : List OutboxRow} {k : Nat} {t : Tick} {sent : Prop}
    (hspares : SparesLoop key py m errors others k rows t)
    (hown : ∀ row ∈ rows, ∀ c item, settlement py m errors row = some (c, item) → c.id = row.id)
    (hnodup : (rows.map (·.id)).Nodup) (h : Ends key i t.outbox sent)
    (hdone : (settleAmid py m errors others k rows t).2 = false) :
    Ends key i (settleAmid py m errors others k rows t).1.outbox
      ((∃ row ∈ rows, row.id = i ∧ Completes py m errors row) ∨ sent ∧ ∀ row ∈ rows, row.id ≠ i) := by
  induction rows generalizing k t sent with
  | nil =>
    refine (h.keep (hspares.keep h.holds)).congr ?_
    simp
  | cons row rows ih =>
    rw [List.map_cons, List.nodup_cons] at hnodup
    obtain ⟨hgap, hrest⟩ := hspares
    have hmeddled := h.keep (hgap.keep h.holds)
    rw [settleAmid] at hdone ⊢
    cases hsettle : settlement py m errors row with
    | none => simp [hsettle] at hdone
    | some x =>
      obtain ⟨c, item⟩ := x
      simp only [hsettle] at hdone hrest ⊢
      have hcall : c.id = row.id := hown row List.mem_cons_self c item hsettle
      have hlater := fun r hr => hown r (List.mem_cons_of_mem row hr)
      by_cases hid : row.id = i
      · have hends : Ends key i (c.run (m.settledAt row) (meddle (others k) t.outbox)) (c.op = .complete) :=
          ends_run _ (by rw [hcall, hid]) hmeddled.holds
        refine (ih hrest hlater hnodup.2 hends hdone).congr ?_
        have hothers : ∀ r ∈ rows, r.id ≠ i := by
          intro r hr hri
          exact hnodup.1 (hid ▸ hri ▸ List.mem_map_of_mem hr)
        have hcompletes : Completes py m errors row ↔ c.op = .complete := by
          constructor
          · rintro ⟨c', item', heq, hop⟩
            rw [hsettle] at heq
            obtain ⟨rfl, rfl⟩ := Prod.mk.inj (Option.some.inj heq)
            exact hop
          · exact fun hop => ⟨c, item, hsettle, hop⟩
        constructor
        · rintro (⟨r, hr, hri, -⟩ | ⟨hop, -⟩)
          · exact absurd hri (hothers r hr)
          · exact .inl ⟨row, List.mem_cons_self, hid, hcompletes.mpr hop⟩
        · rintro (⟨r, hr, hri, hop⟩ | ⟨-, hall⟩)
          · obtain rfl | hr := List.mem_cons.mp hr
            · exact .inr ⟨hcompletes.mp hop, hothers⟩
            · exact absurd hri (hothers r hr)
          · exact absurd hid (hall row List.mem_cons_self)
      · have hne : c.id ≠ (i : Int) := by
          rw [hcall]
          exact_mod_cast hid
        have hends : Ends key i (c.run (m.settledAt row) (meddle (others k) t.outbox)) sent :=
          hmeddled.keep (Keep.of_eq (find?_run_ne _ hne _))
        refine (ih hrest hlater hnodup.2 hends hdone).congr ?_
        simp [hid]

/-- Where nobody comes in between the row is spared. -/
theorem sparesLoop_nil (hnone : ∀ k, others k = []) (rows : List OutboxRow) (k : Nat) (t : Tick) :
    SparesLoop key py m errors others k rows t := by
  induction rows generalizing k t with
  | nil =>
    rw [SparesLoop, hnone]
    trivial
  | cons row rows ih =>
    rw [SparesLoop, hnone]
    refine ⟨trivial, ?_⟩
    cases settlement py m errors row with
    | none => trivial
    | some x => exact ih _ _

/-- Behind a loop that did not raise every row has its item. -/
theorem items_settleAmid {rows : List OutboxRow} {k : Nat} {t : Tick}
    (hdone : (settleAmid py m errors others k rows t).2 = false) :
    (settleAmid py m errors others k rows t).1.items =
      t.items ++ rows.filterMap (fun row => (settlement py m errors row).map (·.2)) := by
  induction rows generalizing k t with
  | nil => simp [settleAmid]
  | cons row rows ih =>
    rw [settleAmid] at hdone ⊢
    cases hsettle : settlement py m errors row with
    | none => simp [hsettle] at hdone
    | some x =>
      simp only [hsettle] at hdone ⊢
      rw [ih hdone, List.filterMap_cons, hsettle]
      simp [Tick.settle]

end

/-! ## The item of the run -/

section
variable {py : Runtime} {q : Remote} {m : Meets} {errors : List (String × String)} {ctx : Context} {row : OutboxRow}

/-- What the finalizer can tell from a reply: whose it is, and with a dispatched one its kind. -/
structure Tells (py : Runtime) (q : Remote) (row : OutboxRow) (result : Dict) : Prop where
  id : result.get "outbox_id" = .int row.id
  payload : result.get "payload" = .obj (q.payload row)
  kind : isDispatched py result = true → result.get "kind" = .str row.kind

theorem not_dispatched_failed (hfailed : py.lower "failed" = "failed") {result : Dict}
    (h : result.get "status" = .str "failed") : isDispatched py result = false := by
  have hstrip : strip "failed" = "failed" := by decide
  rw [isDispatched, h, Python.text_str, hstrip, hfailed]
  decide

theorem tells_dispatch (hfailed : py.lower "failed" = "failed") {result : Dict}
    (h : dispatchOutboxItem py q row = .ok result) : Tells py q row result := by
  apply yields_dispatchOutboxItem (P := Tells py q row) _ _ _ result h
  · exact fun error more => ⟨rfl, rfl, fun _ => rfl⟩
  · exact fun more => ⟨rfl, rfl, fun _ => rfl⟩
  · refine fun error => ⟨rfl, rfl, fun hsent => ?_⟩
    rw [not_dispatched_failed hfailed rfl] at hsent
    cases hsent

/-- A pull request is dispatched with its url only. -/
theorem url_of_dispatched (hfailed : py.lower "failed" = "failed") (hkind : row.kind = "github_pull_request.create")
    {result : Dict} (h : dispatchOutboxItem py q row = .ok result) (hsent : isDispatched py result = true) :
    strip (py.text (result.get "pr_url")) ≠ "" := by
  have hstrip : strip row.kind = "github_pull_request.create" := by
    rw [hkind]
    decide
  have hcreate : dispatchOutboxItem py q row = dispatchPullRequestCreate py q row := by
    unfold dispatchOutboxItem
    simp [hstrip]
  rw [hcreate] at h
  have hyields : Yields (fun result => isDispatched py result = true → strip (py.text (result.get "pr_url")) ≠ "")
      (dispatchPullRequestCreate py q row) := by
    have hno : ∀ error more, isDispatched py (failedReply q row error more) = true →
        strip (py.text ((failedReply q row error more).get "pr_url")) ≠ "" := by
      intro error more hsent
      rw [not_dispatched_failed hfailed rfl] at hsent
      cases hsent
    apply Yields.bind
    intro task
    dsimp only
    split
    · exact Yields.ok (hno _ _)
    · apply Yields.bind
      intro pullRequest
      split
      · exact Yields.ok (hno _ _)
      · rename_i hurl
        apply Yields.ok
        intro _
        change strip (py.text (.str (strip (py.text (pullRequest.get "url"))))) ≠ ""
        rw [Python.text_str, strip_idem]
        exact hurl
  exact hyields result h hsent

/-- The checks of a reply. -/
theorem recognised_reply {result : Dict} : (recognised py ctx (.reply result)).isSome = true ↔
    py.text (((result.get "payload").asDict.getD []).get "run_id") = ctx.runId ∧
      py.text (result.get "kind") = "github_pull_request.create" ∧ isDispatched py result = true ∧
      strip (py.text (result.get "pr_url")) ≠ "" := by
  unfold recognised
  dsimp only
  split_ifs <;> simp_all

theorem recognised_url {item : Item} {recorded : Recorded} (h : recognised py ctx item = some recorded) :
    ∃ result, item = .reply result ∧ recorded.url = strip (py.text (result.get "pr_url")) ∧ recorded.url ≠ "" := by
  cases item with
  | raised row terminal error => cases h
  | reply result =>
    refine ⟨result, rfl, ?_⟩
    unfold recognised at h
    dsimp only at h
    split_ifs at h with hrun hkind hsent hurl
    all_goals
      obtain rfl := Option.some.inj h
      exact ⟨rfl, hurl⟩

theorem dispatch_of_settlement {c : Call} {result : Dict} (h : settlement py m errors row = some (c, .reply result)) :
    m.dispatch row = .ok result := by
  unfold settlement at h
  split at h
  · cases h
  · cases hdispatch : m.dispatch row with
    | error e =>
      rw [hdispatch] at h
      cases h
    | ok x =>
      simp only [hdispatch, Option.map_eq_some_iff, Prod.mk.injEq, Item.reply.injEq] at h
      obtain ⟨-, -, -, rfl⟩ := h
      rfl

/-- The finalizer books its run with a reply just if that is a dispatched pull request of the run. -/
theorem recognised_isSome (hfailed : py.lower "failed" = "failed") (hm : m.dispatch = dispatchOutboxItem py q)
    {c : Call} {item : Item} (h : settlement py m errors row = some (c, item)) :
    (recognised py ctx item).isSome = true ↔ c.op = .complete ∧ row.kind = "github_pull_request.create" ∧
      py.text ((q.payload row).get "run_id") = ctx.runId := by
  unfold settlement at h
  split at h
  · obtain ⟨rfl, rfl⟩ := Prod.mk.inj (Option.some.inj h)
    exact iff_of_false (by simp [recognised]) (by simp)
  · rw [hm] at h
    cases hdispatch : dispatchOutboxItem py q row with
    | error e =>
      simp only [hdispatch] at h
      obtain ⟨rfl, rfl⟩ := Prod.mk.inj (Option.some.inj h)
      exact iff_of_false (by simp [recognised]) (by simp)
    | ok result =>
      simp only [hdispatch, Option.map_eq_some_iff] at h
      obtain ⟨id, -, heq⟩ := h
      obtain ⟨rfl, rfl⟩ := Prod.mk.inj heq
      have htells := tells_dispatch hfailed hdispatch
      have hop : replyOp py result = .complete ↔ isDispatched py result = true := by
        unfold replyOp
        split <;> simp_all
      rw [recognised_reply, htells.payload, hop, Json.asDict_obj, Option.getD_some]
      constructor
      · rintro ⟨hrun, hkind, hsent, -⟩
        rw [htells.kind hsent, Python.text_str] at hkind
        exact ⟨hsent, hkind, hrun⟩
      · rintro ⟨hsent, hkind, hrun⟩
        rw [htells.kind hsent, Python.text_str]
        exact ⟨hrun, hkind, hsent, url_of_dispatched hfailed hkind hdispatch hsent⟩

end

/-! ## The outcome of the run -/

section
variable {py : Runtime} {q : Remote} {dumps : Dict → String} {ctx : Context} {m : Meets} {clock : Moment} {gaps : Gaps}
variable {o : OutboxTable}

/-- The others leave the row of the run to its finalizer, from the enqueue to the return. -/
structure Spared (py : Runtime) (dumps : Dict → String) (ctx : Context) (m : Meets) (clock : Moment) (gaps : Gaps)
    (o : OutboxTable) : Prop where
  enqueued : SparesAll ctx.createKey gaps.enqueued (enqueuedOutbox py dumps ctx clock o)
  reaped : SparesAll ctx.createKey gaps.reaped
    ((reapStaleOutboxClaims clock.reapedAt defaultOutboxStaleAfterSeconds).run
      (meddle gaps.enqueued (enqueuedOutbox py dumps ctx clock o))).2
  settling : SparesLoop ctx.createKey py m (connectorErrors m (batch py dumps ctx clock gaps o)) gaps.settling 0
    (batch py dumps ctx clock gaps o) { outbox := batchOutbox py dumps ctx clock gaps o }

/-- The pull requests of the run in the batch have its key. -/
def Sole (py : Runtime) (q : Remote) (ctx : Context) (rows : List OutboxRow) : Prop :=
  ∀ row ∈ rows, row.kind = "github_pull_request.create" → py.text ((q.payload row).get "run_id") = ctx.runId →
    row.dedupeKey = some ctx.createKey

/-- The enqueue leaves one row of the run, to be sent. -/
theorem enqueued_row (hfresh : o.find? clock.id = none)
    (hkinds : ∀ r ∈ o.rows, r.dedupeKey = some ctx.createKey → r.kind = "github_pull_request.create") :
    ∃ i r, (enqueuedOutbox py dumps ctx clock o).find? i = some r ∧ r.dedupeKey = some ctx.createKey ∧
      r.kind = "github_pull_request.create" ∧ r.payload = dumps (ctx.payload py.toPython) ∧ r.status = .pending := by
  rw [enqueuedOutbox, run_enqueueOutbox]
  generalize hx : ctx.message py.toPython dumps = x
  have hkey : x.dedupeKey = some ctx.createKey := by rw [← hx, Context.message]
  have hkind : x.kind = "github_pull_request.create" := by rw [← hx, Context.message]
  have hpayload : x.payload = dumps (ctx.payload py.toPython) := by rw [← hx, Context.message]
  cases hi : o.insert (x.row clock.enqueuedAt clock.id) (OutboxRow.requeue clock.enqueuedAt x.payload)
      (OutboxRow.requeue_id clock.enqueuedAt x.payload) (OutboxRow.requeue_dedupeKey clock.enqueuedAt x.payload) with
  | none =>
    exfalso
    unfold DedupeTable.insert at hi
    split at hi
    · cases hi
    · split at hi
      · rename_i htaken
        exact Table.find?_isNone.mp hfresh htaken
      · cases hi
  | some t =>
    rw [Option.getD_some]
    obtain ⟨r, hr, hfind⟩ | ⟨-, -, hfind⟩ := DedupeTable.insert_eq hi
    · obtain ⟨hmem, -, hold⟩ := DedupeTable.holder_some hr
      have hrow : r.dedupeKey = some ctx.createKey := hold.trans hkey
      exact ⟨r.id, r.requeue clock.enqueuedAt x.payload, by rw [hfind, if_pos rfl], hrow, hkinds r hmem hrow, hpayload,
        rfl⟩
    · have hid : clock.id = (x.row clock.enqueuedAt clock.id).id := rfl
      exact ⟨clock.id, x.row clock.enqueuedAt clock.id, by rw [hfind, if_pos hid], hkey, hkind, hpayload, rfl⟩

/-- Every settlement names its own row. -/
theorem own_id (hint : ∀ n, py.int (.int n) = some n) (hm : m.dispatch = dispatchOutboxItem py q)
    {errors : List (String × String)} {row : OutboxRow} (hid : row.id < 2 ^ 63) {c : Call} {item : Item}
    (h : settlement py m errors row = some (c, item)) : c.id = row.id := by
  have hcall : (callFor py m errors row).map (·.id) = some c.id := by simp [callFor, h]
  rw [id_callFor, named] at hcall
  cases hreply : replied m errors row with
  | none =>
    rw [hreply] at hcall
    exact (Option.some.inj hcall).symm
  | some result =>
    rw [hreply] at hcall
    have hown : OwnReply row result := by
      unfold replied at hreply
      split at hreply
      · cases hreply
      · rw [hm] at hreply
        apply replies_dispatchOutboxItem py q row
        cases hd : dispatchOutboxItem py q row with
        | error e => simp [hd, Except.toOption] at hreply
        | ok x => simpa [hd, Except.toOption] using hreply
    dsimp only at hcall
    rw [replyId_own hint hown hid] at hcall
    exact (Option.some.inj hcall).symm

theorem batch_eq : batch py dumps ctx clock gaps o =
    (pendingRows clock.claimedAt 25 (foundOutbox py dumps ctx clock gaps o)).map (OutboxRow.claimed clock.claimedAt) := by
  rw [batch, run_claimPendingOutbox]
  rfl

/-- A row of the batch stands in the outbox with its text. -/
theorem find?_of_mem_batch {row : OutboxRow} (h : row ∈ batch py dumps ctx clock gaps o) :
    ∃ r, (foundOutbox py dumps ctx clock gaps o).find? row.id = some r ∧ row.dedupeKey = r.dedupeKey ∧
      row.kind = r.kind ∧ row.payload = r.payload := by
  rw [batch_eq, List.mem_map] at h
  obtain ⟨r, hr, rfl⟩ := h
  exact ⟨r, (mem_pendingRows hr).1, rfl, rfl, rfl⟩

theorem nodup_batch : ((batch py dumps ctx clock gaps o).map (·.id)).Nodup := by
  rw [batch_eq, List.map_map]
  exact nodup_pendingRows clock.claimedAt 25 (foundOutbox py dumps ctx clock gaps o)

/-- The row the finalizer enqueued, in its batch. -/
theorem batch_row {i : Nat} {r : OutboxRow} (hfound : (foundOutbox py dumps ctx clock gaps o).find? i = some r)
    (hkey : r.dedupeKey = some ctx.createKey) {row : OutboxRow} (hrow : row ∈ batch py dumps ctx clock gaps o) :
    (row.dedupeKey = some ctx.createKey ↔ row.id = i) ∧
      (row.id = i → row.kind = r.kind ∧ row.payload = r.payload) := by
  obtain ⟨r', hr', hkey', hkind', hpayload'⟩ := find?_of_mem_batch hrow
  have hsame : row.id = i → r' = r := by
    intro hid
    rw [hid, hfound] at hr'
    exact (Option.some.inj hr').symm
  constructor
  · constructor
    · intro hrowkey
      have hmem' := List.mem_of_find?_eq_some hr'
      have hmem := List.mem_of_find?_eq_some hfound
      have heq := (foundOutbox py dumps ctx clock gaps o).unique r' hmem' r hmem ctx.createKey
        (hkey'.symm.trans hrowkey) hkey
      have hid' : r'.id = row.id := DedupeTable.find?_key hr'
      have hid : r.id = i := DedupeTable.find?_key hfound
      exact hid'.symm.trans (heq.trans hid)
    · intro hid
      rw [hkey', hsame hid, hkey]
  · intro hid
    rw [hkind', hpayload', hsame hid]
    exact ⟨rfl, rfl⟩

end

/-! ## Another dispatcher in between -/

def sampleContext : Context where
  runId := "run-1"
  task := [("task_id", .str "T1"), ("title", .str "Fix the parser")]
  branchName := "aca/t1"
  prBody := "Fixes the parser."
  defaultBranch := "main"
  slug := "acme/app"

/-- Every call is answered; a created pull request has the number 7. -/
def sampleRemote : Remote where
  payload := fun row => if row.payload = "{run-1}" then sampleContext.payload tickRuntime.toPython else []
  dict := fun _ => .ok []
  issueCommentBody := fun _ _ => ""
  linearCommentBody := fun _ _ => ""
  updateProjectItemStatus := fun _ _ => .ok ""
  addIssueComment := fun _ _ => .ok ""
  createPullRequestMetadata := fun _ _ _ _ => .ok [("url", .str "https://github.com/acme/app/pull/7")]
  linearUpdateIssue := fun _ _ => .ok ""
  linearAddComment := fun _ _ => .ok ""
  linearCommentMarkerPresent := fun _ _ => .ok true

def sampleMeets : Meets where
  connect := fun _ => none
  dispatch := dispatchOutboxItem tickRuntime sampleRemote
  settledAt := fun _ => 2000

def sampleMoment : Moment := ⟨1000, 1, 1100, 1200⟩

def dumpsSample : Dict → String := fun _ => "{run-1}"

def noGaps : Gaps := ⟨[], [], fun _ => []⟩

/-- Behind the enqueue another dispatcher makes its tick. -/
def tickBetween : Gaps := { noGaps with enqueued := [.reap 1040 300, .claim 1050 25, .complete 1090 1] }

end PrOutcome
