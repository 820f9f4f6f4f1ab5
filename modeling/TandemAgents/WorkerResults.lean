import Mathlib.Data.List.Range
import TandemAgents.WorkerPool

/-!
# One result for each subtask

Workers that are done, aborted or late leave the same pending list, each with one recorded
result. With several workers at a time every subtask gets its result; one at a time, the
subtasks up to the first failure that is not excused.
-/
namespace WorkerResults

open JsonData WorkerPool

set_option maxRecDepth 20000

variable {p : Pool} {env : Env}

/-- A result is recorded for the subtask it comes from. -/
def Genuine (p : Pool) (env : Env) (e : Entry) : Prop :=
  match e.source with
  | .worker => e.result = runOne p e.slot (env.answers e.slot.2) ∨
      e.result = complete p e.slot (runOne p e.slot (env.answers e.slot.2))
  | .aborted => ∃ k n, (env.rounds k n).answer e.slot.2 = some e.result
  | .timedOut log cancelled used => latestEvent p e.slot log = some used ∧
      timedOutWorkerResult p e.slot cancelled used = some e.result

theorem genuine_future (slot : Slot) : Genuine p env (futureEntry p env slot) := by
  simp only [Genuine, futureEntry, or_true]

theorem genuine_returned (slot : Slot) : Genuine p env ⟨slot, .worker, runOne p slot (env.answers slot.2)⟩ := by
  simp only [Genuine, true_or]

/-! ## Recorded and pending -/

/-- Every subtask is pending or has one result. -/
structure Kept (p : Pool) (env : Env) (all : List Slot) (s : State) : Prop where
  perm : (s.results.map Entry.slot ++ s.pending).Perm all
  genuine : ∀ e ∈ s.results, Genuine p env e

theorem sift_kept {all : List Slot} {s : State} {r : Round} {taken : Nat → Bool} {entry : Slot → Entry}
    (hslot : ∀ slot, (entry slot).slot = slot) (hgenuine : ∀ slot, taken slot.2 = true → Genuine p env (entry slot))
    (h : Kept p env all s) : Kept p env all (sift r taken entry s) := by
  constructor
  · have hentries : ∀ l : List Slot, (l.map entry).map Entry.slot = l := by
      intro l
      rw [List.map_map]
      exact (List.map_congr_left fun slot _ => hslot slot).trans (List.map_id l)
    have hsplit := List.filter_append_perm (fun slot : Slot => taken slot.2) (r.order s.pending)
    calc (sift r taken entry s).results.map Entry.slot ++ (sift r taken entry s).pending
        = s.results.map Entry.slot ++ ((r.order s.pending).filter (fun slot => taken slot.2) ++
            (r.order s.pending).filter (fun slot => !taken slot.2)) := by
          simp only [sift, List.map_append, hentries, List.append_assoc]
      _ |>.Perm (s.results.map Entry.slot ++ s.pending) := (hsplit.trans (r.perm s.pending)).append_left _
      _ |>.Perm all := h.perm
  · intro e he
    rcases List.mem_append.mp he with hold | hnew
    · exact h.genuine e hold
    · obtain ⟨slot, hmem, rfl⟩ := List.mem_map.mp hnew
      exact hgenuine slot (List.mem_filter.mp hmem).2

theorem timeoutEntry_some (env : Env) {r : Round} {slot : Slot} {e : Entry} (h : timeoutEntry p r slot = some e) :
    e.slot = slot ∧ Genuine p env e := by
  simp only [timeoutEntry, Option.bind_eq_bind, Option.bind_eq_some_iff] at h
  obtain ⟨used, hused, result, hresult, h⟩ := h
  cases h
  exact ⟨rfl, hused, hresult⟩

theorem mapM_timeoutEntry (env : Env) {r : Round} {pending : List Slot} {entries : List Entry}
    (h : pending.mapM (timeoutEntry p r) = some entries) :
    entries.map Entry.slot = pending ∧ ∀ e ∈ entries, Genuine p env e := by
  induction pending generalizing entries with
  | nil =>
    cases h
    exact ⟨rfl, fun e he => by cases he⟩
  | cons slot pending ih =>
    simp only [List.mapM_cons, Option.bind_eq_bind, Option.bind_eq_some_iff] at h
    obtain ⟨e, he, rest, hrest, h⟩ := h
    cases h
    obtain ⟨hslot, hgenuine⟩ := timeoutEntry_some env he
    obtain ⟨hslots, hall⟩ := ih hrest
    refine ⟨by rw [List.map_cons, hslot, hslots], ?_⟩
    intro e' he'
    cases he' with
    | head => exact hgenuine
    | tail _ he' => exact hall e' he'

/-- What a finished call of the pool returns. -/
def Complete (p : Pool) (env : Env) (all : List Slot) (entries : List Entry) : Prop :=
  (entries.map Entry.slot).Perm all ∧ ∀ e ∈ entries, Genuine p env e

theorem Kept.complete {all : List Slot} {s : State} (h : Kept p env all s) (hpending : s.pending = []) :
    Complete p env all s.results := by
  have hperm := h.perm
  rw [hpending, List.append_nil] at hperm
  exact ⟨hperm, h.genuine⟩

/-- One round: it keeps the results and the pending subtasks together, or returns one result
for each. -/
theorem pollRound_kept {all : List Slot} {s : State} (k n : Nat) (h : Kept p env all s) :
    match pollRound p env (env.rounds k n) s with
    | .over run => ∀ entries, run = .returned entries → Complete p env all entries
    | .next t => Kept p env all t := by
  generalize hr : env.rounds k n = r
  have hdone : Kept p env all (takeDone p env r s) :=
    sift_kept (fun _ => rfl) (fun slot _ => genuine_future slot) h
  have haborted : Kept p env all (takeAborted r (takeDone p env r s)) := by
    refine sift_kept (fun _ => rfl) (fun slot htaken => ?_) hdone
    obtain ⟨answer, hanswer⟩ := Option.isSome_iff_exists.mp htaken
    exact ⟨k, n, by simp only [abortEntry, hr, hanswer, Option.getD_some]⟩
  unfold pollRound
  simp only
  split_ifs with hfirst hsecond hlate
  · rintro entries hrun
    cases hrun
    exact hdone.complete hfirst
  · rintro entries hrun
    cases hrun
    exact haborted.complete hsecond
  · intro entries hrun
    unfold takeLate at hrun
    cases hentries : (r.order (takeAborted r (takeDone p env r s)).pending).mapM (timeoutEntry p r) with
    | none =>
      rw [hentries] at hrun
      cases hrun
    | some late =>
      rw [hentries] at hrun
      cases hrun
      obtain ⟨hslots, hgenuine⟩ := mapM_timeoutEntry env hentries
      constructor
      · rw [List.map_append, hslots]
        exact ((r.perm _).append_left _).trans haborted.perm
      · intro e he
        rcases List.mem_append.mp he with hold | hnew
        · exact haborted.genuine e hold
        · exact hgenuine e hnew
  · exact sift_kept (fun _ => rfl) (fun slot _ => genuine_future slot) haborted

theorem pollLoop_complete {all : List Slot} (k fuel n : Nat) {s : State} (h : Kept p env all s) {entries : List Entry}
    (hrun : pollLoop p env (env.rounds k) fuel n s = .returned entries) : Complete p env all entries := by
  induction fuel generalizing n s with
  | zero => cases hrun
  | succ fuel ih =>
    rw [pollLoop] at hrun
    split_ifs at hrun with hempty
    · cases hrun
      exact h.complete hempty
    · have hround := pollRound_kept (p := p) k n h
      cases hturn : pollRound p env (env.rounds k n) s with
      | «over» run =>
        rw [hturn] at hrun hround
        exact hround entries hrun
      | next t =>
        rw [hturn] at hrun hround
        exact ih (n + 1) hround hrun

/-! ## One worker at a time -/

theorem watch_genuine {k : Nat} {slot : Slot} (fuel n : Nat) {e : Entry}
    (h : watch p env (env.rounds k) slot fuel n = .returned e) : e.slot = slot ∧ Genuine p env e := by
  induction fuel generalizing n with
  | zero => cases h
  | succ fuel ih =>
    rw [watch] at h
    cases hanswer : (env.rounds k n).answer slot.2 with
    | some answer =>
      rw [hanswer] at h
      cases h
      exact ⟨rfl, k, n, hanswer⟩
    | none =>
      rw [hanswer] at h
      simp only at h
      split_ifs at h with hlate hwaited
      · cases hentry : timeoutEntry p (env.rounds k n) slot with
        | none =>
          rw [hentry] at h
          cases h
        | some entry =>
          rw [hentry] at h
          cases h
          exact timeoutEntry_some env hentry
      · cases h
        exact ⟨rfl, genuine_returned slot⟩
      · exact ih (n + 1) h

/-- The results of a prefix of the subtasks, which ends at the first failure that is not
excused or with the last subtask. -/
structure SerialPrefix (p : Pool) (env : Env) (all : List Slot) (entries : List Entry) : Prop where
  slots : entries.map Entry.slot <+: all
  genuine : ∀ e ∈ entries, Genuine p env e
  excused : ∀ e ∈ entries.dropLast, hasUnresolvedFailure p [e.result] = some false
  ends : entries.map Entry.slot = all ∨ ∃ e, entries.getLast? = some e ∧ hasUnresolvedFailure p [e.result] = some true

theorem serialPool_first (fuel : Nat) {all : List Slot} {entries : List Entry}
    (h : serialPool p env fuel all = .returned entries) : SerialPrefix p env all entries := by
  induction all generalizing entries with
  | nil =>
    cases h
    exact ⟨List.prefix_rfl, (fun e he => by cases he), (fun e he => by cases he), .inl rfl⟩
  | cons slot all ih =>
    rw [serialPool] at h
    cases hwatch : watch p env (env.rounds slot.2) slot fuel 0 with
    | raised => rw [hwatch] at h; cases h
    | polling => rw [hwatch] at h; cases h
    | returned e =>
      obtain ⟨hslot, hgenuine⟩ := watch_genuine fuel 0 hwatch
      rw [hwatch] at h
      simp only [Run.bind] at h
      cases hfailed : hasUnresolvedFailure p [e.result] with
      | none => rw [hfailed] at h; cases h
      | some failed =>
        rw [hfailed] at h
        simp only [Run.ofOption] at h
        cases failed with
        | true =>
          cases h
          refine ⟨?_, ?_, (fun e he => by cases he), .inr ⟨e, rfl, hfailed⟩⟩
          · rw [List.map_singleton, hslot]
            exact ⟨all, rfl⟩
          · intro e' he'
            obtain rfl := List.mem_singleton.mp he'
            exact hgenuine
        | false =>
          cases hrest : serialPool p env fuel all with
          | raised => rw [hrest] at h; cases h
          | polling => rw [hrest] at h; cases h
          | returned rest =>
            rw [hrest] at h
            cases h
            obtain ⟨hslots, hall, hexcused, hends⟩ := ih hrest
            refine ⟨?_, ?_, ?_, ?_⟩
            · rw [List.map_cons, hslot]
              exact List.cons_prefix_cons.mpr ⟨rfl, hslots⟩
            · intro e' he'
              cases he' with
              | head => exact hgenuine
              | tail _ he' => exact hall e' he'
            · intro e' he'
              cases rest with
              | nil => cases he'
              | cons f rest =>
                rw [List.dropLast_cons_cons] at he'
                cases he' with
                | head => exact hfailed
                | tail _ he' => exact hexcused e' he'
            · cases hends with
              | inl hfull => exact .inl (by rw [List.map_cons, hslot, hfull])
              | inr hlast =>
                obtain ⟨last, hlast, htrue⟩ := hlast
                refine .inr ⟨last, ?_, htrue⟩
                cases rest with
                | nil => cases hlast
                | cons f rest => rw [List.getLast?_cons_cons]; exact hlast

/-! ## A call returns -/

/-- `int(payload.get("returncode") or n)` returns. -/
def ReadableCode (p : Pool) (payload : Dict) : Prop :=
  ∀ n, (p.py.int ((payload.get "returncode").or (.int n))).isSome = true

/-- Every line of the log that is JSON holds an object, with a return code that can be read. -/
def ReadableLog (p : Pool) (log : Option (List Char)) : Prop :=
  ∀ content, log = some content → ∀ line ∈ EventLog.splitlines content, ∀ v, JsonText.loads p.floats line = some v →
    ∃ event : Dict, v = .obj event ∧ ReadableCode p ((event.get "payload").asDict.getD [])

/-- What the pool reads can be read. -/
structure Readable (p : Pool) (env : Env) : Prop where
  log : ∀ k n i, ReadableLog p ((env.rounds k n).log i)
  answer : ∀ i v, env.answers i = .returned v → ReadableCode p (v.asDict.getD [])
  abort : ∀ k n i d, (env.rounds k n).abort i = some d → ReadableCode p d

/-- In a round the worker is done, or aborted, or late. -/
def EndsAt (p : Pool) (r : Round) (index : Nat) : Prop :=
  (r.answer index).isSome = true ∨ (p.timed && r.late) = true ∨ r.waited index = true

theorem readableCode_int {payload : Dict} {n : Int} (h : payload.get "returncode" = .int n) : ReadableCode p payload := by
  intro m
  rw [h, Json.or]
  split_ifs
  · rw [p.py.int_int]; rfl
  · rw [p.py.int_int]; rfl

theorem get_setDefault (d : Dict) (key : String) (value : Json) (other : String) :
    (setDefault d key value).get other = if key = other ∧ d.contains key = false then value else d.get other := by
  unfold setDefault
  cases hc : d.contains key with
  | true => simp
  | false =>
    rw [if_neg Bool.false_ne_true, Dict.get_set]
    simp

theorem readableCode_setDefault {d : Dict} {key : String} {value : Json} (h : ReadableCode p d) (hkey : key ≠ "returncode") :
    ReadableCode p (setDefault d key value) := by
  intro n
  rw [get_setDefault, if_neg fun hc => hkey hc.1]
  exact h n

theorem readableCode_set {d : Dict} {key : String} {value : Json} (h : ReadableCode p d) (hkey : key ≠ "returncode") :
    ReadableCode p (d.set key value) := by
  intro n
  rw [Dict.get_set, if_neg hkey]
  exact h n

theorem readableCode_default {d : Dict} {m : Int} (h : ReadableCode p d) :
    ReadableCode p (setDefault d "returncode" (.int m)) := by
  intro n
  rw [get_setDefault]
  split_ifs
  · rw [Json.or]
    split_ifs
    · rw [p.py.int_int]; rfl
    · rw [p.py.int_int]; rfl
  · exact h n

theorem readableCode_complete {slot : Slot} {d : Dict} (h : ReadableCode p d) : ReadableCode p (complete p slot d) := by
  have hnamed : ReadableCode p (setDefault (setDefault (setDefault (setDefault d "worker_id" (.str (workerId slot.2)))
      "subtask_index" (.int slot.2)) "subtask_id" slot.1.id) "title" slot.1.title) :=
    readableCode_setDefault (readableCode_setDefault (readableCode_setDefault (readableCode_setDefault h
      (by decide)) (by decide)) (by decide)) (by decide)
  exact readableCode_setDefault (readableCode_set (readableCode_default (readableCode_setDefault hnamed (by decide)))
    (by decide)) (by decide)

theorem readableCode_runOne {slot : Slot} {a : Answer} (h : ∀ v, a = .returned v → ReadableCode p (v.asDict.getD [])) :
    ReadableCode p (runOne p slot a) := by
  cases a with
  | returned v => exact readableCode_complete (h v rfl)
  | raised message => exact readableCode_complete (readableCode_int rfl)

theorem readableCode_noProgress (slot : Slot) (cancelled : Bool) : ReadableCode p (noProgress p slot cancelled) := by
  cases cancelled with
  | true => exact readableCode_int rfl
  | false => exact readableCode_set (readableCode_set (readableCode_int rfl) (by decide)) (by decide)

theorem readableCode_foldl {d : Dict} (value : String → Json) {keys : List String} (h : ReadableCode p d)
    (hkeys : "returncode" ∉ keys) : ReadableCode p (keys.foldl (fun (d : Dict) key => d.set key (value key)) d) := by
  induction keys generalizing d with
  | nil => exact h
  | cons key keys ih =>
    obtain ⟨hkey, hrest⟩ := List.ne_and_not_mem_of_not_mem_cons hkeys
    exact ih (readableCode_set h hkey.symm) hrest

/-- A terminal event whose return code can be read makes a result whose return code can. -/
theorem eventResult_some (slot : Slot) {e : TerminalEvent} (h : ReadableCode p e.payload) :
    ∃ result, eventResult p slot e = some result ∧ ReadableCode p result := by
  obtain ⟨code, hcode⟩ := Option.isSome_iff_exists.mp (h (if e.completed then 0 else 1))
  unfold eventResult
  rw [hcode]
  refine ⟨_, rfl, readableCode_foldl (fun key => e.payload.get key) (readableCode_int rfl) ?_⟩
  intro hmem
  exact absurd (List.mem_of_mem_filter hmem) (by decide)

theorem terminalEvent_payload {slot : Slot} {event : Dict} {e : TerminalEvent} (h : terminalEvent p slot event = some e) :
    e.payload = (event.get "payload").asDict.getD [] := by
  unfold terminalEvent at h
  simp only at h
  split_ifs at h
  rw [← Option.some.inj h]

theorem scanLines_some {slot : Slot} {lines : List (List Char)} {latest : Option TerminalEvent}
    (h : ∀ line ∈ lines, ∀ v, JsonText.loads p.floats line = some v →
      ∃ event : Dict, v = .obj event ∧ ReadableCode p ((event.get "payload").asDict.getD []))
    (hlatest : ∀ e, latest = some e → ReadableCode p e.payload) :
    ∃ used, scanLines p slot lines latest = some used ∧ ∀ e, used = some e → ReadableCode p e.payload := by
  induction lines generalizing latest with
  | nil => exact ⟨latest, rfl, hlatest⟩
  | cons line lines ih =>
    have hrest := fun line' hmem => h line' (List.mem_cons_of_mem line hmem)
    rw [scanLines]
    cases hloads : JsonText.loads p.floats line with
    | none => exact ih hrest hlatest
    | some v =>
      obtain ⟨event, rfl, hpayload⟩ := h line List.mem_cons_self v hloads
      refine ih hrest fun e he => ?_
      cases hterminal : terminalEvent p slot event with
      | none =>
        rw [hterminal] at he
        exact hlatest e he
      | some e' =>
        rw [hterminal] at he
        cases he
        rw [terminalEvent_payload hterminal]
        exact hpayload

/-- A worker that is late gets its result. -/
theorem timeoutEntry_isSome (h : Readable p env) (k n : Nat) (slot : Slot) :
    ∃ e, timeoutEntry p (env.rounds k n) slot = some e ∧ ReadableCode p e.result := by
  have hlog := h.log k n slot.2
  have hused : ∃ used, latestEvent p slot ((env.rounds k n).log slot.2) = some used ∧
      ∀ e, used = some e → ReadableCode p e.payload := by
    cases hfile : (env.rounds k n).log slot.2 with
    | none => exact ⟨none, rfl, fun e he => by cases he⟩
    | some content => exact scanLines_some (hlog content hfile) fun e he => by cases he
  obtain ⟨used, hused, hread⟩ := hused
  unfold timeoutEntry
  rw [hused]
  cases used with
  | none => exact ⟨_, rfl, readableCode_noProgress slot _⟩
  | some e =>
    obtain ⟨result, hresult, hcode⟩ := eventResult_some slot (hread e rfl)
    simp only [Option.bind_eq_bind, Option.bind_some, timedOutWorkerResult, hresult]
    exact ⟨_, rfl, hcode⟩

/-- Whether a result is an unresolved failure is answered. -/
theorem hasUnresolvedFailure_isSome {result : Dict} (h : ReadableCode p result) :
    ∃ failed, hasUnresolvedFailure p [result] = some failed := by
  obtain ⟨code, hcode⟩ := Option.isSome_iff_exists.mp (h 0)
  have hsynced : ∃ synced, hasReviewableSyncedDiff p result = some synced := by
    unfold hasReviewableSyncedDiff
    rw [hcode]
    simp only [Option.bind_eq_bind, Option.bind_some]
    split_ifs <;> exact ⟨_, rfl⟩
  have hinherited : ∃ inherited, inheritedOverlay p result = some inherited := by
    unfold inheritedOverlay
    rw [hcode]
    simp only [Option.bind_eq_bind, Option.bind_some]
    split_ifs <;> exact ⟨_, rfl⟩
  obtain ⟨synced, hsynced⟩ := hsynced
  obtain ⟨inherited, hinherited⟩ := hinherited
  have hunresolved : ∃ failed, unresolved p synced result = some failed := by
    unfold unresolved
    rw [hinherited]
    simp only [Option.bind_eq_bind, Option.bind_some]
    split
    · exact ⟨false, rfl⟩
    · split
      · exact ⟨false, rfl⟩
      · split_ifs <;> exact ⟨_, rfl⟩
  obtain ⟨failed, hunresolved⟩ := hunresolved
  have hworker : hasReviewableSyncedWorkerResult p [result] = some synced := by
    simp only [hasReviewableSyncedWorkerResult, hsynced, Option.bind_eq_bind, Option.bind_some]
    cases synced <;> rfl
  refine ⟨failed, ?_⟩
  simp only [hasUnresolvedFailure, hworker, anyUnresolved, hunresolved, Option.bind_eq_bind, Option.bind_some]
  cases failed <;> rfl

/-- The polling of a worker that ends comes to an end. -/
theorem watch_returns (h : Readable p env) {k : Nat} {slot : Slot} (m n fuel : Nat)
    (hend : EndsAt p (env.rounds k (n + m)) slot.2) (hfuel : m < fuel) :
    ∃ e, watch p env (env.rounds k) slot fuel n = .returned e ∧ ReadableCode p e.result := by
  induction fuel generalizing m n with
  | zero => omega
  | succ fuel ih =>
    rw [watch]
    cases hanswer : (env.rounds k n).answer slot.2 with
    | some answer =>
      obtain ⟨habort, -⟩ := Option.filter_eq_some_iff.mp hanswer
      exact ⟨abortEntry slot answer, rfl, h.abort k n slot.2 answer habort⟩
    | none =>
      simp only
      split_ifs with hlate hwaited
      · obtain ⟨e, he, hcode⟩ := timeoutEntry_isSome h k n slot
        exact ⟨e, by rw [he]; rfl, hcode⟩
      · exact ⟨_, rfl, readableCode_runOne (h.answer slot.2)⟩
      · cases m with
        | zero =>
          rcases hend with hsome | hlate' | hwaited'
          · rw [Nat.add_zero, hanswer] at hsome
            cases hsome
          · exact absurd hlate' hlate
          · exact absurd hwaited' hwaited
        | succ m =>
          have hshift : n + (m + 1) = n + 1 + m := by omega
          exact ih m (n + 1) (hshift ▸ hend) (by omega)

/-- One bound for all elements of a list. -/
theorem exists_bound {α : Type} {P : α → Nat → Prop} {l : List α} (h : ∀ a ∈ l, ∃ m, P a m) :
    ∃ bound, ∀ a ∈ l, ∃ m, m < bound ∧ P a m := by
  induction l with
  | nil => exact ⟨0, fun a ha => by cases ha⟩
  | cons a l ih =>
    obtain ⟨m, hm⟩ := h a List.mem_cons_self
    obtain ⟨bound, hbound⟩ := ih fun b hb => h b (List.mem_cons_of_mem a hb)
    refine ⟨max (m + 1) bound, fun b hb => ?_⟩
    cases hb with
    | head => exact ⟨m, by omega, hm⟩
    | tail _ hb =>
      obtain ⟨m', hlt, hm'⟩ := hbound b hb
      exact ⟨m', by omega, hm'⟩

theorem serialPool_returns (h : Readable p env) {all : List Slot} {fuel : Nat}
    (hend : ∀ slot ∈ all, ∃ m, m < fuel ∧ EndsAt p (env.rounds slot.2 m) slot.2) :
    ∃ entries, serialPool p env fuel all = .returned entries := by
  induction all with
  | nil => exact ⟨[], rfl⟩
  | cons slot all ih =>
    obtain ⟨m, hlt, hm⟩ := hend slot List.mem_cons_self
    obtain ⟨rest, hrest⟩ := ih fun slot' hmem => hend slot' (List.mem_cons_of_mem slot hmem)
    obtain ⟨e, hwatch, hcode⟩ := watch_returns h m 0 fuel (by rwa [Nat.zero_add]) hlt
    obtain ⟨failed, hfailed⟩ := hasUnresolvedFailure_isSome hcode
    rw [serialPool, hwatch, hrest]
    simp only [Run.bind, hfailed, Run.ofOption]
    cases failed with
    | true => exact ⟨[e], rfl⟩
    | false => exact ⟨e :: rest, rfl⟩

theorem mem_sift {r : Round} {taken : Nat → Bool} {entry : Slot → Entry} {s : State} {slot : Slot}
    (h : slot ∈ (sift r taken entry s).pending) : slot ∈ s.pending ∧ taken slot.2 = false := by
  obtain ⟨hmem, htaken⟩ := List.mem_filter.mp h
  exact ⟨(r.perm s.pending).mem_iff.mp hmem, by simpa using htaken⟩

theorem takeLate_isSome (h : Readable p env) (k n : Nat) (s : State) :
    ∃ t, takeLate p (env.rounds k n) s = some t := by
  have hentries : ∀ pending : List Slot, ∃ entries, pending.mapM (timeoutEntry p (env.rounds k n)) = some entries := by
    intro pending
    induction pending with
    | nil => exact ⟨[], rfl⟩
    | cons slot pending ih =>
      obtain ⟨rest, hrest⟩ := ih
      obtain ⟨e, he, -⟩ := timeoutEntry_isSome h k n slot
      exact ⟨e :: rest, by simp [he, hrest]⟩
  obtain ⟨entries, hsome⟩ := hentries ((env.rounds k n).order s.pending)
  exact ⟨_, by simp only [takeLate, hsome, Option.bind_eq_bind, Option.bind_some]; rfl⟩

/-- A round returns, or goes on with workers that have not ended in it. -/
theorem pollRound_goes (h : Readable p env) (k n : Nat) (s : State) :
    match pollRound p env (env.rounds k n) s with
    | .over run => ∃ entries, run = .returned entries
    | .next t => ∀ slot ∈ t.pending, slot ∈ s.pending ∧ ¬ EndsAt p (env.rounds k n) slot.2 := by
  unfold pollRound
  simp only
  split_ifs with hfirst hsecond hlate
  · exact ⟨_, rfl⟩
  · exact ⟨_, rfl⟩
  · obtain ⟨t, ht⟩ := takeLate_isSome h k n (takeAborted (env.rounds k n) (takeDone p env (env.rounds k n) s))
    exact ⟨t.results, by rw [ht]; rfl⟩
  · intro slot hmem
    obtain ⟨hmem, hwaited⟩ := mem_sift hmem
    obtain ⟨hmem, hanswer⟩ := mem_sift hmem
    refine ⟨(mem_sift hmem).1, fun hends => ?_⟩
    rcases hends with hsome | hlate' | hwaited'
    · rw [hanswer] at hsome
      cases hsome
    · exact hlate hlate'
    · rw [hwaited] at hwaited'
      cases hwaited'

/-- The polling of workers that end comes to an end. -/
theorem pollLoop_returns (h : Readable p env) (k bound n fuel : Nat) (s : State)
    (hend : ∀ slot ∈ s.pending, ∃ m, m < bound ∧ EndsAt p (env.rounds k (n + m)) slot.2) (hfuel : bound < fuel) :
    ∃ entries, pollLoop p env (env.rounds k) fuel n s = .returned entries := by
  induction fuel generalizing bound n s with
  | zero => omega
  | succ fuel ih =>
    rw [pollLoop]
    split_ifs with hempty
    · exact ⟨s.results, rfl⟩
    · have hround := pollRound_goes h k n s
      cases hturn : pollRound p env (env.rounds k n) s with
      | «over» run =>
        rw [hturn] at hround
        exact hround
      | next t =>
        rw [hturn] at hround
        obtain ⟨slot, hslot⟩ := List.exists_mem_of_ne_nil _ hempty
        obtain ⟨m, hm, -⟩ := hend slot hslot
        refine ih (bound - 1) (n + 1) t (fun slot hmem => ?_) (by omega)
        obtain ⟨hmem, hnot⟩ := hround slot hmem
        obtain ⟨m, hm, hends⟩ := hend slot hmem
        cases m with
        | zero => exact absurd hends hnot
        | succ m =>
          have hshift : n + (m + 1) = n + 1 + m := by omega
          exact ⟨m, by omega, hshift ▸ hends⟩

/-! ## One result for each subtask -/

/-- What a call that returned gives: with several workers at a time one result for each
subtask, and one at a time the results of a prefix. -/
def OnePerSubtask (p : Pool) (env : Env) (workerLimit : Int) (all : List Slot) (entries : List Entry) : Prop :=
  if 1 < workerLimit then Complete p env all entries else SerialPrefix p env all entries

/-- Every worker ends in some round: of the one loop with several workers at a time, of its
own loop otherwise. -/
def Ends (p : Pool) (env : Env) (workerLimit : Int) (all : List Slot) : Prop :=
  ∀ slot ∈ all, ∃ m, EndsAt p (env.rounds (if 1 < workerLimit then 0 else slot.2) m) slot.2

/-- The subtasks are numbered. -/
theorem numbers_of_slots (pendingSubtasks : List Subtask) :
    (slots pendingSubtasks).map Prod.snd = List.range' 1 pendingSubtasks.length := List.zipIdx_map_snd 1 pendingSubtasks

end WorkerResults
