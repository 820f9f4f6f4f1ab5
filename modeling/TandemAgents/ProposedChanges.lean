import TandemAgents.GuardedRuns
import TandemAgents.KnowledgeAgreement

/-!
# Proposed changes

An edit may be proposed first and applied or discarded later. Reading the status of a change,
running its payload and writing its status are statements of their own, and other calls come
between them.
-/
namespace ProposedChanges

open KeyedTable PythonText JsonData KnowledgeText KnowledgeFiles KnowledgeIndex KnowledgeEdits KnowledgeMirror
  KnowledgeAgreement GuardedRuns

set_option maxRecDepth 20000

/-! ## Payloads -/

structure Payload where
  operation : String
  request : Request

/-- What `_apply_proposed_change_payload` raises: of its own, or from the edit. -/
inductive Refusal where
  | incomplete
  | unsupported (operation : String)
  | edit (e : KbError)
  deriving DecidableEq, Repr

def Refusal.behindWrite : Refusal → Bool
  | incomplete | unsupported _ => false
  | edit e => e.behindWrite

/-- The operations that write a document. -/
def kindOf (operation : String) : Option Kind :=
  if operation = "create" then some .create
  else if operation = "update" ∨ operation = "replace" then some .update
  else if operation = "append" then some .append
  else if operation = "metadata" then some .metadata
  else none

def edited (result : World × Except KbError Action) : World × Except Refusal Action :=
  (result.1, result.2.mapError .edit)

section
variable (b : Backend)

/-- The payload as it is stored and as it is read back. -/
def Payload.normalized (p : Payload) : Payload where
  operation := b.py.lower (strip p.operation)
  request := { p.request with
    collectionId := normalizeCollectionId b.py p.request.collectionId
    docPath := normalizeDocPath b.py p.request.docPath }

/-- `_apply_proposed_change_payload`. -/
def applyPayload (p : Payload) (w : World) : World × Except Refusal Action :=
  let p := p.normalized b
  if p.request.collectionId = "" ∨ p.operation = "" then (w, .error .incomplete)
  else if p.operation = "delete" then edited (deleteDocument b p.request.collectionId p.request.docPath w)
  else
    match kindOf p.operation with
    | some kind => edited (write b kind p.request w)
    | none => (w, .error (.unsupported p.operation))

/-- The text of a front matter that is a mapping `json.dumps` can spell. -/
def loads (text : String) : Bool :=
  match frontmatterOf b (universalNewlines text) with
  | .dict _ => true
  | _ => false

/-- The text a payload writes, if it writes one, can be indexed. -/
def Payload.indexable (p : Payload) (w : World) : Bool :=
  let p := p.normalized b
  (kindOf p.operation).isNone || loads b (p.request.stored (before b p.request w))

end

/-! ## Calls in flight -/

inductive Status where
  | pending | applied | discarded
  deriving DecidableEq, Repr

/-- A row of `proposed_changes`. -/
structure Change where
  changeId : String
  payload : Payload
  status : Status

/-- `apply_proposed_change` has read the row, or has run the payload as well;
`discard_proposed_change` has read the row; a call has returned or raised. -/
inductive Call where
  | applying (id : String) (p : Payload)
  | ran (id : String)
  | discarding (id : String)
  | ended

/-- What has come of the calls, the latest last: a payload took effect, a change was set to
discarded, an apply raised and left the change in a status. -/
inductive Event where
  | effect (id : String)
  | discarded (id : String)
  | raised (id : String) (left : Option Status)
  deriving DecidableEq, Repr

structure State where
  changes : Table String Change Change.changeId
  world : World
  calls : List Call
  log : List Event

/-- No change is proposed yet. -/
def start (w : World) : State := ⟨Table.empty, w, [], []⟩

/-- The statements of the calls, each a transaction of its own, and whatever else edits the
documents. -/
inductive Step where
  | propose (id : String) (p : Payload)
  | readApply (id : String)
  | runPayload (i : Nat)
  | writeApplied (i : Nat)
  | failApplied (i : Nat)
  | readDiscard (id : String)
  | writeDiscarded (i : Nat)
  | edit (w : World)

namespace State

variable (s : State)

def statusOf (id : String) : Option Status := (s.changes.find? id).map Change.status

/-- `UPDATE proposed_changes SET status = ? WHERE change_id = ?`. -/
def setStatus (id : String) (status : Status) : State :=
  { s with changes := s.changes.modify id (fun c => { c with status := status }) fun _ => rfl }

/-- The call goes on. -/
def goesOn (i : Nat) (call : Call) (events : List Event) : State :=
  { s with calls := s.calls.set i call, log := s.log ++ events }

/-- Another call has run the payload of the change and not yet written its status. -/
def unsettled (id : String) : Bool :=
  s.calls.any fun
    | .ran id' => decide (id' = id)
    | _ => false

end State

section
variable (b : Backend)

/-- `propose_document_change`, under a new `uuid4`. -/
def propose (id : String) (p : Payload) (s : State) : State :=
  let p := p.normalized b
  if p.request.collectionId = "" ∨ p.request.docPath = "" ∨ (s.changes.find? id).isSome then s
  else { s with changes := s.changes.upsert ⟨id, p, .pending⟩ (fun _ => ⟨id, p, .pending⟩) fun _ => rfl }

/-- The head of `apply_proposed_change`: an applied change is only shown. -/
def readApply (id : String) (s : State) : State :=
  match s.changes.find? id with
  | none => s
  | some c => if c.status = .applied then s else { s with calls := s.calls ++ [.applying id c.payload] }

/-- The payload is run; if it raises, the change is left as it is. -/
def runPayload (i : Nat) (s : State) : State :=
  match s.calls[i]? with
  | some (.applying id p) =>
    match applyPayload b p s.world with
    | (w, .ok _) => { s with world := w }.goesOn i (.ran id) [.effect id]
    | (w, .error e) =>
      { s with world := w }.goesOn i .ended
        ((if e.behindWrite then [Event.effect id] else []) ++ [Event.raised id (s.statusOf id)])
  | _ => s

/-- The `UPDATE` of `apply_proposed_change`. -/
def writeApplied (i : Nat) (s : State) : State :=
  match s.calls[i]? with
  | some (.ran id) => (s.setStatus id .applied).goesOn i .ended []
  | _ => s

/-- The same `UPDATE`, refused by the database. -/
def failApplied (i : Nat) (s : State) : State :=
  match s.calls[i]? with
  | some (.ran id) => s.goesOn i .ended [.raised id (s.statusOf id)]
  | _ => s

/-- The head of `discard_proposed_change`. -/
def readDiscard (id : String) (s : State) : State :=
  match s.changes.find? id with
  | none => s
  | some _ => { s with calls := s.calls ++ [.discarding id] }

/-- The `UPDATE` of `discard_proposed_change`. -/
def writeDiscarded (i : Nat) (s : State) : State :=
  match s.calls[i]? with
  | some (.discarding id) => (s.setStatus id .discarded).goesOn i .ended [.discarded id]
  | _ => s

def step (s : State) : Step → State
  | .propose id p => propose b id p s
  | .readApply id => readApply id s
  | .runPayload i => runPayload b i s
  | .writeApplied i => writeApplied i s
  | .failApplied i => failApplied i s
  | .readDiscard id => readDiscard id s
  | .writeDiscarded i => writeDiscarded i s
  | .edit w => { s with world := w }

/-- A payload is run while its change is pending and no other call has run it, and writes what
can be indexed; a change is set to discarded while it is not applied and no call has run it; the
status of a change whose payload was run is written. -/
def careful (s : State) : Step → Bool
  | .runPayload i =>
    match s.calls[i]? with
    | some (.applying id p) =>
      decide (s.statusOf id = some .pending) && !s.unsettled id && p.indexable b s.world
    | _ => true
  | .writeDiscarded i =>
    match s.calls[i]? with
    | some (.discarding id) => decide (s.statusOf id ≠ some .applied) && !s.unsettled id
    | _ => true
  | .failApplied i =>
    match s.calls[i]? with
    | some (.ran _) => false
    | _ => true
  | _ => true

end

/-- What the changes are to be: each takes effect at most once and not behind a discard; one that
took effect is shown as applied as soon as its call is over, and never as discarded; an apply
that raises leaves the change pending. -/
structure Ok (s : State) : Prop where
  once : ∀ id, s.log.count (.effect id) ≤ 1
  kept : ∀ id front back, s.log = front ++ .discarded id :: back → .effect id ∉ back
  shown : ∀ id, .effect id ∈ s.log →
    s.statusOf id = some .applied ∨ s.statusOf id = some .pending ∧ s.unsettled id = true
  raised : ∀ id left, .raised id left ∈ s.log → left = some .pending

/-! ## What a payload does -/

section
variable {b : Backend}

/-- A file that was written is there. -/
theorem find?_write {t tree : Tree} {path : Path} {text : String} (h : t.write path text = some tree) :
    tree.find? path = some ⟨path, some text⟩ := by
  refine tree.find?_of_mem (f := ⟨path, some text⟩) ?_
  rw [write_tree h]
  generalize t.files = fs
  induction fs with
  | nil => exact List.mem_cons_self
  | cons f fs ih =>
    rw [insertFile]
    split
    · exact List.mem_cons_self
    · split
      · exact List.mem_cons_of_mem f ih
      · exact List.mem_cons_self

/-- A text that loads is indexed. -/
theorem syncFile_written {t tree : Tree} {path : Path} {text : String} (h : t.write path text = some tree)
    (htext : loads b text = true) (ix : Index) : ∃ action, (syncFile b tree path ix).2 = .ok action := by
  have hread : (tree.find? path).bind File.readText = some (universalNewlines text) := by
    rw [find?_write h]
    rfl
  unfold syncFile
  split
  · exact ⟨_, rfl⟩
  · cases keyOf b.py path with
    | none => exact ⟨_, rfl⟩
    | some key =>
      rw [hread]
      unfold loads at htext
      cases hload : frontmatterOf b (universalNewlines text) with
      | dict frontmatter =>
        dsimp only
        rw [hload]
        dsimp only
        split <;> exact ⟨_, rfl⟩
      | other | unencodable | raises =>
        rw [hload] at htext
        cases htext

/-- `sync_file` raises behind the write of the file only. -/
theorem syncFile_error {t : Tree} {path : Path} {ix : Index} {e : KbError} (h : (syncFile b t path ix).2 = .error e) :
    e.behindWrite = true := by
  unfold syncFile at h
  split at h
  · cases h
  · split at h
    · cases h
    · split at h
      · cases h
        rfl
      · split at h
        · cases h
          rfl
        · split at h
          · cases h
          · unfold storeDocument at h
            dsimp only at h
            split at h
            · cases h
            · cases h
              rfl

/-- A file that is resolved is removed with its rows. -/
theorem removeDocument_ok {collectionId docPath : String} {path : Path} {w : World}
    (hcollection : normalizeCollectionId b.py collectionId ≠ "")
    (hpath : resolvePath b.py w.tree collectionId docPath = some path)
    (hwritable : w.writable (normalizeCollectionId b.py collectionId) ≠ false) :
    ∃ action, (removeDocument b w.writable collectionId docPath w.index).2 = .ok action := by
  obtain ⟨suffix, -, hdocument⟩ := resolvePath_cases hpath
  have hdocPath : normalizeDocPath b.py docPath ≠ "" := by
    intro hempty
    rw [documentPath, if_pos hempty] at hdocument
    cases hdocument
  unfold removeDocument
  dsimp only
  rw [if_neg hcollection, if_neg hdocPath, if_neg hwritable]
  split <;> exact ⟨_, rfl⟩

/-- A payload is refused and everything is left as it is, or its file was written and cannot be
indexed, or it is run. -/
theorem applyPayload_cases (hpy : PlainLower b.py) (p : Payload) (w : World) :
    (∃ e, applyPayload b p w = (w, .error e) ∧ e.behindWrite = false) ∨
      (∃ w' e, applyPayload b p w = (w', .error e) ∧ e.behindWrite = true ∧ p.indexable b w = false) ∨
      ∃ w' action, applyPayload b p w = (w', .ok action) := by
  unfold applyPayload Payload.indexable
  generalize hq : p.normalized b = q
  dsimp only
  split
  · exact .inl ⟨_, rfl, rfl⟩
  · rename_i hcomplete
    split
    · obtain ⟨e, hrun, he⟩ | ⟨path, hpath, hwritable, hrun⟩ :=
        deleteDocument_cases (b := b) q.request.collectionId q.request.docPath w
      · rw [hrun]
        exact .inl ⟨.edit e, rfl, he⟩
      · have hcollection : normalizeCollectionId b.py q.request.collectionId ≠ "" := by
          rw [← hq, Payload.normalized, normalizeCollectionId_idem hpy]
          rw [← hq] at hcomplete
          exact fun hempty => hcomplete (.inl hempty)
        obtain ⟨action, haction⟩ := removeDocument_ok hcollection hpath hwritable
        rw [hrun, haction]
        exact .inr (.inr ⟨_, action, rfl⟩)
    · cases hkind : kindOf q.operation with
      | none => exact .inl ⟨_, rfl, rfl⟩
      | some kind =>
        dsimp only
        obtain ⟨e, hrun, he⟩ | ⟨path, tree, -, htree, hrun⟩ := write_writes hpy kind q.request w
        · rw [hrun]
          exact .inl ⟨.edit e, rfl, he⟩
        · rw [hrun]
          cases hsync : (syncFile b tree path w.index).2 with
          | ok action => exact .inr (.inr ⟨_, action, rfl⟩)
          | error e =>
            refine .inr (.inl ⟨_, .edit e, rfl, syncFile_error hsync, ?_⟩)
            rw [Option.isNone_some, Bool.false_or]
            by_contra hloads
            rw [Bool.not_eq_false] at hloads
            obtain ⟨action, haction⟩ := syncFile_written htree hloads w.index
            rw [haction] at hsync
            cases hsync

end

/-! ## Statuses and calls -/

section
variable {s : State} {id : String} {i : Nat}

theorem State.unsettled_iff : s.unsettled id = true ↔ Call.ran id ∈ s.calls := by
  rw [State.unsettled, List.any_eq_true]
  constructor
  · rintro ⟨call, hmem, hcall⟩
    cases call with
    | ran id' =>
      rw [← of_decide_eq_true hcall]
      exact hmem
    | applying | discarding | ended => cases hcall
  · intro hmem
    exact ⟨.ran id, hmem, decide_eq_true rfl⟩

theorem State.statusOf_setStatus (id' : String) (status : Status) :
    (s.setStatus id' status).statusOf id = if id = id' then (s.statusOf id).map fun _ => status else s.statusOf id := by
  rw [State.statusOf, State.setStatus, Table.find?_modify]
  split
  · rw [State.statusOf, Option.map_map, Option.map_map]
    rfl
  · rfl

/-- A call that did not go on is still there. -/
theorem mem_set_of_ne {call call' : Call} {calls : List Call} (hmem : call ∈ calls) (hi : calls[i]? ≠ some call) :
    call ∈ calls.set i call' := by
  obtain ⟨j, hj⟩ := List.mem_iff_getElem?.mp hmem
  refine List.mem_iff_getElem?.mpr ⟨j, ?_⟩
  rw [List.getElem?_set_ne, hj]
  rintro rfl
  exact hi hj

/-- The change a call is about. -/
def Call.change : Call → Option String
  | .applying id _ | .ran id | .discarding id => some id
  | .ended => none

/-- What every step keeps: the calls are about rows that are there, a change that was set to
discarded stays so and never took effect, and no payload of it is being applied. -/
structure Settled (s : State) : Prop where
  rows : ∀ call ∈ s.calls, ∀ id, call.change = some id → s.statusOf id ≠ none
  once : ∀ id, s.log.count (.effect id) ≤ 1
  shown : ∀ id, .effect id ∈ s.log →
    s.statusOf id = some .applied ∨ s.statusOf id = some .pending ∧ .ran id ∈ s.calls
  gone : ∀ id, .discarded id ∈ s.log → s.statusOf id = some .discarded
  behind : ∀ id, .ran id ∈ s.calls → s.statusOf id ≠ some .discarded
  raised : ∀ id left, .raised id left ∈ s.log → left = some .pending

theorem settled_start (w : World) : Settled (start w) :=
  ⟨nofun, fun _ => Nat.zero_le 1, nofun, nofun, nofun, nofun⟩

theorem Settled.ok (h : Settled s) : Ok s := by
  refine ⟨h.once, ?_, ?_, h.raised⟩
  · intro id front back hlog heffect
    have hgone := h.gone id (by simp [hlog])
    obtain happlied | ⟨hpending, -⟩ := h.shown id (by simp [hlog, heffect])
    · rw [hgone] at happlied
      cases happlied
    · rw [hgone] at hpending
      cases hpending
  · intro id heffect
    rw [State.unsettled_iff]
    exact h.shown id heffect

/-- An event that may be logged between two states. -/
def Event.Fits (s s' : State) : Event → Prop
  | .effect id => .effect id ∉ s.log ∧ s'.statusOf id = some .pending ∧ .ran id ∈ s'.calls
  | .discarded id => s'.statusOf id = some .discarded
  | .raised _ left => left = some .pending

/-- A step that logs nothing, or one event that fits. -/
theorem Settled.next {s' : State} (h : Settled s)
    (hlog : s'.log = s.log ∨ ∃ event, s'.log = s.log ++ [event] ∧ event.Fits s s')
    (hrows : ∀ call ∈ s'.calls, ∀ id, call.change = some id → s'.statusOf id ≠ none)
    (hshown : ∀ id, .effect id ∈ s.log →
      s'.statusOf id = some .applied ∨ s'.statusOf id = some .pending ∧ .ran id ∈ s'.calls)
    (hgone : ∀ id, .discarded id ∈ s.log → s'.statusOf id = some .discarded)
    (hbehind : ∀ id, .ran id ∈ s'.calls → s'.statusOf id ≠ some .discarded) : Settled s' := by
  obtain hlog | ⟨event, hlog, hevent⟩ := hlog
  · rw [← hlog] at hshown hgone
    exact ⟨hrows, hlog ▸ h.once, hshown, hgone, hbehind, hlog ▸ h.raised⟩
  · have hmem : ∀ e, e ∈ s'.log ↔ e ∈ s.log ∨ e = event := by
      intro e
      rw [hlog, List.mem_append, List.mem_singleton]
    refine ⟨hrows, ?_, ?_, ?_, hbehind, ?_⟩
    · intro id
      have hold := h.once id
      rw [hlog, List.count_append, List.count_singleton]
      by_cases heq : event = .effect id
      · subst heq
        rw [List.count_eq_zero.mpr hevent.1, if_pos (beq_self_eq_true _)]
      · rw [if_neg (by simpa using heq)]
        omega
    · intro id heffect
      obtain hold | rfl := (hmem _).mp heffect
      · exact hshown id hold
      · exact .inr hevent.2
    · intro id hdiscarded
      obtain hold | rfl := (hmem _).mp hdiscarded
      · exact hgone id hold
      · exact hevent
    · intro id left hraised
      obtain hold | rfl := (hmem _).mp hraised
      · exact h.raised id left hold
      · exact hevent

/-- A step that changes neither a status nor the log, nor a call that ran its payload. -/
theorem Settled.same {s' : State} (h : Settled s)
    (hstatus : ∀ id, s.statusOf id ≠ none → s'.statusOf id = s.statusOf id)
    (hlog : s'.log = s.log) (hran : ∀ id, .ran id ∈ s'.calls ↔ .ran id ∈ s.calls)
    (hrows : ∀ call ∈ s'.calls, ∀ id, call.change = some id → s.statusOf id ≠ none) : Settled s' := by
  have hkept : ∀ id status, s.statusOf id = some status → s'.statusOf id = some status := by
    intro id status hs
    rw [hstatus id (by rw [hs]; exact Option.some_ne_none status), hs]
  refine h.next (.inl hlog) ?_ ?_ (fun id hgone => hkept id _ (h.gone id hgone)) ?_
  · intro call hcall id hid
    rw [hstatus id (hrows call hcall id hid)]
    exact hrows call hcall id hid
  · intro id heffect
    rw [hran]
    exact (h.shown id heffect).imp (hkept id _) (And.imp_left (hkept id _))
  · intro id hmem
    rw [hran] at hmem
    rw [hstatus id (h.rows _ hmem id rfl)]
    exact h.behind id hmem

end

/-! ## One step -/

section
variable {b : Backend} {s : State} {i : Nat}

theorem settled_propose (h : Settled s) (id : String) (p : Payload) : Settled (propose b id p s) := by
  unfold propose
  dsimp only
  split
  · exact h
  · rename_i hfresh
    refine h.same ?_ rfl (fun _ => Iff.rfl) h.rows
    intro id' hthere
    have hne : id' ≠ id := by
      rintro rfl
      refine hfresh (.inr (.inr ?_))
      rw [State.statusOf] at hthere
      exact Option.isSome_iff_ne_none.mpr fun hnone => hthere (by rw [hnone]; rfl)
    rw [State.statusOf, State.statusOf, Table.find?_upsert, if_neg hne]

/-- A call that has read its change is in flight. -/
theorem settled_call (h : Settled s) {call : Call} (hran : ∀ id, call ≠ .ran id)
    (hrow : ∀ id, call.change = some id → s.statusOf id ≠ none) : Settled { s with calls := s.calls ++ [call] } := by
  refine h.same (fun _ _ => rfl) rfl ?_ ?_
  · intro id
    simp [(hran id).symm]
  · intro call' hmem id hid
    obtain hold | hnew := List.mem_append.mp hmem
    · exact h.rows call' hold id hid
    · rw [List.mem_singleton.mp hnew] at hid
      exact hrow id hid

theorem settled_readApply (h : Settled s) (id : String) : Settled (readApply id s) := by
  unfold readApply
  split
  · exact h
  · rename_i c hfind
    split
    · exact h
    · refine settled_call h (fun _ => nofun) ?_
      rintro _ ⟨rfl⟩
      rw [State.statusOf, hfind]
      nofun

theorem settled_readDiscard (h : Settled s) (id : String) : Settled (readDiscard id s) := by
  unfold readDiscard
  split
  · exact h
  · rename_i c hfind
    refine settled_call h (fun _ => nofun) ?_
    rintro _ ⟨rfl⟩
    rw [State.statusOf, hfind]
    nofun

/-- The calls of a state in which one went on. -/
theorem rows_set (h : Settled s) {call : Call} (hrow : ∀ id, call.change = some id → s.statusOf id ≠ none) :
    ∀ call' ∈ s.calls.set i call, ∀ id, call'.change = some id → s.statusOf id ≠ none := by
  intro call' hmem id hid
  obtain hold | rfl := List.mem_or_eq_of_mem_set hmem
  · exact h.rows call' hold id hid
  · exact hrow id hid

/-- A call that goes on from another phase leaves those that ran their payloads as they are. -/
theorem ran_set {call call' : Call} (hcall : s.calls[i]? = some call) (hran : ∀ id, call ≠ .ran id) (id : String)
    (hmem : .ran id ∈ s.calls) : .ran id ∈ s.calls.set i call' := by
  refine mem_set_of_ne hmem ?_
  rw [hcall]
  exact fun heq => hran id (Option.some.inj heq)

/-- An apply is refused in front of the write. -/
theorem settled_refused (h : Settled s) {id : String} {p : Payload} (hcall : s.calls[i]? = some (.applying id p))
    (w : World) : Settled ({ s with world := w }.goesOn i .ended [.raised id (some .pending)]) := by
  have hstays : ∀ id', .ran id' ∈ s.calls → .ran id' ∈ s.calls.set i .ended := ran_set hcall fun _ => nofun
  refine h.next (.inr ⟨_, rfl, rfl⟩) (rows_set h nofun) ?_ h.gone ?_
  · exact fun id' heffect => (h.shown id' heffect).imp_right (And.imp_right (hstays id'))
  · intro id' hran
    obtain hran | hran := List.mem_or_eq_of_mem_set hran
    · exact h.behind id' hran
    · cases hran

/-- A payload takes effect, for the first time, and the status is still to be written. -/
theorem settled_ran (h : Settled s) {id : String} {p : Payload} (hcall : s.calls[i]? = some (.applying id p))
    (hpending : s.statusOf id = some .pending) (hsettled : s.unsettled id = false) (w : World) :
    Settled ({ s with world := w }.goesOn i (.ran id) [.effect id]) := by
  have hfirst : .effect id ∉ s.log := by
    intro heffect
    obtain happlied | ⟨-, hran⟩ := h.shown id heffect
    · rw [hpending] at happlied
      cases happlied
    · rw [← State.unsettled_iff, hsettled] at hran
      cases hran
  have hthere : .ran id ∈ s.calls.set i (.ran id) := List.mem_set (List.getElem?_eq_some_iff.mp hcall).1 _
  have hstays : ∀ id', .ran id' ∈ s.calls → .ran id' ∈ s.calls.set i (.ran id) := ran_set hcall fun _ => nofun
  refine h.next (.inr ⟨_, rfl, hfirst, hpending, hthere⟩) (rows_set h ?_) ?_ h.gone ?_
  · rintro _ ⟨rfl⟩
    rw [hpending]
    nofun
  · exact fun id' heffect => (h.shown id' heffect).imp_right (And.imp_right (hstays id'))
  · intro id' hran
    obtain hran | hran := List.mem_or_eq_of_mem_set hran
    · exact h.behind id' hran
    · cases hran
      change s.statusOf id ≠ _
      rw [hpending]
      nofun

/-- A payload is run on a pending change that no other call has run it for. -/
theorem settled_runPayload (hpy : PlainLower b.py) (h : Settled s) (hcareful : careful b s (.runPayload i) = true) :
    Settled (runPayload b i s) := by
  unfold runPayload
  unfold careful at hcareful
  cases hcall : s.calls[i]? with
  | none => exact h
  | some call =>
    cases call with
    | ran | discarding | ended => exact h
    | applying id p =>
      simp only [hcall, Bool.and_eq_true, decide_eq_true_eq, Bool.not_eq_true'] at hcareful
      obtain ⟨⟨hpending, hsettled⟩, hindexable⟩ := hcareful
      dsimp only
      obtain ⟨e, hrun, he⟩ | ⟨w, e, hrun, -, hp⟩ | ⟨w, action, hrun⟩ := applyPayload_cases hpy p s.world
      · rw [hrun]
        dsimp only
        rw [he, if_neg Bool.false_ne_true, List.nil_append, hpending]
        exact settled_refused h hcall s.world
      · rw [hindexable] at hp
        cases hp
      · rw [hrun]
        exact settled_ran h hcall hpending hsettled w

/-- The statuses behind an `UPDATE` of a call that is about the change. -/
theorem statusOf_written (h : Settled s) {call : Call} (hcall : s.calls[i]? = some call) {id : String}
    (hid : call.change = some id) (status : Status) (events : List Event) (id' : String) :
    ((s.setStatus id status).goesOn i .ended events).statusOf id' =
      if id' = id then some status else s.statusOf id' := by
  refine (State.statusOf_setStatus id status).trans ?_
  split
  · rename_i heq
    obtain ⟨old, hrow⟩ := Option.ne_none_iff_exists'.mp (h.rows call (List.mem_of_getElem? hcall) id hid)
    rw [heq, hrow, Option.map_some]
  · rfl

theorem rows_written (h : Settled s) {call : Call} (hcall : s.calls[i]? = some call) {id : String}
    (hid : call.change = some id) (status : Status) (events : List Event) :
    ∀ call' ∈ ((s.setStatus id status).goesOn i .ended events).calls, ∀ id', call'.change = some id' →
      ((s.setStatus id status).goesOn i .ended events).statusOf id' ≠ none := by
  intro call' hmem id' hid'
  rw [statusOf_written h hcall hid]
  split
  · exact Option.some_ne_none status
  · exact rows_set h (fun _ hnone => by cases hnone) call' hmem id' hid'

/-- The status of a change whose payload was run is written. -/
theorem settled_writeApplied (h : Settled s) : Settled (writeApplied i s) := by
  unfold writeApplied
  cases hcall : s.calls[i]? with
  | none => exact h
  | some call =>
    cases call with
    | applying | discarding | ended => exact h
    | ran id =>
      have hbehind := h.behind id (List.mem_of_getElem? hcall)
      have hstatus := statusOf_written h hcall rfl .applied []
      refine h.next (.inl (List.append_nil s.log)) (rows_written h hcall rfl .applied []) ?_ ?_ ?_
      · intro id' heffect
        rw [hstatus]
        by_cases heq : id' = id
        · exact .inl (if_pos heq)
        · rw [if_neg heq]
          refine (h.shown id' heffect).imp_right (And.imp_right fun hmem => mem_set_of_ne hmem ?_)
          change s.calls[i]? ≠ _
          rw [hcall]
          rintro ⟨rfl⟩
          exact heq rfl
      · intro id' hgone
        rw [hstatus, if_neg]
        · exact h.gone id' hgone
        · rintro rfl
          exact hbehind (h.gone id' hgone)
      · intro id' hran
        rw [hstatus]
        split
        · nofun
        · obtain hran | hran := List.mem_or_eq_of_mem_set hran
          · exact h.behind id' hran
          · cases hran

/-- A change that is not applied, and that no call has run the payload of, is set to discarded. -/
theorem settled_writeDiscarded (h : Settled s) (hcareful : careful b s (.writeDiscarded i) = true) :
    Settled (writeDiscarded i s) := by
  unfold writeDiscarded
  unfold careful at hcareful
  cases hcall : s.calls[i]? with
  | none => exact h
  | some call =>
    cases call with
    | applying | ran | ended => exact h
    | discarding id =>
      simp only [hcall, Bool.and_eq_true, decide_eq_true_eq, Bool.not_eq_true'] at hcareful
      obtain ⟨hopen, hsettled⟩ := hcareful
      have hnot : .ran id ∉ s.calls := by
        rw [← State.unsettled_iff, hsettled]
        exact Bool.false_ne_true
      have hstays : ∀ id', .ran id' ∈ s.calls → .ran id' ∈ s.calls.set i .ended := ran_set hcall fun _ => nofun
      have hstatus := statusOf_written h hcall rfl .discarded [.discarded id]
      have hrows := rows_written h hcall rfl .discarded [.discarded id]
      refine h.next (.inr ⟨_, rfl, (hstatus id).trans (if_pos rfl)⟩) hrows ?_ ?_ ?_
      · intro id' heffect
        have hshown := h.shown id' heffect
        rw [hstatus, if_neg]
        · exact hshown.imp_right (And.imp_right (hstays id'))
        · rintro rfl
          exact hshown.elim hopen fun hran => hnot hran.2
      · intro id' hgone
        rw [hstatus]
        split
        · rfl
        · exact h.gone id' hgone
      · intro id' hran
        obtain hran | hran := List.mem_or_eq_of_mem_set hran
        · rw [hstatus, if_neg]
          · exact h.behind id' hran
          · rintro rfl
            exact hnot hran
        · cases hran

/-- A refused `UPDATE` leaves a change whose payload was run. -/
theorem settled_failApplied (h : Settled s) (hcareful : careful b s (.failApplied i) = true) :
    Settled (failApplied i s) := by
  unfold failApplied
  unfold careful at hcareful
  cases hcall : s.calls[i]? with
  | none => exact h
  | some call =>
    cases call with
    | applying | discarding | ended => exact h
    | ran id =>
      simp only [hcall] at hcareful
      cases hcareful

theorem settled_step (hpy : PlainLower b.py) (h : Settled s) (e : Step) (he : careful b s e = true) :
    Settled (step b s e) := by
  cases e with
  | propose id p => exact settled_propose h id p
  | readApply id => exact settled_readApply h id
  | runPayload i => exact settled_runPayload hpy h he
  | writeApplied i => exact settled_writeApplied h
  | failApplied i => exact settled_failApplied h he
  | readDiscard id => exact settled_readDiscard h id
  | writeDiscarded i => exact settled_writeDiscarded h he
  | edit w => exact h.same (fun _ _ => rfl) rfl (fun _ => Iff.rfl) h.rows

/-- Of the statements of the calls only a payload touches the documents, and then it takes effect. -/
theorem documents_touched (hpy : PlainLower b.py) (e : Step) (hedit : ∀ w, e ≠ .edit w)
    (hworld : (step b s e).world ≠ s.world) : ∃ id events, (step b s e).log = s.log ++ .effect id :: events := by
  cases e with
  | edit w => exact absurd rfl (hedit w)
  | propose id p =>
    refine absurd ?_ hworld
    unfold step propose
    dsimp only
    split <;> rfl
  | readApply id =>
    refine absurd ?_ hworld
    unfold step readApply
    dsimp only
    split
    · rfl
    · split <;> rfl
  | readDiscard id =>
    refine absurd ?_ hworld
    unfold step readDiscard
    dsimp only
    split <;> rfl
  | writeApplied i =>
    refine absurd ?_ hworld
    unfold step writeApplied
    dsimp only
    split <;> rfl
  | failApplied i =>
    refine absurd ?_ hworld
    unfold step failApplied
    dsimp only
    split <;> rfl
  | writeDiscarded i =>
    refine absurd ?_ hworld
    unfold step writeDiscarded
    dsimp only
    split <;> rfl
  | runPayload i =>
    unfold step runPayload at hworld ⊢
    dsimp only at hworld ⊢
    cases hcall : s.calls[i]? with
    | none =>
      rw [hcall] at hworld
      exact absurd rfl hworld
    | some call =>
      rw [hcall] at hworld
      cases call with
      | ran | discarding | ended => exact absurd rfl hworld
      | applying id p =>
        dsimp only at hworld ⊢
        obtain ⟨e, hrun, he⟩ | ⟨w, e, hrun, he, -⟩ | ⟨w, action, hrun⟩ := applyPayload_cases hpy p s.world
        · rw [hrun] at hworld
          exact absurd rfl hworld
        · rw [hrun]
          dsimp only
          rw [he, if_pos rfl]
          exact ⟨id, _, rfl⟩
        · rw [hrun]
          exact ⟨id, [], rfl⟩

end

/-- In every run of any calls that take the statements as described, a change takes effect at
most once, not behind a discard, and is shown as what came of it; nothing else that the calls do
touches the documents. -/
theorem applied_once (b : Backend) (hpy : PlainLower b.py) (w : World) (s : State)
    (h : Reached (step b) (fun s e => careful b s e = true) (start w) s) :
    Ok s ∧ ∀ e, (∀ w, e ≠ .edit w) → (step b s e).world ≠ s.world →
      ∃ id events, (step b s e).log = s.log ++ .effect id :: events := by
  refine ⟨?_, documents_touched hpy⟩
  exact (h.invariant (settled_start w) fun _ e hs he => settled_step hpy hs e he).ok

/-! ## A section that is to be appended -/

/-- The front matter an append puts in front of the text. -/
def appendStamp : String := "title: X\nkb_origin: admin\nkb_updated_at: '2024-01-01T00:00:00+00:00'"

def onceText : String := "---\n" ++ appendStamp ++ "\n---\n\nold\n\nmore"

def twiceText : String := onceText ++ "\n\nmore"

/-- A client wants `more` at the end of `acme/x`. -/
def samplePayload : Payload where
  operation := "append"
  request := ⟨"acme", "x", none, false, false, "", "more", fun d =>
    if d.map Document.body = some oldText then onceText else twiceText⟩

def changesBackend : Backend where
  py := asciiPython
  sha256 text :=
    if text = onceText then "dc419154888ac376db8264d7fbea35f5abc7f7d644b77cf7668367ec017c05a4"
    else if text = twiceText then "a64df792f7a0b20671b04a7376ee0af14cb6678568a450f172628688c4cc1674"
    else sampleDigest text
  safeLoad source :=
    if source = appendStamp then
      .dict [("title", .str "X"), ("kb_origin", .str "admin"), ("kb_updated_at", .str "2024-01-01T00:00:00+00:00")]
    else .other

/-- The change is proposed and applied. -/
def appliedSteps : List Step := [.propose "c" samplePayload, .readApply "c", .runPayload 0, .writeApplied 0]

/-- Then it is discarded, and applied again. -/
def appliedAgainSteps : List Step :=
  appliedSteps ++ [.readDiscard "c", .writeDiscarded 1, .readApply "c", .runPayload 2, .writeApplied 2]

def bodyOf (s : State) : Option String := (rowOf s.world.index ("acme", "x")).map Document.body

theorem appliedSteps_run :
    AllSteps (step changesBackend) (fun s e => careful changesBackend s e = true) (start sampleWorld) appliedSteps ∧
      bodyOf (after (step changesBackend) (start sampleWorld) appliedSteps) = some onceText := by
  decide +kernel

/-- A change that is applied alone takes effect once. -/
theorem appliedSteps_once :
    bodyOf (after (step changesBackend) (start sampleWorld) appliedSteps) = some onceText ∧
    Ok (after (step changesBackend) (start sampleWorld) appliedSteps) := by
  refine ⟨appliedSteps_run.2, ?_⟩
  exact (applied_once changesBackend asciiPython_plain sampleWorld _ (Reached.init.after _ appliedSteps_run.1)).1

theorem appliedAgainSteps_run :
    bodyOf (after (step changesBackend) (start sampleWorld) appliedAgainSteps) = some twiceText ∧
      (after (step changesBackend) (start sampleWorld) appliedAgainSteps).log =
        [.effect "c", .discarded "c", .effect "c"] := by
  decide +kernel

/-- A change that was discarded behind its apply is applied again, and its section is there twice. -/
theorem appliedAgainSteps_twice :
    bodyOf (after (step changesBackend) (start sampleWorld) appliedAgainSteps) = some twiceText ∧
    ¬ Ok (after (step changesBackend) (start sampleWorld) appliedAgainSteps) := by
  refine ⟨appliedAgainSteps_run.1, fun hok => ?_⟩
  have honce := hok.once "c"
  rw [appliedAgainSteps_run.2] at honce
  exact absurd honce (by decide)

end ProposedChanges
