import Mathlib.Data.List.Nodup
import TandemAgents.AuthenticatedStream
import TandemAgents.Effects

/-!
# The nonces of one export

`export_backup` draws one data key and uses it for every record of both objects and for the
sealed inventory. Whatever it writes and wherever it stops, it uses no nonce twice: not even
where a record does not get into its file, its number is still the writer's next one, and
closing the tar stream gives the writer what the stream has left.
-/
namespace NonceUse

open ByteFields BackupStream AuthenticatedStream Effects

set_option maxRecDepth 20000

/-! ## An export, with the nonces it uses -/

/-- Why an export ends early: an error of its own, or one of the files, the tar reader, the
authorities or the host. -/
inductive Stop where
  | stream (e : StreamError)
  | inventoryTooLarge
  | outside
  deriving DecidableEq, Repr

/-- An object while it is written: the writer, what the tar stream has gathered for it, and
the nonces used so far under the data key. -/
structure Session where
  writer : EncryptingWriter
  pending : Bytes
  used : List Bytes

/-- Programs that write an object. -/
abbrev Writing := EStateM Stop Session

/-- Programs that encrypt under the data key; the state lists the nonces used so far. -/
abbrev Sealing := EStateM Stop (List Bytes)

/-- The nonce of the next chunk. -/
def nextNonce (w : EncryptingWriter) : Bytes := w.noncePrefix ++ bigEndian 4 w.index

/-- `MAX_DOCUMENT_BYTES`. -/
def maxDocumentBytes : Nat := 8 * 1024 * 1024

/-- The tar stream hands its bytes on in blocks of this size. -/
def blockSize : Nat := 20 * 512

/-- No header, and no piece in which a file is copied, has more bytes: pieces have 16 KiB, and
a name that can be opened has 4 KiB at most. -/
def pieceLimit : Nat := 512 * 1024

/-- What an export meets. The pieces are what `tarfile` writes of an object, `none` where a
file cannot be read as it was listed; `refused` says behind how many encryptions the record
does not get into its file. The random bytes are those `token_bytes` draws. -/
structure Capture where
  dek : Bytes
  context : Kind → Bytes
  pieces : Kind → List (Option Bytes)
  refused : Nat → Bool
  changed : Bool
  inner : Bytes
  random : Kind → Bytes
  manifestRandom : Bytes
  limited : ∀ k, ∀ data, some data ∈ pieces k → data.length ≤ pieceLimit
  drawn : ∀ k, (random k).length = 7
  manifestDrawn : manifestRandom.length = 11

section
variable (x : Crypto) (c : Capture)

/-- `_flush_chunk`: the nonce is used before the record is written, and the chunk counts only
behind it. -/
def flushChunk (size : Nat) : Writing Unit := fun s =>
  match s.writer.flushChunk x size with
  | .error e => .error (.stream e) s
  | .ok written =>
    if c.refused s.used.length then
      .error .outside { s with writer := { s.writer with buffer := s.writer.buffer.drop size }
                               used := s.used ++ [nextNonce s.writer] }
    else .ok () { s with writer := written, used := s.used ++ [nextNonce s.writer] }

/-- The loop of `write`. -/
def flushFull : Nat → Writing Unit
  | 0 => pure ()
  | rounds + 1 => do
    let s ← get
    if chunkSize ≤ s.writer.buffer.length then
      flushChunk x c chunkSize
      flushFull rounds

/-- `write`. -/
def write (data : Bytes) : Writing Unit := do
  modify (fun s => { s with writer := { s.writer with buffer := s.writer.buffer ++ data } })
  let s ← get
  flushFull x c s.writer.buffer.length

/-- The loop of the tar stream's `__write`. -/
def drain : Nat → Writing Unit
  | 0 => pure ()
  | rounds + 1 => do
    let s ← get
    if blockSize < s.pending.length then
      write x c (s.pending.take blockSize)
      modify (fun s => { s with pending := s.pending.drop blockSize })
      drain rounds

/-- `__write` of the tar stream. -/
def streamWrite (data : Bytes) : Writing Unit := do
  modify (fun s => { s with pending := s.pending ++ data })
  let s ← get
  drain x c s.pending.length

/-- What `tarfile` writes, to the two zero blocks and the padding. -/
def writeAll : List (Option Bytes) → Writing Unit
  | [] => pure ()
  | none :: _ => throw .outside
  | some data :: pieces => do
    streamWrite x c data
    writeAll pieces

/-- `close` of the tar stream. -/
def closeStream : Writing Unit := do
  let s ← get
  if s.pending ≠ [] then
    write x c s.pending

/-- The `with` around the archive: the stream is closed on every way out. -/
def writeTar (pieces : List (Option Bytes)) : Writing Unit := do
  tryCatch (writeAll x c pieces) (fun e => do
    closeStream x c
    throw e)
  closeStream x c

/-- `finish`. -/
def finish : Writing Unit := do
  let s ← get
  if s.writer.buffer ≠ [] then
    flushChunk x c s.writer.buffer.length

/-- `nonce_domain + secrets.token_bytes(7)`. -/
def Capture.noncePrefix (k : Kind) : Bytes := k.domain :: c.random k

/-- The part of `write_encrypted_tar` behind the writer's opening. -/
def writeObject (k : Kind) : Writing Unit := do
  writeTar x c (c.pieces k)
  finish x c

/-- `write_encrypted_tar`. -/
def sealObject (k : Kind) : Sealing Unit := fun used =>
  match EncryptingWriter.init c.dek (c.noncePrefix k) (c.context k) with
  | .error e => .error (.stream e) used
  | .ok w =>
    match writeObject x c k ⟨w, [], used⟩ with
    | .ok _ s => .ok () s.used
    | .error e s => .error e s.used

/-- `_sealed_manifest`, up to its encryption. -/
def sealManifest : Sealing Unit := do
  if maxDocumentBytes < c.inner.length then
    throw .inventoryTooLarge
  modify (fun used => used ++ [2 :: c.manifestRandom])

/-- `export_backup`, from the data key to the sealed inventory. -/
def exportBackup : Sealing Unit := do
  sealObject x c .archive
  sealObject x c .anchors
  if c.changed then
    throw .outside
  sealManifest c

/-- The nonces an export uses, whether it ends early or not. -/
def noncesOf : List Bytes := endState (exportBackup x c [])

end

/-! ## The chunks of an object are numbered -/

/-- The nonces of the first `n` chunks of an object. -/
def chunkNonces (noncePrefix : Bytes) (n : Nat) : List Bytes := (List.range n).map (fun i => noncePrefix ++ bigEndian 4 i)

theorem chunkNonces_succ (noncePrefix : Bytes) (n : Nat) :
    chunkNonces noncePrefix (n + 1) = chunkNonces noncePrefix n ++ [noncePrefix ++ bigEndian 4 n] := by
  simp [chunkNonces, List.range_succ]

section
variable {x : Crypto} {c : Capture} {front : List Bytes} {noncePrefix : Bytes}

/-- The writer has used the nonces of the chunks it counts, and those of `front` were used
before. -/
structure Counting (front : List Bytes) (noncePrefix : Bytes) (s : Session) : Prop where
  named : s.writer.noncePrefix = noncePrefix
  bounded : s.writer.index ≤ 2 ^ 32
  used : s.used = front ++ chunkNonces noncePrefix s.writer.index

/-- Some first chunks of the object were encrypted, and no number was out of range. -/
def Cut (front : List Bytes) (noncePrefix : Bytes) (used : List Bytes) : Prop :=
  ∃ n, n ≤ 2 ^ 32 ∧ used = front ++ chunkNonces noncePrefix n

/-- A nonce was used of a chunk that does not count, and what is left, in the writer and in
the tar stream, does not fill another one. -/
structure Torn (front : List Bytes) (noncePrefix : Bytes) (s : Session) : Prop where
  cut : Cut front noncePrefix s.used
  short : s.writer.buffer.length + s.pending.length < chunkSize

/-- How the writing of an object stops. -/
def Stopped (front : List Bytes) (noncePrefix : Bytes) (s : Session) : Prop :=
  Counting front noncePrefix s ∨ Torn front noncePrefix s

theorem Counting.cut {s : Session} (h : Counting front noncePrefix s) : Cut front noncePrefix s.used :=
  ⟨s.writer.index, h.bounded, h.used⟩

theorem Stopped.cut {s : Session} (h : Stopped front noncePrefix s) : Cut front noncePrefix s.used := by
  cases h with
  | inl h => exact h.cut
  | inr h => exact h.cut

/-- One chunk: it counts, or the limit was reached, or its record is torn. -/
theorem flushChunk_spec (size : Nat) (s : Session) (h : Counting front noncePrefix s) :
    match flushChunk x c size s with
    | .ok _ t => Counting front noncePrefix t ∧ t.writer.buffer = s.writer.buffer.drop size ∧ t.pending = s.pending
    | .error _ t => t = s ∨
        (Cut front noncePrefix t.used ∧ t.writer.buffer = s.writer.buffer.drop size ∧ t.pending = s.pending) := by
  unfold flushChunk EncryptingWriter.flushChunk
  by_cases hfull : 2 ^ 32 ≤ s.writer.index
  · rw [if_pos hfull]
    exact .inl rfl
  · rw [if_neg hfull]
    have hused : s.used ++ [nextNonce s.writer] = front ++ chunkNonces noncePrefix (s.writer.index + 1) := by
      rw [h.used, chunkNonces_succ, nextNonce, h.named, List.append_assoc]
    have hbound : s.writer.index + 1 ≤ 2 ^ 32 := by omega
    cases hrefused : c.refused s.used.length with
    | true => exact .inr ⟨⟨s.writer.index + 1, hbound, hused⟩, rfl, rfl⟩
    | false => exact ⟨⟨h.named, hbound, hused⟩, rfl, rfl⟩

theorem flushChunk_cut (size : Nat) :
    Leads (Counting front noncePrefix) (flushChunk x c size) (fun _ => Counting front noncePrefix)
      (fun _ s => Cut front noncePrefix s.used) := by
  intro s h
  have hspec := flushChunk_spec (x := x) (c := c) size s h
  cases hrun : flushChunk x c size s with
  | ok u t =>
    rw [hrun] at hspec
    exact hspec.1
  | error e t =>
    rw [hrun] at hspec
    rcases hspec with rfl | ⟨hcut, -, -⟩
    · exact h.cut
    · exact hcut

theorem flushFull_cut (rounds : Nat) :
    Leads (Counting front noncePrefix) (flushFull x c rounds) (fun _ => Counting front noncePrefix)
      (fun _ s => Cut front noncePrefix s.used) := by
  induction rounds with
  | zero => exact Leads.pure fun _ h => h
  | succ rounds ih =>
    refine Leads.get_bind fun s h => ?_
    split
    · exact (Leads.bind (flushChunk_cut chunkSize) fun _ => ih).weaken (by rintro t rfl; exact h) (fun _ _ h => h) fun _ _ h => h
    · exact Leads.pure (by rintro t rfl; exact h)

/-- Whatever the writer is given, it goes on counting. -/
theorem write_cut (data : Bytes) :
    Leads (Counting front noncePrefix) (write x c data) (fun _ => Counting front noncePrefix)
      (fun _ s => Cut front noncePrefix s.used) := by
  refine Leads.bind (Q := fun _ => Counting front noncePrefix) (Leads.modify fun s h => ⟨h.named, h.bounded, h.used⟩) fun _ => ?_
  refine Leads.get_bind fun s h => (flushFull_cut s.writer.buffer.length).weaken ?_ (fun _ _ h => h) fun _ _ h => h
  rintro t rfl
  exact h

/-- A writer with less than a chunk has nothing to encrypt. -/
theorem flushFull_short (rounds : Nat) {s : Session} (h : s.writer.buffer.length < chunkSize) :
    flushFull x c rounds s = .ok () s := by
  cases rounds with
  | zero => rfl
  | succ rounds =>
    have hshort : ¬ chunkSize ≤ s.writer.buffer.length := by omega
    change (if chunkSize ≤ s.writer.buffer.length then _ else _ : Writing Unit) s = _
    rw [if_neg hshort]
    rfl

theorem write_eq (data : Bytes) (s : Session) :
    write x c data s = flushFull x c (s.writer.buffer ++ data).length
      { s with writer := { s.writer with buffer := s.writer.buffer ++ data } } := rfl

/-- Between two writes of the stream the writer has less than a chunk. -/
structure Ready (front : List Bytes) (noncePrefix : Bytes) (s : Session) : Prop
    extends Counting front noncePrefix s where
  short : s.writer.buffer.length < chunkSize

/-- A block of the stream: behind a torn record the writer has less than a block. -/
theorem write_ready {data pending : Bytes} (hdata : data.length ≤ blockSize)
    (hpending : pending.length ≤ blockSize + pieceLimit) :
    Leads (fun s => Ready front noncePrefix s ∧ s.pending = pending) (write x c data)
      (fun _ s => Ready front noncePrefix s ∧ s.pending = pending) (fun _ => Stopped front noncePrefix) := by
  rintro s ⟨h, rfl⟩
  have hroom : blockSize + (blockSize + pieceLimit) < chunkSize := by decide
  have hshort := h.short
  rw [write_eq]
  generalize ht : ({ s with writer := { s.writer with buffer := s.writer.buffer ++ data } } : Session) = t
  have htCounting : Counting front noncePrefix t := by
    subst ht
    exact ⟨h.named, h.bounded, h.used⟩
  have htLength : t.writer.buffer.length = s.writer.buffer.length + data.length := by
    subst ht
    exact List.length_append
  have htPending : t.pending = s.pending := by
    subst ht
    rfl
  by_cases hfull : chunkSize ≤ t.writer.buffer.length
  · obtain ⟨rounds, hrounds⟩ : ∃ rounds, (s.writer.buffer ++ data).length = rounds + 1 :=
      Nat.exists_eq_succ_of_ne_zero (by rw [List.length_append]; omega)
    have hspec := flushChunk_spec (x := x) (c := c) chunkSize t htCounting
    have hrun : flushFull x c (rounds + 1) t = (do flushChunk x c chunkSize; flushFull x c rounds) t := by
      change (if chunkSize ≤ t.writer.buffer.length then _ else _ : Writing Unit) t = _
      rw [if_pos hfull]
    rw [hrounds, hrun]
    cases hflush : flushChunk x c chunkSize t with
    | ok u v =>
      rw [hflush] at hspec
      obtain ⟨hcounting, hbuffer, hkept⟩ := hspec
      have hless : v.writer.buffer.length < chunkSize := by
        rw [hbuffer, List.length_drop]
        omega
      rw [run_bind_ok hflush, flushFull_short rounds hless]
      exact ⟨⟨hcounting, hless⟩, hkept.trans htPending⟩
    | error e v =>
      rw [hflush] at hspec
      rw [run_bind_error hflush]
      rcases hspec with rfl | ⟨hcut, hbuffer, hkept⟩
      · exact .inl htCounting
      · refine .inr ⟨hcut, ?_⟩
        rw [hbuffer, List.length_drop, hkept, htPending]
        omega
  · have hless : t.writer.buffer.length < chunkSize := by omega
    rw [flushFull_short _ hless]
    exact ⟨⟨htCounting, hless⟩, htPending⟩

theorem drain_ready (rounds : Nat) :
    Leads (fun s => Ready front noncePrefix s ∧ s.pending.length ≤ rounds ∧ s.pending.length ≤ blockSize + pieceLimit)
      (drain x c rounds) (fun _ s => Ready front noncePrefix s ∧ s.pending.length ≤ blockSize)
      (fun _ => Stopped front noncePrefix) := by
  induction rounds with
  | zero => exact Leads.pure fun s h => ⟨h.1, by omega⟩
  | succ rounds ih =>
    refine Leads.get_bind fun s h => ?_
    obtain ⟨hready, hrounds, hlimit⟩ := h
    split
    · rename_i hmore
      have htake : (s.pending.take blockSize).length ≤ blockSize := List.length_take_le _ _
      refine Leads.bind ((write_ready htake hlimit).weaken (by rintro t rfl; exact ⟨hready, rfl⟩) (fun _ _ h => h)
        fun _ _ h => h) fun _ => Leads.bind (Leads.modify ?_) fun _ => ih
      rintro t ⟨ht, hpending⟩
      have hblock : 0 < blockSize := by decide
      refine ⟨⟨⟨ht.named, ht.bounded, ht.used⟩, ht.short⟩, ?_, ?_⟩
      · simp only [hpending, List.length_drop]
        omega
      · simp only [hpending, List.length_drop]
        omega
    · rename_i hdone
      refine Leads.pure ?_
      rintro t rfl
      exact ⟨hready, by omega⟩

theorem writeAll_ready (pieces : List (Option Bytes)) (h : ∀ data, some data ∈ pieces → data.length ≤ pieceLimit) :
    Leads (fun s => Ready front noncePrefix s ∧ s.pending.length ≤ blockSize) (writeAll x c pieces)
      (fun _ s => Ready front noncePrefix s ∧ s.pending.length ≤ blockSize) (fun _ => Stopped front noncePrefix) := by
  induction pieces with
  | nil => exact Leads.pure fun _ h => h
  | cons piece pieces ih =>
    cases piece with
    | none => exact Leads.raise fun s hs => .inl hs.1.toCounting
    | some data =>
      have hdata := h data List.mem_cons_self
      refine Leads.bind ?_ fun _ => ih fun data hmem => h data (List.mem_cons_of_mem _ hmem)
      refine Leads.bind (Q := fun _ s => Ready front noncePrefix s ∧ s.pending.length ≤ blockSize + pieceLimit)
        (Leads.modify ?_) fun _ => ?_
      · rintro s ⟨hs, hpending⟩
        exact ⟨⟨⟨hs.named, hs.bounded, hs.used⟩, hs.short⟩, by simp only [List.length_append]; omega⟩
      · refine Leads.get_bind fun s hs => (drain_ready s.pending.length).weaken ?_ (fun _ _ h => h) fun _ _ h => h
        rintro t rfl
        exact ⟨hs.1, Nat.le_refl _, hs.2⟩

/-- Closing the stream behind whatever stopped the writing: a torn record is not followed by
another one of its number. -/
theorem closeStream_cut :
    Leads (Stopped front noncePrefix) (closeStream x c) (fun _ s => Cut front noncePrefix s.used)
      (fun _ s => Cut front noncePrefix s.used) := by
  refine Leads.get_bind fun s h => ?_
  split
  · cases h with
    | inl h =>
      refine (write_cut s.pending).weaken ?_ (fun _ _ h => h.cut) fun _ _ h => h
      rintro t rfl
      exact h
    | inr h =>
      rintro t rfl
      have hshort := h.short
      rw [write_eq, flushFull_short]
      · exact h.cut
      · simp only [List.length_append]
        exact hshort
  · refine Leads.pure ?_
    rintro t rfl
    exact h.cut

theorem closeStream_counting :
    Leads (Counting front noncePrefix) (closeStream x c) (fun _ => Counting front noncePrefix)
      (fun _ s => Cut front noncePrefix s.used) := by
  refine Leads.get_bind fun s h => ?_
  split
  · refine (write_cut s.pending).weaken ?_ (fun _ _ h => h) fun _ _ h => h
    rintro t rfl
    exact h
  · refine Leads.pure ?_
    rintro t rfl
    exact h

theorem writeObject_cut (k : Kind) :
    Leads (fun s => Ready front noncePrefix s ∧ s.pending.length ≤ blockSize) (writeObject x c k)
      (fun _ s => Cut front noncePrefix s.used) (fun _ s => Cut front noncePrefix s.used) := by
  refine Leads.bind (Q := fun _ => Counting front noncePrefix) ?_ fun _ => ?_
  · refine Leads.bind (Q := fun _ => Counting front noncePrefix) ?_ fun _ => closeStream_counting
    refine Leads.attempt ((writeAll_ready (c.pieces k) (c.limited k)).weaken (fun _ h => h)
      (fun _ _ h => h.1.toCounting) fun _ _ h => h) fun e => ?_
    exact Leads.bind closeStream_cut fun _ => Leads.raise fun _ h => h
  · refine Leads.get_bind fun s h => ?_
    split
    · refine (flushChunk_cut s.writer.buffer.length).weaken ?_ (fun _ _ h => h.cut) fun _ _ h => h
      rintro t rfl
      exact h
    · refine Leads.pure ?_
      rintro t rfl
      exact h.cut

/-- An object uses the nonces of its first chunks, one for each. -/
theorem sealObject_counting (k : Kind) :
    Leads (fun used => used = front) (sealObject x c k) (fun _ => Cut front (c.noncePrefix k))
      (fun _ => Cut front (c.noncePrefix k)) := by
  rintro used rfl
  unfold sealObject
  cases hinit : EncryptingWriter.init c.dek (c.noncePrefix k) (c.context k) with
  | error e => exact ⟨0, by omega, by simp [chunkNonces]⟩
  | ok w =>
    have hready : Ready used (c.noncePrefix k) ⟨w, [], used⟩ := by
      unfold EncryptingWriter.init at hinit
      split at hinit
      · cases hinit
      · cases hinit
        refine ⟨⟨rfl, Nat.zero_le _, ?_⟩, by change 0 < chunkSize; decide⟩
        simp [EncryptingWriter.record, chunkNonces]
    have hend := writeObject_cut (x := x) (c := c) k _ ⟨hready, Nat.zero_le _⟩
    cases hrun : writeObject x c k ⟨w, [], used⟩ with
    | ok u s =>
      rw [hrun] at hend
      simp only [hrun]
      exact hend
    | error e s =>
      rw [hrun] at hend
      simp only [hrun]
      exact hend

end

/-! ## All nonces of an export -/

theorem chunkNonces_nodup (noncePrefix : Bytes) {n : Nat} (hn : n ≤ 2 ^ 32) : (chunkNonces noncePrefix n).Nodup := by
  refine List.Nodup.map_on ?_ List.nodup_range
  intro i hi j hj he
  have hbound : ∀ m ∈ List.range n, m < 256 ^ 4 := by
    intro m hm
    have hlt := List.mem_range.mp hm
    omega
  exact bigEndian_inj (hbound i hi) (hbound j hj) (List.append_cancel_left he)

/-- The nonces of an object begin with its domain. -/
theorem head_of_chunkNonces {c : Capture} {k : Kind} {n : Nat} {nonce : Bytes}
    (h : nonce ∈ chunkNonces (c.noncePrefix k) n) : nonce.head? = some k.domain := by
  obtain ⟨i, -, rfl⟩ := List.mem_map.mp h
  rfl

theorem length_of_chunkNonces {c : Capture} {k : Kind} {n : Nat} {nonce : Bytes}
    (h : nonce ∈ chunkNonces (c.noncePrefix k) n) : nonce.length = 12 := by
  obtain ⟨i, -, rfl⟩ := List.mem_map.mp h
  simp [Capture.noncePrefix, c.drawn]

/-- The nonce of the inventory begins with a domain of its own. -/
theorem head_of_sealed {c : Capture} {sealed : List Bytes} {nonce : Bytes}
    (hsealed : sealed = [] ∨ sealed = [2 :: c.manifestRandom]) (h : nonce ∈ sealed) : nonce.head? = some 2 := by
  rcases hsealed with rfl | rfl
  · cases h
  · obtain rfl := List.mem_singleton.mp h
    rfl

/-- The nonces of an export, in the order of their use: those of the chunks of the archive,
of the chunks of the anchors and, where the export gets that far, that of the inventory. -/
def Layout (c : Capture) (used : List Bytes) : Prop :=
  ∃ n m sealed, n ≤ 2 ^ 32 ∧ m ≤ 2 ^ 32 ∧ (sealed = [] ∨ sealed = [2 :: c.manifestRandom]) ∧
    used = chunkNonces (c.noncePrefix .archive) n ++ chunkNonces (c.noncePrefix .anchors) m ++ sealed

theorem exportBackup_layout (x : Crypto) (c : Capture) : Layout c (noncesOf x c) := by
  have harchive : ∀ used, Cut [] (c.noncePrefix .archive) used → Layout c used := by
    rintro used ⟨n, hn, rfl⟩
    exact ⟨n, 0, [], hn, by omega, .inl rfl, by simp [chunkNonces]⟩
  have hanchors : ∀ n, n ≤ 2 ^ 32 → ∀ used, Cut (chunkNonces (c.noncePrefix .archive) n) (c.noncePrefix .anchors) used →
      Layout c used := by
    rintro n hn used ⟨m, hm, rfl⟩
    exact ⟨n, m, [], hn, hm, .inl rfl, by simp⟩
  have hmanifest : ∀ n, n ≤ 2 ^ 32 →
      Leads (Cut (chunkNonces (c.noncePrefix .archive) n) (c.noncePrefix .anchors)) (sealManifest c)
        (fun _ => Layout c) (fun _ => Layout c) := by
    intro n hn
    unfold sealManifest
    split
    · exact Leads.bind (Q := fun _ _ => False) (Leads.raise (hanchors n hn)) fun _ => Leads.modify fun _ h => h.elim
    · refine Leads.modify ?_
      rintro used ⟨m, hm, rfl⟩
      exact ⟨n, m, [2 :: c.manifestRandom], hn, hm, .inr rfl, rfl⟩
  have hrest : ∀ n, n ≤ 2 ^ 32 → Leads (fun used => used = chunkNonces (c.noncePrefix .archive) n)
      (do
        sealObject x c .anchors
        if c.changed then
          throw Stop.outside
        sealManifest c) (fun _ => Layout c) (fun _ => Layout c) := by
    intro n hn
    refine Leads.bind ((sealObject_counting .anchors).weaken (fun _ h => h) (fun _ _ h => h) fun _ => hanchors n hn) fun _ => ?_
    split
    · exact Leads.bind (Q := fun _ _ => False) (Leads.raise (hanchors n hn)) fun _ _ h => h.elim
    · exact hmanifest n hn
  have hall : Leads (fun used => used = []) (exportBackup x c) (fun _ => Layout c) (fun _ => Layout c) := by
    refine Leads.bind ((sealObject_counting .archive).weaken (fun _ h => h) (fun _ _ h => h) fun _ => harchive) fun _ => ?_
    rintro used ⟨n, hn, rfl⟩
    exact hrest n hn _ rfl
  unfold noncesOf endState
  have hend := hall [] rfl
  cases hrun : exportBackup x c [] with
  | ok u used =>
    rw [hrun] at hend
    exact hend
  | error e used =>
    rw [hrun] at hend
    exact hend

/-- Under the data key of an export no nonce is used twice, all of them have twelve bytes, and
the writer refuses a further chunk once it has numbered as many as four bytes can. -/
theorem nonces_distinct (x : Crypto) (c : Capture) :
    (noncesOf x c).Nodup ∧ (∀ nonce ∈ noncesOf x c, nonce.length = 12) ∧ Layout c (noncesOf x c) ∧
      ∀ (size : Nat) (s : Session), 2 ^ 32 ≤ s.writer.index →
        flushChunk x c size s = .error (.stream .exceedsNonceSpace) s := by
  have hlayout := exportBackup_layout x c
  obtain ⟨n, m, sealed, hn, hm, hsealed, hused⟩ := id hlayout
  refine ⟨?_, ?_, hlayout, fun size s hfull => ?_⟩
  · rw [hused]
    refine List.Nodup.append (List.Nodup.append (chunkNonces_nodup _ hn) (chunkNonces_nodup _ hm) ?_) ?_ ?_
    · intro nonce ha hb
      have hhead := (head_of_chunkNonces ha).symm.trans (head_of_chunkNonces hb)
      cases hhead
    · rcases hsealed with rfl | rfl
      · exact List.nodup_nil
      · exact List.nodup_singleton _
    · intro nonce h hmem
      have hsealing := head_of_sealed hsealed hmem
      rcases List.mem_append.mp h with ha | hb
      · cases (head_of_chunkNonces ha).symm.trans hsealing
      · cases (head_of_chunkNonces hb).symm.trans hsealing
  · intro nonce h
    rw [hused, List.mem_append, List.mem_append] at h
    rcases h with (ha | hb) | hmem
    · exact length_of_chunkNonces ha
    · exact length_of_chunkNonces hb
    · rcases hsealed with rfl | rfl
      · cases hmem
      · obtain rfl := List.mem_singleton.mp hmem
        simp [c.manifestDrawn]
  · rw [flushChunk, EncryptingWriter.flushChunk, if_pos hfull]

end NonceUse
