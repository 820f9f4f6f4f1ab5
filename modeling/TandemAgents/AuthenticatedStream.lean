import TandemAgents.StreamRoundTrip

/-!
# What the reader gives out of any file

Whatever stands in place of an encrypted object, the reader hands out nothing but the front
of what the exporter wrote for it: the nonce of a record binds the object and its number, and
a cipher that is ideal opens no other record. Who reads to the end has read the object itself.
-/
namespace AuthenticatedStream

open ByteFields Pieces BackupStream StreamRoundTrip

set_option maxRecDepth 20000

/-! ## What the exporter encrypts -/

/-- One use of the cipher. -/
structure Encryption where
  key : Bytes
  nonce : Bytes
  data : Bytes
  plaintext : Bytes
  deriving DecidableEq

inductive Kind where
  | archive | anchors
  deriving DecidableEq, Repr

/-- The first byte of the nonces of an object. -/
def Kind.domain : Kind → UInt8
  | .archive => 0
  | .anchors => 1

/-- What `export_backup` encrypts under one key: two objects and the sealed inventory. The
random parts of the nonces, the contexts and everything written are arbitrary. -/
structure Backup where
  dek : Bytes
  random : Kind → Bytes
  context : Kind → Bytes
  blocks : Kind → List Bytes
  manifestRandom : Bytes
  manifestData : Bytes
  manifestPlaintext : Bytes

namespace Backup

def noncePrefix (b : Backup) (k : Kind) : Bytes := k.domain :: b.random k

/-- The pieces of an object, each as one record. -/
def objectEncryptions (b : Backup) (k : Kind) : List Encryption :=
  (chunks chunkSize (b.blocks k).flatten).mapIdx fun i chunk =>
    ⟨b.dek, b.noncePrefix k ++ bigEndian 4 i, b.context k ++ bigEndian 4 i, chunk⟩

/-- The nonce of the inventory has a domain of its own. -/
def manifestEncryption (b : Backup) : Encryption :=
  ⟨b.dek, 2 :: b.manifestRandom, b.manifestData, b.manifestPlaintext⟩

def encryptions (b : Backup) : List Encryption :=
  b.manifestEncryption :: (b.objectEncryptions .archive ++ b.objectEncryptions .anchors)

/-- The object as the exporter writes it, with what it seals of it. -/
def object (x : Crypto) (b : Backup) (k : Kind) : Except StreamError (Metadata × Bytes) :=
  archive x b.dek (b.noncePrefix k) (b.context k) (b.blocks k)

end Backup

/-- A ciphertext opens only under what the exporter encrypted it under. -/
structure Ideal (x : Crypto) (backups : List Backup) : Prop where
  authentic : ∀ key nonce ciphertext data plaintext, x.decrypt key nonce ciphertext data = some plaintext →
    ∃ b ∈ backups, ⟨key, nonce, data, plaintext⟩ ∈ b.encryptions ∧ ciphertext = x.encrypt key nonce plaintext data

/-! ## What a reader hands out -/

section
variable (x : Crypto) (now : Stat)

/-- The bytes handed out by one `read` after another until one raises. -/
def handOut : List (Option Int) → DecryptingReader → Bytes
  | [], _ => []
  | size :: sizes, r =>
    match r.read x now size with
    | .ok (block, r) => block ++ handOut sizes r
    | .error _ => []

/-- The bytes handed out of a file. -/
def delivered (file : Bytes) (stat : Stat) (metadata : Metadata) (dek context domain : Bytes)
    (sizes : List (Option Int)) : Bytes :=
  match DecryptingReader.init file stat metadata dek context domain with
  | .ok r => handOut x now sizes r
  | .error _ => []

end

/-! ## Streams that were written -/

section
variable {x : Crypto} {key noncePrefix context : Bytes} {pieces : List Bytes} {w w' : EncryptingWriter}

theorem flushChunk_ok (h : Writing x key noncePrefix context pieces w) {size : Nat}
    (hrun : w.flushChunk x size = .ok w') : Writing x key noncePrefix context (pieces ++ [w.buffer.take size]) w' ∧
      w'.buffer = w.buffer.drop size ∧ pieces.length < 2 ^ 32 := by
  have hindex : pieces.length < 2 ^ 32 := by
    by_contra hfull
    have hlimit : 2 ^ 32 ≤ w.index := by
      rw [h.index]
      omega
    rw [EncryptingWriter.flushChunk, if_pos hlimit] at hrun
    cases hrun
  obtain ⟨v, hv, hwriting, hbuffer⟩ := h.flushChunk hindex size
  rw [hv] at hrun
  cases hrun
  exact ⟨hwriting, hbuffer, hindex⟩

/-- What is known of the pieces behind any writes that returned. -/
structure Written (x : Crypto) (key noncePrefix context : Bytes) (pieces : List Bytes) (data : Bytes)
    (w : EncryptingWriter) : Prop extends Writing x key noncePrefix context pieces w where
  full : ∀ c ∈ pieces, c.length = chunkSize
  joined : pieces.flatten ++ w.buffer = data
  numbered : pieces.length ≤ 2 ^ 32

theorem flushFull_ok (rounds : Nat) {data : Bytes} (h : Written x key noncePrefix context pieces data w)
    (hrounds : w.buffer.length ≤ rounds) (hrun : w.flushFull x rounds = .ok w') :
    ∃ pieces', Written x key noncePrefix context pieces' data w' ∧ w'.buffer.length < chunkSize := by
  induction rounds generalizing pieces w with
  | zero =>
    have hpos : 0 < chunkSize := by decide
    cases hrun
    exact ⟨pieces, h, by omega⟩
  | succ rounds ih =>
    rw [EncryptingWriter.flushFull] at hrun
    split at hrun
    · rename_i hchunk
      have hpos : 0 < chunkSize := by decide
      cases hflush : w.flushChunk x chunkSize with
      | error e =>
        rw [hflush] at hrun
        cases hrun
      | ok v =>
        rw [hflush] at hrun
        obtain ⟨hwriting, hbuffer, hindex⟩ := flushChunk_ok h.toWriting hflush
        have htake : (w.buffer.take chunkSize).length = chunkSize := by
          rw [List.length_take]
          omega
        refine ih ⟨hwriting, ?_, ?_, ?_⟩ ?_ hrun
        · intro c hc
          obtain hc | hc := List.mem_append.mp hc
          · exact h.full c hc
          · rw [List.mem_singleton.mp hc, htake]
        · rw [hbuffer, List.flatten_append, List.flatten_singleton, List.append_assoc, List.take_append_drop, h.joined]
        · rw [List.length_append, List.length_singleton]
          omega
        · rw [hbuffer, List.length_drop]
          omega
    · cases hrun
      exact ⟨pieces, h, by omega⟩

theorem writeAll_ok (blocks : List Bytes) {data : Bytes} (h : Written x key noncePrefix context pieces data w)
    (hless : w.buffer.length < chunkSize) (hrun : w.writeAll x blocks = .ok w') :
    ∃ pieces', Written x key noncePrefix context pieces' (data ++ blocks.flatten) w' ∧
      w'.buffer.length < chunkSize := by
  induction blocks generalizing pieces w data with
  | nil =>
    cases hrun
    exact ⟨pieces, by simpa using h, hless⟩
  | cons block blocks ih =>
    rw [EncryptingWriter.writeAll, List.foldlM_cons] at hrun
    cases hwrite : w.write x block with
    | error e =>
      rw [hwrite] at hrun
      cases hrun
    | ok v =>
      rw [hwrite] at hrun
      have hstart : Written x key noncePrefix context pieces (data ++ block) { w with buffer := w.buffer ++ block } :=
        { h with joined := by rw [← h.joined, List.append_assoc] }
      obtain ⟨ps, hps, hpless⟩ := flushFull_ok _ hstart (Nat.le_refl _) hwrite
      obtain ⟨qs, hqs, hqless⟩ := ih hps hpless hrun
      refine ⟨qs, ?_, hqless⟩
      rw [List.flatten_cons, ← List.append_assoc]
      exact hqs

/-- The pieces of a stream that is finished. -/
theorem finish_ok {data : Bytes} {metadata : Metadata} {file : Bytes}
    (h : Written x key noncePrefix context pieces data w) (hless : w.buffer.length < chunkSize)
    (hrun : w.finish x = .ok (metadata, file)) :
    Archived x key noncePrefix context (chunks chunkSize data) metadata file ∧ (chunks chunkSize data).flatten = data ∧
      (chunks chunkSize data).length ≤ 2 ^ 32 := by
  have hpos : 0 < chunkSize := by decide
  have hclose : ∀ qs v, Writing x key noncePrefix context qs v → qs.flatten = data → (qs = [] ∨ Cut chunkSize qs) →
      qs.length ≤ 2 ^ 32 →
      Archived x key noncePrefix context (chunks chunkSize data)
        ⟨x.sha256 v.digest, v.size, v.index, hex v.noncePrefix⟩ v.output ∧
        (chunks chunkSize data).flatten = data ∧ (chunks chunkSize data).length ≤ 2 ^ 32 := by
    intro qs v hv hjoin hcut hlength
    have hqs : chunks chunkSize data = qs := by
      obtain rfl | hcut := hcut
      · rw [← hjoin]
        rfl
      · rw [← hjoin]
        exact hcut.eq_chunks hpos
    rw [hqs]
    exact ⟨⟨hv.output, by rw [hv.digest], by rw [hv.size], by rw [hv.index], by rw [hv.samePrefix]⟩, hjoin, hlength⟩
  by_cases hbuffer : w.buffer = []
  · rw [EncryptingWriter.finish, if_neg (not_not.mpr hbuffer)] at hrun
    cases hrun
    have hjoin := h.joined
    rw [hbuffer, List.append_nil] at hjoin
    refine hclose pieces w h.toWriting hjoin ?_ h.numbered
    by_cases hnil : pieces = []
    · exact .inl hnil
    · exact .inr (.of_full hpos hnil h.full)
  · rw [EncryptingWriter.finish, if_pos hbuffer] at hrun
    cases hflush : w.flushChunk x w.buffer.length with
    | error e =>
      rw [hflush] at hrun
      cases hrun
    | ok v =>
      rw [hflush] at hrun
      cases hrun
      obtain ⟨hwriting, -, hindex⟩ := flushChunk_ok h.toWriting hflush
      rw [List.take_length] at hwriting
      have hlast : Cut chunkSize [w.buffer] := .last (List.length_pos_iff.mpr hbuffer) (by omega)
      refine hclose _ v hwriting ?_ (.inr (.append h.full hlast)) ?_
      · rw [List.flatten_append, List.flatten_singleton, h.joined]
      · rw [List.length_append, List.length_singleton]
        omega

/-- An object that was written holds the pieces of what was written. -/
theorem archive_ok {blocks : List Bytes} {metadata : Metadata} {file : Bytes}
    (hrun : archive x key noncePrefix context blocks = .ok (metadata, file)) :
    Archived x key noncePrefix context (chunks chunkSize blocks.flatten) metadata file ∧
      (chunks chunkSize blocks.flatten).flatten = blocks.flatten ∧
      (chunks chunkSize blocks.flatten).length ≤ 2 ^ 32 := by
  unfold archive EncryptingWriter.init at hrun
  split at hrun
  · cases hrun
  · replace hrun :
        ((EncryptingWriter.record magic ⟨[], key, noncePrefix, context, [], 0, [], 0⟩).writeAll x blocks).bind
          (fun w => w.finish x) = .ok (metadata, file) := hrun
    have hstart : Written x key noncePrefix context [] []
        (EncryptingWriter.record magic ⟨[], key, noncePrefix, context, [], 0, [], 0⟩) := by
      refine { full := by simp, joined := rfl, numbered := by simp, toWriting := ?_ }
      constructor <;> simp [EncryptingWriter.record, records]
    cases hwrite : (EncryptingWriter.record magic ⟨[], key, noncePrefix, context, [], 0, [], 0⟩).writeAll x blocks with
    | error e =>
      rw [hwrite] at hrun
      cases hrun
    | ok w =>
      rw [hwrite] at hrun
      have hempty : (0 : Nat) < chunkSize := by decide
      obtain ⟨ps, hps, hless⟩ := writeAll_ok blocks hstart hempty hwrite
      exact finish_ok hps hless hrun

end

/-! ## A reader on any file -/

section
variable {x : Crypto} {key noncePrefix context : Bytes} {pieces : List Bytes} {metadata : Metadata} {forged : Bytes}
  {now : Stat} {r r' : DecryptingReader}

/-- The reader has read the records of the first pieces, and has them in its buffer or has
handed them out. -/
structure Genuine (x : Crypto) (key noncePrefix context : Bytes) (pieces : List Bytes) (metadata : Metadata)
    (forged out : Bytes) (r : DecryptingReader) : Prop where
  sameKey : r.key = key
  samePrefix : r.noncePrefix = noncePrefix
  sameContext : r.context = context
  sameMetadata : r.metadata = metadata
  index : r.index ≤ pieces.length
  plain : out ++ r.buffer = (pieces.take r.index).flatten
  digest : r.digest = magic ++ records x key noncePrefix context 0 (pieces.take r.index)
  split : r.digest ++ r.source = forged
  finished : r.finished = true → r.index = pieces.length ∧ r.source = []

/-- Under the nonces of the object only its own pieces open, each at its place. -/
def OpensOnly (x : Crypto) (key noncePrefix context : Bytes) (pieces : List Bytes) : Prop :=
  ∀ i ciphertext plaintext, i < pieces.length →
    x.decrypt key (noncePrefix ++ bigEndian 4 i) ciphertext (context ++ bigEndian 4 i) = some plaintext →
      pieces[i]? = some plaintext ∧ ciphertext = sealChunk x key noncePrefix context i plaintext

theorem bind_ok {α β : Type} {p : Except StreamError α} {f : α → Except StreamError β} {b : β} (h : p.bind f = .ok b) :
    ∃ a, p = .ok a ∧ f a = .ok b := by
  cases p with
  | error e => cases h
  | ok a => exact ⟨a, rfl, h⟩

theorem readExact_ok {count : Nat} {value : Bytes} (h : r.readExact count = .ok (value, r')) :
    value.length = count ∧ ∃ rest, r.source = value ++ rest ∧
      r' = { r with source := rest, digest := r.digest ++ value, size := r.size + value.length } := by
  unfold DecryptingReader.readExact at h
  dsimp only at h
  split at h
  · cases h
  · rename_i hlength
    cases h
    exact ⟨not_not.mp hlength, r.source.drop count, (List.take_append_drop count r.source).symm, rfl⟩

theorem take_succ_records {i : Nat} {piece : Bytes} (h : pieces[i]? = some piece) :
    records x key noncePrefix context 0 (pieces.take (i + 1)) =
      records x key noncePrefix context 0 (pieces.take i) ++ chunkRecord x key noncePrefix context i piece := by
  have hlt : i < pieces.length := (List.getElem?_eq_some_iff.mp h).1
  have hlength : (pieces.take i).length = i := by
    rw [List.length_take]
    omega
  rw [List.take_add_one, h, Option.toList_some, records_append, hlength, Nat.zero_add, records, records,
    List.append_nil]

/-- A record that opens is the record of the next piece. -/
theorem Genuine.nextChunk {out : Bytes} (hopens : OpensOnly x key noncePrefix context pieces)
    (hchunks : metadata.chunks = pieces.length) (h : Genuine x key noncePrefix context pieces metadata forged out r)
    (hrun : r.nextChunk x now = .ok r') : Genuine x key noncePrefix context pieces metadata forged out r' ∧
      (r'.finished = true ∨ r'.index = r.index + 1) := by
  unfold DecryptingReader.nextChunk at hrun
  split at hrun
  · rename_i hend
    unfold DecryptingReader.endOfStream at hrun
    split at hrun
    · cases hrun
    · rename_i hsource
      split at hrun
      · cases hrun
      · cases hrun
        refine ⟨{ h with finished := fun _ => ⟨?_, not_not.mp hsource⟩ }, .inl rfl⟩
        rw [h.sameMetadata, hchunks] at hend
        exact Int.ofNat_inj.mp hend
  · rename_i hmore
    rw [h.sameMetadata, hchunks] at hmore
    have hlt : r.index < pieces.length := Nat.lt_of_le_of_ne h.index fun heq => hmore (Int.ofNat_inj.mpr heq)
    obtain ⟨⟨header, r₁⟩, hheader, hrun⟩ := bind_ok hrun
    obtain ⟨hwidth, rest₁, hsource₁, rfl⟩ := readExact_ok hheader
    dsimp only at hrun
    split at hrun
    · cases hrun
    · obtain ⟨⟨sealed, r₂⟩, hsealed, hrun⟩ := bind_ok hrun
      obtain ⟨hlength, rest₂, hsource₂, rfl⟩ := readExact_ok hsealed
      have hnumber : bigEndian 4 sealed.length = header := by
        rw [hlength, ← hwidth]
        exact bigEndian_fromBigEndian header
      dsimp only at hrun hsource₂
      split at hrun
      · cases hrun
      · rename_i plaintext hdecrypt
        rw [h.sameKey, h.samePrefix, h.sameContext] at hdecrypt
        obtain ⟨hpiece, hciphertext⟩ := hopens r.index sealed plaintext hlt hdecrypt
        split at hrun
        · cases hrun
        · cases hrun
          have hrecord : chunkRecord x key noncePrefix context r.index plaintext = header ++ sealed := by
            rw [chunkRecord, ← hciphertext, hnumber]
          refine ⟨?_, .inr rfl⟩
          exact
            { sameKey := h.sameKey
              samePrefix := h.samePrefix
              sameContext := h.sameContext
              sameMetadata := h.sameMetadata
              index := hlt
              plain := by
                rw [List.take_add_one, hpiece, Option.toList_some, List.flatten_append, List.flatten_singleton,
                  ← h.plain]
                exact (List.append_assoc out r.buffer plaintext).symm
              digest := by
                rw [take_succ_records hpiece, hrecord, h.digest]
                simp only [List.append_assoc]
              split := by
                rw [← h.split, hsource₁, hsource₂]
                simp only [List.append_assoc]
              finished := fun hfin => absurd (h.finished hfin).1 (Nat.ne_of_lt hlt) }

/-- The loop of `read` ends with as much as is asked for or at the end of the stream. -/
theorem Genuine.fill {out : Bytes} (hopens : OpensOnly x key noncePrefix context pieces)
    (hchunks : metadata.chunks = pieces.length) (count rounds : Nat)
    (h : Genuine x key noncePrefix context pieces metadata forged out r) (hrounds : pieces.length < r.index + rounds)
    (hrun : r.fill x now count rounds = .ok r') : Genuine x key noncePrefix context pieces metadata forged out r' ∧
      (r.finished = true → r'.finished = true) ∧ (count ≤ r'.buffer.length ∨ r'.finished = true) := by
  induction rounds generalizing r with
  | zero =>
    have hindex := h.index
    omega
  | succ rounds ih =>
    rw [DecryptingReader.fill] at hrun
    by_cases hmore : r.buffer.length < count ∧ r.finished = false
    · rw [if_pos hmore] at hrun
      obtain ⟨q, hq, hrun⟩ := bind_ok hrun
      obtain ⟨hgenuine, hstep⟩ := h.nextChunk hopens hchunks hq
      have hstart : r.finished = true → r'.finished = true := by simp [hmore.2]
      obtain hfin | hindex := hstep
      · have hdone : q.fill x now count rounds = .ok q := by cases rounds <;> simp [DecryptingReader.fill, hfin]
        rw [hdone] at hrun
        cases hrun
        exact ⟨hgenuine, hstart, .inr hfin⟩
      · obtain ⟨hr', -, hend⟩ := ih hgenuine (by omega) hrun
        exact ⟨hr', hstart, hend⟩
    · rw [if_neg hmore] at hrun
      cases hrun
      refine ⟨h, id, ?_⟩
      cases hfin : r'.finished with
      | false => exact .inl (by simpa [hfin] using hmore)
      | true => exact .inr rfl

/-- What a read returns comes out of the object; returning nothing, it has met the end. -/
theorem Genuine.read {out block : Bytes} {size : Option Int} (hopens : OpensOnly x key noncePrefix context pieces)
    (hchunks : metadata.chunks = pieces.length) (h : Genuine x key noncePrefix context pieces metadata forged out r)
    (hrun : r.read x now size = .ok (block, r')) :
    Genuine x key noncePrefix context pieces metadata forged (out ++ block) r' ∧
      (r.finished = true → r'.finished = true) ∧ (∀ n, size = some n → 0 < n → block = [] → r'.finished = true) := by
  cases size with
  | none => cases hrun
  | some n =>
    rw [DecryptingReader.read] at hrun
    split at hrun
    · cases hrun
    · cases hfill : r.fill x now n.toNat ((r.metadata.chunks - r.index).toNat + 1) with
      | error e =>
        rw [hfill] at hrun
        cases hrun
      | ok q =>
        rw [hfill] at hrun
        cases hrun
        have hrounds : pieces.length < r.index + ((r.metadata.chunks - r.index).toNat + 1) := by
          rw [h.sameMetadata, hchunks]
          omega
        obtain ⟨hq, hkeep, hend⟩ := h.fill hopens hchunks n.toNat _ hrounds hfill
        refine ⟨{ hq with plain := ?_ }, hkeep, ?_⟩
        · rw [List.append_assoc, List.take_append_drop]
          exact hq.plain
        · intro m hm hpos hempty
          obtain rfl := Option.some.inj hm
          have hlength := congrArg List.length hempty
          rw [List.length_take, List.length_nil] at hlength
          exact hend.resolve_left (by omega)

theorem Genuine.out_prefix {out : Bytes} (h : Genuine x key noncePrefix context pieces metadata forged out r) :
    out <+: pieces.flatten := by
  have htake : (pieces.take r.index).flatten <+: pieces.flatten := by
    refine ⟨(pieces.drop r.index).flatten, ?_⟩
    rw [← List.flatten_append, List.take_append_drop]
  rw [← h.plain] at htake
  exact (List.prefix_append out r.buffer).trans htake

/-- Whatever reads are made, until one raises. -/
theorem Genuine.handOut {out : Bytes} (hopens : OpensOnly x key noncePrefix context pieces)
    (hchunks : metadata.chunks = pieces.length) (sizes : List (Option Int))
    (h : Genuine x key noncePrefix context pieces metadata forged out r) :
    out ++ handOut x now sizes r <+: pieces.flatten := by
  induction sizes generalizing out r with
  | nil =>
    rw [AuthenticatedStream.handOut, List.append_nil]
    exact h.out_prefix
  | cons size sizes ih =>
    rw [AuthenticatedStream.handOut]
    split
    · rename_i block q hq
      rw [← List.append_assoc]
      exact ih (h.read hopens hchunks hq).1
    · rw [List.append_nil]
      exact h.out_prefix

/-- A read that asks for something and returns nothing leaves the reader at the end. -/
theorem Genuine.readAll {out : Bytes} (hopens : OpensOnly x key noncePrefix context pieces)
    (hchunks : metadata.chunks = pieces.length) (sizes : List Nat) {blocks : List Bytes}
    (h : Genuine x key noncePrefix context pieces metadata forged out r)
    (hrun : r.readAll x now sizes = .ok (blocks, r')) :
    Genuine x key noncePrefix context pieces metadata forged (out ++ blocks.flatten) r' ∧
      (r.finished = true ∨ (∃ i n : Nat, sizes[i]? = some n ∧ 0 < n ∧ blocks[i]? = some []) → r'.finished = true) := by
  induction sizes generalizing out r blocks with
  | nil =>
    cases hrun
    refine ⟨by simpa using h, ?_⟩
    rintro (hfin | ⟨i, n, hn, -⟩)
    · exact hfin
    · cases hn
  | cons size sizes ih =>
    rw [DecryptingReader.readAll] at hrun
    obtain ⟨⟨block, q⟩, hq, hrun⟩ := bind_ok hrun
    obtain ⟨⟨rest, p⟩, hp, hrun⟩ := bind_ok hrun
    cases hrun
    obtain ⟨hgenuine, hkeep, hempty⟩ := h.read hopens hchunks hq
    obtain ⟨hlast, hfinished⟩ := ih hgenuine hp
    refine ⟨?_, ?_⟩
    · rw [List.flatten_cons, ← List.append_assoc]
      exact hlast
    · rintro (hfin | ⟨i, n, hn, hpos, hblock⟩)
      · exact hfinished (.inl (hkeep hfin))
      · cases i with
        | zero =>
          refine hfinished (.inl (hempty n ?_ (by omega) (Option.some.inj hblock)))
          rw [Option.some.inj hn]
        | succ i => exact hfinished (.inr ⟨i, n, hn, hpos, hblock⟩)

/-- At the end every byte was read, and the bytes are those of the object. -/
theorem Genuine.at_end {out file : Bytes} (h : Genuine x key noncePrefix context pieces metadata forged out r)
    (hfile : file = magic ++ records x key noncePrefix context 0 pieces) (hfin : r.finished = true) :
    forged = file := by
  obtain ⟨hindex, hsource⟩ := h.finished hfin
  rw [← h.split, hsource, List.append_nil, h.digest, hindex, List.take_length, hfile]

/-- A reader that opens has read no record yet. -/
theorem init_genuine {file : Bytes} {stat : Stat} {domain : Bytes}
    (h : Archived x key noncePrefix context pieces metadata file)
    (hrun : DecryptingReader.init forged stat metadata key context domain = .ok r) :
    Genuine x key noncePrefix context pieces metadata forged [] r := by
  rw [DecryptingReader.init, h.noncePrefix, fromHex_hex] at hrun
  split at hrun
  · cases hrun
  · dsimp only at hrun
    split at hrun
    · cases hrun
    · split at hrun
      · cases hrun
      · obtain ⟨⟨value, q⟩, hmagic, hrun⟩ := bind_ok hrun
        obtain ⟨-, rest, hsource, rfl⟩ := readExact_ok hmagic
        dsimp only at hrun hsource
        split at hrun
        · cases hrun
        · rename_i hvalue
          cases hrun
          rw [not_not.mp hvalue] at hsource ⊢
          constructor <;> simp [records, hsource]

end

/-! ## The objects of the backups -/

theorem Kind.domain_inj {k k' : Kind} (h : k.domain = k'.domain) : k = k' := by
  revert h
  cases k <;> cases k' <;> decide

theorem mem_objectEncryptions {b : Backup} {k : Kind} {e : Encryption} : e ∈ b.objectEncryptions k ↔
    ∃ i chunk, (chunks chunkSize (b.blocks k).flatten)[i]? = some chunk ∧
      e = ⟨b.dek, b.noncePrefix k ++ bigEndian 4 i, b.context k ++ bigEndian 4 i, chunk⟩ := by
  unfold Backup.objectEncryptions
  rw [List.mem_mapIdx]
  constructor
  · rintro ⟨i, hlt, rfl⟩
    exact ⟨i, _, List.getElem?_eq_getElem hlt, rfl⟩
  · rintro ⟨i, chunk, hchunk, rfl⟩
    obtain ⟨hlt, rfl⟩ := List.getElem?_eq_some_iff.mp hchunk
    exact ⟨i, hlt, rfl⟩

/-- No other backup encrypts something else under the key, the nonces and the context of the
object: the key and the nonces are drawn at random for each backup. -/
def Fresh (backups : List Backup) (b : Backup) (k : Kind) : Prop :=
  ∀ c ∈ backups, c.dek = b.dek → c.random k = b.random k → c.context k = b.context k → c.blocks k = b.blocks k

/-- A record that opens under a nonce of the object is its record of that number. -/
theorem Ideal.opensOnly {x : Crypto} {backups : List Backup} (hideal : Ideal x backups) {b : Backup} {k : Kind}
    (hfresh : Fresh backups b k) (hlength : (chunks chunkSize (b.blocks k).flatten).length ≤ 2 ^ 32) :
    OpensOnly x b.dek (b.noncePrefix k) (b.context k) (chunks chunkSize (b.blocks k).flatten) := by
  intro i ciphertext plaintext hi hopen
  obtain ⟨c, hc, hmem, hciphertext⟩ := hideal.authentic _ _ _ _ _ hopen
  obtain hmanifest | hobject := List.mem_cons.mp hmem
  · -- the inventory is sealed under a nonce that starts with 2
    injection hmanifest with _ hnonce _ _
    have hdomain : k.domain = 2 := (List.cons.inj hnonce).1
    cases k <;> exact absurd hdomain (by decide)
  · obtain ⟨k', hobject⟩ : ∃ k', ⟨b.dek, b.noncePrefix k ++ bigEndian 4 i, b.context k ++ bigEndian 4 i, plaintext⟩ ∈
        c.objectEncryptions k' := by
      obtain h | h := List.mem_append.mp hobject
      · exact ⟨_, h⟩
      · exact ⟨_, h⟩
    obtain ⟨j, chunk, hchunk, heq⟩ := mem_objectEncryptions.mp hobject
    injection heq with hdek hnonce hdata hplaintext
    obtain rfl : k = k' := Kind.domain_inj (List.cons.inj hnonce).1
    obtain ⟨hrandom, hnumber⟩ := List.append_inj' hnonce (by simp)
    obtain ⟨hcontext, -⟩ := List.append_inj' hdata (by simp)
    have hblocks := hfresh c hc hdek.symm (List.cons.inj hrandom).2.symm hcontext.symm
    rw [hblocks] at hchunk
    have hj := (List.getElem?_eq_some_iff.mp hchunk).1
    obtain rfl : i = j := bigEndian_inj (by omega) (by omega) hnumber
    subst hplaintext
    exact ⟨hchunk, hciphertext⟩

/-- Whatever file stands in place of an object, what is handed out of it before a read raises
is the front of what the exporter wrote, and who reads to the end has read the object. -/
theorem reader_authentic (x : Crypto) (backups : List Backup) (hideal : Ideal x backups) (b : Backup)
    (k : Kind) (hfresh : Fresh backups b k) (metadata : Metadata) (file : Bytes)
    (hobject : b.object x k = .ok (metadata, file)) (forged : Bytes) (stat now : Stat) :
    (∀ sizes : List (Option Int),
      delivered x now forged stat metadata b.dek (b.context k) [k.domain] sizes <+: (b.blocks k).flatten) ∧
    (∀ r (sizes : List Nat) blocks r',
      DecryptingReader.init forged stat metadata b.dek (b.context k) [k.domain] = .ok r →
      r.readAll x now sizes = .ok (blocks, r') →
      r'.finished = true ∨ (∃ i n : Nat, sizes[i]? = some n ∧ 0 < n ∧ blocks[i]? = some []) → forged = file) := by
  obtain ⟨harchived, hjoin, hlength⟩ := archive_ok hobject
  have hopens := hideal.opensOnly hfresh hlength
  constructor
  · intro sizes
    unfold delivered
    split
    · rename_i r hinit
      have h : [] ++ handOut x now sizes r <+: _ := (init_genuine harchived hinit).handOut hopens harchived.chunks sizes
      rwa [List.nil_append, hjoin] at h
    · exact List.nil_prefix
  · intro r sizes blocks r' hinit hread hend
    obtain ⟨hlast, hfinished⟩ := (init_genuine harchived hinit).readAll hopens harchived.chunks sizes hread
    refine hlast.at_end harchived.content ?_
    exact hend.elim id fun hempty => hfinished (.inr hempty)

/-! ## One archive of three bytes -/

/-- A backup of the text `hi!`, without anchors. -/
def sampleBackup : Backup where
  dek := sampleKey
  random _ := samplePrefix.drop 1
  context _ := [123, 125]
  blocks | .archive => [[104, 105], [33]] | .anchors => []
  manifestRandom := []
  manifestData := []
  manifestPlaintext := []

/-- AES-GCM opens the one record that was written. -/
def sealedCrypto : Crypto where
  encrypt := sampleCrypto.encrypt
  decrypt key nonce ciphertext data :=
    if key = sampleKey ∧ nonce = samplePrefix ++ bigEndian 4 0 ∧ data = [123, 125] ++ bigEndian 4 0 ∧
        ciphertext = sampleCrypto.encrypt key nonce [104, 105, 33] data then some [104, 105, 33]
    else none
  sha256 := sampleCrypto.sha256

theorem sealedCrypto_ideal : Ideal sealedCrypto [sampleBackup] where
  authentic key nonce ciphertext data plaintext hopen := by
    refine ⟨sampleBackup, List.mem_singleton_self _, ?_⟩
    change (if _ then _ else none) = some plaintext at hopen
    split at hopen
    · rename_i h
      obtain ⟨rfl, rfl, rfl, hciphertext⟩ := h
      obtain rfl := Option.some.inj hopen
      exact ⟨by decide +kernel, hciphertext⟩
    · cases hopen

def sampleMetadata : Metadata := ⟨sampleCrypto.sha256 [], 44, 1, "0001020304050607"⟩

/-- The archive up to its tag, and all of it. -/
def sampleFront : Bytes := magic ++ [0, 0, 0, 19] ++ [34, 37, 212]
def sampleFile : Bytes := sampleFront ++ sampleTag

/-- The archive with another last byte. -/
def changedTag : Bytes := sampleFront ++ sampleTag.dropLast ++ [0]

/-- An archive whose last byte was changed is not read to its end. -/
theorem changedTag_authentic :
    delivered sealedCrypto (fileStat 1 2 0 sampleFile) changedTag (fileStat 1 2 0 sampleFile) sampleMetadata sampleKey
        [123, 125] [0] [some 2, some 5] <+: [104, 105, 33] ∧
      ¬ ∃ r sizes blocks r', DecryptingReader.init changedTag (fileStat 1 2 0 sampleFile) sampleMetadata sampleKey
          [123, 125] [0] = .ok r ∧
        r.readAll sealedCrypto (fileStat 1 2 0 sampleFile) sizes = .ok (blocks, r') ∧ r'.finished = true := by
  have hfresh : Fresh [sampleBackup] sampleBackup .archive := by
    intro c hc _ _ _
    rw [List.mem_singleton.mp hc]
  have hobject : sampleBackup.object sealedCrypto .archive = .ok (sampleMetadata, sampleFile) := by decide +kernel
  obtain ⟨hdelivered, hread⟩ := reader_authentic sealedCrypto [sampleBackup] sealedCrypto_ideal sampleBackup .archive
    hfresh sampleMetadata sampleFile hobject changedTag (fileStat 1 2 0 sampleFile) (fileStat 1 2 0 sampleFile)
  refine ⟨hdelivered [some 2, some 5], ?_⟩
  rintro ⟨r, sizes, blocks, r', hinit, hall, hfin⟩
  have hsame := hread r sizes blocks r' hinit hall (.inl hfin)
  exact absurd hsame (by decide +kernel)

end AuthenticatedStream
