import TandemAgents.BackupStream
import TandemAgents.Pieces

/-!
# What the reader gives back of a stream

Behind any writes the file holds the records of a cut of everything written, and the
reader gives out the same bytes in slices of the sizes it is asked for. Writer and reader
agree on nothing but the pieces.
-/
namespace StreamRoundTrip

open ByteFields Pieces BackupStream

set_option maxRecDepth 20000

section
variable (x : Crypto) (key noncePrefix context : Bytes)

/-- A chunk as it is encrypted. -/
def sealChunk (index : Nat) (chunk : Bytes) : Bytes :=
  x.encrypt key (noncePrefix ++ bigEndian 4 index) chunk (context ++ bigEndian 4 index)

/-- The record of a chunk. -/
def chunkRecord (index : Nat) (chunk : Bytes) : Bytes :=
  bigEndian 4 (sealChunk x key noncePrefix context index chunk).length ++ sealChunk x key noncePrefix context index chunk

/-- The records of chunks that are numbered from `index` on. -/
def records : Nat → List Bytes → Bytes
  | _, [] => []
  | index, c :: cs => chunkRecord x key noncePrefix context index c ++ records (index + 1) cs

/-- What the writer has recorded when the pieces are flushed. -/
structure Writing (pieces : List Bytes) (w : EncryptingWriter) : Prop where
  sameKey : w.key = key
  samePrefix : w.noncePrefix = noncePrefix
  sameContext : w.context = context
  index : w.index = pieces.length
  output : w.output = magic ++ records x key noncePrefix context 0 pieces
  digest : w.digest = w.output
  size : w.size = w.output.length

/-- What is known of a finished stream. -/
structure Archived (pieces : List Bytes) (metadata : Metadata) (file : Bytes) : Prop where
  content : file = magic ++ records x key noncePrefix context 0 pieces
  sha256 : metadata.sha256 = x.sha256 file
  size : metadata.size = file.length
  chunks : metadata.chunks = pieces.length
  noncePrefix : metadata.noncePrefix = hex noncePrefix

/-- A reader that has given out or buffered the pieces in `front` and has not read those
in `back`. -/
structure Reading (now : Stat) (file : Bytes) (front back : List Bytes) (r : DecryptingReader) : Prop where
  sameKey : r.key = key
  samePrefix : r.noncePrefix = noncePrefix
  sameContext : r.context = context
  before : r.before = now
  archived : Archived x key noncePrefix context (front ++ back) r.metadata file
  index : r.index = front.length
  source : r.source = records x key noncePrefix context front.length back
  digest : r.digest ++ r.source = file
  size : r.size = r.digest.length
  finished : r.finished = true → back = []

end

variable {x : Crypto} {key noncePrefix context : Bytes}

theorem records_append (index : Nat) (cs ds : List Bytes) : records x key noncePrefix context index (cs ++ ds) =
    records x key noncePrefix context index cs ++ records x key noncePrefix context (index + cs.length) ds := by
  induction cs generalizing index with
  | nil => simp [records]
  | cons c cs ih =>
    have hindex : index + 1 + cs.length = index + (cs.length + 1) := by omega
    simp only [List.cons_append, records, ih, List.length_cons, List.append_assoc, hindex]

/-! ## Writing -/

section
variable {pieces : List Bytes} {w : EncryptingWriter}

/-- A flush adds the record of the chunk in front of the buffer. -/
theorem Writing.flushChunk (h : Writing x key noncePrefix context pieces w) (hindex : pieces.length < 2 ^ 32)
    (size : Nat) : ∃ w', w.flushChunk x size = .ok w' ∧
      Writing x key noncePrefix context (pieces ++ [w.buffer.take size]) w' ∧ w'.buffer = w.buffer.drop size := by
  have hlt : ¬ 2 ^ 32 ≤ w.index := by
    rw [h.index]
    omega
  have hsealed : w.ciphertext x size = sealChunk x key noncePrefix context pieces.length (w.buffer.take size) := by
    rw [EncryptingWriter.ciphertext, h.sameKey, h.samePrefix, h.sameContext, h.index, sealChunk]
  rw [EncryptingWriter.flushChunk, if_neg hlt]
  refine ⟨_, rfl, ?_, rfl⟩
  constructor
  · exact h.sameKey
  · exact h.samePrefix
  · exact h.sameContext
  · simp [h.index]
  · simp [EncryptingWriter.record, hsealed, h.output, records_append, records, chunkRecord]
  · simp [EncryptingWriter.record, h.digest]
  · simp [EncryptingWriter.record, h.size]
    omega

/-- The loop of `write` leaves less than a chunk in the buffer. -/
theorem Writing.flushFull (rounds : Nat) (h : Writing x key noncePrefix context pieces w)
    (hfull : ∀ c ∈ pieces, c.length = chunkSize) (hrounds : w.buffer.length ≤ rounds)
    (hlimit : (pieces.flatten ++ w.buffer).length ≤ 2 ^ 32 * chunkSize) :
    ∃ pieces' w', w.flushFull x rounds = .ok w' ∧ Writing x key noncePrefix context pieces' w' ∧
      (∀ c ∈ pieces', c.length = chunkSize) ∧ w'.buffer.length < chunkSize ∧
      pieces'.flatten ++ w'.buffer = pieces.flatten ++ w.buffer := by
  induction rounds generalizing pieces w with
  | zero =>
    have hpos : 0 < chunkSize := by decide
    exact ⟨pieces, w, rfl, h, hfull, by omega, rfl⟩
  | succ rounds ih =>
    rw [EncryptingWriter.flushFull]
    by_cases hchunk : chunkSize ≤ w.buffer.length
    · have hpos : 0 < chunkSize := by decide
      have hindex : pieces.length < 2 ^ 32 := by
        rw [List.length_append, length_flatten_full hfull] at hlimit
        refine Nat.lt_of_mul_lt_mul_right (a := chunkSize) ?_
        omega
      obtain ⟨w', hrun, hw', hbuffer⟩ := h.flushChunk hindex chunkSize
      have htake : (w.buffer.take chunkSize).length = chunkSize := by
        rw [List.length_take]
        omega
      have hjoin : (pieces ++ [w.buffer.take chunkSize]).flatten ++ w'.buffer = pieces.flatten ++ w.buffer := by
        simp [hbuffer]
      have hfull' : ∀ c ∈ pieces ++ [w.buffer.take chunkSize], c.length = chunkSize := by
        intro c hc
        obtain hc | hc := List.mem_append.mp hc
        · exact hfull c hc
        · rw [List.mem_singleton.mp hc, htake]
      have hrest : w'.buffer.length ≤ rounds := by
        rw [hbuffer, List.length_drop]
        omega
      obtain ⟨ps, v, hv, hps, hpfull, hvlen, hvjoin⟩ := ih hw' hfull' hrest (by rw [hjoin]; exact hlimit)
      refine ⟨ps, v, ?_, hps, hpfull, hvlen, hvjoin.trans hjoin⟩
      rw [if_pos hchunk, hrun]
      exact hv
    · exact ⟨pieces, w, if_neg hchunk, h, hfull, by omega, rfl⟩

/-- What any writes leave behind: full pieces, and less than a chunk to come. -/
theorem Writing.writeAll (blocks : List Bytes) (h : Writing x key noncePrefix context pieces w)
    (hfull : ∀ c ∈ pieces, c.length = chunkSize) (hless : w.buffer.length < chunkSize)
    (hlimit : (pieces.flatten ++ w.buffer ++ blocks.flatten).length ≤ 2 ^ 32 * chunkSize) :
    ∃ pieces' w', w.writeAll x blocks = .ok w' ∧ Writing x key noncePrefix context pieces' w' ∧
      (∀ c ∈ pieces', c.length = chunkSize) ∧ w'.buffer.length < chunkSize ∧
      pieces'.flatten ++ w'.buffer = pieces.flatten ++ w.buffer ++ blocks.flatten := by
  induction blocks generalizing pieces w with
  | nil => exact ⟨pieces, w, rfl, h, hfull, hless, by simp⟩
  | cons data blocks ih =>
    have hw : Writing x key noncePrefix context pieces { w with buffer := w.buffer ++ data } := { h with }
    simp only [List.flatten_cons, List.length_append] at hlimit
    obtain ⟨ps, v, hv, hps, hpfull, hvlen, hvjoin⟩ := hw.flushFull (w.buffer ++ data).length hfull (Nat.le_refl _)
      (by simp only [List.length_append]; omega)
    have hlen := congrArg List.length hvjoin
    simp only [List.length_append] at hlen
    obtain ⟨qs, u, hu, hqs, hqfull, hulen, hujoin⟩ := ih hps hpfull hvlen (by simp only [List.length_append]; omega)
    refine ⟨qs, u, ?_, hqs, hqfull, hulen, ?_⟩
    · rw [EncryptingWriter.writeAll, List.foldlM_cons, EncryptingWriter.write, hv]
      exact hu
    · rw [hujoin, hvjoin]
      simp

variable (x context) in
/-- A stream within the limit is archived, in pieces that are a cut of what was written. -/
theorem archive_archived (hkey : key.length = 32) (hnonce : noncePrefix.length = 8) {blocks : List Bytes}
    (hne : blocks.flatten ≠ []) (hlimit : blocks.flatten.length ≤ 2 ^ 32 * chunkSize) :
    ∃ pieces metadata file, archive x key noncePrefix context blocks = .ok (metadata, file) ∧
      Archived x key noncePrefix context pieces metadata file ∧ Cut chunkSize pieces ∧
      pieces.flatten = blocks.flatten := by
  have hpos : 0 < chunkSize := by decide
  obtain ⟨w₀, hinit, hstart, hempty⟩ : ∃ w₀, EncryptingWriter.init key noncePrefix context = .ok w₀ ∧
      Writing x key noncePrefix context [] w₀ ∧ w₀.buffer = [] := by
    refine ⟨EncryptingWriter.record magic ⟨[], key, noncePrefix, context, [], 0, [], 0⟩, ?_, ?_, rfl⟩
    · rw [EncryptingWriter.init, if_neg]
      omega
    · constructor <;> simp [EncryptingWriter.record, records]
  obtain ⟨ps, w, hw, hps, hfull, hless, hjoin⟩ := hstart.writeAll blocks (by simp) (by rw [hempty]; exact hpos)
    (by simpa [hempty] using hlimit)
  have hdata : ps.flatten ++ w.buffer = blocks.flatten := by simpa [hempty] using hjoin
  have hfinish : ∀ qs v, Writing x key noncePrefix context qs v →
      Archived x key noncePrefix context qs ⟨x.sha256 v.digest, v.size, v.index, hex v.noncePrefix⟩ v.output := by
    intro qs v hv
    exact ⟨hv.output, by rw [hv.digest], by rw [hv.size], by rw [hv.index], by rw [hv.samePrefix]⟩
  have hrun : archive x key noncePrefix context blocks = w.finish x := by
    unfold archive
    rw [hinit]
    change (w₀.writeAll x blocks).bind (fun w => w.finish x) = _
    rw [hw]
    rfl
  by_cases hbuffer : w.buffer = []
  · refine ⟨ps, _, _, ?_, hfinish ps w hps, ?_, ?_⟩
    · rw [hrun, EncryptingWriter.finish, if_neg (not_not.mpr hbuffer)]
      rfl
    · rw [hbuffer, List.append_nil] at hdata
      refine Cut.of_full hpos (fun hnil => hne ?_) hfull
      rw [← hdata, hnil, List.flatten_nil]
    · rw [← hdata, hbuffer, List.append_nil]
  · -- the rest of the buffer is the last piece
    have hblen : 0 < w.buffer.length := List.length_pos_iff.mpr hbuffer
    have hindex : ps.length < 2 ^ 32 := by
      have hlen := congrArg List.length hdata
      rw [List.length_append, length_flatten_full hfull] at hlen
      refine Nat.lt_of_mul_lt_mul_right (a := chunkSize) ?_
      omega
    obtain ⟨v, hv, hqs, -⟩ := hps.flushChunk hindex w.buffer.length
    rw [List.take_length] at hqs
    refine ⟨ps ++ [w.buffer], _, _, ?_, hfinish _ v hqs, ?_, ?_⟩
    · rw [hrun, EncryptingWriter.finish, if_pos hbuffer, hv]
      rfl
    · exact .append hfull (.last hblen (by omega))
    · simpa using hdata

end

/-! ## Reading -/

section
variable {now : Stat} {file : Bytes} {front back : List Bytes} {r : DecryptingReader}

theorem readExact_prefix (value rest : Bytes) (h : r.source = value ++ rest) :
    r.readExact value.length = .ok (value, { r with
      source := rest, digest := r.digest ++ value, size := r.size + value.length }) := by
  simp [DecryptingReader.readExact, h]

/-- The next chunk goes into the buffer. -/
theorem Reading.nextChunk {c : Bytes} (hx : x.Sound) (hkey : key.length = 32) (hnonce : noncePrefix.length = 8)
    (h : Reading x key noncePrefix context now file front (c :: back) r) (hcut : Cut chunkSize (c :: back)) :
    ∃ r', r.nextChunk x now = .ok r' ∧ Reading x key noncePrefix context now file (front ++ [c]) back r' ∧
      r'.buffer = r.buffer ++ c ∧ r'.finished = r.finished := by
  obtain ⟨hpos, hle, hinner⟩ := hcut.head (by decide)
  have hnonce : (noncePrefix ++ bigEndian 4 front.length).length = 12 := by simp [hnonce]
  have hsealed : (sealChunk x key noncePrefix context front.length c).length = c.length + 16 :=
    hx.tagged _ _ _ _ hkey hnonce hle
  have hopens : x.decrypt key (noncePrefix ++ bigEndian 4 front.length)
      (sealChunk x key noncePrefix context front.length c) (context ++ bigEndian 4 front.length) = some c :=
    hx.opens _ _ _ _ hkey hnonce hle
  have hchunk : chunkSize = 1048576 := by decide
  have hlength : fromBigEndian (bigEndian 4 (c.length + 16)) = c.length + 16 :=
    fromBigEndian_bigEndian (by omega)
  have hchunks : r.metadata.chunks = front.length + (back.length + 1) := by
    rw [h.archived.chunks]
    simp
  have hmore : ¬ (r.index : Int) = r.metadata.chunks := by
    rw [h.index, hchunks]
    omega
  have hsource : r.source = bigEndian 4 (c.length + 16) ++ (sealChunk x key noncePrefix context front.length c ++
      records x key noncePrefix context (front.length + 1) back) := by
    rw [h.source, records, chunkRecord, hsealed, List.append_assoc]
  have hheader := readExact_prefix _ _ hsource
  rw [length_bigEndian] at hheader
  have hrecord := readExact_prefix (sealChunk x key noncePrefix context front.length c)
    (records x key noncePrefix context (front.length + 1) back)
    (r := { r with
      source := sealChunk x key noncePrefix context front.length c ++
        records x key noncePrefix context (front.length + 1) back
      digest := r.digest ++ bigEndian 4 (c.length + 16), size := r.size + 4 }) rfl
  rw [hsealed] at hrecord
  have hplain : ¬ (c = [] ∨ chunkSize < c.length ∨
      ((front.length : Int) + 1 < r.metadata.chunks ∧ c.length ≠ chunkSize)) := by
    rintro (hnil | hlarge | ⟨hless, hsize⟩)
    · rw [hnil] at hpos
      exact absurd hpos (by simp)
    · omega
    · refine hsize (hinner fun hnil => ?_)
      rw [hchunks, hnil] at hless
      simp at hless
  unfold DecryptingReader.nextChunk
  rw [if_neg hmore, hheader]
  simp only [bind, Except.bind]
  rw [hlength, if_neg (by omega), hrecord]
  simp only [h.sameKey, h.samePrefix, h.sameContext, h.index, hopens]
  rw [if_neg hplain]
  refine ⟨_, rfl, ?_, rfl, rfl⟩
  constructor
  · rfl
  · rfl
  · rfl
  · exact h.before
  · simpa using h.archived
  · simp
  · simp
  · rw [← h.digest, hsource]
    simp
  · simp [h.size, hsealed]
    omega
  · intro hfin
    exact absurd (h.finished hfin) (by simp)

/-- Behind the last chunk everything agrees. -/
theorem Reading.endOfStream (h : Reading x key noncePrefix context now file front [] r) :
    r.nextChunk x now = .ok { r with finished := true } := by
  have hindex : (r.index : Int) = r.metadata.chunks := by
    rw [h.index, h.archived.chunks]
    simp
  have hsource : r.source = [] := by rw [h.source, records]
  have hdigest : r.digest = file := by rw [← h.digest, hsource, List.append_nil]
  have hsame : DecryptingReader.sameFile now r = true := by simp [DecryptingReader.sameFile, h.before]
  unfold DecryptingReader.nextChunk DecryptingReader.endOfStream
  rw [if_pos hindex, if_neg (not_not.mpr hsource), if_neg]
  rw [hsame, h.size, hdigest, h.archived.size, h.archived.sha256]
  simp

/-- The loop of `read` buffers as much as is asked for, as far as there is any. -/
theorem Reading.fill (hx : x.Sound) (hkey : key.length = 32) (hnonce : noncePrefix.length = 8) (count rounds : Nat)
    (h : Reading x key noncePrefix context now file front back r) (hcut : back = [] ∨ Cut chunkSize back)
    (hrounds : back.length < rounds) :
    ∃ front' back' r', r.fill x now count rounds = .ok r' ∧
      Reading x key noncePrefix context now file front' back' r' ∧ (back' = [] ∨ Cut chunkSize back') ∧
      r'.buffer ++ back'.flatten = r.buffer ++ back.flatten ∧ (count ≤ r'.buffer.length ∨ back' = []) := by
  induction rounds generalizing front back r with
  | zero => omega
  | succ rounds ih =>
    rw [DecryptingReader.fill]
    by_cases hmore : r.buffer.length < count ∧ r.finished = false
    · rw [if_pos hmore]
      cases back with
      | nil =>
        have hdone : ∀ n, DecryptingReader.fill x now count n { r with finished := true } =
            .ok { r with finished := true } := by
          intro n
          cases n <;> simp [DecryptingReader.fill]
        rw [h.endOfStream]
        exact ⟨front, [], { r with finished := true }, hdone rounds, { h with finished := fun _ => rfl }, .inl rfl,
          rfl, .inr rfl⟩
      | cons c back =>
        have hcut' : Cut chunkSize (c :: back) := hcut.resolve_left (by simp)
        obtain ⟨r', hrun, hr', hbuffer, -⟩ := h.nextChunk hx hkey hnonce hcut'
        obtain ⟨f, b, q, hq, hread, hqcut, hjoin, hend⟩ := ih hr' hcut'.tail (by simpa using hrounds)
        refine ⟨f, b, q, ?_, hread, hqcut, ?_, hend⟩
        · rw [hrun]
          exact hq
        · rw [hjoin, hbuffer]
          simp
    · refine ⟨front, back, r, if_neg hmore, h, hcut, rfl, ?_⟩
      cases hfin : r.finished with
      | false => exact .inl (by simpa [hfin] using hmore)
      | true => exact .inr (h.finished hfin)

/-- A bounded read takes what it asks for off the front of what is left. -/
theorem Reading.read (hx : x.Sound) (hkey : key.length = 32) (hnonce : noncePrefix.length = 8) (size : Nat)
    (h : Reading x key noncePrefix context now file front back r) (hcut : back = [] ∨ Cut chunkSize back) :
    ∃ front' back' r', r.read x now (some size) = .ok ((r.buffer ++ back.flatten).take size, r') ∧
      Reading x key noncePrefix context now file front' back' r' ∧ (back' = [] ∨ Cut chunkSize back') ∧
      r'.buffer ++ back'.flatten = (r.buffer ++ back.flatten).drop size := by
  have hrounds : (r.metadata.chunks - r.index).toNat = back.length := by
    rw [h.archived.chunks, h.index, List.length_append]
    omega
  obtain ⟨f, b, q, hq, hread, hqcut, hjoin, hend⟩ := h.fill hx hkey hnonce size (back.length + 1) hcut (by omega)
  have htake : q.buffer.take size = (r.buffer ++ back.flatten).take size := by
    rw [← hjoin]
    obtain hle | hnil := hend
    · rw [List.take_append_of_le_length hle]
    · rw [hnil, List.flatten_nil, List.append_nil]
  refine ⟨f, b, { q with buffer := q.buffer.drop size }, ?_, { hread with }, hqcut, ?_⟩
  · rw [DecryptingReader.read, if_neg (by omega), Int.toNat_natCast, hrounds, hq, ← htake]
    rfl
  · rw [← hjoin]
    obtain hle | hnil := hend
    · rw [List.drop_append_of_le_length hle]
    · simp [hnil]

/-- Any reads give the rest of the stream in slices. -/
theorem Reading.readAll (hx : x.Sound) (hkey : key.length = 32) (hnonce : noncePrefix.length = 8) (sizes : List Nat)
    (h : Reading x key noncePrefix context now file front back r) (hcut : back = [] ∨ Cut chunkSize back) :
    ∃ r', r.readAll x now sizes = .ok (slices (r.buffer ++ back.flatten) sizes, r') := by
  induction sizes generalizing front back r with
  | nil => exact ⟨r, rfl⟩
  | cons size sizes ih =>
    obtain ⟨f, b, q, hq, hread, hqcut, hjoin⟩ := h.read hx hkey hnonce size hcut
    obtain ⟨p, hp⟩ := ih hread hqcut
    refine ⟨p, ?_⟩
    rw [DecryptingReader.readAll, hq]
    simp only [bind, Except.bind]
    rw [hp, hjoin]
    rfl

/-- The reader opens an archived stream under the metadata of its writer. -/
theorem open_reading (now : Stat) {pieces : List Bytes} {metadata : Metadata} (hkey : key.length = 32)
    (hnonce : noncePrefix.length = 8) (h : Archived x key noncePrefix context pieces metadata file)
    (hne : pieces ≠ []) (hstat : now.regular = true ∧ now.nlink = 1 ∧ now.size = file.length) :
    ∃ r, DecryptingReader.init file now metadata key context (noncePrefix.take 1) = .ok r ∧
      Reading x key noncePrefix context now file [] pieces r ∧ r.buffer = [] := by
  have hpos : 0 < pieces.length := List.length_pos_iff.mpr hne
  obtain ⟨hregular, hnlink, hsize⟩ := hstat
  have hmagic := readExact_prefix magic (records x key noncePrefix context 0 pieces)
    (r := ⟨file, now, metadata, key, noncePrefix, context, [], 0, 0, [], false⟩) h.content
  refine ⟨⟨records x key noncePrefix context 0 pieces, now, metadata, key, noncePrefix, context, [] ++ magic,
    0 + magic.length, 0, [], false⟩, ?_, ?_, rfl⟩
  · rw [DecryptingReader.init, if_neg (by rw [h.chunks]; omega), h.noncePrefix, fromHex_hex]
    simp only
    rw [if_neg (by simp [hnonce]), if_neg (by simp [hregular, hnlink, hsize, h.size]), hmagic]
    simp only [Except.bind]
    rw [if_neg (by simp)]
  · constructor
    · rfl
    · rfl
    · rfl
    · rfl
    · exact h
    · rfl
    · rfl
    · simp [h.content]
    · simp
    · simp

end

/-- Whatever is written, in whatever blocks, comes back in slices of the sizes asked for,
and no step raises. A read that asks for something and returns nothing has everything
before it. -/
theorem stream_round_trip (x : Crypto) (hx : x.Sound) (key noncePrefix context domain : Bytes)
    (hkey : key.length = 32) (hnonce : noncePrefix.length = 8) (hdomain : noncePrefix.take 1 = domain)
    (blocks : List Bytes) (hne : 0 < blocks.flatten.length) (hlimit : blocks.flatten.length ≤ 2 ^ 32 * chunkSize)
    (dev ino : Nat) (mtimeNs : Int) (sizes : List Nat) :
    ∃ read, readBack x key noncePrefix context domain blocks (fileStat dev ino mtimeNs) sizes = .ok read ∧
      read.flatten = blocks.flatten.take sizes.sum ∧
      ∀ k n, sizes[k]? = some n → 0 < n → read[k]? = some [] → (read.take k).flatten = blocks.flatten := by
  obtain ⟨pieces, metadata, file, harchive, harchived, hcut, hjoin⟩ :=
    archive_archived x context hkey hnonce (List.length_pos_iff.mp hne) hlimit
  obtain ⟨r, hopen, hreading, hbuffer⟩ := open_reading (fileStat dev ino mtimeNs file) hkey hnonce harchived
    hcut.ne_nil ⟨rfl, rfl, rfl⟩
  obtain ⟨r', hread⟩ := hreading.readAll hx hkey hnonce sizes (.inr hcut)
  rw [hbuffer, List.nil_append, hjoin] at hread
  refine ⟨slices blocks.flatten sizes, ?_, flatten_slices _ _, fun k n hk hn hempty => flatten_before_empty hk hn hempty⟩
  rw [hdomain] at hopen
  rw [readBack, harchive]
  change ((DecryptingReader.init file _ metadata key context domain).bind fun r =>
    (r.readAll x _ sizes).bind fun p => .ok p.1) = _
  rw [hopen]
  change ((r.readAll x _ sizes).bind fun p => .ok p.1) = _
  rw [hread]
  rfl

/-! ## A stream of three bytes -/

/-- The key stream and the tag of AES-256-GCM for the zero key, the nonce `00 01 .. 07 00 00 00 00`
and the data `7b 7d 00 00 00 00` on the text `hi!`; everywhere else a cipher of the same shape. -/
def sampleMask (i : Nat) : UInt8 := [74, 76, 245].getD i 0
def sampleTag : Bytes := [112, 198, 96, 210, 79, 38, 213, 234, 151, 10, 103, 103, 228, 26, 232, 76]

def sampleCrypto : Crypto where
  encrypt _ _ plaintext _ := plaintext.mapIdx (fun i b => b ^^^ sampleMask i) ++ sampleTag
  decrypt _ _ ciphertext _ :=
    if 16 ≤ ciphertext.length ∧ ciphertext.drop (ciphertext.length - 16) = sampleTag then
      some ((ciphertext.take (ciphertext.length - 16)).mapIdx (fun i b => b ^^^ sampleMask i))
    else none
  sha256 _ := "41dc634577a20241cb4db03e52b6ce28e912348e0b9a7b46920242ce094d0f16"

theorem sampleCrypto_sound : sampleCrypto.Sound where
  opens key nonce plaintext data _ _ _ := by
    have htag : sampleTag.length = 16 := rfl
    have hmask : (plaintext.mapIdx (fun i b => b ^^^ sampleMask i)).mapIdx (fun i b => b ^^^ sampleMask i) =
        plaintext := by
      rw [List.mapIdx_mapIdx]
      refine List.ext_getElem (by simp) fun i _ _ => ?_
      simp [UInt8.xor_assoc]
    simp [sampleCrypto, htag, hmask]
  tagged key nonce plaintext data _ _ _ := by
    have htag : sampleTag.length = 16 := rfl
    simp [sampleCrypto, htag]

def sampleKey : Bytes := List.replicate 32 0
def samplePrefix : Bytes := [0, 1, 2, 3, 4, 5, 6, 7]

/-- The text `hi!` in two writes, under the context `{}`. -/
def sampleRead (sizes : List Nat) : Except StreamError (List Bytes) :=
  readBack sampleCrypto sampleKey samplePrefix [123, 125] [0] [[104, 105], [33]] (fileStat 1 2 0) sizes

/-- Three bytes are read back. -/
theorem sampleRead_round_trip : ∃ read, sampleRead [2, 5, 5] = .ok read ∧ (read.take 2).flatten = [104, 105, 33] := by
  obtain ⟨read, hread, -, hempty⟩ := stream_round_trip sampleCrypto sampleCrypto_sound sampleKey samplePrefix [123, 125] [0]
    rfl rfl rfl [[104, 105], [33]] (by decide) (by decide) 1 2 0 [2, 5, 5]
  have hrun : sampleRead [2, 5, 5] = .ok [[104, 105], [33], []] := by decide +kernel
  obtain rfl : read = [[104, 105], [33], []] := by
    have h := hread.symm.trans hrun
    exact Except.ok.inj h
  exact ⟨_, hread, hempty 2 5 rfl (by decide) rfl⟩

/-- A read of no bytes returns nothing, in front of all three bytes. -/
theorem zero_read_ends_early : ∃ read, sampleRead [0, 5, 5] = .ok read ∧ read[0]? = some [] ∧
    (read.take 0).flatten ≠ [104, 105, 33] :=
  ⟨[[], [104, 105, 33], []], by decide +kernel, rfl, by decide⟩

end StreamRoundTrip
