import TandemAgents.ByteFields

/-!
# The encrypted records of a backup archive

`EncryptingWriter` cuts what is written into chunks and appends one AES-GCM record for
each; `DecryptingReader` reads the records back, chunk by chunk, as far as a bounded read
asks. The cipher and the digest are parameters.
-/
namespace BackupStream

open ByteFields

set_option maxRecDepth 20000

/-- `CHUNK_SIZE`. -/
def chunkSize : Nat := 1024 * 1024

/-- `MAGIC`. -/
def magic : Bytes := "TANDEM-BACKUP-AEAD-1\n".toList.map (fun c => UInt8.ofNat c.toNat)

/-- `AESGCM` and `hashlib.sha256`, whose digest is read in hexadecimal. -/
structure Crypto where
  encrypt : (key nonce plaintext data : Bytes) → Bytes
  decrypt : (key nonce ciphertext data : Bytes) → Option Bytes
  sha256 : Bytes → String

/-- AES-GCM, with the keys and nonces of the archive and on texts up to a chunk, decrypts what
it encrypted under the same associated data, and appends a tag of 16 bytes. -/
structure Crypto.Sound (x : Crypto) : Prop where
  opens : ∀ key nonce plaintext data, key.length = 32 → nonce.length = 12 → plaintext.length ≤ chunkSize →
    x.decrypt key nonce (x.encrypt key nonce plaintext data) data = some plaintext
  tagged : ∀ key nonce plaintext data, key.length = 32 → nonce.length = 12 → plaintext.length ≤ chunkSize →
    (x.encrypt key nonce plaintext data).length = plaintext.length + 16

inductive StreamError where
  | invalidMaterial
  | exceedsNonceSpace
  | invalidMetadata
  | invalidNoncePrefix
  | invalidNonceDomain
  | changedWhileOpening
  | invalidMagic
  | truncated
  | trailingData
  | digestChanged
  | invalidRecordLength
  | invalidTag
  | invalidPlaintextLength
  | unboundedRead
  | trailingPlaintext
  deriving DecidableEq, Repr

def StreamError.text : StreamError → String
  | .invalidMaterial => "invalid backup encryption material"
  | .exceedsNonceSpace => "backup archive exceeds nonce space"
  | .invalidMetadata => "invalid encrypted backup metadata"
  | .invalidNoncePrefix => "invalid backup nonce prefix"
  | .invalidNonceDomain => "backup nonce domain is invalid"
  | .changedWhileOpening => "encrypted backup object changed while opening"
  | .invalidMagic => "invalid encrypted backup object magic"
  | .truncated => "truncated encrypted backup object"
  | .trailingData => "encrypted backup object has trailing data"
  | .digestChanged => "encrypted backup object digest or identity changed"
  | .invalidRecordLength => "invalid encrypted backup record length"
  | .invalidTag => ""
  | .invalidPlaintextLength => "invalid encrypted backup plaintext length"
  | .unboundedRead => "backup verifier requires bounded streaming reads"
  | .trailingPlaintext => "backup tar has nonzero trailing plaintext"

/-- What `finish` returns of a stream. -/
structure Metadata where
  sha256 : String
  size : Int
  chunks : Int
  noncePrefix : String
  deriving DecidableEq

/-! ## The writer -/

/-- The writer, with the file behind it; `digest` is what was hashed so far. -/
structure EncryptingWriter where
  output : Bytes
  key : Bytes
  noncePrefix : Bytes
  context : Bytes
  buffer : Bytes
  index : Nat
  digest : Bytes
  size : Nat

namespace EncryptingWriter

/-- `_record`. -/
def record (data : Bytes) (w : EncryptingWriter) : EncryptingWriter :=
  { w with output := w.output ++ data, digest := w.digest ++ data, size := w.size + data.length }

/-- `__init__` on a new file; the context is given as its canonical JSON. -/
def init (key noncePrefix context : Bytes) : Except StreamError EncryptingWriter :=
  if key.length ≠ 32 ∨ noncePrefix.length ≠ 8 then .error .invalidMaterial
  else .ok (record magic ⟨[], key, noncePrefix, context, [], 0, [], 0⟩)

section
variable (x : Crypto)

/-- The ciphertext of the chunk in front of the buffer. -/
def ciphertext (size : Nat) (w : EncryptingWriter) : Bytes :=
  x.encrypt w.key (w.noncePrefix ++ bigEndian 4 w.index) (w.buffer.take size) (w.context ++ bigEndian 4 w.index)

/-- `_flush_chunk`. -/
def flushChunk (size : Nat) (w : EncryptingWriter) : Except StreamError EncryptingWriter :=
  if 2 ^ 32 ≤ w.index then .error .exceedsNonceSpace
  else
    let sealed := w.ciphertext x size
    let written := record sealed (record (bigEndian 4 sealed.length) { w with buffer := w.buffer.drop size })
    .ok { written with index := w.index + 1 }

/-- The loop of `write`; each round takes a chunk off the buffer, so its length is rounds
enough. -/
def flushFull : Nat → EncryptingWriter → Except StreamError EncryptingWriter
  | 0, w => .ok w
  | rounds + 1, w => if chunkSize ≤ w.buffer.length then (w.flushChunk x chunkSize).bind (flushFull rounds) else .ok w

/-- `write`. -/
def write (data : Bytes) (w : EncryptingWriter) : Except StreamError EncryptingWriter :=
  flushFull x (w.buffer ++ data).length { w with buffer := w.buffer ++ data }

/-- One `write` after another. -/
def writeAll (blocks : List Bytes) (w : EncryptingWriter) : Except StreamError EncryptingWriter :=
  blocks.foldlM (fun w data => w.write x data) w

/-- `finish`, with the file it leaves. -/
def finish (w : EncryptingWriter) : Except StreamError (Metadata × Bytes) :=
  (if w.buffer ≠ [] then w.flushChunk x w.buffer.length else .ok w).map fun w =>
    (⟨x.sha256 w.digest, w.size, w.index, hex w.noncePrefix⟩, w.output)

end
end EncryptingWriter

/-- A writer opened, fed and finished. -/
def archive (x : Crypto) (key noncePrefix context : Bytes) (blocks : List Bytes) :
    Except StreamError (Metadata × Bytes) := do
  let w ← EncryptingWriter.init key noncePrefix context
  let w ← w.writeAll x blocks
  w.finish x

/-! ## The reader -/

/-- What `fstat` says of the file. -/
structure Stat where
  regular : Bool
  nlink : Nat
  dev : Nat
  ino : Nat
  size : Nat
  mtimeNs : Int
  deriving DecidableEq

/-- The reader; `source` is what it has not read of the file. -/
structure DecryptingReader where
  source : Bytes
  before : Stat
  metadata : Metadata
  key : Bytes
  noncePrefix : Bytes
  context : Bytes
  digest : Bytes
  size : Nat
  index : Nat
  buffer : Bytes
  finished : Bool

namespace DecryptingReader

/-- `_read_exact`. -/
def readExact (count : Nat) (r : DecryptingReader) : Except StreamError (Bytes × DecryptingReader) :=
  let value := r.source.take count
  if value.length ≠ count then .error .truncated
  else .ok (value, { r with
    source := r.source.drop count, digest := r.digest ++ value, size := r.size + value.length })

/-- `__init__` on a file that can be opened. -/
def init (file : Bytes) (stat : Stat) (metadata : Metadata) (dek context domain : Bytes) :
    Except StreamError DecryptingReader :=
  if dek.length ≠ 32 ∨ metadata.chunks ≤ 0 then .error .invalidMetadata
  else match fromHex metadata.noncePrefix with
    | none => .error .invalidNoncePrefix
    | some noncePrefix =>
      if noncePrefix.length ≠ 8 ∨ noncePrefix.take 1 ≠ domain then .error .invalidNonceDomain
      else if stat.regular = false ∨ stat.nlink ≠ 1 ∨ (stat.size : Int) ≠ metadata.size then
        .error .changedWhileOpening
      else
        (readExact magic.length ⟨file, stat, metadata, dek, noncePrefix, context, [], 0, 0, [], false⟩).bind
          fun (value, r) => if value ≠ magic then .error .invalidMagic else .ok r

section
variable (x : Crypto) (now : Stat)

/-- The file is still the one that was opened. -/
def sameFile (r : DecryptingReader) : Bool :=
  decide (now.dev = r.before.dev ∧ now.ino = r.before.ino ∧ now.size = r.before.size ∧ now.mtimeNs = r.before.mtimeNs)

/-- `_next_chunk` behind the last record. -/
def endOfStream (r : DecryptingReader) : Except StreamError DecryptingReader :=
  if r.source ≠ [] then .error .trailingData
  else if sameFile now r = false ∨ (r.size : Int) ≠ r.metadata.size ∨ x.sha256 r.digest ≠ r.metadata.sha256 then
    .error .digestChanged
  else .ok { r with finished := true }

/-- `_next_chunk`. -/
def nextChunk (r : DecryptingReader) : Except StreamError DecryptingReader :=
  if (r.index : Int) = r.metadata.chunks then endOfStream x now r
  else do
    let (header, r) ← readExact 4 r
    let length := fromBigEndian header
    if ¬ (17 ≤ length ∧ length ≤ chunkSize + 16) then .error .invalidRecordLength
    else
      let (sealed, r) ← readExact length r
      let index := bigEndian 4 r.index
      match x.decrypt r.key (r.noncePrefix ++ index) sealed (r.context ++ index) with
      | none => .error .invalidTag
      | some plaintext =>
        if plaintext = [] ∨ chunkSize < plaintext.length ∨
            ((r.index : Int) + 1 < r.metadata.chunks ∧ plaintext.length ≠ chunkSize) then
          .error .invalidPlaintextLength
        else .ok { r with buffer := r.buffer ++ plaintext, index := r.index + 1 }

/-- The loop of `read`: each round reads a chunk or reaches the end of the stream. -/
def fill (count : Nat) : Nat → DecryptingReader → Except StreamError DecryptingReader
  | 0, r => .ok r
  | rounds + 1, r =>
    if r.buffer.length < count ∧ r.finished = false then (r.nextChunk x now).bind (fill count rounds) else .ok r

/-- `read`; the rounds of its loop are those that are left until the end of the stream. -/
def read (size : Option Int) (r : DecryptingReader) : Except StreamError (Bytes × DecryptingReader) :=
  match size with
  | none => .error .unboundedRead
  | some size =>
    if size < 0 then .error .unboundedRead
    else
      (fill x now size.toNat ((r.metadata.chunks - r.index).toNat + 1) r).map fun r =>
        (r.buffer.take size.toNat, { r with buffer := r.buffer.drop size.toNat })

/-- One bounded `read` after another. -/
def readAll : List Nat → DecryptingReader → Except StreamError (List Bytes × DecryptingReader)
  | [], r => .ok ([], r)
  | size :: sizes, r => do
    let (block, r) ← r.read x now (some size)
    let (blocks, r) ← readAll sizes r
    return (block :: blocks, r)

end
end DecryptingReader

/-- What `fstat` says of a regular file with one link. -/
def fileStat (dev ino : Nat) (mtimeNs : Int) (file : Bytes) : Stat := ⟨true, 1, dev, ino, file.length, mtimeNs⟩

/-- What bounded reads return of a stream that was just written. -/
def readBack (x : Crypto) (key noncePrefix context domain : Bytes) (blocks : List Bytes) (stat : Bytes → Stat)
    (sizes : List Nat) : Except StreamError (List Bytes) := do
  let (metadata, file) ← archive x key noncePrefix context blocks
  let r ← DecryptingReader.init file (stat file) metadata key context domain
  let (read, _) ← r.readAll x (stat file) sizes
  return read

end BackupStream
