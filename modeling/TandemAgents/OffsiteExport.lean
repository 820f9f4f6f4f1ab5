import Mathlib.Data.List.Nodup
import TandemAgents.ByteFields
import TandemAgents.SecurityRoots
import TandemAgents.SharedCalls

/-!
# The off-site copies of a backup

An export uploads its archive and its anchors, reads each back, and then its manifest, which
completes the backup. The storage transport makes calls on a bucket where other exports,
administrators and the clock are at work, and an upload whose export is gone may still arrive.
-/
namespace OffsiteExport

open PythonText ByteFields SecurityBundle SecurityRoots SharedCalls
open Keyring (require)

set_option maxRecDepth 20000

/-! ## The bucket -/

/-- The settings the transport reads of a bucket. -/
structure Settings where
  name : String
  uniformBucketLevelAccess : Bool
  publicAccessPrevention : String
  retentionPolicyLocked : Bool
  retentionPeriod : Option Int
  retentionPolicyEffectiveTime : Option Int
  versioningEnabled : Bool

structure Object where
  generation : Nat
  content : Bytes
  createdAt : Int

inductive Part where
  | archive | anchors | manifest
  deriving DecidableEq, Repr

def Part.fileName : Part → String
  | archive => "archive.aead"
  | anchors => "anchors.aead"
  | manifest => "manifest.json"

/-- The configuration of the transport, in as far as its requests depend on it. -/
structure Config where
  bucket : String
  organizationId : String
  deploymentId : String
  minimumRetentionSeconds : Int

/-- A staged file: whether `plain_path` and `_private_file` accept it, its size, the bytes that are
hashed and the bytes that are sent, and whether its `fstat` is the same after that. -/
structure Source where
  plain : Bool
  accepted : Bool
  name : String
  size : Int
  hashed : Bytes
  sent : Bytes
  unchanged : Bool

/-- One run of the exporter from the staged files on: its configuration, the names of its backup, the
files with the digests and sizes it asks for, and what the last checks of the host say. -/
structure Export where
  process : Nat
  config : Config
  remoteHost : String
  organizationId : String
  deploymentId : String
  backupId : String
  file : Part → Source
  sha256 : Part → String
  size : Part → Int
  quiescent : Bool
  sourceUnchanged : Bool

/-- The object key of a part. -/
def Export.key (e : Export) (p : Part) : String :=
  "v3/" ++ e.organizationId ++ "/" ++ e.deploymentId ++ "/" ++ e.backupId ++ "/" ++ p.fileName

/-- An object that was created, and the part of which export it is, unless someone else wrote it. -/
structure Created where
  writer : Option (Export × Part)
  key : String
  object : Object

/-- The bucket, the time, the last generation given out and all objects created so far. -/
structure Store where
  settings : Settings
  objects : String → Option Object
  generation : Nat
  now : Int
  created : List Created

/-- A create with `if_generation_match=0`: without a live object there is a new one, of a new generation. -/
def Store.create (writer : Option (Export × Part)) (key : String) (content : Bytes) (s : Store) : Store :=
  if (s.objects key).isSome then s
  else
    let object : Object := ⟨s.generation + 1, content, s.now⟩
    { s with
      objects := fun k => if k = key then some object else s.objects k
      generation := s.generation + 1
      created := s.created ++ [⟨writer, key, object⟩] }

def Store.remove (key : String) (s : Store) : Store :=
  { s with objects := fun k => if k = key then none else s.objects k }

/-- What goes on in the bucket besides the exports. A locked retention policy stays, at least as long, and an
object is removed, or replaced, only when the retention period is over. -/
inductive Other : Store → Store → Prop
  | time {s : Store} (d : Nat) : Other s { s with now := s.now + d }
  | settings {s : Store} (b : Settings) (hlocked : s.settings.retentionPolicyLocked = true →
      b.retentionPolicyLocked = true ∧ ∀ q, s.settings.retentionPeriod = some q → ∃ q', b.retentionPeriod = some q' ∧ q ≤ q') :
      Other s { s with settings := b }
  | create {s : Store} (key : String) (content : Bytes) : Other s (s.create none key content)
  | remove {s : Store} (key : String) (hretention : ∀ o, s.objects key = some o → ∀ q, s.settings.retentionPeriod = some q →
      o.createdAt + q ≤ s.now) : Other s (s.remove key)

/-! ## The storage transport -/

/-- What a download does with the sink it is given. -/
inductive SinkCall where
  | write (data : Bytes)
  | seek (offset : Nat)

/-- `_HashSink`: what it has hashed since it was last reset; it can only be reset to the beginning. -/
def hashSink : List SinkCall → Bytes → Option Bytes
  | [], data => some data
  | .write more :: calls, data => hashSink calls (data ++ more)
  | .seek offset :: calls, _ => if offset = 0 then hashSink calls [] else none

/-- The library, the digest in hexadecimal, and the calls of a download, which leave the object's bytes
in a sink, from the beginning again where the download restarts. -/
structure Platform where
  lib : Library
  sha256 : Bytes → String
  download : Bytes → List SinkCall
  download_whole : ∀ content, hashSink (download content) [] = some content

abbrev Call (α : Type) := Prog Store String α

/-- The fields of a request that an export chooses. -/
structure Request where
  objectKey : String
  sha256 : String
  size : Int

structure Response where
  request : Request
  ifAbsent : Bool := true
  verified : Bool
  created : Bool
  remoteGeneration : Nat
  remoteUri : String

section
variable (x : Platform)

/-- `_canonical_uuid`. -/
def canonicalUuid (value : String) : Except String Unit :=
  require (decide (x.lib.uuid value = some value)) "invalid backup object scope"

/-- `_object_key`. -/
def objectKey (value : String) : Except String (String × String × String) :=
  match (value.toList.splitOn '/').map String.ofList with
  | [version, organization, deployment, backup, name] => do
    require (decide (version = "v3") && [Part.archive, .anchors, .manifest].any fun p => decide (p.fileName = name))
      "invalid backup object key"
    canonicalUuid x organization
    canonicalUuid x deployment
    canonicalUuid x backup
    pure (organization, deployment, backup)
  | _ => .error "invalid backup object key"

/-- `_request`. -/
def checkRequest (config : Config) (r : Request) (expectedGeneration : Option Nat) : Except String Unit := do
  require (isHexText 64 r.sha256.toList && decide (0 < r.size ∧ r.size < 2 ^ 63)) "backup storage request fields are invalid"
  require (expectedGeneration.all fun g => decide (0 < g ∧ g < 2 ^ 64)) "backup storage generation is invalid"
  let (organization, deployment, _) ← objectKey x r.objectKey
  require (decide (organization = config.organizationId ∧ deployment = config.deploymentId))
    "backup storage object key is outside configured scope"

/-- The conditions of `_checked_bucket`. -/
def bucketFits (config : Config) (now : Int) (b : Settings) : Bool :=
  decide (b.name = config.bucket) && b.uniformBucketLevelAccess && decide (b.publicAccessPrevention = "enforced") &&
    b.retentionPolicyLocked && (b.retentionPeriod.any fun q => decide (config.minimumRetentionSeconds ≤ q)) &&
    (b.retentionPolicyEffectiveTime.any fun t => decide (t ≤ now)) && !b.versioningEnabled

/-- `_checked_bucket`. -/
def checkedBucket (config : Config) : Call Unit := Prog.look fun s =>
  require (bucketFits config s.now s.settings) "backup storage bucket lacks required private retention policy"

/-- `blob.upload_from_file(..., if_generation_match=0)`, with the generation of the new object. -/
def upload (e : Export) (p : Part) (key : String) (content : Bytes) : Call Nat :=
  .call (Store.create (some (e, p)) key content) fun s =>
    if (s.objects key).isSome then .raise "conditionNotMet" else .ret (s.generation + 1)

/-- `_put`. -/
def put (e : Export) (p : Part) (r : Request) : Call Nat := do
  let source := e.file p
  Prog.ofExcept (require source.accepted "encrypted backup source must be root-owned mode 0600")
  Prog.ofExcept (require (decide (((r.objectKey.toList.splitOn '/').getLast?.map String.ofList) = some source.name))
    "encrypted backup source name differs from object key")
  Prog.ofExcept (require (decide (source.size = r.size)) "encrypted backup source changed before upload")
  Prog.ofExcept (require (decide (x.sha256 source.hashed = r.sha256)) "encrypted backup source hash differs from request")
  let generation ← upload e p r.objectKey source.sent
  Prog.ofExcept (require source.unchanged "encrypted backup source changed during upload")
  return generation

/-- A metadata read: the generation and the size of the live object. -/
def reload (key : String) : Call (Nat × Nat) := Prog.look fun s =>
  (s.objects key).elim (.error "notFound") fun o => .ok (o.generation, o.content.length)

/-- `blob.download_to_file(sink, if_generation_match=generation)`. -/
def download (key : String) (generation : Nat) : Call Bytes := Prog.look fun s =>
  match s.objects key with
  | none => .error "notFound"
  | some o =>
    if o.generation ≠ generation then .error "conditionNotMet"
    else (hashSink (x.download o.content) []).elim (.error "backup storage readback only supports reset") .ok

/-- `_verify`. -/
def verify (r : Request) (expectedGeneration : Option Nat) : Call Nat := do
  let (generation, size) ← reload r.objectKey
  Prog.ofExcept (require (decide (0 < generation) && (expectedGeneration.all fun g => decide (generation = g)) &&
    decide ((size : Int) = r.size)) "backup storage object metadata differs from request")
  let sink ← download x r.objectKey generation
  Prog.ofExcept (require (decide ((sink.length : Int) = r.size ∧ x.sha256 sink = r.sha256))
    "backup storage readback differs from request")
  let (live, _) ← reload r.objectKey
  Prog.ofExcept (require (decide (live = generation)) "backup storage live object changed during readback")
  return generation

def remoteUri (config : Config) (key : String) : String :=
  "https://" ++ config.bucket ++ ".storage.googleapis.com/" ++ key

/-- `execute` of a `put_if_absent`. -/
def executePut (e : Export) (p : Part) (r : Request) : Call Response := do
  Prog.ofExcept (checkRequest x e.config r none)
  checkedBucket e.config
  let generation ← put x e p r
  checkedBucket e.config
  return { request := r, verified := false, created := true, remoteGeneration := generation,
           remoteUri := remoteUri e.config r.objectKey }

/-- `execute` of a `verify`. -/
def executeVerify (config : Config) (r : Request) (expectedGeneration : Option Nat) : Call Response := do
  Prog.ofExcept (checkRequest x config r expectedGeneration)
  checkedBucket config
  let generation ← verify x r expectedGeneration
  checkedBucket config
  return { request := r, verified := true, created := false, remoteGeneration := generation,
           remoteUri := remoteUri config r.objectKey }

/-! ## The exporter -/

/-- `call_command`, of a command that prints no more than that it failed. -/
def callCommand {α : Type} (command : Call α) : Call α :=
  command.mapError fun _ => "backup authority command failed or returned invalid output"

/-- `_check_receipt`. -/
def checkReceipt (remoteHost : String) (result : Response) (r : Request) (verified : Bool) : Except String String := do
  require (decide (result.request.objectKey = r.objectKey ∧ result.request.sha256 = r.sha256 ∧
      result.request.size = r.size) && result.ifAbsent && (result.verified == verified))
    "off-site uploader returned a mismatched receipt"
  let parsed ← (x.lib.urlsplit result.remoteUri).elim (.error "Invalid URL") .ok
  let port ← parsed.port.elim (.error "Port could not be cast to integer value") .ok
  let path := result.remoteUri.toList.drop (parsed.scheme.length + 3 + parsed.netloc.length)
  require (decide (parsed.scheme = "https" ∧ parsed.hostname = some remoteHost ∧ (port = none ∨ port = some 443)) &&
      (parsed.username.all fun t => decide (t = "")) && (parsed.password.all fun t => decide (t = "")) &&
      decide (parsed.query = "" ∧ parsed.fragment = "" ∧ path ≠ []))
    "off-site uploader did not attest a private HTTPS destination"
  pure result.remoteUri

structure Receipt where
  objectKey : String
  remoteUri : String
  sha256 : String
  size : Int
  remoteGeneration : Nat

def Export.request (e : Export) (p : Part) : Request := ⟨e.key p, e.sha256 p, e.size p⟩

/-- `put_verified_receipt`. -/
def putVerifiedReceipt (e : Export) (p : Part) : Call Receipt := do
  let r := e.request p
  let components := r.objectKey.toList.splitOn '/'
  Prog.ofExcept (require (isHexText 64 r.sha256.toList && decide (0 < r.size)) "invalid off-site object digest or length")
  Prog.ofExcept (require (e.file p).plain "backup paths must be absolute and contain no symlinks")
  Prog.ofExcept (require ("v3/".toList.isPrefixOf r.objectKey.toList && decide (['.', '.'] ∉ components) &&
    decide ([] ∉ components)) "invalid off-site object key")
  let created ← callCommand (executePut x e p r)
  Prog.ofExcept (require created.created "off-site uploader did not create an immutable object")
  let uri ← Prog.ofExcept (checkReceipt x e.remoteHost created r false)
  let generation := created.remoteGeneration
  Prog.ofExcept (require (decide (0 < generation ∧ generation < 2 ^ 64))
    "off-site uploader returned an invalid object generation")
  let check ← callCommand (executeVerify x e.config r (some generation))
  let again ← Prog.ofExcept (checkReceipt x e.remoteHost check r true)
  Prog.ofExcept (require (decide (again = uri)) "off-site verifier returned a different object URI")
  Prog.ofExcept (require (decide (check.remoteGeneration = generation))
    "off-site verifier returned a different object generation")
  return ⟨r.objectKey, uri, r.sha256, r.size, generation⟩

/-- The error of an export whose manifest may or may not be there. -/
def unconfirmed (e : Export) : String :=
  "backup manifest completion unconfirmed for backup " ++ e.backupId ++ "; reconcile " ++ e.key .manifest ++ " (sha256=" ++
    e.sha256 .manifest ++ ", size=" ++ toString (e.size .manifest) ++ ") remotely before retry"

/-- What an export returns. -/
structure Result where
  exported : Export
  receipt : Part → Receipt

/-- `exportedbackup`, from the staged files on. -/
def exportBackup (e : Export) : Call Result := do
  let archive ← putVerifiedReceipt x e .archive
  let anchors ← putVerifiedReceipt x e .anchors
  Prog.ofExcept (require e.quiescent "backup requires all hosted compose services stopped")
  Prog.ofExcept (require e.sourceUnchanged "backup source changed before commit")
  let manifest ← (putVerifiedReceipt x e .manifest).mapError fun _ => unconfirmed e
  return ⟨e, fun | .archive => archive | .anchors => anchors | .manifest => manifest⟩

end

/-! ## Later buckets -/

/-- What can come after a state of the bucket: objects are only added to the history, a locked policy stays, and
what is under retention is still there. -/
structure Store.Later (s t : Store) : Prop where
  now : s.now ≤ t.now
  generation : s.generation ≤ t.generation
  created : s.created <+: t.created
  locked : s.settings.retentionPolicyLocked = true → t.settings.retentionPolicyLocked = true ∧
    ∀ q, s.settings.retentionPeriod = some q → ∃ q', t.settings.retentionPeriod = some q' ∧ q ≤ q'
  retained : s.settings.retentionPolicyLocked = true → ∀ q, s.settings.retentionPeriod = some q →
    ∀ key o, s.objects key = some o → t.now < o.createdAt + q → t.objects key = some o

instance : Preorder Store where
  le := Store.Later
  le_refl s := ⟨Int.le_refl _, Nat.le_refl _, List.prefix_refl _, fun h => ⟨h, fun q hq => ⟨q, hq, Int.le_refl q⟩⟩,
    fun _ _ _ _ _ ho _ => ho⟩
  le_trans s t u hst htu := by
    refine ⟨Int.le_trans hst.now htu.now, Nat.le_trans hst.generation htu.generation, hst.created.trans htu.created, ?_, ?_⟩
    · intro hlocked
      obtain ⟨hlocked', hperiod⟩ := hst.locked hlocked
      obtain ⟨hlocked'', hperiod'⟩ := htu.locked hlocked'
      refine ⟨hlocked'', fun q hq => ?_⟩
      obtain ⟨q', hq', hle⟩ := hperiod q hq
      obtain ⟨q'', hq'', hle'⟩ := hperiod' q' hq'
      exact ⟨q'', hq'', Int.le_trans hle hle'⟩
    · intro hlocked q hq key o ho hnow
      obtain ⟨hlocked', hperiod⟩ := hst.locked hlocked
      obtain ⟨q', hq', hle⟩ := hperiod q hq
      have hlater := htu.now
      have hkept : t.objects key = some o := hst.retained hlocked q hq key o ho (by omega)
      exact htu.retained hlocked' q' hq' key o hkept (by omega)

/-- The bucket keeps objects at least as long as the configuration asks for. -/
def Retains (e : Export) (s : Store) : Prop :=
  s.settings.retentionPolicyLocked = true ∧ ∃ q, s.settings.retentionPeriod = some q ∧ e.config.minimumRetentionSeconds ≤ q

theorem Retains.later {e : Export} {s t : Store} (h : Retains e s) (hst : s ≤ t) : Retains e t := by
  obtain ⟨hlocked, q, hq, hle⟩ := h
  obtain ⟨hlocked', hperiod⟩ := Store.Later.locked hst hlocked
  obtain ⟨q', hq', hle'⟩ := hperiod q hq
  exact ⟨hlocked', q', hq', Int.le_trans hle hle'⟩

theorem retains_of_fits {e : Export} {s : Store} (h : bucketFits e.config s.now s.settings = true) : Retains e s := by
  simp only [bucketFits, Bool.and_eq_true] at h
  obtain ⟨⟨⟨⟨-, hlocked⟩, hperiod⟩, -⟩, -⟩ := h
  refine ⟨hlocked, ?_⟩
  cases hq : s.settings.retentionPeriod with
  | none => simp [hq] at hperiod
  | some q =>
    simp only [hq, Option.any_some, decide_eq_true_eq] at hperiod
    exact ⟨q, rfl, hperiod⟩

/-- The object a part of an export was uploaded as: it is there until its retention is over. -/
structure Placed (s : Store) (e : Export) (p : Part) (c : Created) : Prop where
  mem : c ∈ s.created
  writer : c.writer = some (e, p)
  key : c.key = e.key p
  retains : Retains e s
  kept : s.now < c.object.createdAt + e.config.minimumRetentionSeconds → s.objects c.key = some c.object

theorem Placed.later {s t : Store} {e : Export} {p : Part} {c : Created} (h : Placed s e p c) (hst : s ≤ t) :
    Placed t e p c := by
  have hlater : Store.Later s t := hst
  refine ⟨hlater.created.subset h.mem, h.writer, h.key, h.retains.later hst, fun hnow => ?_⟩
  obtain ⟨hlocked, q, hq, hle⟩ := h.retains
  have hago := hlater.now
  exact hlater.retained hlocked q hq _ _ (h.kept (by omega)) (by omega)

/-- The object has the digest and the size the export gave for the part. -/
structure Stored (x : Platform) (s : Store) (e : Export) (p : Part) (c : Created) : Prop extends Placed s e p c where
  sha256 : x.sha256 c.object.content = e.sha256 p
  size : (c.object.content.length : Int) = e.size p

theorem Stored.later {x : Platform} {s t : Store} {e : Export} {p : Part} {c : Created} (h : Stored x s e p c)
    (hst : s ≤ t) : Stored x t e p c := ⟨h.toPlaced.later hst, h.sha256, h.size⟩

/-- Live objects were created, each under a generation of its own; what an export created is kept; and a manifest
comes behind the parts it is the manifest of. -/
structure Invariant (x : Platform) (s : Store) : Prop where
  live : ∀ key o, s.objects key = some o → ∃ c ∈ s.created, c.key = key ∧ c.object = o
  bounded : ∀ c ∈ s.created, c.object.generation ≤ s.generation
  ordered : s.created.Pairwise fun c d => c.object.generation < d.object.generation
  placed : ∀ c ∈ s.created, ∀ e p, c.writer = some (e, p) → Placed s e p c
  committed : ∀ c ∈ s.created, ∀ e, c.writer = some (e, .manifest) → ∀ p, p ≠ .manifest →
    ∃ a, Stored x s e p a ∧ a.object.generation < c.object.generation

theorem Invariant.unique {x : Platform} {s : Store} (h : Invariant x s) {c d : Created} (hc : c ∈ s.created)
    (hd : d ∈ s.created) (heq : c.object.generation = d.object.generation) : c = d := by
  have hnodup : (s.created.map fun c => c.object.generation).Nodup :=
    List.pairwise_map.mpr (h.ordered.imp fun hlt => Nat.ne_of_lt hlt)
  exact List.inj_on_of_nodup_map hnodup hc hd heq

theorem create_absent {writer : Option (Export × Part)} {key : String} {content : Bytes} {s : Store}
    (h : s.objects key = none) : s.create writer key content =
      { s with
        objects := fun k => if k = key then some ⟨s.generation + 1, content, s.now⟩ else s.objects k
        generation := s.generation + 1
        created := s.created ++ [⟨writer, key, ⟨s.generation + 1, content, s.now⟩⟩] } := by
  rw [Store.create, h]
  rfl

theorem create_present {writer : Option (Export × Part)} {key : String} {content : Bytes} {s : Store} {o : Object}
    (h : s.objects key = some o) : s.create writer key content = s := by
  rw [Store.create, h]
  rfl

theorem le_create (writer : Option (Export × Part)) (key : String) (content : Bytes) (s : Store) :
    s ≤ s.create writer key content := by
  cases h : s.objects key with
  | some o =>
    rw [create_present h]
  | none =>
    rw [create_absent h]
    refine ⟨Int.le_refl _, Nat.le_succ _, List.prefix_append _ _, fun hl => ⟨hl, fun q hq => ⟨q, hq, Int.le_refl q⟩⟩, ?_⟩
    intro _ q _ k o ho _
    have hne : k ≠ key := by
      rintro rfl
      rw [h] at ho
      cases ho
    simp only [if_neg hne]
    exact ho

/-- An invariant that does not depend on what moves on. -/
theorem Invariant.moved {x : Platform} {s t : Store} (h : Invariant x s) (hst : s ≤ t) (hcreated : t.created = s.created)
    (hgeneration : t.generation = s.generation) (hobjects : ∀ key o, t.objects key = some o → s.objects key = some o) :
    Invariant x t where
  live key o ho := by
    obtain ⟨c, hc, hkey, hobject⟩ := h.live key o (hobjects key o ho)
    exact ⟨c, hcreated ▸ hc, hkey, hobject⟩
  bounded c hc := hgeneration ▸ h.bounded c (hcreated ▸ hc)
  ordered := hcreated ▸ h.ordered
  placed c hc e p hw := (h.placed c (hcreated ▸ hc) e p hw).later hst
  committed c hc e hw p hp := by
    obtain ⟨a, ha, hlt⟩ := h.committed c (hcreated ▸ hc) e hw p hp
    exact ⟨a, ha.later hst, hlt⟩

/-- A create keeps the invariant, where an export writes under its own key into a bucket that retains, and the
manifest behind the other parts. -/
theorem Invariant.create {x : Platform} {s : Store} (h : Invariant x s) (writer : Option (Export × Part)) (key : String)
    (content : Bytes) (hwriter : ∀ e p, writer = some (e, p) → key = e.key p ∧ Retains e s ∧
      (p = .manifest → ∀ p', p' ≠ .manifest → ∃ a, Stored x s e p' a)) : Invariant x (s.create writer key content) := by
  cases hlive : s.objects key with
  | some o =>
    rw [create_present hlive]
    exact h
  | none =>
    have hle := le_create writer key content s
    rw [create_absent hlive] at hle ⊢
    have hmem : ∀ {c}, c ∈ s.created ++ [(⟨writer, key, ⟨s.generation + 1, content, s.now⟩⟩ : Created)] →
        c ∈ s.created ∨ c = ⟨writer, key, ⟨s.generation + 1, content, s.now⟩⟩ := fun hc => by simpa using hc
    constructor
    · intro k o ho
      dsimp only at ho
      split at ho
      · rename_i heq
        obtain rfl := Option.some.inj ho
        exact ⟨_, List.mem_append_right _ (List.mem_singleton.mpr rfl), heq.symm, rfl⟩
      · obtain ⟨c, hc, hkey, hobject⟩ := h.live k o ho
        exact ⟨c, List.mem_append_left _ hc, hkey, hobject⟩
    · intro c hc
      rcases hmem hc with hold | rfl
      · exact Nat.le_succ_of_le (h.bounded c hold)
      · exact Nat.le_refl _
    · refine List.pairwise_append.mpr ⟨h.ordered, List.pairwise_singleton _ _, fun c hc d hd => ?_⟩
      rw [List.mem_singleton.mp hd]
      exact Nat.lt_succ_of_le (h.bounded c hc)
    · intro c hc e p hw
      rcases hmem hc with hold | rfl
      · exact (h.placed c hold e p hw).later hle
      · obtain ⟨hkey, hretains, -⟩ := hwriter e p hw
        exact ⟨hc, hw, hkey, hretains.later hle, fun _ => if_pos rfl⟩
    · intro c hc e hw p hp
      rcases hmem hc with hold | rfl
      · obtain ⟨a, ha, hlt⟩ := h.committed c hold e hw p hp
        exact ⟨a, ha.later hle, hlt⟩
      · obtain ⟨a, ha⟩ := (hwriter e .manifest hw).2.2 rfl p hp
        exact ⟨a, ha.later hle, Nat.lt_succ_of_le (h.bounded a ha.mem)⟩

theorem other_step {x : Platform} {s t : Store} (ho : Other s t) (h : Invariant x s) : s ≤ t ∧ Invariant x t := by
  cases ho with
  | time d =>
    have hle : s ≤ { s with now := s.now + d } := by
      refine ⟨?_, Nat.le_refl _, List.prefix_refl _, fun hl => ⟨hl, fun q hq => ⟨q, hq, Int.le_refl q⟩⟩,
        fun _ _ _ _ _ ho _ => ho⟩
      change s.now ≤ s.now + d
      omega
    exact ⟨hle, h.moved hle rfl rfl fun _ _ ho => ho⟩
  | settings b hlocked =>
    have hle : s ≤ { s with settings := b } :=
      ⟨Int.le_refl _, Nat.le_refl _, List.prefix_refl _, hlocked, fun _ _ _ _ _ ho _ => ho⟩
    exact ⟨hle, h.moved hle rfl rfl fun _ _ ho => ho⟩
  | create key content => exact ⟨le_create none key content s, h.create none key content fun e p hw => by cases hw⟩
  | remove key hretention =>
    have hle : s ≤ s.remove key := by
      refine ⟨Int.le_refl _, Nat.le_refl _, List.prefix_refl _, fun hl => ⟨hl, fun q hq => ⟨q, hq, Int.le_refl q⟩⟩, ?_⟩
      intro _ q hq k o ho hnow
      have hne : k ≠ key := by
        rintro rfl
        have hover := hretention o ho q hq
        change s.now < _ at hnow
        omega
      change (if k = key then none else s.objects k) = some o
      rw [if_neg hne, ho]
    refine ⟨hle, h.moved hle rfl rfl fun k o ho => ?_⟩
    change (if k = key then none else s.objects k) = some o at ho
    split at ho
    · cases ho
    · exact ho

/-! ## What the calls of an export come to -/

section
variable {x : Platform} {e : Export} {p : Part} {s : Store}

theorem require_ok {b : Bool} {message : String} {u : Unit} (h : require b message = .ok u) : b = true := by
  unfold require at h
  split at h
  · assumption
  · cases h

theorem safe_checkedBucket_bind {α : Type} {Q : α → Store → Prop} {k : Unit → Call α}
    (h : ∀ t, s ≤ t → Invariant x t → Retains e t → (k ()).Safe (Invariant x) Q t) :
    (checkedBucket e.config >>= k).Safe (Invariant x) Q s :=
  Prog.safe_look_bind fun t ht hJ _ hfits => h t ht hJ (retains_of_fits (require_ok hfits))

/-- An upload places its object. -/
theorem safe_upload (content : Bytes) (hretains : Retains e s) (hparts : ∀ t, s ≤ t → Invariant x t →
    p = .manifest → ∀ p', p' ≠ .manifest → ∃ a, Stored x t e p' a) : (upload e p (e.key p) content).Safe (Invariant x)
      (fun g t => ∃ c, Placed t e p c ∧ c.object.generation = g) s := by
  have hinv : ∀ t, s ≤ t → Invariant x t → Invariant x (t.create (some (e, p)) (e.key p) content) := by
    intro t ht hJ
    refine hJ.create _ _ _ fun e' p' hw => ?_
    obtain ⟨rfl, rfl⟩ := Prod.mk.inj (Option.some.inj hw)
    exact ⟨rfl, hretains.later ht, hparts t ht hJ⟩
  refine ⟨fun t ht hJ => ⟨le_create _ _ _ t, hinv t ht hJ⟩, fun t ht hJ => ?_⟩
  cases hlive : t.objects (e.key p) with
  | some o =>
    dsimp only
    rw [hlive]
    trivial
  | none =>
    dsimp only
    rw [hlive]
    intro u hu hJu
    have hcreated : t.create (some (e, p)) (e.key p) content = _ := create_absent hlive
    have hmem : (⟨some (e, p), e.key p, ⟨t.generation + 1, content, t.now⟩⟩ : Created) ∈
        (t.create (some (e, p)) (e.key p) content).created := by
      rw [hcreated]
      exact List.mem_append_right _ (List.mem_singleton.mpr rfl)
    exact ⟨_, ((hinv t ht hJ).placed _ hmem e p rfl).later hu, rfl⟩

/-- `_put`, of a request under the key of the part. -/
theorem safe_put {r : Request} (hkey : r.objectKey = e.key p) (hretains : Retains e s)
    (hparts : ∀ t, s ≤ t → Invariant x t → p = .manifest → ∀ p', p' ≠ .manifest → ∃ a, Stored x t e p' a) :
    (put x e p r).Safe (Invariant x) (fun g t => ∃ c, Placed t e p c ∧ c.object.generation = g) s := by
  unfold put
  refine Prog.safe_ofExcept_bind fun _ _ => ?_
  refine Prog.safe_ofExcept_bind fun _ _ => ?_
  refine Prog.safe_ofExcept_bind fun _ _ => ?_
  refine Prog.safe_ofExcept_bind fun _ _ => ?_
  rw [hkey]
  refine (safe_upload _ hretains hparts).bind fun g t _ hg => ?_
  exact Prog.safe_ofExcept_bind fun _ _ => Prog.safe_ret fun u hu hJ => hg u hu hJ

/-- An object with the digest and the size of a request was created. -/
def Readable (x : Platform) (r : Request) (generation : Nat) (s : Store) : Prop := ∃ c ∈ s.created,
  c.key = r.objectKey ∧ c.object.generation = generation ∧ x.sha256 c.object.content = r.sha256 ∧
  (c.object.content.length : Int) = r.size

theorem Readable.later {r : Request} {g : Nat} {t : Store} (h : Readable x r g s) (hst : s ≤ t) : Readable x r g t := by
  obtain ⟨c, hc, h⟩ := h
  exact ⟨c, (Store.Later.created hst).subset hc, h⟩

/-- A download delivers what was created under the generation. -/
theorem download_ok {key : String} {g : Nat} {α : Type} {Q : α → Store → Prop} {k : Bytes → Call α}
    (h : ∀ t, s ≤ t → ∀ c ∈ t.created, c.key = key → c.object.generation = g →
      (k c.object.content).Safe (Invariant x) Q t) : (download x key g >>= k).Safe (Invariant x) Q s := by
  refine Prog.safe_look_bind fun t ht hJ data hdata => ?_
  cases hlive : t.objects key with
  | none => simp [hlive] at hdata
  | some o =>
    simp only [hlive, x.download_whole, Option.elim_some] at hdata
    split at hdata
    · cases hdata
    · rename_i hgeneration
      obtain rfl := Except.ok.inj hdata
      obtain ⟨c, hc, hkey, rfl⟩ := hJ.live key o hlive
      exact h t ht c hc hkey (by simpa using hgeneration)

/-- `_verify`, for the generation it is to find. -/
theorem safe_verify {r : Request} {g : Nat} : (verify x r (some g)).Safe (Invariant x)
    (fun g' t => g' = g ∧ Readable x r g t) s := by
  unfold verify
  refine Prog.safe_look_bind fun t1 _ _ found _ => ?_
  refine Prog.safe_ofExcept_bind fun _ hmeta => ?_
  have hfound : found.1 = g := by
    have hall := require_ok hmeta
    simp only [Option.all_some, Bool.and_eq_true, decide_eq_true_eq] at hall
    exact hall.1.2
  refine download_ok fun t2 _ c hc hkey hgeneration => ?_
  refine Prog.safe_ofExcept_bind fun _ hsink => ?_
  have hsink := of_decide_eq_true (require_ok hsink)
  refine Prog.safe_look_bind fun t3 h3 _ live _ => ?_
  refine Prog.safe_ofExcept_bind fun _ _ => Prog.safe_ret fun u hu _ => ⟨hfound, ?_⟩
  have hread : Readable x r g t2 := ⟨c, hc, hkey, hgeneration.trans hfound, hsink.2, hsink.1⟩
  exact (hread.later h3).later hu

/-- A receipt says what is stored. -/
def Attested (x : Platform) (e : Export) (p : Part) (r : Receipt) (s : Store) : Prop := ∃ c, Stored x s e p c ∧
  r = ⟨e.key p, r.remoteUri, e.sha256 p, e.size p, c.object.generation⟩

theorem safe_executePut (hparts : ∀ t, s ≤ t → Invariant x t → p = .manifest → ∀ p', p' ≠ .manifest → ∃ a, Stored x t e p' a) :
    (executePut x e p (e.request p)).Safe (Invariant x)
      (fun r t => ∃ c, Placed t e p c ∧ c.object.generation = r.remoteGeneration) s := by
  unfold executePut
  refine Prog.safe_ofExcept_bind fun _ _ => ?_
  refine safe_checkedBucket_bind fun t1 h1 _ hretains => ?_
  refine (safe_put rfl hretains fun t ht => hparts t (le_trans h1 ht)).bind fun g t2 _ hg => ?_
  refine safe_checkedBucket_bind fun t3 h3 _ _ => ?_
  exact Prog.safe_ret fun u hu hJ => hg u (le_trans h3 hu) hJ

theorem safe_executeVerify {r : Request} {g : Nat} : (executeVerify x e.config r (some g)).Safe (Invariant x)
    (fun check t => check.remoteGeneration = g ∧ Readable x r g t) s := by
  unfold executeVerify
  refine Prog.safe_ofExcept_bind fun _ _ => ?_
  refine safe_checkedBucket_bind fun t1 _ _ _ => ?_
  refine safe_verify.bind fun g' t2 _ hg => ?_
  refine safe_checkedBucket_bind fun t3 h3 _ _ => ?_
  exact Prog.safe_ret fun u hu hJ => hg u (le_trans h3 hu) hJ

/-- The object of a placed part is the one that can be read under its generation. -/
theorem Placed.stored {c : Created} (h : Placed s e p c) (hJ : Invariant x s)
    (hread : Readable x (e.request p) c.object.generation s) : Stored x s e p c := by
  obtain ⟨d, hd, -, hgeneration, hsha, hsize⟩ := hread
  obtain rfl := hJ.unique hd h.mem hgeneration
  exact ⟨h, hsha, hsize⟩

theorem safe_putVerifiedReceipt (hparts : ∀ t, s ≤ t → Invariant x t → p = .manifest → ∀ p', p' ≠ .manifest →
    ∃ a, Stored x t e p' a) : (putVerifiedReceipt x e p).Safe (Invariant x) (Attested x e p) s := by
  unfold putVerifiedReceipt
  refine Prog.safe_ofExcept_bind fun _ _ => ?_
  refine Prog.safe_ofExcept_bind fun _ _ => ?_
  apply Prog.safe_ofExcept_bind
  intro _ _
  refine (safe_executePut hparts).mapError.bind fun created t1 _ hcreated => ?_
  refine Prog.safe_ofExcept_bind fun _ _ => ?_
  refine Prog.safe_ofExcept_bind fun uri _ => ?_
  refine Prog.safe_ofExcept_bind fun _ _ => ?_
  refine safe_executeVerify.mapError.bind fun check t2 h2 hcheck => ?_
  refine Prog.safe_ofExcept_bind fun _ _ => ?_
  refine Prog.safe_ofExcept_bind fun _ _ => ?_
  refine Prog.safe_ofExcept_bind fun _ _ => Prog.safe_ret fun u hu hJ => ?_
  obtain ⟨c, hplaced, hgeneration⟩ := hcreated u (le_trans h2 hu) hJ
  obtain ⟨-, hread⟩ := hcheck u hu hJ
  rw [← hgeneration] at hread ⊢
  exact ⟨c, hplaced.stored hJ hread, rfl⟩

/-- An export that returns has its three parts stored as its receipts say. -/
theorem safe_exportBackup : (exportBackup x e).Safe (Invariant x)
    (fun r t => r.exported = e ∧ ∀ p, Attested x e p (r.receipt p) t) s := by
  unfold exportBackup
  refine (safe_putVerifiedReceipt fun _ _ _ heq => absurd heq (by decide)).bind fun archive t1 h1 harchive => ?_
  refine (safe_putVerifiedReceipt fun _ _ _ heq => absurd heq (by decide)).bind fun anchors t2 h2 hanchors => ?_
  refine Prog.safe_ofExcept_bind fun _ _ => ?_
  refine Prog.safe_ofExcept_bind fun _ _ => ?_
  have hparts : ∀ t, t2 ≤ t → Invariant x t → Part.manifest = .manifest → ∀ p', p' ≠ .manifest → ∃ a, Stored x t e p' a := by
    intro t ht hJ _ p' hp'
    cases p' with
    | archive =>
      obtain ⟨c, hc, -⟩ := harchive t (le_trans h2 ht) hJ
      exact ⟨c, hc⟩
    | anchors =>
      obtain ⟨c, hc, -⟩ := hanchors t ht hJ
      exact ⟨c, hc⟩
    | manifest => exact absurd rfl hp'
  refine (safe_putVerifiedReceipt hparts).mapError.bind fun manifest t3 h3 hmanifest => ?_
  refine Prog.safe_ret fun u hu hJ => ⟨rfl, fun p => ?_⟩
  cases p with
  | archive => exact harchive u (le_trans h2 (le_trans h3 hu)) hJ
  | anchors => exact hanchors u (le_trans h3 hu) hJ
  | manifest => exact hmanifest u hu hJ

end

/-! ## Runs -/

/-- Any exports, on a bucket that was empty. -/
def Reaches (x : Platform) (w : World Store String Result) : Prop := ∃ settings now,
  Relation.ReflTransGen (Step (fun p => ∃ e, p = exportBackup x e) Other) ⟨⟨settings, fun _ => none, 0, now, []⟩, [], []⟩ w

theorem sound_of_reaches {x : Platform} {w : World Store String Result} (h : Reaches x w) :
    Sound (Invariant x) (fun r t => ∀ p, Attested x r.exported p (r.receipt p) t) w := by
  obtain ⟨settings, now, hrun⟩ := h
  refine Sound.run ⟨?_, fun p hp => (List.not_mem_nil hp).elim, fun f hf => (List.not_mem_nil hf).elim⟩ hrun ?_ ?_
  · exact ⟨fun _ _ ho => (by cases ho), fun _ hc => (List.not_mem_nil hc).elim, List.Pairwise.nil,
      fun _ hc => (List.not_mem_nil hc).elim, fun _ hc => (List.not_mem_nil hc).elim⟩
  · rintro _ ⟨e, rfl⟩ s _
    exact safe_exportBackup.weaken fun r t _ _ ⟨he, hr⟩ => he ▸ hr
  · exact fun s t hother hJ => other_step hother hJ

/-- What an export on its own asks of a part: the checks of the file and of the request, and the receipt the
transport will give. -/
structure InOrder (x : Platform) (e : Export) (p : Part) : Prop where
  digest : isHexText 64 (e.sha256 p).toList = true
  size : 0 < e.size p ∧ e.size p < 2 ^ 63
  checks : (e.file p).plain = true ∧ (e.file p).accepted = true ∧ (e.file p).unchanged = true
  name : (((e.key p).toList.splitOn '/').getLast?.map String.ofList) = some (e.file p).name
  fileSize : (e.file p).size = e.size p
  hashed : x.sha256 (e.file p).hashed = e.sha256 p
  sent : (e.file p).sent = (e.file p).hashed ∧ ((e.file p).sent.length : Int) = e.size p
  key : ("v3/".toList.isPrefixOf (e.key p).toList && decide (['.', '.'] ∉ (e.key p).toList.splitOn '/') &&
    decide ([] ∉ (e.key p).toList.splitOn '/')) = true
  scope : ∃ backup, objectKey x (e.key p) = .ok (e.config.organizationId, e.config.deploymentId, backup)
  receipt : ∀ verified created generation, checkReceipt x e.remoteHost
    ⟨e.request p, true, verified, created, generation, remoteUri e.config (e.key p)⟩ (e.request p) verified =
      .ok (remoteUri e.config (e.key p))

theorem require_true {message : String} {b : Bool} (h : b = true) : require b message = .ok () := by
  rw [h]
  rfl

theorem exec_require {α : Type} {b : Bool} {message : String} {g : Unit → Call α} {s : Store} (h : b = true) :
    (Prog.ofExcept (require b message) >>= g).exec s = (g ()).exec s :=
  Prog.exec_bind_ok (Prog.exec_ofExcept_ok (require_true h))

/-- A receipt that names the request and a plain URI of the host. -/
theorem checkReceipt_ok {x : Platform} {remoteHost : String} {result : Response} {r : Request} {verified : Bool}
    {parsed : SplitResult} (hresult : result.request = r ∧ result.ifAbsent = true ∧ result.verified = verified)
    (hurl : x.lib.urlsplit result.remoteUri = some parsed) (hport : parsed.port = some none)
    (hscheme : parsed.scheme = "https") (hhost : parsed.hostname = some remoteHost)
    (huser : parsed.username = none ∧ parsed.password = none) (hquery : parsed.query = "" ∧ parsed.fragment = "")
    (hpath : result.remoteUri.toList.drop (parsed.scheme.length + 3 + parsed.netloc.length) ≠ []) :
    checkReceipt x remoteHost result r verified = .ok result.remoteUri := by
  obtain ⟨rfl, hif, rfl⟩ := hresult
  unfold checkReceipt
  rw [require_true (by simp [hif]), hurl]
  simp only [Option.elim_some, bind, Except.bind, hport]
  rw [require_true (by simp [hscheme, hhost, huser, hquery, hscheme ▸ hpath])]
  rfl

section
variable {x : Platform} {e : Export} {p : Part} {s : Store}

theorem InOrder.checkRequest (h : InOrder x e p) {g : Option Nat} (hg : ∀ n ∈ g, 0 < n ∧ n < 2 ^ 64) :
    checkRequest x e.config (e.request p) g = .ok () := by
  obtain ⟨backup, hscope⟩ := h.scope
  have hfields : (isHexText 64 (e.request p).sha256.toList && decide (0 < (e.request p).size ∧ (e.request p).size < 2 ^ 63)) =
      true := by
    rw [Bool.and_eq_true, decide_eq_true_eq]
    exact ⟨h.digest, h.size⟩
  have hgeneration : (g.all fun n => decide (0 < n ∧ n < 2 ^ 64)) = true := by
    cases g with
    | none => rfl
    | some n => exact decide_eq_true (hg n rfl)
  have hkey : objectKey x (e.request p).objectKey = _ := hscope
  unfold OffsiteExport.checkRequest
  rw [require_true hfields, require_true hgeneration, hkey]
  exact require_true (decide_eq_true ⟨rfl, rfl⟩)

theorem exec_checkedBucket (h : bucketFits e.config s.now s.settings = true) :
    (checkedBucket e.config).exec s = (.ok (), s) := Prog.exec_look_ok (require_true h)

/-- The upload of a part whose key is free. -/
abbrev uploaded (e : Export) (p : Part) (s : Store) : Store := s.create (some (e, p)) (e.key p) (e.file p).sent

theorem exec_executePut (h : InOrder x e p) (hfits : bucketFits e.config s.now s.settings = true)
    (hfree : s.objects (e.key p) = none) : (executePut x e p (e.request p)).exec s =
      (.ok ⟨e.request p, true, false, true, s.generation + 1, remoteUri e.config (e.key p)⟩, uploaded e p s) := by
  have hput : (put x e p (e.request p)).exec s = (.ok (s.generation + 1), uploaded e p s) := by
    unfold put
    refine (exec_require h.checks.2.1).trans ?_
    refine (exec_require (decide_eq_true h.name)).trans ?_
    refine (exec_require (decide_eq_true h.fileSize)).trans ?_
    refine (exec_require (decide_eq_true h.hashed)).trans ?_
    have hupload : (upload e p (e.request p).objectKey (e.file p).sent).exec s = (.ok (s.generation + 1), uploaded e p s) := by
      have hfree' : s.objects (e.request p).objectKey = none := hfree
      rw [upload, Prog.exec, hfree']
      rfl
    refine (Prog.exec_bind_ok hupload).trans ?_
    refine (exec_require h.checks.2.2).trans ?_
    rfl
  have hfits' : bucketFits e.config (uploaded e p s).now (uploaded e p s).settings = true := by
    rw [uploaded, create_absent hfree]
    exact hfits
  unfold executePut
  refine (Prog.exec_bind_ok (Prog.exec_ofExcept_ok (h.checkRequest fun _ hn => by cases hn))).trans ?_
  refine (Prog.exec_bind_ok (exec_checkedBucket hfits)).trans ?_
  refine (Prog.exec_bind_ok hput).trans ?_
  refine (Prog.exec_bind_ok (exec_checkedBucket hfits')).trans ?_
  rfl

theorem exec_executeVerify (h : InOrder x e p) (hfits : bucketFits e.config s.now s.settings = true) {o : Object}
    (hlive : s.objects (e.key p) = some o) (hcontent : o.content = (e.file p).sent)
    (hgeneration : 0 < o.generation ∧ o.generation < 2 ^ 64) :
    (executeVerify x e.config (e.request p) (some o.generation)).exec s =
      (.ok ⟨e.request p, true, true, false, o.generation, remoteUri e.config (e.key p)⟩, s) := by
  have hlive' : s.objects (e.request p).objectKey = some o := hlive
  have hlength : (o.content.length : Int) = (e.request p).size := hcontent ▸ h.sent.2
  have hsha : x.sha256 o.content = (e.request p).sha256 := by rw [hcontent, h.sent.1, h.hashed]; rfl
  have hreload : (reload (e.request p).objectKey).exec s = (.ok (o.generation, o.content.length), s) :=
    Prog.exec_look_ok (by rw [hlive']; rfl)
  have hdownload : (download x (e.request p).objectKey o.generation).exec s = (.ok o.content, s) := by
    refine Prog.exec_look_ok ?_
    rw [hlive']
    simp [x.download_whole]
  have hverify : (verify x (e.request p) (some o.generation)).exec s = (.ok o.generation, s) := by
    unfold verify
    refine (Prog.exec_bind_ok hreload).trans ?_
    refine (exec_require (by simp [hgeneration.1, hlength])).trans ?_
    refine (Prog.exec_bind_ok hdownload).trans ?_
    refine (exec_require (decide_eq_true ⟨hlength, hsha⟩)).trans ?_
    refine (Prog.exec_bind_ok hreload).trans ?_
    refine (exec_require (decide_eq_true rfl)).trans ?_
    rfl
  unfold executeVerify
  refine (Prog.exec_bind_ok (Prog.exec_ofExcept_ok (h.checkRequest fun n hn => Option.some.inj hn ▸ hgeneration))).trans ?_
  refine (Prog.exec_bind_ok (exec_checkedBucket hfits)).trans ?_
  refine (Prog.exec_bind_ok hverify).trans ?_
  refine (Prog.exec_bind_ok (exec_checkedBucket hfits)).trans ?_
  rfl

/-- A part whose key is free is uploaded and read back. -/
theorem exec_putVerifiedReceipt (h : InOrder x e p) (hfits : bucketFits e.config s.now s.settings = true)
    (hfree : s.objects (e.key p) = none) (hroom : s.generation + 1 < 2 ^ 64) : (putVerifiedReceipt x e p).exec s =
      (.ok ⟨e.key p, remoteUri e.config (e.key p), e.sha256 p, e.size p, s.generation + 1⟩, uploaded e p s) := by
  have hstate : uploaded e p s = _ := create_absent hfree
  have hfits' : bucketFits e.config (uploaded e p s).now (uploaded e p s).settings = true := by
    rw [hstate]
    exact hfits
  have hlive : (uploaded e p s).objects (e.key p) = some ⟨s.generation + 1, (e.file p).sent, s.now⟩ := by
    rw [hstate]
    exact if_pos rfl
  have hgeneration : 0 < s.generation + 1 ∧ s.generation + 1 < 2 ^ 64 := ⟨Nat.succ_pos _, hroom⟩
  have hfirst : (isHexText 64 (e.request p).sha256.toList && decide (0 < (e.request p).size)) = true := by
    rw [Bool.and_eq_true, decide_eq_true_eq]
    exact ⟨h.digest, h.size.1⟩
  have hverify := exec_executeVerify h hfits' hlive rfl hgeneration
  unfold putVerifiedReceipt
  refine (exec_require hfirst).trans ?_
  refine (exec_require h.checks.1).trans ?_
  refine (exec_require h.key).trans ?_
  refine (Prog.exec_bind_ok (Prog.exec_mapError_ok (exec_executePut h hfits hfree))).trans ?_
  refine (exec_require rfl).trans ?_
  refine (Prog.exec_bind_ok (Prog.exec_ofExcept_ok (h.receipt false true (s.generation + 1)))).trans ?_
  refine (exec_require (decide_eq_true hgeneration)).trans ?_
  refine (Prog.exec_bind_ok (Prog.exec_mapError_ok hverify)).trans ?_
  refine (Prog.exec_bind_ok (Prog.exec_ofExcept_ok (h.receipt true false (s.generation + 1)))).trans ?_
  refine (exec_require (decide_eq_true rfl)).trans ?_
  refine (exec_require (decide_eq_true rfl)).trans ?_
  rfl

theorem Export.key_inj {p' : Part} (h : e.key p = e.key p') : p = p' := by
  have hname : p.fileName = p'.fileName := (String.append_right_inj _).mp h
  revert hname
  cases p <;> cases p' <;> decide

theorem uploaded_free {p' : Part} (hne : p' ≠ p) (hfree : s.objects (e.key p) = none) :
    (uploaded e p s).objects (e.key p') = s.objects (e.key p') := by
  have hkey : e.key p' ≠ e.key p := fun h => hne (Export.key_inj h)
  rw [uploaded, create_absent hfree]
  exact if_neg hkey

/-- The bucket behind the three uploads. -/
abbrev exportedTo (e : Export) (s : Store) : Store := uploaded e .manifest (uploaded e .anchors (uploaded e .archive s))

/-- The receipts of an export that had the bucket to itself. -/
def receiptsFrom (e : Export) (g : Nat) (p : Part) : Receipt :=
  ⟨e.key p, remoteUri e.config (e.key p), e.sha256 p, e.size p, match p with
    | .archive => g + 1
    | .anchors => g + 2
    | .manifest => g + 3⟩

/-- An export whose parts are in order completes, on its own and under keys that are free. -/
theorem exec_exportBackup (h : ∀ p, InOrder x e p) (hquiescent : e.quiescent = true) (hsource : e.sourceUnchanged = true)
    (hfits : bucketFits e.config s.now s.settings = true) (hfree : ∀ p, s.objects (e.key p) = none)
    (hroom : s.generation + 3 < 2 ^ 64) :
    (exportBackup x e).exec s = (.ok ⟨e, receiptsFrom e s.generation⟩, exportedTo e s) := by
  have harchive : uploaded e .archive s = _ := create_absent (hfree .archive)
  have hfree2 : (uploaded e .archive s).objects (e.key .anchors) = none :=
    (uploaded_free (by decide) (hfree .archive)).trans (hfree .anchors)
  have hanchors : uploaded e .anchors (uploaded e .archive s) = _ := create_absent hfree2
  have hfree3 : (uploaded e .anchors (uploaded e .archive s)).objects (e.key .manifest) = none :=
    (uploaded_free (by decide) hfree2).trans ((uploaded_free (by decide) (hfree .archive)).trans (hfree .manifest))
  have hg2 : (uploaded e .archive s).generation = s.generation + 1 := by rw [harchive]
  have hg3 : (uploaded e .anchors (uploaded e .archive s)).generation = s.generation + 2 := by
    rw [hanchors]
    exact congrArg (· + 1) hg2
  have hfits2 : bucketFits e.config (uploaded e .archive s).now (uploaded e .archive s).settings = true := by
    rw [harchive]
    exact hfits
  have hfits3 : bucketFits e.config (uploaded e .anchors (uploaded e .archive s)).now
      (uploaded e .anchors (uploaded e .archive s)).settings = true := by
    rw [hanchors]
    exact hfits2
  unfold exportBackup
  refine (Prog.exec_bind_ok (exec_putVerifiedReceipt (h .archive) hfits (hfree .archive) (by omega))).trans ?_
  refine (Prog.exec_bind_ok (exec_putVerifiedReceipt (h .anchors) hfits2 hfree2 (by omega))).trans ?_
  refine (exec_require hquiescent).trans ?_
  refine (exec_require hsource).trans ?_
  refine (Prog.exec_bind_ok (Prog.exec_mapError_ok
    (exec_putVerifiedReceipt (h .manifest) hfits3 hfree3 (by omega)))).trans ?_
  refine Prod.ext (congrArg (fun receipt => Except.ok (Result.mk e receipt)) (funext fun p => ?_)) rfl
  cases p <;> simp [receiptsFrom, hg2, hg3]

end

/-- Digests of three files. -/
def sampleDigest (content : Bytes) : String :=
  if content = [97] then "ca978112ca1bbdcafac231b39a23dc4da786eff8147c4e72b9807785afee48bb"
  else if content = [98] then "3e23e8160039594a33894f6564e1b1348bbd7a0088d42c4acb73eeaed59c009d"
  else if content = [99] then "2e7d2c03a9507ae265ecf5b5356885a53393a2029d241394997265a1a25aefc6"
  else ""

/-- Downloads that start over once. -/
def samplePlatform : Platform where
  lib := plainLibrary
  sha256 := sampleDigest
  download := fun content => [.write [0], .seek 0, .write content]
  download_whole := fun _ => rfl

def sampleContent : Part → Bytes
  | .archive => [97]
  | .anchors => [98]
  | .manifest => [99]

def sampleExport : Export where
  process := 1
  config := ⟨"tandem-backups", "00000000-0000-4000-8000-000000000001", "00000000-0000-4000-8000-000000000002", 86400⟩
  remoteHost := "tandem-backups.storage.googleapis.com"
  organizationId := "00000000-0000-4000-8000-000000000001"
  deploymentId := "00000000-0000-4000-8000-000000000002"
  backupId := "00000000-0000-4000-8000-000000000003"
  file := fun p => ⟨true, true, p.fileName, 1, sampleContent p, sampleContent p, true⟩
  sha256 := fun p => sampleDigest (sampleContent p)
  size := fun _ => 1
  quiescent := true
  sourceUnchanged := true

def sampleSettings : Settings := ⟨"tandem-backups", true, "enforced", true, some 604800, some 0, false⟩

def sampleStore : Store := ⟨sampleSettings, fun _ => none, 0, 1000, []⟩

/-- The components of a key, where the names have no slashes. -/
theorem components_key {e : Export} (horganization : '/' ∉ e.organizationId.toList) (hdeployment : '/' ∉ e.deploymentId.toList)
    (hbackup : '/' ∉ e.backupId.toList) (p : Part) : (e.key p).toList.splitOn '/' = ["v3".toList, e.organizationId.toList,
      e.deploymentId.toList, e.backupId.toList, p.fileName.toList] := by
  have hkey : (e.key p).toList = ['/'].intercalate ["v3".toList, e.organizationId.toList, e.deploymentId.toList,
      e.backupId.toList, p.fileName.toList] := by
    simp [Export.key, String.toList_append, List.intercalate]
  have hname : '/' ∉ p.fileName.toList := by cases p <;> decide
  rw [hkey, List.splitOn_intercalate]
  · simp [horganization, hdeployment, hbackup, hname]
  · simp

theorem key_starts (e : Export) (p : Part) : "v3/".toList.isPrefixOf (e.key p).toList = true := by
  rw [List.isPrefixOf_iff_prefix]
  simp only [Export.key, String.toList_append, List.append_assoc]
  exact List.prefix_append _ _

theorem sample_key (p : Part) : (sampleExport.key p).toList.splitOn '/' = ["v3".toList, sampleExport.organizationId.toList,
    sampleExport.deploymentId.toList, sampleExport.backupId.toList, p.fileName.toList] :=
  components_key (by decide) (by decide) (by decide) p

def sampleHost : String := "tandem-backups.storage.googleapis.com"

theorem sample_uri (p : Part) : (remoteUri sampleExport.config (sampleExport.key p)).toList =
    "https://".toList ++ (sampleHost.toList ++ '/' :: (sampleExport.key p).toList) := by
  simp [remoteUri, sampleExport, sampleHost, String.toList_append]

theorem sample_urlsplit (p : Part) : samplePlatform.lib.urlsplit (remoteUri sampleExport.config (sampleExport.key p)) =
    some ⟨"https", sampleHost, some sampleHost, some none, none, none, "", ""⟩ := by
  have hhost : (sampleHost.toList ++ '/' :: (sampleExport.key p).toList).takeWhile (· ≠ '/') = sampleHost.toList := by
    have hplain : sampleHost.toList.all (fun c => decide (c ≠ '/')) = true := by decide
    rw [List.takeWhile_append_of_pos fun c hc => List.all_eq_true.mp hplain c hc]
    simp
  have hdrop : ("https://".toList ++ (sampleHost.toList ++ '/' :: (sampleExport.key p).toList)).drop 8 =
      sampleHost.toList ++ '/' :: (sampleExport.key p).toList := List.drop_left' (by decide)
  have hsplit : ∀ text, samplePlatform.lib.urlsplit text = if "https://".toList <+: text.toList then
      let netloc := String.ofList ((text.toList.drop 8).takeWhile (· ≠ '/'))
      some ⟨"https", netloc, some netloc, some none, none, none, "", ""⟩ else none := fun _ => rfl
  rw [hsplit, sample_uri, if_pos (List.prefix_append _ _), hdrop, hhost, String.ofList_toList]

theorem sample_path (p : Part) : (remoteUri sampleExport.config (sampleExport.key p)).toList.drop
    ("https".length + 3 + sampleHost.length) ≠ [] := by
  have hlength : ("https://".toList ++ sampleHost.toList).length = "https".length + 3 + sampleHost.length := by decide
  rw [sample_uri, ← List.append_assoc, List.drop_left' hlength]
  exact List.cons_ne_nil _ _

theorem sample_inOrder (p : Part) : InOrder samplePlatform sampleExport p where
  digest := by cases p <;> decide
  size := ⟨Int.one_pos, by change (1 : Int) < 2 ^ 63; decide⟩
  checks := ⟨rfl, rfl, rfl⟩
  name := by
    rw [sample_key]
    simp [sampleExport]
  fileSize := rfl
  hashed := rfl
  sent := ⟨rfl, by cases p <;> rfl⟩
  key := by
    rw [sample_key, Bool.and_assoc, Bool.and_eq_true_iff]
    refine ⟨key_starts sampleExport p, ?_⟩
    cases p <;> decide
  scope := by
    refine ⟨sampleExport.backupId, ?_⟩
    have hname : ([Part.archive, .anchors, .manifest].any fun q => decide (q.fileName = p.fileName)) = true := by
      cases p <;> decide
    rw [objectKey, sample_key]
    simp only [List.map_cons, List.map_nil, String.ofList_toList, canonicalUuid]
    rw [require_true (by rw [hname]; rfl), require_true (by decide +kernel), require_true (by decide +kernel),
      require_true (by decide +kernel)]
    rfl
  receipt verified created generation :=
    checkReceipt_ok ⟨rfl, rfl, rfl⟩ (sample_urlsplit p) rfl rfl rfl ⟨rfl, rfl⟩ ⟨rfl, rfl⟩ (sample_path p)

/-- The bucket and the export behind its last call. -/
def sampleWorld : World Store String Result :=
  ⟨exportedTo sampleExport sampleStore, [.ret ⟨sampleExport, receiptsFrom sampleExport 0⟩], []⟩

theorem sampleWorld_reached : Reaches samplePlatform sampleWorld := by
  have hexec := exec_exportBackup (s := sampleStore) sample_inOrder rfl rfl (by decide) (fun _ => rfl) (by decide)
  exact ⟨sampleSettings, 1000, .head (.start _ ⟨sampleExport, rfl⟩) (reaches_exec hexec [])⟩

/-- The object is what the export gave for the part, and it is still there while its retention lasts. -/
def Kept (x : Platform) (s : Store) (e : Export) (p : Part) (c : Created) : Prop :=
  c ∈ s.created ∧ c.writer = some (e, p) ∧ c.key = e.key p ∧ x.sha256 c.object.content = e.sha256 p ∧
    (c.object.content.length : Int) = e.size p ∧
    (s.now < c.object.createdAt + e.config.minimumRetentionSeconds → s.objects (e.key p) = some c.object)

theorem Stored.kept' {x : Platform} {s : Store} {e : Export} {p : Part} {c : Created} (h : Stored x s e p c) :
    Kept x s e p c := ⟨h.mem, h.writer, h.key, h.sha256, h.size, fun hnow => h.key ▸ h.kept hnow⟩

/-- In every run of exports next to each other, to administrators and to the clock, however calls fail and uploads
are late: behind a manifest its archive and its anchors were created before it, as it gives them, and they are kept. -/
theorem manifest_commits {x : Platform} {w : World Store String Result} (h : Reaches x w) {c : Created}
    (hc : c ∈ w.state.created) {e : Export} (hw : c.writer = some (e, .manifest)) {p : Part} (hp : p ≠ .manifest) :
    ∃ a, Kept x w.state e p a ∧ a.object.generation < c.object.generation := by
  obtain ⟨a, ha, hlt⟩ := (sound_of_reaches h).invariant.committed c hc e hw p hp
  exact ⟨a, ha.kept', hlt⟩

theorem manifest_commits_sample : ∃ w c e, Reaches samplePlatform w ∧ c ∈ w.state.created ∧
    c.writer = some (e, .manifest) ∧ ∃ a, Kept samplePlatform w.state e .archive a ∧
      a.object.generation < c.object.generation := by
  have hsome : sampleWorld.state.created.any (fun c => c.writer.any fun w => decide (w.2 = .manifest)) = true := by
    decide +kernel
  obtain ⟨c, hc, hwriter⟩ := List.any_eq_true.mp hsome
  obtain ⟨⟨e, p⟩, hw, hp⟩ := (Option.any_eq_true _ _).mp hwriter
  obtain rfl : p = .manifest := of_decide_eq_true hp
  exact ⟨sampleWorld, c, e, sampleWorld_reached, hc, hw, manifest_commits sampleWorld_reached hc hw (by decide)⟩

/-- An export that returned has all its parts stored, under the generations of its receipts. -/
theorem receipts_attest {x : Platform} {w : World Store String Result} (h : Reaches x w) {r : Result}
    (hr : .ret r ∈ w.programs) (p : Part) : ∃ c, Kept x w.state r.exported p c ∧
      r.receipt p = ⟨r.exported.key p, (r.receipt p).remoteUri, r.exported.sha256 p, r.exported.size p,
        c.object.generation⟩ := by
  obtain ⟨c, hc, heq⟩ := (sound_of_reaches h).returned hr p
  exact ⟨c, hc.kept', heq⟩

theorem receipts_attest_sample : ∃ w r, Reaches samplePlatform w ∧ .ret r ∈ w.programs ∧
    ∃ c, Kept samplePlatform w.state r.exported .manifest c ∧ r.receipt .manifest = ⟨r.exported.key .manifest,
      (r.receipt .manifest).remoteUri, r.exported.sha256 .manifest, r.exported.size .manifest, c.object.generation⟩ := by
  have hmem : .ret ⟨sampleExport, receiptsFrom sampleExport 0⟩ ∈ sampleWorld.programs := List.mem_singleton.mpr rfl
  exact ⟨sampleWorld, _, sampleWorld_reached, hmem, receipts_attest sampleWorld_reached hmem .manifest⟩

/-- While retention lasts, a key has one object of any export. -/
theorem uploaded_once {x : Platform} {w : World Store String Result} (h : Reaches x w) {c d : Created}
    (hc : c ∈ w.state.created) (hd : d ∈ w.state.created) {e e' : Export} {p p' : Part} (hce : c.writer = some (e, p))
    (hde : d.writer = some (e', p')) (hkey : c.key = d.key)
    (hcnow : w.state.now < c.object.createdAt + e.config.minimumRetentionSeconds)
    (hdnow : w.state.now < d.object.createdAt + e'.config.minimumRetentionSeconds) : c = d := by
  have hJ := (sound_of_reaches h).invariant
  have hlive := (hJ.placed c hc e p hce).kept hcnow
  rw [hkey, (hJ.placed d hd e' p' hde).kept hdnow] at hlive
  exact hJ.unique hc hd (congrArg Object.generation (Option.some.inj hlive).symm)

theorem uploaded_once_sample : ∃ w c, Reaches samplePlatform w ∧ c ∈ w.state.created ∧ c.key = sampleExport.key .archive ∧
    ∀ d ∈ w.state.created, d.key = c.key → c = d := by
  have hsome : sampleWorld.state.created.any (fun c => decide (c.key = sampleExport.key .archive)) = true := by
    decide +kernel
  have hall : sampleWorld.state.created.all (fun c => c.writer.any fun w =>
      decide (sampleWorld.state.now < c.object.createdAt + w.1.config.minimumRetentionSeconds)) = true := by decide +kernel
  obtain ⟨c, hc, hkey⟩ := List.any_eq_true.mp hsome
  refine ⟨sampleWorld, c, sampleWorld_reached, hc, of_decide_eq_true hkey, fun d hd hsame => ?_⟩
  obtain ⟨⟨e, p⟩, hce, hcnow⟩ := (Option.any_eq_true _ _).mp (List.all_eq_true.mp hall c hc)
  obtain ⟨⟨e', p'⟩, hde, hdnow⟩ := (Option.any_eq_true _ _).mp (List.all_eq_true.mp hall d hd)
  exact uploaded_once sampleWorld_reached hc hd hce hde hsame.symm (of_decide_eq_true hcnow) (of_decide_eq_true hdnow)

end OffsiteExport
