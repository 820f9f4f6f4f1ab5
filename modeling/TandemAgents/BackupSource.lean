import Mathlib.Algebra.Ring.Int.Defs
import Mathlib.Algebra.Ring.Nat
import TandemAgents.SecurityRoots

/-!
# The source of a backup

What the exporter asks of an installation before it looks into its storage: the bundle on
disk, the roots it names, and where its memory keys and its engine come from. The check reads
the bundle as a document, so the renderer's bundles are written as one.
-/
namespace BackupSource

open PythonText JsonData PurePath SecurityBundle SecurityRoots
open Keyring hiding Bundle MAX_DOCUMENT_BYTES

set_option maxRecDepth 20000

def MAX_DOCUMENT_BYTES : Nat := 8 * 1024 * 1024

def REQUIRED_HOST_ROOTS : List String := ["state", "security", "replay", "anchor", "panel_auth", "policy"]

def REQUIRED_ORDINARY_ROOTS : List String :=
  ["DATA", "REPOS", "RUNS", "SECRETS", "PANEL_STATE", "KB_DOCS", "KB_INDEX", "PROXY_DATA", "PROXY_CONFIG"]

/-! ## The bundle as a document -/

/-- A dictionary of texts. -/
def texts (fields : List (String × String)) : Json := .obj (fields.map fun f => (f.1, .str f.2))

def MemoryEncryption.document (m : MemoryEncryption) : Json :=
  .obj [("schema_version", .int 1), ("provider", .str m.provider), ("runtime_principal_id", .str m.runtimePrincipalId),
    ("encrypt_command", .str m.encryptCommand), ("decrypt_command", .str m.decryptCommand), ("kek_id", .str m.kekId),
    ("kek_version", .str m.kekVersion), ("rotation_epoch", .int m.rotationEpoch)]

def EngineProvenance.document (p : EngineProvenance) : Json :=
  .obj [("source_revision", .str p.sourceRevision), ("binary_sha256", .str p.binarySha256),
    ("attestation_sha256", .str p.attestationSha256)]

/-- `runtime-security.json`, as far as the exporter reads it. -/
def Bundle.document (b : Bundle) : Dict :=
  [("schema_version", .int b.schemaVersion), ("profile", .str b.profile), ("deployment_id", .str b.deploymentId),
    ("organization_id", .str b.organizationId), ("images", texts b.images), ("uid", .int b.uid), ("gid", .int b.gid),
    ("ordinary_paths", texts b.ordinaryPaths), ("host_paths", texts b.hostPaths)] ++
    (b.memoryEncryption.map fun m => ("memory_encryption", MemoryEncryption.document m)).toList ++
    (b.engineProvenance.map fun p => ("engine_provenance", EngineProvenance.document p)).toList

/-! ## Paths in the file system -/

/-- The links of a file system, and where resolution ends behind one: its place, its target
and the names that are left. -/
structure Files where
  readlink : List (List Char) → Option (List Char)
  follow : List (List Char) → List Char → List (List Char) → List (List Char)

/-- `path.resolve()`, from a place without links. -/
def resolveFrom (files : Files) (place : List (List Char)) : List (List Char) → List (List Char)
  | [] => place
  | name :: names =>
    if name = ['.', '.'] then resolveFrom files place.dropLast names
    else
      match files.readlink (place ++ [name]) with
      | none => resolveFrom files (place ++ [name]) names
      | some target => files.follow place target names

/-- `plain_path`. -/
def plainPath (files : Files) (value : String) : Except String PurePosixPath := do
  let path := purePosixPath value
  require (path.isAbsolute && decide (⟨.slash, resolveFrom files [] path.tail⟩ = path))
    "backup paths must be absolute and contain no symlinks"
  pure path

/-- The paths of a list of values; a value that is no text has none. -/
def plainPaths (files : Files) : List Json → Except String (List PurePosixPath)
  | [] => .ok []
  | v :: vs => do
    let value ← v.asStr.elim (.error "argument should be a str or an os.PathLike object") .ok
    let path ← plainPath files value
    let paths ← plainPaths files vs
    pure (path :: paths)

/-! ## The check -/

/-- `value == n`, for a number. -/
def isNumber (v : Json) (n : Nat) : Bool :=
  match v with
  | .int i => decide (i = n)
  | .float text => decide (text = toString n ++ ".0")
  | .bool b => decide (n = if b then 1 else 0)
  | _ => false

/-- `_uuid`. -/
def uuidField (lib : Library) (v : Json) : Except String String := do
  let parsed ← (v.asStr.bind lib.uuid).elim (.error "backup scope contains an invalid UUID") .ok
  require (isText v parsed) "backup scope UUID must be canonical"
  pure parsed

/-- `set(d) == set(names)`. -/
def sameKeys (d : Dict) (names : List String) : Bool :=
  d.all (fun f => decide (f.1 ∈ names)) && names.all d.contains

/-- `bundle.get(key, {})`, of which fields are read. -/
def section_of (bundle : Dict) (key : String) : Except String Dict :=
  if bundle.contains key then (bundle.get key).asDict.elim (.error "object has no attribute 'get'") .ok else .ok []

/-- A text of hexadecimal digits. -/
def isHexField (n : Nat) (v : Json) : Bool := v.asStr.any fun text => isHexText n text.toList

/-- The condition on the memory keys and on the engine. -/
def isComplete (memory provenance images : Dict) : Bool :=
  isText (memory.get "provider") "google_cloud_kms" &&
    ["runtime_principal_id", "kek_id", "kek_version"].all (fun key => (memory.get key).truthy) &&
    (match memory.get "rotation_epoch" with
      | .int n => decide (0 ≤ n ∧ n < 2 ^ 64)
      | _ => false) &&
    isHexField 40 (provenance.get "source_revision") && isHexField 64 (provenance.get "binary_sha256") &&
    isHexField 64 (provenance.get "attestation_sha256") && (images.get "engine").asStr.any isImage

/-- The check of the roots. -/
def checkRoots (files : Files) (root : PurePosixPath) (hosts ordinary : Dict) : Except String Unit := do
  let values := hosts.map Prod.snd ++ ordinary.map Prod.snd
  let locations ← plainPaths files values
  require (decide (locations.map (fun path => some (pathText path)) = values.map Json.asStr))
    "v3 backup root paths must be canonical"
  require (pairwiseApart locations) "v3 backup roots must be independent"
  let anchor ← (hosts.get "anchor").asStr.elim (.error "argument should be a str or an os.PathLike object") .ok
  let anchor_root ← plainPath files anchor
  require (!root.overlaps anchor_root) "v3 audit anchor must be outside the installation tree"

/-- `_check_source` on the document of an installation and its size, up to the rules on the
owners of files and to the storage binding. -/
def checkSource (lib : Library) (files : Files) (installRoot : String) (size : Nat) (document : Json) :
    Except String Unit := do
  let root ← plainPath files installRoot
  require (decide (size ≤ MAX_DOCUMENT_BYTES)) "backup configuration document exceeds 8 MiB"
  let bundle := document.asDict.getD []
  require (document.asDict.isSome && isNumber (bundle.get "schema_version") 3 &&
    isText (bundle.get "profile") "hosted-single-node-v3") "backup export requires a v3 runtime-security bundle"
  let _ ← uuidField lib (bundle.get "organization_id")
  let _ ← uuidField lib (bundle.get "deployment_id")
  let hosts := (bundle.get "host_paths").asDict.getD []
  let ordinary := (bundle.get "ordinary_paths").asDict.getD []
  require ((bundle.get "host_paths").asDict.isSome && (bundle.get "ordinary_paths").asDict.isSome &&
    sameKeys hosts (REQUIRED_HOST_ROOTS ++ ["memory_kms_commands"]) && sameKeys ordinary REQUIRED_ORDINARY_ROOTS)
    "v3 backup root contract is incomplete"
  checkRoots files root hosts ordinary
  let memory ← section_of bundle "memory_encryption"
  let provenance ← section_of bundle "engine_provenance"
  let images ← section_of bundle "images"
  require (isComplete memory provenance images) "v3 memory or engine provenance is incomplete"

end BackupSource
