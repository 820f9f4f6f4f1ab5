import Mathlib.Algebra.Ring.Int.Defs
import Mathlib.Algebra.Ring.Nat
import TandemAgents.Keyring
import TandemAgents.PurePath

/-!
# The runtime security bundle

The bundle is rendered from named values: the release is checked, the roots are read with
their defaults below the installation root and compared, and versions 2 and 3 lay the policy
profile over it. Engine images that version 3 may run come in as a registry, and so does
what is taken from the language's library.
-/
namespace SecurityBundle

open PythonText JsonData Keyring PurePath

set_option maxRecDepth 20000

/-- The named values; one that is missing reads as `None`. -/
abbrev Values := String → Option String

/-- The parts `urlsplit` reads off a text. Asking for the port may fail. -/
structure SplitResult where
  scheme : String
  netloc : String
  hostname : Option String
  port : Option (Option Nat)
  username : Option String
  password : Option String
  query : String
  fragment : String

/-- What is taken from the language's library: `urlsplit(text)` and `int(text)`, where they do
not fail, `str(uuid.UUID(text))` and `text.lower()`. A printed UUID reads as itself. -/
structure Library where
  urlsplit : String → Option SplitResult
  int : String → Option Int
  uuid : String → Option String
  lower : String → String
  uuid_printed : ∀ text printed, uuid text = some printed → uuid printed = some printed

def ENGINE_VERSION : String := "0.7.2"
def PANEL_REVISION : String := "3ee2d83d76497565680538ef00f1616f55650524"
def PROFILE : String := "hosted-single-node-v1"
def POLICY_ENGINE_REVISION : String := "774b990e781eaea76eaa1b20ec5d350488bba19e"
def PREVIOUS_POLICY_ENGINE_REVISION : String := "364d20926455e3154a6bed623945b8d9e3d464e5"
def MEMORY_ENGINE_REVISION : String := "880ccf545f934e4d157184ce844f801c51f34078"

/-! ## Characters -/

/-- `[a-f0-9]`. -/
def isHex (c : Char) : Bool := ('0' ≤ c && c ≤ '9') || ('a' ≤ c && c ≤ 'f')

/-- `re.fullmatch(r"[a-f0-9]{n}", text)`. -/
def isHexText (n : Nat) (text : List Char) : Bool := decide (text.length = n) && text.all isHex

def isDigit (c : Char) : Bool := '0' ≤ c && c ≤ '9'

/-- `[A-Za-z0-9._-]`. -/
def isNameChar (c : Char) : Bool := isAsciiAlnum c || c = '.' || c = '_' || c = '-'

/-- `[A-Za-z0-9._-]+`. -/
def isName (text : List Char) : Bool := decide (text ≠ []) && text.all isNameChar

def isLowerAlnum (c : Char) : Bool := isDigit c || ('a' ≤ c && c ≤ 'z')

/-- `[a-z0-9./:_-]`. -/
def isImageChar (c : Char) : Bool := isLowerAlnum c || c = '.' || c = '/' || c = ':' || c = '_' || c = '-'

/-- `re.fullmatch(r"[a-z0-9][a-z0-9./:_-]*@sha256:[a-f0-9]{64}", value)`. -/
def isImage (value : String) : Bool :=
  match value.toList.splitOn '@' with
  | [c :: cs, digest] => isLowerAlnum c && cs.all isImageChar && decide (digest.take 7 = "sha256:".toList) &&
      isHexText 64 (digest.drop 7)
  | _ => false

/-! ## Values -/

/-- `_required`. -/
def required (values : Values) (name : String) : Except String String := do
  let value := (values name).getD ""
  require (decide (value ≠ "" ∧ value = strip value)) (name ++ " is required")
  require (value.toList.all fun c => decide (32 ≤ c.toNat)) (name ++ " contains control characters")
  pure value

/-- `_path`. -/
def posixPath (value name : String) : Except String PurePosixPath := do
  let path := purePosixPath value
  require (path.isAbsolute && decide (path.str = value.toList) && decide (['.', '.'] ∉ path.tail) && decide (value ≠ "/"))
    (name ++ " must be a normalized absolute Linux path")
  require (value.toList.all fun c => decide (c ≠ '$' ∧ c ≠ ':' ∧ c ≠ '\\')) (name ++ " contains unsupported path characters")
  pure path

/-- `(?::[0-9]+)?`. -/
def isPortSuffix : List Char → Bool
  | [] => true
  | ':' :: digits => decide (digits ≠ []) && digits.all isDigit
  | _ => false

/-- The pattern of a network location. -/
def isNetloc : List Char → Bool
  | '[' :: cs =>
    let inside := fun c => isDigit c || ('a' ≤ c && c ≤ 'f') || ('A' ≤ c && c ≤ 'F') || c = ':' || c = '.'
    decide (cs.takeWhile inside ≠ []) &&
      match cs.dropWhile inside with
      | ']' :: rest => isPortSuffix rest
      | _ => false
  | cs =>
    let inside := fun c => isAsciiAlnum c || c = '.' || c = '-'
    decide (cs.takeWhile inside ≠ []) && isPortSuffix (cs.dropWhile inside)

/-- The condition of `_url` on the parts of a text. -/
def isUrl (value : String) (parsed : SplitResult) : Bool :=
  let host := parsed.hostname.getD ""
  decide (host ≠ "") && parsed.netloc.toList.all (fun c => decide (c.toNat < 128)) && parsed.username.isNone &&
    parsed.password.isNone && decide (parsed.query = "") && decide (parsed.fragment = "") &&
    value.toList.all (fun c => decide (c ≠ '\\') && !isSpace c) && isNetloc parsed.netloc.toList &&
    (decide (parsed.scheme = "https") ||
      (decide (parsed.scheme = "http") && decide (host = "127.0.0.1" ∨ host = "::1"))) &&
    parsed.port.any (fun port => decide (port ≠ some 0))

/-- `value.rstrip("/")`. -/
def rstripSlash (value : String) : String := String.ofList (value.toList.reverse.dropWhile (· = '/')).reverse

/-- `_url`. -/
def url (lib : Library) (value name : String) : Except String String := do
  require ((lib.urlsplit value).any (isUrl value)) (name ++ " requires HTTPS or explicit HTTP loopback")
  pure (rstripSlash value)

/-- `str(uuid.UUID(value))`. -/
def uuidText (lib : Library) (value : String) : Except String String :=
  (lib.uuid value).elim (.error "badly formed hexadecimal UUID string") .ok

/-- `int(value)`. -/
def intOf (lib : Library) (value : String) : Except String Int :=
  (lib.int value).elim (.error ("invalid literal for int() with base 10: " ++ value)) .ok

/-! ## Releases -/

/-- An entry of `VERIFIED_MEMORY_ENGINE_IMAGES`: source, checksum of the binary in the image,
and SHA-256 of the observed build. -/
structure ApprovedImage where
  sourceRevision : String
  binarySha256 : String
  attestationSha256 : String
  binary_hex : isHexText 64 binarySha256.toList = true
  attestation_hex : isHexText 64 attestationSha256.toList = true

/-- `VERIFIED_MEMORY_ENGINE_IMAGES`, entered as images are verified. -/
abbrev Registry := String → Option ApprovedImage

/-- `verify_memory_engine_image`. -/
def verifyMemoryEngineImage (approved : Registry) (image revision : String) (binary attestation : Option String) :
    Except String Unit :=
  require
    ((approved image).any fun entry => decide (revision = MEMORY_ENGINE_REVISION ∧ entry.sourceRevision = revision ∧
      binary = some entry.binarySha256 ∧ attestation = some entry.attestationSha256))
    "runtime security v3 requires a verified exact-source engine image digest and attestation"

/-- The values of the images, with the names they have in the bundle. -/
def imageNames : List (String × String) :=
  [("ENGINE", "engine"), ("CONTROL_PANEL", "control_panel"), ("PROXY", "proxy"), ("ACA", "aca"), ("KB", "kb")]

def releaseImages (values : Values) : List (String × String) → Except String (List (String × String))
  | [] => .ok []
  | (name, lowered) :: names =>
    let value := (values ("HOSTED_" ++ name ++ "_IMAGE")).getD ""
    if value = "" ∧ name ∈ ["ACA", "KB"] then releaseImages values names
    else do
      require (isImage value) ("HOSTED_" ++ name ++ "_IMAGE must be pinned by sha256 digest")
      let images ← releaseImages values names
      pure ((lowered, value) :: images)

/-- `str(values.get("HOSTED_RUNTIME_SECURITY_VERSION", CONTRACT_VERSION))`. -/
def versionOf (values : Values) : String := (values "HOSTED_RUNTIME_SECURITY_VERSION").getD "1"

/-- `images["engine"]`. -/
def engineImage (images : List (String × String)) : String := (images.lookup "engine").getD ""

/-- `validate_release`. -/
def validateRelease (approved : Registry) (values : Values) : Except String (List (String × String)) := do
  let version := versionOf values
  require (decide (version ∈ ["1", "2", "3"])) "unsupported runtime security contract version"
  let required_revisions := if version = "3" then [MEMORY_ENGINE_REVISION]
    else [POLICY_ENGINE_REVISION, PREVIOUS_POLICY_ENGINE_REVISION]
  require (decide (version = "1" ∨ (values "HOSTED_TANDEM_ENGINE_SOURCE_REVISION").getD "" ∈ required_revisions))
    ("runtime security v" ++ version ++ " requires its tested engine source revision")
  require (decide ((values "HOSTED_PLATFORM").getD "linux/amd64" = "linux/amd64"))
    "runtime security v1 supports linux/amd64 only"
  require (decide (values "HOSTED_TANDEM_CONTROL_PANEL_SOURCE_REVISION" = some PANEL_REVISION))
    "runtime security v1 requires the reviewed panel source revision; npm 0.7.2 is insufficient"
  checkAll (fun key => do
      let release ← required values key
      require (decide (release = ENGINE_VERSION)) (key ++ " must be the tested version " ++ ENGINE_VERSION))
    ["HOSTED_TANDEM_ENGINE_RELEASE_VERSION", "HOSTED_TANDEM_CONTROL_PANEL_RELEASE_VERSION"]
  let images ← releaseImages values imageNames
  if version = "3" then
    verifyMemoryEngineImage approved (engineImage images) MEMORY_ENGINE_REVISION
      (values "HOSTED_ENGINE_BINARY_SHA256") (values "HOSTED_ENGINE_ATTESTATION_SHA256")
  pure images

/-! ## Roots -/

/-- The ordinary roots, with their places below the installation root. -/
def ordinarySuffixes : List (String × String) :=
  [("DATA", "tandem-data"), ("REPOS", "repos"), ("RUNS", "runs"), ("SECRETS", "secrets"),
    ("PANEL_STATE", "tandem-panel-state"), ("KB_DOCS", "kb-docs"), ("KB_INDEX", "kb-index"),
    ("PROXY_DATA", "proxy/data"), ("PROXY_CONFIG", "proxy/config")]

/-- `values.get(name, f"{root}/{suffix}")`. -/
def rootText (values : Values) (root : PurePosixPath) (name suffix : String) : String :=
  (values name).getD (String.ofList (root.str ++ '/' :: suffix.toList))

def readOrdinary (values : Values) (root : PurePosixPath) :
    List (String × String) → Except String (List (String × PurePosixPath))
  | [] => .ok []
  | (name, suffix) :: names => do
    let path ← posixPath (rootText values root ("HOSTED_" ++ name ++ "_ROOT") suffix) name
    let paths ← readOrdinary values root names
    pure ((name, path) :: paths)

/-- The roots as `build_security_bundle` reads them. -/
structure Roots where
  install : PurePosixPath
  state : PurePosixPath
  security : PurePosixPath
  replay : PurePosixPath
  panelAuth : PurePosixPath
  anchor : PurePosixPath
  ordinary : List (String × PurePosixPath)

def readRoots (values : Values) : Except String Roots := do
  let installed ← required values "HOSTED_INSTALL_ROOT"
  let root ← posixPath installed "HOSTED_INSTALL_ROOT"
  let state ← posixPath (rootText values root "HOSTED_ENGINE_STATE_ROOT" "tandem-engine-state") "engine state"
  let security ← posixPath (rootText values root "HOSTED_SECURITY_ROOT" "runtime-security") "security root"
  let replay ← posixPath (rootText values root "HOSTED_REPLAY_ROOT" "context-replay") "replay root"
  let panel_auth ← posixPath (rootText values root "HOSTED_PANEL_AUTH_ROOT" "panel-auth") "panel auth root"
  let anchored ← required values "HOSTED_AUDIT_ANCHOR_ROOT"
  let anchor ← posixPath anchored "audit anchor root"
  let ordinary ← readOrdinary values root ordinarySuffixes
  pure ⟨root, state, security, replay, panel_auth, anchor, ordinary⟩

/-- The list `roots`. -/
def Roots.security_roots (r : Roots) : List PurePosixPath := [r.state, r.security, r.replay, r.anchor, r.panelAuth]

/-- The comparisons of the roots. -/
def compareRoots (r : Roots) : Except String Unit := do
  require (r.security_roots.all fun path => r.ordinary.all fun ordinary => !path.overlaps ordinary.2)
    "security storage must be independent of ordinary workload mounts"
  require (pairwiseApart r.security_roots) "state, security, replay and anchor roots must be independent"
  require (!r.anchor.overlaps r.install) "audit anchor root must be independent of the installation tree"

/-! ## Bundles -/

structure MemoryEncryption where
  provider : String
  runtimePrincipalId : String
  encryptCommand : String
  decryptCommand : String
  kekId : String
  kekVersion : String
  rotationEpoch : Nat

structure EngineProvenance where
  sourceRevision : String
  binarySha256 : String
  attestationSha256 : String

/-- The bundle, without the settings that are rendered from these for the containers. -/
structure Bundle where
  schemaVersion : Nat
  profile : String
  deploymentId : String
  organizationId : String
  images : List (String × String)
  uid : Int
  gid : Int
  ordinaryPaths : List (String × String)
  hostPaths : List (String × String)
  controlPlaneUrl : String
  engineSourceRevision : Option String
  memoryEncryption : Option MemoryEncryption
  engineProvenance : Option EngineProvenance

/-- `str(path)`, in the bundle. -/
def pathText (path : PurePosixPath) : String := String.ofList path.str

/-- The value of decimal digits. -/
def decimal (digits : List Char) : Nat := digits.foldl (fun n c => 10 * n + (c.toNat - 48)) 0

/-- `[1-9][0-9]*`. -/
def isPositiveText (text : List Char) : Bool := text.all isDigit && decide (text.head? ≠ some '0' ∧ text ≠ [])

/-- The pattern of a key resource. -/
def isKeyResource (kekId : String) : Bool :=
  match kekId.toList.splitOn '/' with
  | [projects, project, locations, location, rings, ring, keys, key] =>
    decide (projects = "projects".toList) && isName project && decide (locations = "locations".toList) && isName location &&
      decide (rings = "keyRings".toList) && isName ring && decide (keys = "cryptoKeys".toList) && isName key
  | _ => false

/-- `text.removeprefix(start)`. -/
def removeStart (start text : List Char) : List Char := if start <+: text then text.drop start.length else text

def MEMORY_COMMAND_DIR : PurePosixPath := purePosixPath "/run/tandem-memory-kms"

/-- The command of one operation of `_memory_encryption`. -/
def memoryCommand (values : Values) (name : String) : Except String String := do
  let value ← required values name
  let command ← posixPath value name
  require (decide (command.parent = MEMORY_COMMAND_DIR) && isName (command.tail.getLast?.getD []))
    (name ++ " must use the dedicated read-only memory KMS mount")
  pure (pathText command)

/-- Up to 200 of the characters of names, colons and slashes. -/
def isPrincipal (text : List Char) : Bool :=
  decide (text ≠ [] ∧ text.length ≤ 200) && text.all fun c => isNameChar c || c = ':' || c = '/'

/-- `_memory_encryption`. -/
def memoryEncryption (values : Values) (deploymentId : String) : Except String MemoryEncryption := do
  let encrypted ← required values "HOSTED_MEMORY_ENCRYPTION_REQUIRED"
  require (decide (encrypted = "true")) "runtime security v3 requires hosted memory encryption"
  let provider ← required values "HOSTED_MEMORY_KMS_PROVIDER"
  require (decide (provider = "google_cloud_kms"))
    "runtime security v3 requires the supported Google Cloud KMS provider"
  let principal ← required values "HOSTED_MEMORY_KMS_RUNTIME_PRINCIPAL_ID"
  require (isPrincipal principal.toList && decide (':' :: deploymentId.toList <:+ principal.toList))
    "hosted memory principal must be bound to this deployment"
  let encrypt ← memoryCommand values "HOSTED_MEMORY_KMS_ENCRYPT_COMMAND"
  let decrypt ← memoryCommand values "HOSTED_MEMORY_KMS_DECRYPT_COMMAND"
  let kek_id ← required values "HOSTED_MEMORY_KEK_ID"
  require (isKeyResource kek_id) "hosted memory KEK id must be a complete Google KMS key resource"
  let version ← required values "HOSTED_MEMORY_KEK_VERSION"
  require (isPositiveText (removeStart (kek_id.toList ++ "/cryptoKeyVersions/".toList) version.toList))
    "hosted memory KEK version must belong to the configured key"
  let epoch ← required values "HOSTED_MEMORY_KEK_ROTATION_EPOCH"
  require ((decide (epoch = "0") || isPositiveText epoch.toList) && decide (decimal epoch.toList < 2 ^ 64))
    "hosted memory KEK rotation epoch must be an unsigned integer"
  pure ⟨provider, principal, encrypt, decrypt, kek_id, version, decimal epoch.toList⟩

/-- A root that is added to a bundle, compared with those it has. -/
def addedRoot (b : Bundle) (text name message : String) : Except String PurePosixPath := do
  let path ← posixPath text name
  require ((b.hostPaths ++ b.ordinaryPaths).all fun other => !path.overlaps (purePosixPath other.2)) message
  pure path

/-- The policy part of `apply_policy_profile`, below the installation root. -/
def policyProfile (values : Values) (root : PurePosixPath) (b : Bundle) (version : Nat) : Except String Bundle := do
  let policy ← addedRoot b (rootText values root "HOSTED_POLICY_ROOT" "hosted-policy") "hosted policy root"
    "hosted policy storage must be independent of other mounts"
  require (decide ("https://".toList <+: b.controlPlaneUrl.toList)) "runtime policy synchronization requires HTTPS"
  let revision := if version = 3 then MEMORY_ENGINE_REVISION else (values "HOSTED_TANDEM_ENGINE_SOURCE_REVISION").getD ""
  require (decide (version = 3 ∨ revision ∈ [POLICY_ENGINE_REVISION, PREVIOUS_POLICY_ENGINE_REVISION]))
    "runtime security v2 requires a tested engine source revision"
  pure
    { b with
      schemaVersion := version
      profile := "hosted-single-node-v" ++ toString version
      engineSourceRevision := some revision
      hostPaths := b.hostPaths ++ [("policy", pathText policy)] }

/-- The part of version 3. -/
def memoryProfile (values : Values) (root : PurePosixPath) (b : Bundle) : Except String Bundle := do
  let command_root ← addedRoot b (rootText values root "HOSTED_MEMORY_KMS_COMMAND_ROOT" "memory-kms-commands")
    "hosted memory KMS command root" "memory KMS command storage must be independent of other mounts"
  let memory ← memoryEncryption values b.deploymentId
  pure
    { b with
      hostPaths := b.hostPaths ++ [("memory_kms_commands", pathText command_root)]
      memoryEncryption := some memory
      engineProvenance := some
        ⟨MEMORY_ENGINE_REVISION, (values "HOSTED_ENGINE_BINARY_SHA256").getD "",
          (values "HOSTED_ENGINE_ATTESTATION_SHA256").getD ""⟩ }

/-- `apply_policy_profile`. -/
def applyPolicyProfile (values : Values) (b : Bundle) (version : Nat) : Except String Bundle := do
  let root ← posixPath ((values "HOSTED_INSTALL_ROOT").getD "") "installation root"
  let profiled ← policyProfile values root b version
  if version = 3 then memoryProfile values root profiled else pure profiled

/-- `values.get("HOSTED_RUNTIME_AUTH_MODE", values.get("TANDEM_RUNTIME_AUTH_MODE", "hosted_single_tenant"))`. -/
def authMode (values : Values) : String :=
  ((values "HOSTED_RUNTIME_AUTH_MODE").or (values "TANDEM_RUNTIME_AUTH_MODE")).getD "hosted_single_tenant"

/-- The bundle of version 1. -/
def renderBundle (lib : Library) (values : Values) (images : List (String × String)) : Except String Bundle := do
  require (decide (authMode values = "hosted_single_tenant")) "this profile requires hosted_single_tenant auth"
  require (decide ((values "HOSTED_STORAGE_PROFILE").getD "local" = "local"))
    "runtime security v1 supports local storage only"
  require (decide (lib.lower ((values "HOSTED_ENABLE_OUTBOX").getD "false") = "false"))
    "runtime security v1 does not support a separate outbox"
  let deployment ← required values "HOSTED_DEPLOYMENT_ID"
  let deployment_id ← uuidText lib deployment
  let organization ← required values "HOSTED_ORGANIZATION_ID"
  let organization_id ← uuidText lib organization
  let roots ← readRoots values
  compareRoots roots
  let uid ← intOf lib ((values "HOSTED_HOST_UID").getD "1000")
  let gid ← intOf lib ((values "HOSTED_HOST_GID").getD "1000")
  require (decide (0 < uid ∧ 0 < gid)) "hosted runtime requires a non-root UID/GID"
  let control ← required values "HOSTED_CONTROL_PLANE_URL"
  let control_plane ← url lib control "control plane URL"
  let _ ← url lib ((values "HOSTED_LOGIN_BASE_URL").getD control_plane) "login base URL"
  let panel ← required values "HOSTED_CONTROL_PANEL_PUBLIC_URL"
  let _ ← url lib panel "panel public URL"
  pure
    { schemaVersion := 1
      profile := PROFILE
      deploymentId := deployment_id
      organizationId := organization_id
      images := images
      uid := uid
      gid := gid
      ordinaryPaths := roots.ordinary.map fun path => (path.1, pathText path.2)
      hostPaths := [("state", pathText roots.state), ("security", pathText roots.security), ("replay", pathText roots.replay),
        ("anchor", pathText roots.anchor), ("panel_auth", pathText roots.panelAuth)]
      controlPlaneUrl := control_plane
      engineSourceRevision := none
      memoryEncryption := none
      engineProvenance := none }

/-- `build_security_bundle`. -/
def buildSecurityBundle (lib : Library) (approved : Registry) (values : Values) : Except String Bundle := do
  let images ← validateRelease approved values
  let bundle ← renderBundle lib values images
  if versionOf values = "2" then applyPolicyProfile values bundle 2
  else if versionOf values = "3" then applyPolicyProfile values bundle 3
  else pure bundle

end SecurityBundle
