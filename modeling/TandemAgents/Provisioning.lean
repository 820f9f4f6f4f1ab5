import TandemAgents.KeyringHistory
import TandemAgents.SecurityBundle
import TandemAgents.SharedCalls

/-!
# Provisioning the security roots

The bootstrap of an installation lays down its security files, and every later one goes over
them again: audit keys, sentinels and the binding of the roots are written before the marker
that says the roots are initialized, which is written last. A bootstrap may end anywhere, with
the engine at work in the roots.
-/
namespace Provisioning

open PythonText ByteFields JsonData JsonText JsonHooks JsonRoundTrip JsonCanonical PurePath SharedCalls
open SecurityBundle (isHexText)
open Keyring (require require_ok bind_ok checkFile same sameFields Stat FileKind)

set_option maxRecDepth 20000

/-! ## The host -/

inductive Root where
  | state | data | security | policy | replay | anchor | panelAuth
  deriving DecidableEq, Repr

def Root.name : Root → String
  | state => "state"
  | data => "data"
  | security => "security"
  | policy => "policy"
  | replay => "replay"
  | anchor => "anchor"
  | panelAuth => "panel_auth"

/-- The files a bootstrap writes. -/
inductive File where
  | marker | auditKey | keyring | keyringLock | storageRoots | replaySentinel | anchorSentinel | hostToken | panelConfig
  deriving DecidableEq, Repr

def File.all : List File :=
  [.marker, .auditKey, .keyring, .keyringLock, .storageRoots, .replaySentinel, .anchorSentinel, .hostToken, .panelConfig]

def File.root : File → Root
  | marker => .security
  | auditKey => .security
  | keyring => .security
  | keyringLock => .security
  | storageRoots => .security
  | replaySentinel => .replay
  | anchorSentinel => .anchor
  | hostToken => .panelAuth
  | panelConfig => .panelAuth

/-- `lstat`. -/
structure Info extends Stat where
  gid : Nat
  device : Nat
  inode : Nat

/-- A file and its bytes. -/
structure FileEntry where
  info : Info
  content : List Char

abbrev Files := File → Option FileEntry

def Files.put (F : Files) (f : File) (e : FileEntry) : Files := fun g => if g = f then some e else F g

@[simp] theorem Files.put_same (F : Files) (f : File) (e : FileEntry) : F.put f e f = some e := by simp [Files.put]

@[simp] theorem Files.put_other (F : Files) {f g : File} (e : FileEntry) (h : g ≠ f) : F.put f e g = F g := by
  simp [Files.put, h]

/-- The roots with whether their paths are plain and what is above them, the provisioned files, unfinished ones and
what else is in a root, the token source and the memory key commands, and what a new entry is numbered. -/
structure Host where
  root : Root → Option Info
  plain : Root → Bool
  ancestors : Root → List (Option Info)
  files : Files
  unfinished : Root → Nat
  entries : Root → List (String × Info)
  token : Option FileEntry
  tokenPlain : Bool
  commandDirectory : Option Info
  commandAncestors : List Info
  command : List Char → Option Info
  device : Nat
  inode : Nat

/-- `any(path.iterdir())`. -/
def Host.occupied (h : Host) (r : Root) : Bool :=
  !(h.entries r).isEmpty || decide (h.unfinished r ≠ 0) || File.all.any fun f => decide (f.root = r) && (h.files f).isSome

/-- The paths of an installation and what comes from the language. -/
structure Installation where
  path : Root → String
  floats : Floats
  sha256 : List Char → String

/-- What a call of `prepare_security` is given, and the user it runs as. -/
structure Request where
  schemaVersion : Int
  engineImage : Except String Unit
  uid : Nat
  gid : Nat
  euid : Nat
  deploymentId : String
  organizationId : String
  keyring : Json
  hostPaths : List PurePosixPath
  ordinaryPaths : List PurePosixPath
  encryptCommand : Option String
  decryptCommand : Option String
  panelConfig : Option Dict
  panelHosted : Dict

/-- A call, with its time in milliseconds and the random tokens it draws. -/
structure Bootstrap extends Request where
  now : Int
  random : File → List Char
  random_hex : ∀ f, isHexText 64 (random f) = true

abbrev Call (α : Type) := Prog Host String α

/-- `f"runtime-security-v{n}\n"`. -/
def versionText (n : Int) : List Char := "runtime-security-v".toList ++ (toString n).toList ++ ['\n']

/-! ## Files and directories -/

section
variable (c : Bootstrap)

/-- `_write`, behind its check: an unfinished file, and the file replaced by it. -/
def replaceFile (f : File) (value : List Char) : Call Unit := do
  Prog.look fun h => require (h.root f.root).isSome "No such file or directory"
  Prog.call (fun h => { h with
    unfinished := fun r => if r = f.root then h.unfinished r + 1 else h.unfinished r }) fun _ => .ret ()
  Prog.call (fun h => { h with
    unfinished := fun r => if r = f.root then h.unfinished r - 1 else h.unfinished r
    files := h.files.put f ⟨⟨⟨.regular, c.uid, 0o600, 1, value.length⟩, c.gid, h.device, h.inode⟩, value⟩
    inode := h.inode + 1 }) fun _ => .ret ()

/-- `_write`. -/
def write (f : File) (value : List Char) : Call Unit := do
  Prog.look fun h => (h.files f).elim (.ok ()) fun e => checkFile e.info.toStat c.uid
  replaceFile c f value

/-- `path.exists()`. -/
def present (f : File) : Call Bool := Prog.look fun h => .ok (h.files f).isSome

/-- `_directory`. -/
def directory (r : Root) : Call Unit := do
  let found ← Prog.look fun h =>
    if h.plain r then .ok (h.root r) else .error "security paths must be absolute and contain no symlinks"
  match found with
  | some i => Prog.ofExcept (require (decide (i.kind = .directory ∧ i.uid = c.uid ∧ i.mode = 0o700))
      "existing security directory must be runtime-owned with mode 0700")
  | none => do
    Prog.call (fun h => { h with
      root := fun q => if q = r then some ⟨⟨.directory, c.euid, 0o700, 2, 0⟩, c.gid, h.device, h.inode⟩ else h.root q
      inode := h.inode + 1 }) fun _ => .ret ()
    Prog.call (fun h => { h with
      root := fun q => if q = r then (h.root q).map fun i => { i with uid := c.uid, gid := c.gid } else h.root q })
      fun _ => .ret ()

/-! ## Checks -/

/-- `bytes.strip`. -/
def stripBytes (bytes : List Char) : List Char := ((bytes.dropWhile isAsciiSpace).reverse.dropWhile isAsciiSpace).reverse

/-- The token source; `plain` says whether its path is. -/
def readToken (plain : Bool) (source : Option FileEntry) : Except String (List Char) := do
  require plain "security paths must be absolute and contain no symlinks"
  let e ← source.elim (.error "No such file or directory") .ok
  require (decide (e.info.kind = .regular ∧ e.info.links = 1 ∧ e.info.mode &&& 0o077 = 0))
    "host agent token source must be an owner-only regular file"
  let value := stripBytes e.content
  require (decide (32 ≤ value.length) && value.all fun b => decide (32 < b.toNat ∧ b.toNat < 127))
    "a provisioned host agent token is required"
  pure value

/-- The checks in front of the roots. -/
def checkRequest : Call (List Char) := do
  Prog.ofExcept (require (decide (c.schemaVersion = 1 ∨ c.schemaVersion = 2 ∨ c.schemaVersion = 3))
    "unsupported runtime security contract")
  Prog.ofExcept (if c.schemaVersion = 3 then c.engineImage else .ok ())
  Prog.ofExcept (Keyring.validateKeyring c.keyring c.deploymentId c.organizationId "tandem-runtime")
  Prog.ofExcept (require (decide (c.euid = 0 ∨ c.euid = c.uid)) "provision as root or the configured runtime user")
  let token ← Prog.look fun h => readToken h.tokenPlain h.token
  Prog.ofExcept (require (c.ordinaryPaths.all fun o => c.hostPaths.all fun p => !PurePosixPath.overlaps p o)
    "security storage must remain independent of workload mounts")
  Prog.ofExcept (require (decide (c.hostPaths.Pairwise fun p q => PurePosixPath.overlaps p q = false))
    "security storage roots must remain independent")
  return token

/-- `_check_storage_parents`, from the nearest parent on. -/
def checkStorageParents : Nat → List (Option Info) → Except String Unit
  | _, [] => .ok ()
  | _, none :: _ => .error "v3 storage ancestors must be preprovisioned and prevent non-root replacement"
  | childUid, some i :: rest => do
    -- a sticky parent protects root-owned children only
    require (decide (i.kind = .directory ∧ i.uid = 0 ∧ (i.mode &&& 0o022 = 0 ∨ i.mode &&& 0o1000 ≠ 0 ∧ childUid = 0)))
      "v3 storage ancestors must prevent non-root replacement"
    checkStorageParents i.uid rest

/-- What `_v3_storage_identity` keeps of a root. -/
structure Identity where
  path : String
  device : Nat
  inode : Nat
  sentinel : Option (List Char)
  deriving DecidableEq

/-- The text of a sentinel. -/
def readSentinel (name : String) (e : Option FileEntry) : Except String (List Char) := do
  let e ← e.elim (.error ("v3 " ++ name ++ " root sentinel is missing; authorized recovery is required")) .ok
  checkFile e.info.toStat c.uid
  require (isHexText 64 e.content) ("v3 " ++ name ++ " root sentinel is invalid; authorized recovery is required")
  pure e.content

variable (at_ : Installation)

/-- The identity of a root, with its sentinel if it has one. -/
def rootIdentity (r : Root) (sentinel : Option File) : Call Identity := Prog.look fun h => do
  require (h.plain r) "security paths must be absolute and contain no symlinks"
  checkStorageParents c.uid (h.ancestors r)
  let i ← (h.root r).elim (.error "v3 workload roots must exist before security provisioning") .ok
  require (decide (i.kind = .directory ∧ i.uid = c.uid ∧ i.mode &&& 0o022 = 0))
    "v3 workload roots must be runtime-owned directories without group or world write"
  match sentinel with
  | none => pure ⟨at_.path r, i.device, i.inode, none⟩
  | some f => do
    let value ← readSentinel c r.name (h.files f)
    pure ⟨at_.path r, i.device, i.inode, some value⟩

/-- `_v3_storage_identity`. -/
def storageIdentity (includeHistory : Bool) : Call (List (String × Identity)) := do
  let state ← rootIdentity c at_ .state none
  let data ← rootIdentity c at_ .data none
  if includeHistory then do
    let replay ← rootIdentity c at_ .replay (some .replaySentinel)
    let anchor ← rootIdentity c at_ .anchor (some .anchorSentinel)
    return [("state", state), ("data", data), ("replay", replay), ("anchor", anchor)]
  else return [("state", state), ("data", data)]

def Identity.document (i : Identity) : Json :=
  .obj ([("path", .str i.path), ("device", .int i.device), ("inode", .int i.inode)] ++
    (i.sentinel.map fun s => ("sentinel", .str (String.ofList s))).toList)

def document (identity : List (String × Identity)) : Json := .obj (identity.map fun (name, i) => (name, i.document))

/-- `_check_memory_commands`, from the command directory on. -/
def checkMemoryCommands (c : Request) (directory : Option Info) (ancestors : List Info)
    (command : List Char → Option Info) : Except String Unit := do
  let i ← directory.elim (.error "v3 memory KMS command directory must be preprovisioned") .ok
  require (decide (i.kind = .directory ∧ i.uid = 0 ∧ i.gid = c.gid ∧ i.mode = 0o750))
    "v3 memory KMS command directory must be root-owned with runtime-group traverse"
  require (ancestors.all fun p =>
    decide (p.kind = .directory ∧ p.uid = 0 ∧ (p.mode &&& 0o022 = 0 ∨ p.mode &&& 0o1000 ≠ 0)))
    "v3 memory KMS command ancestors must prevent non-root replacement"
  for (operation, reference) in [("encrypt", c.encryptCommand), ("decrypt", c.decryptCommand)] do
    let missing := "v3 memory KMS " ++ operation ++ " command must be preprovisioned"
    let path ← (reference.map purePosixPath).elim (.error missing) .ok
    let name := path.tail.getLastD []
    require (decide (path.parent = purePosixPath "/run/tandem-memory-kms" ∧ name ≠ [] ∧ name ≠ ['.'] ∧ name ≠ ['.', '.']))
      missing
    let found ← (command name).elim (.error missing) .ok
    require (decide (found.kind = .regular ∧ found.links = 1 ∧ found.uid = 0 ∧ found.gid = c.gid ∧ found.mode = 0o550))
      ("v3 memory KMS " ++ operation ++ " command must be root-owned and group-executable")

/-- State and data of a version 3 installation that is not initialized. -/
def checkFresh : Call Unit := Prog.look fun h => do
  require ((h.root .state).all fun i => decide (i.kind = .directory) && !h.occupied .state)
    "existing state requires authorized encrypted memory migration"
  require ((h.root .data).all fun i => decide (i.kind = .directory) && (h.entries .data).all fun (name, entry) =>
      decide (name = "control-panel-config.json" ∧ entry.kind = .regular ∧ entry.links = 1))
    "existing workload data requires authorized encrypted memory migration"

/-- What version 3 asks for before any root is created. -/
def checkStorage : Call (Option (List (String × Identity))) := do
  if c.schemaVersion ≠ 3 then return none
  else do
    Prog.look fun h => checkStorageParents c.uid (h.ancestors .replay)
    Prog.look fun h => checkStorageParents c.uid (h.ancestors .anchor)
    let identity ← storageIdentity c at_ false
    Prog.look fun h => checkMemoryCommands c.toRequest h.commandDirectory h.commandAncestors h.command
    let initialized ← present .marker
    if !initialized then do
      checkFresh
      return some identity
    else return some identity

/-- `int(previous_version[len(b"runtime-security-v"):].strip())`, of a marker that is one of three. -/
def markerNumber (content : List Char) : Option Int := [1, 2, 3].find? fun n => decide (content = versionText n)

/-- The checks against the marker in place; version 3 over version 3 compares the roots with their binding. -/
def checkMarker (identity : Option (List (String × Identity))) : Call (Option (List (String × Identity))) := do
  let marker ← Prog.look fun h => .ok (h.files .marker)
  match marker with
  | none => return identity
  | some e => do
    Prog.ofExcept (checkFile e.info.toStat c.uid)
    let previous ← Prog.ofExcept ((markerNumber e.content).elim (.error "unknown initialized runtime security version") .ok)
    Prog.ofExcept (require (decide (¬ (previous = 3 ∧ c.schemaVersion ≠ 3)))
      "runtime security downgrade would disable hosted memory encryption")
    Prog.ofExcept (require (decide (¬ (c.schemaVersion = 3 ∧ previous ≠ 3)))
      "runtime security v3 requires fresh storage or authorized memory migration")
    Prog.ofExcept (require (decide (¬ (previous = 2 ∧ c.schemaVersion = 1)))
      "runtime security downgrade would disable policy synchronization")
    if previous ≠ 3 then return identity
    else do
      Prog.look fun h => require (h.root .replay).isSome "v3 replay root is missing; authorized recovery is required"
      Prog.look fun h => require (h.root .anchor).isSome "v3 anchor root is missing; authorized recovery is required"
      let current ← storageIdentity c at_ true
      let binding ← Prog.look fun h => do
        let e ← (h.files .storageRoots).elim (.error "v3 workload root binding is missing or invalid") .ok
        checkFile e.info.toStat c.uid
        (loads at_.floats e.content).elim (.error "v3 workload root binding is missing or invalid") .ok
      Prog.ofExcept (require (same binding (document current)) "v3 workload roots changed; authorized recovery is required")
      return some current

/-- The remaining directories. -/
def directories : Call Unit := do
  (if c.schemaVersion = 1 then Prog.ret () else directory c .policy)
  directory c .replay
  directory c .anchor
  directory c .panelAuth

/-- The audit key, which is created for roots without history only. -/
def auditKey : Call Unit := do
  let found ← Prog.look fun h => .ok (h.files .auditKey)
  match found with
  | some e => do
    Prog.ofExcept (checkFile e.info.toStat c.uid)
    Prog.ofExcept (require (decide (32 ≤ (stripBytes e.content).length)) "existing audit key is invalid; authorized recovery is required")
  | none => do
    Prog.look fun h => require (!((h.files .marker).isSome || h.occupied .replay || h.occupied .anchor))
      "audit key is missing from initialized storage; authorized recovery is required"
    write c .auditKey (c.random .auditKey)

/-- What `install_keyring` finds on the host. -/
def keyringCall (initializing : Bool) (h : Host) : Keyring.Call where
  bundle := ⟨c.uid, c.deploymentId, c.organizationId⟩
  host := {
    posix := true
    euid := c.euid
    now := c.now
    directory := if h.plain .security then (h.root .security).map Info.toStat else none
    lock := (h.files .keyringLock).map fun e => e.info.toStat
    keyring := ((h.files .keyring).map fun e => e.info.toStat).getD ⟨.other, 0, 0, 0, 0⟩
    initialized := (h.files .marker).isSome }
  proposed := c.keyring
  expected := none
  initializing := initializing
  apply := true
  disk := .syncs

/-- The lock of the keyring, created where it is missing. -/
def openLock : Call Unit :=
  Prog.call (fun h => match h.files .keyringLock with
    | some _ => h
    | none => { h with
        files := h.files.put .keyringLock ⟨⟨⟨.regular, c.euid, 0o600, 1, 0⟩, c.gid, h.device, h.inode⟩, []⟩
        inode := h.inode + 1 }) fun _ => .ret ()

/-- The lock handed to the runtime user. -/
def ownLock : Call Unit :=
  Prog.call (fun h => match h.files .keyringLock with
    | some e => { h with files := h.files.put .keyringLock { e with info := { e.info with uid := c.uid, gid := c.gid } } }
    | none => h) fun _ => .ret ()

/-- `install_keyring`, whose lock is opened behind the checks that need no file. -/
def installKeyring (initializing : Bool) : Call Unit := do
  Prog.ofExcept (Keyring.validateDocument c.keyring c.deploymentId c.organizationId)
  Prog.ofExcept (require ((c.keyring.asDict.getD []).any (Keyring.isCurrent c.now))
    "keyring requires a currently valid active key")
  Prog.look fun h => require (((if h.plain .security then h.root .security else none).any fun i =>
    decide (i.kind = .directory ∧ i.uid = c.uid ∧ i.mode = 0o700))) "invalid security directory ownership or mode"
  openLock c
  let _ ← Prog.look fun h => Keyring.decideCall at_.floats at_.sha256 (keyringCall c initializing h)
    ((h.files .keyring).map FileEntry.content)
  ownLock c
  write c .keyring (Keyring.render c.keyring)

/-- The panel's configuration, with the hosted part of the bundle over it. -/
def panelText (c : Request) : Except String (List Char) := do
  let config : Dict := match c.panelConfig with
    | some d => if d.isEmpty then [("version", Json.int 1)] else d
    | none => [("version", Json.int 1)]
  let hosted ← (if config.contains "hosted" then (config.get "hosted").asDict else some []).elim
    (.error "object has no attribute 'update'") .ok
  return dumps (.obj (config.set "hosted" (.obj (c.panelHosted.foldl (fun (d : Dict) f => Dict.set d f.1 f.2) hosted))))

def panel (token : List Char) : Call Unit := do
  write c .hostToken token
  let text ← Prog.ofExcept (panelText c.toRequest)
  write c .panelConfig text

/-- Sentinels and binding of a version 3 installation. -/
def sealRoots : Option (List (String × Identity)) → Call Unit
  | none => .ret ()
  | some identity => do
    let initialized ← present .marker
    if initialized then do
      let again ← storageIdentity c at_ true
      Prog.ofExcept (require (decide (again = identity))
        "v3 workload roots changed during provisioning; authorized recovery is required")
    else do
      write c .replaySentinel (c.random .replaySentinel)
      write c .anchorSentinel (c.random .anchorSentinel)
      let bound ← storageIdentity c at_ true
      write c .storageRoots (dumps (sortKeys (document bound)))

/-- `prepare_security`. -/
def prepareSecurity : Call Unit := do
  let token ← checkRequest c
  let identity ← checkStorage c at_
  directory c .security
  let identity ← checkMarker c at_ identity
  directories c
  auditKey c
  let initialized ← present .marker
  installKeyring c at_ (!initialized)
  panel c token
  sealRoots c at_ identity
  write c .marker (versionText c.schemaVersion)

end

/-! ## What a bootstrap keeps -/

/-- The roots that a version 3 installation is bound to. -/
structure Roots where
  state : Identity
  data : Identity
  replay : Identity
  anchor : Identity

def Roots.identity (roots : Roots) : List (String × Identity) :=
  [("state", roots.state), ("data", roots.data), ("replay", roots.replay), ("anchor", roots.anchor)]

/-- The binding on disk. -/
def Roots.text (roots : Roots) : List Char := dumps (sortKeys (document roots.identity))

/-- The sentinels of the roots are the ones in the files. -/
structure Sealed (F : Files) (roots : Roots) : Prop where
  replay : roots.replay.sentinel = (F .replaySentinel).map FileEntry.content
  anchor : roots.anchor.sentinel = (F .anchorSentinel).map FileEntry.content

/-- Sentinels, and a binding that was written for them. -/
structure Bound (F : Files) : Prop where
  replay : (F .replaySentinel).isSome
  anchor : (F .anchorSentinel).isSome
  roots : ∃ e roots, F .storageRoots = some e ∧ e.content = Roots.text roots ∧ Sealed F roots

/-- Everything a marker promises. -/
structure Complete (F : Files) (n : Int) : Prop where
  version : n = 1 ∨ n = 2 ∨ n = 3
  auditKey : (F .auditKey).isSome
  keyring : (F .keyring).isSome
  hostToken : (F .hostToken).isSome
  panelConfig : (F .panelConfig).isSome
  history : n = 3 → Bound F

/-- A marker comes last. -/
def MarkedLast (F : Files) : Prop := ∀ e, F .marker = some e → ∃ n, e.content = versionText n ∧ Complete F n

/-- The version of a marker. -/
def versionOf (F : Files) : Option Int := (F .marker).bind fun e => markerNumber e.content

/-- The files that bind the history of a version 3 installation. -/
def historyFiles : List File := [.replaySentinel, .anchorSentinel, .storageRoots]

/-- The audit key stays; a marker stays and its version does not go back, and version 3 is neither left nor
entered over another; and its sentinels and their binding stay. -/
structure Kept (F F' : Files) : Prop where
  auditKey : ∀ e, F .auditKey = some e → F' .auditKey = some e
  version : ∀ n, versionOf F = some n → ∃ n', versionOf F' = some n' ∧ n ≤ n' ∧ (n' = 3 ↔ n = 3)
  history : versionOf F = some 3 → ∀ f ∈ historyFiles, F' f = F f

theorem Kept.refl (F : Files) : Kept F F :=
  ⟨fun _ h => h, fun n h => ⟨n, h, Int.le_refl n, Iff.rfl⟩, fun _ _ _ => rfl⟩

theorem Kept.trans {F F' F'' : Files} (h : Kept F F') (h' : Kept F' F'') : Kept F F'' where
  auditKey e he := h'.auditKey e (h.auditKey e he)
  version n hn := by
    obtain ⟨n', hn', hle, hthree⟩ := h.version n hn
    obtain ⟨n'', hn'', hle', hthree'⟩ := h'.version n' hn'
    exact ⟨n'', hn'', Int.le_trans hle hle', hthree'.trans hthree⟩
  history hn f hf := by
    obtain ⟨n', hn', -, hthree⟩ := h.version 3 hn
    rw [hthree.mpr rfl] at hn'
    rw [h'.history hn' f hf, h.history hn f hf]

theorem markerNumber_eq {content : List Char} {n : Int} (h : markerNumber content = some n) :
    (n = 1 ∨ n = 2 ∨ n = 3) ∧ content = versionText n := by
  refine ⟨?_, by simpa using List.find?_some h⟩
  simpa using List.mem_of_find?_eq_some h

theorem markerNumber_versionText {n : Int} (h : n = 1 ∨ n = 2 ∨ n = 3) : markerNumber (versionText n) = some n := by
  rcases h with rfl | rfl | rfl <;> decide

/-- The steps that are allowed. -/
abbrev Step (F F' : Files) : Prop := MarkedLast F → Kept F F' ∧ MarkedLast F'

theorem step_refl (F : Files) : Step F F := fun h => ⟨.refl F, h⟩

theorem Bound.congr {F F' : Files} (h : Bound F) (hsame : ∀ f ∈ historyFiles, F' f = F f) : Bound F' := by
  have hreplay : F' .replaySentinel = F .replaySentinel := hsame _ (by decide)
  have hanchor : F' .anchorSentinel = F .anchorSentinel := hsame _ (by decide)
  have hroots : F' .storageRoots = F .storageRoots := hsame _ (by decide)
  obtain ⟨e, roots, he, hcontent, hsealed⟩ := h.roots
  exact ⟨hreplay ▸ h.replay, hanchor ▸ h.anchor, e, roots, hroots.trans he, hcontent,
    hreplay ▸ hsealed.replay, hanchor ▸ hsealed.anchor⟩

/-- A file is replaced that neither a marker nor what is kept depends on. -/
theorem step_put {F : Files} {f : File} {e : FileEntry} (hmarker : f ≠ .marker) (haudit : f = .auditKey → F .auditKey = none)
    (hhistory : f ∈ historyFiles → F .marker = none) : Step F (F.put f e) := by
  have hsame : F.put f e .marker = F .marker := Files.put_other F e hmarker.symm
  have hversion : versionOf (F.put f e) = versionOf F := by rw [versionOf, versionOf, hsame]
  have hsome : ∀ {g}, (F g).isSome → (F.put f e g).isSome := by
    intro g hg
    by_cases hgf : g = f
    · rw [hgf, Files.put_same]
      rfl
    · rwa [Files.put_other F e hgf]
  intro hlast
  refine ⟨⟨fun k hk => ?_, fun n hn => ⟨n, hversion.trans hn, Int.le_refl n, Iff.rfl⟩, fun hthree g hg => ?_⟩, ?_⟩
  · have hne : File.auditKey ≠ f := by
      rintro rfl
      rw [haudit rfl] at hk
      cases hk
    rw [Files.put_other F e hne, hk]
  · have hne : g ≠ f := by
      rintro rfl
      rw [versionOf, hhistory hg] at hthree
      cases hthree
    exact Files.put_other F e hne
  · intro m hm
    rw [hsame] at hm
    obtain ⟨n, hcontent, hcomplete⟩ := hlast m hm
    refine ⟨n, hcontent, hcomplete.version, hsome hcomplete.auditKey, hsome hcomplete.keyring, hsome hcomplete.hostToken,
      hsome hcomplete.panelConfig, fun hn => (hcomplete.history hn).congr fun g hg => ?_⟩
    have hne : g ≠ f := by
      rintro rfl
      rw [hhistory hg] at hm
      cases hm
    exact Files.put_other F e hne

/-! ## What a bootstrap reads -/

/-- A root and its sentinel, as they stand. -/
def identityOf (at_ : Installation) (h : Host) (r : Root) (sentinel : Option File) : Option Identity :=
  (h.root r).map fun i => ⟨at_.path r, i.device, i.inode, sentinel.bind fun f => (h.files f).map FileEntry.content⟩

/-- Each root was read at a state that shows `x`. -/
structure ReadAt {τ : Type} (at_ : Installation) (π : Host → τ) (x : τ) (roots : Roots) : Prop where
  state : ∃ h, π h = x ∧ identityOf at_ h .state none = some roots.state
  data : ∃ h, π h = x ∧ identityOf at_ h .data none = some roots.data
  replay : ∃ h, π h = x ∧ identityOf at_ h .replay (some .replaySentinel) = some roots.replay
  anchor : ∃ h, π h = x ∧ identityOf at_ h .anchor (some .anchorSentinel) = some roots.anchor

section
variable {c : Bootstrap} {at_ : Installation} {τ : Type} {π : Host → τ} {G : τ → τ → Prop} {x : τ}

theorem reads_checkRequest (hG : ∀ y, G y y) : (checkRequest c).Fits π G
    (fun _ y => y = x ∧ (c.schemaVersion = 1 ∨ c.schemaVersion = 2 ∨ c.schemaVersion = 3)) x := by
  unfold checkRequest
  refine Prog.fits_ofExcept_bind fun _ hversion => ?_
  have hversion := of_decide_eq_true (require_ok.mp hversion)
  refine Prog.fits_ofExcept_bind fun _ _ => ?_
  refine Prog.fits_ofExcept_bind fun _ _ => ?_
  refine Prog.fits_ofExcept_bind fun _ _ => ?_
  refine Prog.fits_look_bind hG fun _ _ _ _ => ?_
  refine Prog.fits_ofExcept_bind fun _ _ => ?_
  refine Prog.fits_ofExcept_bind fun _ _ => ?_
  exact ⟨rfl, hversion⟩

theorem reads_rootIdentity (hG : ∀ y, G y y) (r : Root) (f : Option File) : (rootIdentity c at_ r f).Fits π G
    (fun i y => y = x ∧ ∃ h, π h = x ∧ identityOf at_ h r f = some i) x := by
  refine Prog.fits_look hG fun h hh i hi => ⟨rfl, h, hh, ?_⟩
  simp only [bind_ok] at hi
  obtain ⟨_, -, _, -, info, hinfo, _, -, hi⟩ := hi
  have hroot : h.root r = some info := by
    cases hr : h.root r with
    | none =>
      rw [hr] at hinfo
      cases hinfo
    | some info' =>
      rw [hr] at hinfo
      rw [Except.ok.inj hinfo]
  rw [identityOf, hroot, Option.map_some]
  cases f with
  | none =>
    rw [← Except.ok.inj hi]
    rfl
  | some f =>
    obtain ⟨value, hvalue, hi⟩ := bind_ok.mp hi
    rw [← Except.ok.inj hi]
    simp only [readSentinel, bind_ok] at hvalue
    obtain ⟨e, he, _, -, _, -, hvalue⟩ := hvalue
    rw [← Except.ok.inj hvalue]
    cases hf : h.files f with
    | none =>
      rw [hf] at he
      cases he
    | some e' =>
      rw [hf] at he
      rw [Option.bind_some, hf, Except.ok.inj he]
      rfl

theorem reads_storageIdentity (hG : ∀ y, G y y) (includeHistory : Bool) : (storageIdentity c at_ includeHistory).Fits π G
    (fun identity y => y = x ∧
      (includeHistory = true → ∃ roots, identity = Roots.identity roots ∧ ReadAt at_ π x roots)) x := by
  unfold storageIdentity
  refine (reads_rootIdentity hG .state none).bind fun state _ hstate => ?_
  obtain ⟨rfl, hstate⟩ := hstate
  refine (reads_rootIdentity hG .data none).bind fun data _ hdata => ?_
  obtain ⟨rfl, hdata⟩ := hdata
  cases includeHistory with
  | false => exact ⟨rfl, Bool.noConfusion⟩
  | true =>
    refine (reads_rootIdentity hG .replay (some .replaySentinel)).bind fun replay _ hreplay => ?_
    obtain ⟨rfl, hreplay⟩ := hreplay
    refine (reads_rootIdentity hG .anchor (some .anchorSentinel)).bind fun anchor _ hanchor => ?_
    obtain ⟨rfl, hanchor⟩ := hanchor
    exact ⟨rfl, fun _ => ⟨⟨state, data, replay, anchor⟩, rfl, hstate, hdata, hreplay, hanchor⟩⟩

/-- Only version 3 has an identity to go by. -/
theorem reads_checkStorage (hG : ∀ y, G y y) : (checkStorage c at_).Fits π G
    (fun identity y => y = x ∧ (identity = none ↔ c.schemaVersion ≠ 3)) x := by
  unfold checkStorage
  split
  · rename_i hversion
    exact ⟨rfl, fun _ => hversion, fun _ => rfl⟩
  · rename_i hversion
    refine Prog.fits_look_bind hG fun _ _ _ _ => ?_
    refine Prog.fits_look_bind hG fun _ _ _ _ => ?_
    refine (reads_storageIdentity hG false).bind fun identity _ hidentity => ?_
    obtain ⟨rfl, -⟩ := hidentity
    refine Prog.fits_look_bind hG fun _ _ _ _ => ?_
    refine Prog.fits_look_bind hG fun _ _ initialized _ => ?_
    have hsome : some identity = none ↔ c.schemaVersion ≠ 3 := iff_of_false (by simp) hversion
    cases initialized with
    | false => exact Prog.fits_look_bind hG fun _ _ _ _ => ⟨rfl, hsome⟩
    | true => exact ⟨rfl, hsome⟩

/-- A version 3 marker in place: it goes on with the binding only, and only where that is what was read. -/
theorem reads_checkMarker (hG : ∀ y, G y y) (identity : Option (List (String × Identity))) {m : FileEntry}
    (hmarker : ∀ h : Host, π h = x → h.files .marker = some m) (hthree : m.content = versionText 3) :
    (checkMarker c at_ identity).Fits π G (fun identity y => y = x ∧
      ∃ roots e binding h, identity = some (Roots.identity roots) ∧
      ReadAt at_ π x roots ∧ π h = x ∧ h.files .storageRoots = some e ∧ loads at_.floats e.content = some binding ∧
      same binding (document roots.identity) = true) x := by
  unfold checkMarker
  refine Prog.fits_look_bind hG fun h hh marker hm => ?_
  obtain rfl : some m = marker := (hmarker h hh).symm.trans (Except.ok.inj hm)
  refine Prog.fits_ofExcept_bind fun _ _ => ?_
  refine Prog.fits_ofExcept_bind fun previous hprevious => ?_
  refine Prog.fits_ofExcept_bind fun _ _ => ?_
  refine Prog.fits_ofExcept_bind fun _ _ => ?_
  refine Prog.fits_ofExcept_bind fun _ _ => ?_
  rw [hthree, markerNumber_versionText (by decide)] at hprevious
  obtain rfl := Except.ok.inj hprevious
  refine Prog.fits_look_bind hG fun _ _ _ _ => ?_
  refine Prog.fits_look_bind hG fun _ _ _ _ => ?_
  refine (reads_storageIdentity hG true).bind fun current _ hcurrent => ?_
  obtain ⟨rfl, hcurrent⟩ := hcurrent
  obtain ⟨roots, rfl, hreads⟩ := hcurrent rfl
  refine Prog.fits_look_bind hG fun h hh binding hbinding => ?_
  refine Prog.fits_ofExcept_bind fun _ hsame => ?_
  simp only [bind_ok] at hbinding
  obtain ⟨e, he, _, -, hbinding⟩ := hbinding
  refine ⟨rfl, roots, e, binding, h, rfl, hreads, hh, ?_, ?_, require_ok.mp hsame⟩
  · cases hf : h.files .storageRoots with
    | none =>
      rw [hf] at he
      cases he
    | some e' =>
      rw [hf] at he
      rw [Except.ok.inj he]
  · cases hl : loads at_.floats e.content with
    | none =>
      rw [hl] at hbinding
      cases hbinding
    | some b =>
      rw [hl] at hbinding
      rw [Except.ok.inj hbinding]

end

/-! ## What one bootstrap does -/

section
variable {c : Bootstrap} {at_ : Installation} {F : Files} {α : Type}

/-- A file replaced in a step. -/
theorem fits_replaceFile {f : File} {value : List Char} {Q : Unit → Files → Prop}
    (hstep : ∀ e : FileEntry, e.content = value → Step F (F.put f e) ∧ Q () (F.put f e)) :
    (replaceFile c f value).Fits Host.files Step Q F := by
  refine Prog.fits_look_bind step_refl fun _ _ _ _ => ?_
  refine Prog.fits_call_bind fun h hh => ⟨hh ▸ step_refl _, fun h' hh' => ?_⟩
  have hfiles : h'.files = F := hh'.trans hh
  have hput := hstep ⟨⟨⟨.regular, c.uid, 0o600, 1, value.length⟩, c.gid, h'.device, h'.inode⟩, value⟩ rfl
  dsimp only
  rw [hfiles, hh]
  exact hput

/-- `_write`. -/
theorem fits_write {f : File} {value : List Char} {Q : Unit → Files → Prop}
    (hstep : ∀ e : FileEntry, e.content = value → Step F (F.put f e) ∧ Q () (F.put f e)) :
    (write c f value).Fits Host.files Step Q F :=
  Prog.fits_look_bind step_refl fun _ _ _ _ => fits_replaceFile hstep

/-- What changes no file. -/
theorem fits_directory (r : Root) : (directory c r).Fits Host.files Step (fun _ F' => F' = F) F := by
  refine Prog.fits_look_bind step_refl fun _ _ found _ => ?_
  cases found with
  | some i =>
    exact Prog.fits_ofExcept fun _ _ => rfl
  | none =>
    refine Prog.fits_call_bind fun h hh => ⟨hh ▸ step_refl _, fun h' hh' => ?_⟩
    have hfiles : h'.files = F := hh'.trans hh
    exact ⟨hh' ▸ step_refl _, hfiles⟩

theorem fits_storageIdentity (includeHistory : Bool) : (storageIdentity c at_ includeHistory).Fits Host.files Step
    (fun identity F' => F' = F ∧ (includeHistory = true → ∃ roots, identity = Roots.identity roots ∧ Sealed F roots)) F := by
  refine (reads_storageIdentity step_refl includeHistory).weaken fun identity F' h => ⟨h.1, fun hhistory => ?_⟩
  obtain ⟨roots, hidentity, hreads⟩ := h.2 hhistory
  have hsentinel : ∀ {r : Root} {f : File} {i : Identity},
      (∃ h : Host, h.files = F ∧ identityOf at_ h r (some f) = some i) → i.sentinel = (F f).map FileEntry.content := by
    rintro r f i ⟨h, rfl, hi⟩
    obtain ⟨info, -, rfl⟩ := Option.map_eq_some_iff.mp hi
    rfl
  exact ⟨roots, hidentity, hsentinel hreads.replay, hsentinel hreads.anchor⟩

/-- A marker in place lets the version follow. -/
def Follows (c : Bootstrap) (F : Files) : Prop :=
  ∀ n, versionOf F = some n → n ≤ c.schemaVersion ∧ (n = 3 ↔ c.schemaVersion = 3)

theorem fits_checkMarker (identity : Option (List (String × Identity)))
    (hversion : c.schemaVersion = 1 ∨ c.schemaVersion = 2 ∨ c.schemaVersion = 3)
    (hidentity : identity = none ↔ c.schemaVersion ≠ 3) : (checkMarker c at_ identity).Fits Host.files Step
      (fun identity F' => F' = F ∧ (identity = none ↔ c.schemaVersion ≠ 3) ∧ Follows c F) F := by
  unfold checkMarker
  refine Prog.fits_look_bind step_refl fun h hh marker hmarker => ?_
  have hmarker : F .marker = marker := hh ▸ Except.ok.inj hmarker
  cases marker with
  | none =>
    refine ⟨rfl, hidentity, fun n hn => ?_⟩
    rw [versionOf, hmarker] at hn
    cases hn
  | some e =>
    refine Prog.fits_ofExcept_bind fun _ _ => ?_
    refine Prog.fits_ofExcept_bind fun previous hprevious => ?_
    refine Prog.fits_ofExcept_bind fun _ h1 => ?_
    refine Prog.fits_ofExcept_bind fun _ h2 => ?_
    refine Prog.fits_ofExcept_bind fun _ h3 => ?_
    have h1 := of_decide_eq_true (require_ok.mp h1)
    have h2 := of_decide_eq_true (require_ok.mp h2)
    have h3 := of_decide_eq_true (require_ok.mp h3)
    have hnumber : markerNumber e.content = some previous := by
      cases hm : markerNumber e.content with
      | none =>
        rw [hm] at hprevious
        cases hprevious
      | some n =>
        rw [hm] at hprevious
        rw [Except.ok.inj hprevious]
    have hrange := (markerNumber_eq hnumber).1
    have hfollows : Follows c F := by
      intro n hn
      rw [versionOf, hmarker, Option.bind_some, hnumber] at hn
      obtain rfl := Option.some.inj hn
      omega
    split
    · exact ⟨rfl, hidentity, hfollows⟩
    · rename_i hthree
      refine Prog.fits_look_bind step_refl fun _ _ _ _ => ?_
      refine Prog.fits_look_bind step_refl fun _ _ _ _ => ?_
      refine (fits_storageIdentity true).bind fun current _ hcurrent => ?_
      obtain ⟨rfl, -⟩ := hcurrent
      refine Prog.fits_look_bind step_refl fun _ _ _ _ => ?_
      refine Prog.fits_ofExcept_bind fun _ _ => ?_
      exact ⟨rfl, iff_of_false (by simp) (by omega), hfollows⟩

/-- What changes no file. -/
theorem fits_directories : (directories c).Fits Host.files Step (fun _ F' => F' = F) F := by
  have hpolicy : (if c.schemaVersion = 1 then Prog.ret () else directory c .policy : Call Unit).Fits Host.files Step
      (fun _ F' => F' = F) F := by
    split
    · exact rfl
    · exact fits_directory .policy
  refine hpolicy.bind fun _ _ h => ?_
  subst h
  refine (fits_directory .replay).bind fun _ _ h => ?_
  subst h
  refine (fits_directory .anchor).bind fun _ _ h => ?_
  subst h
  exact fits_directory .panelAuth

/-- Marker and history as they were, and some files in place. -/
structure Laid (F F' : Files) (fs : List File) : Prop where
  marker : F' .marker = F .marker
  history : ∀ f ∈ historyFiles, F' f = F f
  laid : ∀ f ∈ fs, (F' f).isSome

theorem Laid.put {F' : Files} {fs : List File} (h : Laid F F' fs) {f : File} (hmarker : f ≠ .marker)
    (hhistory : f ∉ historyFiles)
    (e : FileEntry) : Laid F (F'.put f e) (f :: fs) where
  marker := (Files.put_other F' e hmarker.symm).trans h.marker
  history g hg := by
    have hne : g ≠ f := by
      rintro rfl
      exact hhistory hg
    exact (Files.put_other F' e hne).trans (h.history g hg)
  laid g hg := by
    by_cases hgf : g = f
    · rw [hgf, Files.put_same]
      rfl
    · rw [Files.put_other F' e hgf]
      exact h.laid g ((List.mem_cons.mp hg).resolve_left hgf)

theorem Laid.subset {F' : Files} {fs gs : List File} (h : Laid F F' fs) (hsub : ∀ f ∈ gs, f ∈ fs) : Laid F F' gs :=
  ⟨h.marker, h.history, fun f hf => h.laid f (hsub f hf)⟩

/-- A file that neither a marker nor what is kept depends on. -/
theorem fits_write_laid {F' : Files} {fs : List File} (h : Laid F F' fs) {f : File} {value : List Char} (hmarker : f ≠ .marker)
    (haudit : f ≠ .auditKey) (hhistory : f ∉ historyFiles) :
    (write c f value).Fits Host.files Step (fun _ F'' => Laid F F'' (f :: fs)) F' :=
  fits_write fun e _ => ⟨step_put hmarker (fun hf => absurd hf haudit) fun hf => absurd hf hhistory, h.put hmarker hhistory e⟩

theorem fits_auditKey : (auditKey c).Fits Host.files Step (fun _ F' => Laid F F' [.auditKey]) F := by
  unfold auditKey
  refine Prog.fits_look_bind step_refl fun h hh found hfound => ?_
  have hfound : F .auditKey = found := hh ▸ Except.ok.inj hfound
  cases found with
  | some e =>
    refine Prog.fits_ofExcept_bind fun _ _ => Prog.fits_ofExcept fun _ _ => ⟨rfl, fun _ _ => rfl, fun f hf => ?_⟩
    rw [List.mem_singleton.mp hf, hfound]
    rfl
  | none =>
    refine Prog.fits_look_bind step_refl fun h hh _ _ => fits_write fun e _ => ⟨?_, ?_⟩
    · exact step_put (by decide) (fun _ => hfound) fun hf => absurd hf (by decide)
    · exact Laid.put ⟨rfl, fun _ _ => rfl, fun f hf => absurd hf (List.not_mem_nil)⟩ (by decide) (by decide) e

/-- The lock of the keyring, made or handed over. -/
theorem fits_lock {F' : Files} {fs : List File} (hlaid : Laid F F' fs) {g : Host → Host}
    (hg : ∀ h, g h = h ∨ ∃ e, (g h).files = h.files.put .keyringLock e) :
    (Prog.call g fun _ => .ret () : Call Unit).Fits Host.files Step (fun _ F'' => Laid F F'' fs) F' := by
  intro h hh
  rcases hg h with hsame | ⟨e, he⟩
  · rw [hsame, hh]
    exact ⟨step_refl F', hlaid⟩
  · rw [he, hh]
    exact ⟨step_put (by decide) (fun hf => absurd hf (by decide)) fun hf => absurd hf (by decide),
      (hlaid.put (by decide) (by decide) e).subset fun _ hf => List.mem_cons_of_mem _ hf⟩

theorem fits_openLock {F' : Files} {fs : List File} (hlaid : Laid F F' fs) :
    (openLock c).Fits Host.files Step (fun _ F'' => Laid F F'' fs) F' := by
  refine fits_lock hlaid fun h => ?_
  split
  · exact .inl rfl
  · exact .inr ⟨_, rfl⟩

theorem fits_ownLock {F' : Files} {fs : List File} (hlaid : Laid F F' fs) :
    (ownLock c).Fits Host.files Step (fun _ F'' => Laid F F'' fs) F' := by
  refine fits_lock hlaid fun h => ?_
  split
  · exact .inr ⟨_, rfl⟩
  · exact .inl rfl

theorem fits_installKeyring {F' : Files} {fs : List File} (hlaid : Laid F F' fs) (initializing : Bool) :
    (installKeyring c at_ initializing).Fits Host.files Step (fun _ F'' => Laid F F'' (.keyring :: fs)) F' := by
  unfold installKeyring
  refine Prog.fits_ofExcept_bind fun _ _ => ?_
  refine Prog.fits_ofExcept_bind fun _ _ => ?_
  refine Prog.fits_look_bind step_refl fun _ _ _ _ => ?_
  refine (fits_openLock hlaid).bind fun _ _ hlaid => ?_
  refine Prog.fits_look_bind step_refl fun _ _ _ _ => ?_
  refine (fits_ownLock hlaid).bind fun _ _ hlaid => ?_
  exact fits_write_laid hlaid (by decide) (by decide) (by decide)

theorem fits_panel {F' : Files} {fs : List File} (hlaid : Laid F F' fs) (token : List Char) :
    (panel c token).Fits Host.files Step (fun _ F'' => Laid F F'' (.panelConfig :: .hostToken :: fs)) F' := by
  unfold panel
  refine (fits_write_laid hlaid (by decide) (by decide) (by decide)).bind fun _ _ hlaid => ?_
  refine Prog.fits_ofExcept_bind fun _ _ => ?_
  exact fits_write_laid hlaid (by decide) (by decide) (by decide)

/-- Roots that are not initialized get sentinels and the binding of them. -/
theorem fits_sealRoots {identity : Option (List (String × Identity))} (hidentity : identity = none ↔ c.schemaVersion ≠ 3) :
    (sealRoots c at_ identity).Fits Host.files Step (fun _ F' => F' .marker = F .marker ∧ (∀ f ∉ historyFiles, F' f = F f) ∧
      (F .marker = none → c.schemaVersion = 3 → Bound F')) F := by
  cases identity with
  | none => exact ⟨rfl, fun _ _ => rfl, fun _ hthree => absurd hthree (hidentity.mp rfl)⟩
  | some identity =>
    unfold sealRoots
    refine Prog.fits_look_bind step_refl fun h hh initialized hinitialized => ?_
    have hinitialized : (F .marker).isSome = initialized := hh ▸ Except.ok.inj hinitialized
    cases initialized with
    | true =>
      refine (fits_storageIdentity true).bind fun _ _ hidentity => ?_
      obtain ⟨rfl, -⟩ := hidentity
      refine Prog.fits_ofExcept fun _ _ => ⟨rfl, fun _ _ => rfl, fun hnone => ?_⟩
      rw [hnone] at hinitialized
      cases hinitialized
    | false =>
      have hnone : F .marker = none := Option.not_isSome_iff_eq_none.mp (by rw [hinitialized]; decide)
      -- no marker yet, so that the history may be written
      have hwrite : ∀ {F' : Files} {f : File} {value : List Char}, f ∈ historyFiles → F' .marker = none →
          (write c f value).Fits Host.files Step (fun _ F'' => ∃ e : FileEntry, e.content = value ∧ F'' = F'.put f e) F' := by
        intro F' f value hf hF'
        refine fits_write fun e he => ⟨step_put ?_ ?_ fun _ => hF', e, he, rfl⟩
        · rintro rfl
          exact absurd hf (by decide)
        · rintro rfl
          exact absurd hf (by decide)
      refine (hwrite (by decide) hnone).bind fun _ _ hreplay => ?_
      obtain ⟨replay, -, rfl⟩ := hreplay
      refine (hwrite (by decide) ((Files.put_other F replay (by decide)).trans hnone)).bind fun _ _ hanchor => ?_
      obtain ⟨anchor, -, rfl⟩ := hanchor
      refine (fits_storageIdentity true).bind fun bound _ hbound => ?_
      obtain ⟨rfl, hbound⟩ := hbound
      obtain ⟨roots, rfl, hsealed⟩ := hbound rfl
      refine (hwrite (by decide) (by simpa [Files.put] using hnone)).weaken fun _ F' hroots => ?_
      obtain ⟨e, he, rfl⟩ := hroots
      refine ⟨by simp [Files.put], fun f hf => ?_, fun _ _ => ⟨by simp [Files.put], by simp [Files.put], e, roots, ?_, he, ?_⟩⟩
      · simp only [historyFiles, List.mem_cons, List.not_mem_nil, or_false, not_or] at hf
        simp [Files.put, hf]
      · exact Files.put_same _ _ e
      · exact ⟨by simpa [Files.put] using hsealed.replay, by simpa [Files.put] using hsealed.anchor⟩

/-- The marker, over a host that has what it promises. -/
theorem step_marker {e : FileEntry} (hversion : c.schemaVersion = 1 ∨ c.schemaVersion = 2 ∨ c.schemaVersion = 3)
    (hcontent : e.content = versionText c.schemaVersion) (hfollows : Follows c F)
    (hlaid : ∀ f ∈ [File.auditKey, .keyring, .hostToken, .panelConfig], (F f).isSome)
    (hbound : F .marker = none → c.schemaVersion = 3 → Bound F) : Step F (F.put .marker e) := by
  have hother : ∀ f, f ≠ File.marker → F.put .marker e f = F f := fun f => Files.put_other F e
  have hnew : versionOf (F.put .marker e) = some c.schemaVersion := by
    rw [versionOf, Files.put_same, Option.bind_some, hcontent, markerNumber_versionText hversion]
  intro hlast
  have hbound : c.schemaVersion = 3 → Bound F := by
    intro hthree
    cases hm : F .marker with
    | none => exact hbound hm hthree
    | some m =>
      obtain ⟨n, hn, hcomplete⟩ := hlast m hm
      have hold : versionOf F = some n := by
        rw [versionOf, hm, Option.bind_some, hn, markerNumber_versionText hcomplete.version]
      exact hcomplete.history ((hfollows n hold).2.mpr hthree)
  have hhistory : ∀ f ∈ historyFiles, F.put .marker e f = F f := by
    intro f hf
    refine hother f ?_
    rintro rfl
    exact absurd hf (by decide)
  refine ⟨⟨fun k hk => (hother _ (by decide)).trans hk, fun n hn => ?_, fun _ => hhistory⟩, fun m hm => ?_⟩
  · obtain ⟨hle, hthree⟩ := hfollows n hn
    exact ⟨c.schemaVersion, hnew, hle, hthree.symm⟩
  · rw [Files.put_same] at hm
    obtain rfl := Option.some.inj hm
    have hsome : ∀ f ∈ [File.auditKey, .keyring, .hostToken, .panelConfig], (F.put .marker e f).isSome := by
      intro f hf
      rw [hother f]
      · exact hlaid f hf
      · rintro rfl
        exact absurd hf (by decide)
    exact ⟨c.schemaVersion, hcontent, hversion, hsome _ (by decide), hsome _ (by decide), hsome _ (by decide),
      hsome _ (by decide), fun hthree => (hbound hthree).congr hhistory⟩

/-- One bootstrap. -/
theorem fits_prepareSecurity : (prepareSecurity c at_).Fits Host.files Step (fun _ _ => True) F := by
  unfold prepareSecurity
  refine (reads_checkRequest step_refl).bind fun token _ h => ?_
  obtain ⟨rfl, hversion⟩ := h
  refine (reads_checkStorage step_refl).bind fun identity _ h => ?_
  obtain ⟨rfl, hidentity⟩ := h
  refine (fits_directory .security).bind fun _ _ h => ?_
  subst h
  refine (fits_checkMarker identity hversion hidentity).bind fun identity _ h => ?_
  obtain ⟨rfl, hidentity, hfollows⟩ := h
  refine fits_directories.bind fun _ _ h => ?_
  subst h
  refine fits_auditKey.bind fun _ F₁ hlaid => ?_
  refine Prog.fits_look_bind step_refl fun _ _ initialized _ => ?_
  refine (fits_installKeyring hlaid _).bind fun _ F₂ hlaid => ?_
  refine (fits_panel hlaid token).bind fun _ F₃ hlaid => ?_
  refine (fits_sealRoots hidentity).bind fun _ F₄ h => ?_
  obtain ⟨hmarker, hother, hbound⟩ := h
  refine (fits_write fun e he => ⟨step_marker hversion he ?_ ?_ ?_, trivial⟩)
  · intro n hn
    rw [versionOf, hmarker, hlaid.marker] at hn
    exact hfollows n hn
  · intro f hf
    rw [hother f (by revert f; decide)]
    exact hlaid.laid f (by revert f; decide)
  · intro hnone
    exact hbound (hmarker ▸ hnone)

end

/-- However many bootstraps begin, wherever each of them ends and whatever the engine does in the roots in between:
the audit key is not written again, the marker's version does not go back, a version 3 installation keeps its
sentinels and their binding, and wherever there is a marker there is everything it promises. -/
theorem history_kept (at_ : Installation) {s t : Host} (h : Turns Host.files (fun p => ∃ c, p = prepareSecurity c at_) s t)
    (hs : MarkedLast s.files) : Kept s.files t.files ∧ MarkedLast t.files := by
  refine h.keeps Kept.refl (fun _ _ _ => Kept.trans) ?_ hs
  rintro p ⟨c, rfl⟩ F -
  exact fits_prepareSecurity

/-! ## Two bootstraps -/

def samplePath : Root → String
  | .state => "/srv/state"
  | .data => "/srv/data"
  | r => "/srv/security/" ++ r.name

def sampleInstallation : Installation := ⟨samplePath, ⟨id, id⟩, KeyringHistory.sampleDigest⟩

/-- A bootstrap of version 3 that draws one digit. -/
def sampleBootstrap (digit : Char) (h : isHexText 64 (List.replicate 64 digit) = true) : Bootstrap where
  schemaVersion := 3
  engineImage := .ok ()
  uid := 1000
  gid := 1000
  euid := 0
  deploymentId := "d"
  organizationId := "o"
  keyring := KeyringHistory.firstDocument
  now := 1700000000000
  hostPaths := []
  ordinaryPaths := []
  encryptCommand := some "/run/tandem-memory-kms/encrypt"
  decryptCommand := some "/run/tandem-memory-kms/decrypt"
  panelConfig := none
  panelHosted := []
  random := fun _ => List.replicate 64 digit
  random_hex := fun _ => h

def sampleDirectory (mode uid inode : Nat) : Info := ⟨⟨.directory, uid, mode, 2, 0⟩, 1000, 1, inode⟩

/-- A host with nothing but the workload roots. -/
def sampleHost : Host where
  root := fun r => match r with
    | .state => some (sampleDirectory 0o700 1000 2)
    | .data => some (sampleDirectory 0o700 1000 3)
    | _ => none
  plain := fun _ => true
  ancestors := fun _ => []
  files := fun _ => none
  unfinished := fun _ => 0
  entries := fun _ => []
  token := some ⟨⟨⟨.regular, 0, 0o600, 1, 32⟩, 0, 1, 4⟩, List.replicate 32 't'⟩
  tokenPlain := true
  commandDirectory := some (sampleDirectory 0o750 0 5)
  commandAncestors := []
  command := fun _ => some ⟨⟨.regular, 0, 0o550, 1, 0⟩, 1000, 1, 6⟩
  device := 1
  inode := 10

def firstHost : Host := ((prepareSecurity (sampleBootstrap 'a' (by decide)) sampleInstallation).exec sampleHost).2

def secondHost : Host := ((prepareSecurity (sampleBootstrap 'b' (by decide)) sampleInstallation).exec firstHost).2

/-- The second bootstrap draws other digits, and the audit key and the sentinels are those of the first. -/
theorem history_kept_sample : versionOf firstHost.files = some 3 ∧ Kept firstHost.files secondHost.files ∧
    MarkedLast secondHost.files := by
  have hfirst := history_kept sampleInstallation (Turns.exec ⟨_, rfl⟩ sampleHost : Turns _ _ _ firstHost) (fun _ h => nomatch h)
  exact ⟨by decide +kernel, history_kept sampleInstallation (Turns.exec ⟨_, rfl⟩ firstHost) hfirst.2⟩

/-! ## Roots that were replaced -/

theorem Identity.document_sorted (i : Identity) : sortKeys i.document =
    .obj ([("device", .int i.device), ("inode", .int i.inode), ("path", .str i.path)] ++
      (i.sentinel.map fun s => ("sentinel", Json.str (String.ofList s))).toList) := by
  cases hs : i.sentinel with
  | none => simp [Identity.document, hs, sortKeys, sortValues, sortFields, List.insertionSort, List.orderedInsert]
  | some s => simp [Identity.document, hs, sortKeys, sortValues, sortFields, List.insertionSort, List.orderedInsert]

theorem Roots.document_sorted (roots : Roots) : sortKeys (Provisioning.document roots.identity) =
    .obj [("anchor", sortKeys roots.anchor.document), ("data", sortKeys roots.data.document),
      ("replay", sortKeys roots.replay.document), ("state", sortKeys roots.state.document)] := by
  simp [Provisioning.document, Roots.identity, sortKeys, sortValues, sortFields, List.insertionSort, List.orderedInsert]

theorem Identity.eq_of_same {i j : Identity} (h : same (sortKeys i.document) j.document = true) : i = j := by
  obtain ⟨path, device, inode, sentinel⟩ := i
  obtain ⟨path', device', inode', sentinel'⟩ := j
  rw [Identity.document_sorted, Identity.document] at h
  cases sentinel with
  | none =>
    cases sentinel' with
    | none =>
      obtain ⟨rfl, rfl, rfl⟩ : device = device' ∧ inode = inode' ∧ path = path' := by
        simpa [same, sameFields, Dict.get, Dict.contains] using h
      rfl
    | some s' => simp [same] at h
  | some s =>
    cases sentinel' with
    | none => simp [same] at h
    | some s' =>
      obtain ⟨rfl, rfl, rfl, hs⟩ : device = device' ∧ inode = inode' ∧ path = path' ∧ String.ofList s = String.ofList s' := by
        simpa [same, sameFields, Dict.get, Dict.contains] using h
      rw [String.ofList_injective hs]

/-- A binding equals the document of the roots it was written for alone. -/
theorem Roots.eq_of_same {roots roots' : Roots}
    (h : same (sortKeys (Provisioning.document roots.identity)) (Provisioning.document roots'.identity) = true) :
    roots = roots' := by
  obtain ⟨state, data, replay, anchor⟩ := roots
  obtain ⟨state', data', replay', anchor'⟩ := roots'
  rw [Roots.document_sorted, Provisioning.document, Roots.identity] at h
  obtain ⟨hanchor, hdata, hreplay, hstate⟩ : same (sortKeys anchor.document) anchor'.document = true ∧
      same (sortKeys data.document) data'.document = true ∧ same (sortKeys replay.document) replay'.document = true ∧
      same (sortKeys state.document) state'.document = true := by
    simpa [same, sameFields, Dict.get, Dict.contains] using h
  rw [Identity.eq_of_same hstate, Identity.eq_of_same hdata, Identity.eq_of_same hreplay, Identity.eq_of_same hanchor]

theorem Identity.document_valid (floats : Floats) (i : Identity) : Valid floats i.document := by
  cases hs : i.sentinel with
  | none =>
    refine .obj (by simp [hs]) fun f hf => ?_
    simp only [hs, Option.map_none, Option.toList_none, List.append_nil, List.mem_cons, List.not_mem_nil, or_false] at hf
    obtain rfl | rfl | rfl := hf
    · exact .str _
    · exact .int _
    · exact .int _
  | some s =>
    refine .obj (by simp [hs]) fun f hf => ?_
    simp only [hs, Option.map_some, Option.toList_some, List.cons_append, List.nil_append, List.mem_cons, List.not_mem_nil,
      or_false] at hf
    obtain rfl | rfl | rfl | rfl := hf
    · exact .str _
    · exact .int _
    · exact .int _
    · exact .str _

theorem Roots.document_valid (floats : Floats) (roots : Roots) : Valid floats (Provisioning.document roots.identity) := by
  refine .obj (by simp [Roots.identity]) fun f hf => ?_
  obtain ⟨p, -, rfl⟩ := List.mem_map.mp hf
  exact p.2.document_valid floats

/-- The roots and their sentinels, as they stand. -/
def rootsOf (at_ : Installation) (h : Host) : Option Roots := do
  let state ← identityOf at_ h .state none
  let data ← identityOf at_ h .data none
  let replay ← identityOf at_ h .replay (some .replaySentinel)
  let anchor ← identityOf at_ h .anchor (some .anchorSentinel)
  pure ⟨state, data, replay, anchor⟩

/-- What a bootstrap needs of a host that the engine leaves alone. -/
def Host.layout (h : Host) : Files × (Root → Option Info) := (h.files, h.root)

theorem ReadAt.rootsOf {at_ : Installation} {s : Host} {roots : Roots} (h : ReadAt at_ Host.layout s.layout roots) :
    Provisioning.rootsOf at_ s = some roots := by
  have hsame : ∀ {r : Root} {f : Option File} {i : Identity},
      (∃ t : Host, t.layout = s.layout ∧ identityOf at_ t r f = some i) → identityOf at_ s r f = some i := by
    rintro r f i ⟨t, ht, hi⟩
    obtain ⟨hfiles, hroot⟩ := Prod.mk.inj ht
    rw [← hi, identityOf, identityOf, hfiles, hroot]
  rw [Provisioning.rootsOf, hsame h.state, hsame h.data, hsame h.replay, hsame h.anchor]
  rfl

/-- A version 3 installation belongs to the roots in its binding: over other directories, or the same with another
sentinel, no bootstrap of any version creates a directory, writes a file or returns. -/
theorem replaced_refused (at_ : Installation) (c : Bootstrap) {s t : Host} {q : Call Unit} {m e : FileEntry} {bound : Roots}
    (hmarker : s.files .marker = some m) (hthree : m.content = versionText 3) (hroots : s.files .storageRoots = some e)
    (hbound : e.content = bound.text) (hsecurity : (s.root .security).isSome) (hchanged : rootsOf at_ s ≠ some bound)
    (h : Partly Host.layout (prepareSecurity c at_) s q t) : t.layout = s.layout ∧ q ≠ .ret () := by
  have hfits : (prepareSecurity c at_).Fits Host.layout Eq (fun _ _ => False) s.layout := by
    have hlayout : ∀ h : Host, h.layout = s.layout → h.files = s.files ∧ h.root = s.root := fun _ => Prod.mk.inj
    refine (reads_checkRequest fun _ => rfl).bind fun token _ h => ?_
    obtain ⟨rfl, -⟩ := h
    refine (reads_checkStorage fun _ => rfl).bind fun identity _ h => ?_
    obtain ⟨rfl, -⟩ := h
    have hdirectory : (directory c .security).Fits Host.layout Eq (fun _ y => y = s.layout) s.layout := by
      refine Prog.fits_look_bind (fun _ => rfl) fun h hh found hfound => ?_
      have hroot : h.root .security = found := by
        split at hfound
        · exact Except.ok.inj hfound
        · cases hfound
      cases found with
      | none =>
        rw [(hlayout h hh).2] at hroot
        rw [hroot] at hsecurity
        cases hsecurity
      | some i => exact Prog.fits_ofExcept fun _ _ => rfl
    refine hdirectory.bind fun _ _ h => ?_
    subst h
    have hmarked : ∀ h : Host, h.layout = s.layout → h.files .marker = some m := fun h hh => (hlayout h hh).1 ▸ hmarker
    refine (reads_checkMarker (fun _ => rfl) identity hmarked hthree).bind fun _ _ h => ?_
    obtain ⟨-, roots, e', binding, h, -, hreads, hh, he', hbinding, hsame⟩ := h
    -- what was read is what the binding says
    rw [(hlayout h hh).1, hroots] at he'
    obtain rfl := Option.some.inj he'
    rw [hbound, Roots.text, loads_dumps (sortKeys_valid (bound.document_valid _))] at hbinding
    rw [← Option.some.inj hbinding] at hsame
    exact absurd (Roots.eq_of_same hsame ▸ hreads.rootsOf) hchanged
  obtain ⟨hsteps, hq⟩ := h.fits hfits
  refine ⟨?_, ?_⟩
  · rw [Relation.reflTransGen_eq_self] at hsteps
    exact hsteps.symm
  · rintro rfl
    exact hq

/-- The replay root is another directory of the same name, with everything in it. -/
def copiedHost : Host :=
  { firstHost with root := fun r => if r = .replay then some (sampleDirectory 0o700 1000 99) else firstHost.root r }

/-- The roots of the first bootstrap. -/
def firstRoots : Roots where
  state := ⟨"/srv/state", 1, 2, none⟩
  data := ⟨"/srv/data", 1, 3, none⟩
  replay := ⟨"/srv/security/replay", 1, 12, some (List.replicate 64 'a')⟩
  anchor := ⟨"/srv/security/anchor", 1, 13, some (List.replicate 64 'a')⟩

theorem copiedHost_files : (copiedHost.files .marker).map FileEntry.content = some (versionText 3) ∧
    (copiedHost.files .storageRoots).map FileEntry.content = some firstRoots.text ∧ (copiedHost.root .security).isSome ∧
    (copiedHost.root .replay).map Info.inode = some 99 := by
  decide +kernel

theorem replaced_refused_copied : ∃ q t, Partly Host.layout
    (prepareSecurity (sampleBootstrap 'b' (by decide)) sampleInstallation)
    copiedHost q t ∧ t.layout = copiedHost.layout ∧ q ≠ .ret () := by
  obtain ⟨q, hq⟩ := partly_exec Host.layout (prepareSecurity (sampleBootstrap 'b' (by decide)) sampleInstallation) copiedHost
  obtain ⟨hmarker, hroots, hsecurity, hreplay⟩ := copiedHost_files
  obtain ⟨m, hm, hthree⟩ := Option.map_eq_some_iff.mp hmarker
  obtain ⟨e, he, htext⟩ := Option.map_eq_some_iff.mp hroots
  refine ⟨q, _, hq, replaced_refused sampleInstallation _ hm hthree he htext hsecurity ?_ hq⟩
  -- the directory is numbered otherwise
  intro h
  simp only [rootsOf, Option.bind_eq_bind, Option.bind_eq_some_iff] at h
  obtain ⟨_, -, _, -, replay, hr, _, -, h⟩ := h
  obtain ⟨info, hinfo, hidentity⟩ := Option.map_eq_some_iff.mp hr
  have hinode : info.inode = firstRoots.replay.inode :=
    congrArg Identity.inode (hidentity.trans (congrArg Roots.replay (Option.some.inj h)))
  rw [hinfo] at hreplay
  exact absurd (hinode.symm.trans (Option.some.inj hreplay)) (by decide)

end Provisioning
