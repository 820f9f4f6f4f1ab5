import Mathlib.Algebra.Ring.Int.Defs
import Mathlib.Algebra.Ring.Nat
import TandemAgents.Base64
import TandemAgents.JsonCanonical

/-!
# The context keyring

A keyring is one JSON document of public keys. It is validated on its own and, where one is
in place already, as a transition of that one; a call writes it to its file or refuses.
-/
namespace Keyring

open PythonText JsonData JsonText JsonHooks JsonCanonical Base64

set_option maxRecDepth 20000

/-! ## Checks -/

/-- `if not condition: raise ValueError(message)`. -/
def require (condition : Bool) (message : String) : Except String Unit :=
  if condition then .ok () else .error message

/-- The same check of every member of a list, in its order. -/
def checkAll {α : Type} (check : α → Except String Unit) : List α → Except String Unit
  | [] => .ok ()
  | a :: as => check a >>= fun _ => checkAll check as

theorem require_ok {condition : Bool} {message : String} : require condition message = .ok () ↔ condition = true := by
  unfold require
  cases condition <;> simp

theorem bind_ok {α β : Type} {x : Except String α} {f : α → Except String β} {r : β} :
    x >>= f = .ok r ↔ ∃ a, x = .ok a ∧ f a = .ok r := by
  cases x with
  | error e =>
    constructor
    · intro h
      cases h
    · rintro ⟨a, ha, -⟩
      cases ha
  | ok a =>
    constructor
    · exact fun h => ⟨a, rfl, h⟩
    · rintro ⟨a', ha, h⟩
      cases ha
      exact h

theorem check_bind_ok {β : Type} {x : Except String Unit} {f : Unit → Except String β} {r : β} :
    x >>= f = .ok r ↔ x = .ok () ∧ f () = .ok r := by
  rw [bind_ok]
  constructor
  · rintro ⟨⟨⟩, hx, h⟩
    exact ⟨hx, h⟩
  · rintro ⟨hx, h⟩
    exact ⟨(), hx, h⟩

theorem checkAll_ok {α : Type} {check : α → Except String Unit} {as : List α} (h : checkAll check as = .ok ()) :
    ∀ a ∈ as, check a = .ok () := by
  induction as with
  | nil => simp
  | cons a as ih =>
    obtain ⟨ha, has⟩ := check_bind_ok.mp h
    intro b hb
    obtain rfl | hb := List.mem_cons.mp hb
    · exact ha
    · exact ih has b hb

/-! ## One entry -/

/-- A text, compared with a given one. -/
def isText (v : Json) (s : String) : Bool := decide (v.asStr = some s)

theorem isText_eq {v : Json} {s : String} (h : isText v s = true) : v = .str s := by
  have h := of_decide_eq_true h
  cases v with
  | str t => rw [Json.asStr, Option.some.injEq] at h; rw [h]
  | null | bool | int | float | arr | obj => cases h

def isStrings : Json → Bool
  | .arr items => items.all (fun v => v.asStr.isSome)
  | _ => false

/-- `FIELDS`. -/
def allowedFields : List String :=
  ["public_key", "purpose", "deployment_id", "organization_id", "allowed_audiences",
    "status", "not_before_ms", "not_after_ms", "allowed_resource_scope_prefixes", "kms_key_reference"]

/-- `STATUSES[status]`. -/
def statusRank (status : Json) : Nat :=
  if isText status "revoked" then 2 else if isText status "retired" then 1 else 0

/-- `base64.b64decode(key + "=" * (-len(key) % 4), altchars=b"-_", validate=strict)`; only a
text can be decoded. -/
def decodeKey (strict : Bool) (key : Json) : Option (List Nat) :=
  key.asStr.bind fun s => b64decode strict (s.toList ++ List.replicate ((4 - s.length % 4) % 4) '=')

/-- An instant in milliseconds, or none. -/
def isTimestamp : Json → Bool
  | .null => true
  | .int n => decide (0 ≤ n ∧ n < 2 ^ 64)
  | _ => false

/-- `entry.get("not_before_ms") or 0`. -/
def notBefore (entry : Dict) : Int :=
  match entry.get "not_before_ms" with
  | .int n => n
  | _ => 0

/-- `entry["not_after_ms"]`, or `2**64`. -/
def notAfter (entry : Dict) : Int :=
  match entry.get "not_after_ms" with
  | .int n => n
  | _ => 2 ^ 64

/-- The instants do not exclude each other. -/
def windowOpen (entry : Dict) : Bool :=
  match entry.get "not_before_ms", entry.get "not_after_ms" with
  | .int first, .int last => decide (first < last)
  | _, _ => true

/-- The body of the loop of `validate_keyring`. -/
def validateEntry (deploymentId organizationId audience : String) (field : String × Json) : Except String Unit := do
  require (decide (field.1 ≠ "") && field.2.asDict.isSome) "context keyring requires named metadata entries"
  let entry := field.2.asDict.getD []
  require
    (isText (entry.get "purpose") "context_assertion" &&
      isText (entry.get "deployment_id") deploymentId &&
      isText (entry.get "organization_id") organizationId &&
      (match entry.get "allowed_audiences" with
        | .arr [a] => isText a audience
        | _ => false) &&
      (isText (entry.get "status") "active" || isText (entry.get "status") "retired" ||
        isText (entry.get "status") "revoked"))
    "context keyring has an invalid purpose, status or deployment scope"
  require (decide ((decodeKey true (entry.get "public_key")).map List.length = some 32))
    "context keyring requires a 32-byte Ed25519 public key"

/-- `validate_keyring`. -/
def validateKeyring (document : Json) (deploymentId organizationId audience : String) : Except String Unit := do
  require (document.asDict.any fun d => !d.isEmpty) "context keyring must be a nonempty metadata object"
  let entries := document.asDict.getD []
  checkAll (validateEntry deploymentId organizationId audience) entries
  require (entries.any fun f => isText ((f.2.asDict.getD []).get "status") "active")
    "context keyring requires an active key"

/-! ## A document -/

def MAX_DOCUMENT_BYTES : Nat := 256 * 1024

/-- The body of the loop of `validate_document`. -/
def validateMetadata (field : String × Json) : Except String Unit := do
  let kid := field.1
  let entry := field.2.asDict.getD []
  require (decide (kid = strip kid) && kid.toList.all (fun c => decide (33 ≤ c.toNat)) && decide (kid.length ≤ 200))
    "invalid key id"
  require (entry.all fun f => decide (f.1 ∈ allowedFields)) "unexpected keyring metadata field"
  require (isTimestamp (entry.get "not_before_ms") && isTimestamp (entry.get "not_after_ms"))
    "key validity must be an unsigned millisecond timestamp"
  require (windowOpen entry) "key validity window is empty"
  require (!entry.contains "allowed_resource_scope_prefixes" || isStrings (entry.get "allowed_resource_scope_prefixes"))
    "invalid resource scopes"
  require
    (match entry.get "kms_key_reference" with
      | .null | .str _ => true
      | _ => false)
    "invalid public KMS reference"

/-- `validate_document`. -/
def validateDocument (document : Json) (deploymentId organizationId : String) : Except String Unit := do
  validateKeyring document deploymentId organizationId "tandem-runtime"
  require (decide ((dumps document).length ≤ MAX_DOCUMENT_BYTES)) "keyring document is too large"
  checkAll validateMetadata (document.asDict.getD [])

/-! ## A transition -/

mutual

/-- `==` of values without floats. -/
def same : Json → Json → Bool
  | .null, .null => true
  | .bool a, .bool b => decide (a = b)
  | .bool a, .int n => decide (n = if a then 1 else 0)
  | .int m, .bool b => decide (m = if b then 1 else 0)
  | .int m, .int n => decide (m = n)
  | .float a, .float b => decide (a = b)
  | .str a, .str b => decide (a = b)
  | .arr vs, .arr ws => sameItems vs ws
  | .obj d, .obj e => decide (d.length = e.length) && sameFields d e
  | _, _ => false

def sameItems : List Json → List Json → Bool
  | [], [] => true
  | v :: vs, w :: ws => same v w && sameItems vs ws
  | _, _ => false

def sameFields : List (String × Json) → Dict → Bool
  | [], _ => true
  | (k, v) :: fields, e => e.contains k && same v (e.get k) && sameFields fields e

end

/-- What `immutable` keeps of an entry as it is; the key is kept decoded. -/
def immutable (entry : Dict) : Dict :=
  entry.filter (fun f => decide (f.1 ∉ ["status", "not_before_ms", "not_after_ms", "public_key"]))

/-- The body of the loop of `validate_transition`. -/
def validateStep (proposed : Dict) (field : String × Json) : Except String Unit := do
  let before := field.2.asDict.getD []
  let after := (proposed.get field.1).asDict.getD []
  require (decide (proposed.contains field.1))
    "retain retired and revoked key metadata; key removal is not a rotation"
  require (decide (statusRank (before.get "status") ≤ statusRank (after.get "status")))
    "retired or revoked keys cannot be reactivated"
  require
    (same (.obj (immutable before)) (.obj (immutable after)) &&
      decide (decodeKey false (before.get "public_key") = decodeKey false (after.get "public_key")))
    "existing key material and scope are immutable; use a new key id"
  require (decide (notBefore before ≤ notBefore after ∧ notAfter after ≤ notAfter before))
    "existing key validity cannot be extended"

/-- `validate_transition`. -/
def validateTransition (previous proposed : Json) : Except String Unit :=
  checkAll (validateStep (proposed.asDict.getD [])) (previous.asDict.getD [])

/-- The transition from the document in place, if there is one. -/
def checkNext (previous : Option Json) (proposed : Json) : Except String Unit :=
  match previous with
  | some previous => validateTransition previous proposed
  | none => .ok ()

/-! ## The file -/

/-- `parse_document`. -/
def parseDocument (floats : Floats) (raw : List Char) : Except String Json :=
  if MAX_DOCUMENT_BYTES < raw.length then .error "keyring document is too large"
  else
    match loadsBy floats unique raw with
    | some document => .ok document
    | none => .error "invalid JSON, or duplicate keyring field or key id"

/-- The text that is hashed. -/
def canonicalText (document : Json) : List Char := compact (sortKeys document)

/-- `fingerprint`. -/
def fingerprint (sha256 : List Char → String) (document : Json) : String := sha256 (canonicalText document)

/-- The text that is written. -/
def render (document : Json) : List Char := dumps (sortKeys document)

structure Bundle where
  uid : Nat
  deploymentId : String
  organizationId : String

inductive FileKind where
  | regular | directory | symlink | other
  deriving DecidableEq, Repr

structure Stat where
  kind : FileKind
  uid : Nat
  mode : Nat
  links : Nat
  size : Nat

/-- What a call finds on the host besides the keyring; `now` is in milliseconds. A path that is
not plain has no directory, a lock that cannot be opened is none. -/
structure Host where
  posix : Bool
  euid : Nat
  now : Int
  directory : Option Stat
  lock : Option Stat
  keyring : Stat
  initialized : Bool

/-- `_check_file`. -/
def checkFile (s : Stat) (uid : Nat) : Except String Unit := do
  require (decide (s.kind = .regular ∧ s.links = 1)) "security input must be a regular file with one link"
  require (decide (s.uid = uid ∧ s.mode = 0o600)) "security file must be runtime-owned with mode 0600"

/-- A key that may be used now. -/
def isCurrent (now : Int) (field : String × Json) : Bool :=
  let entry := field.2.asDict.getD []
  isText (entry.get "status") "active" && decide (notBefore entry ≤ now) &&
    match entry.get "not_after_ms" with
    | .int n => decide (now < n)
    | _ => true

/-- The checks of `install_keyring` up to its lock. -/
def checkHost (bundle : Bundle) (host : Host) (proposed : Json) : Except String Unit := do
  require host.posix "keyring installation requires Linux"
  require (decide (host.euid = 0 ∨ host.euid = bundle.uid)) "keyring installation requires the configured host operator"
  validateDocument proposed bundle.deploymentId bundle.organizationId
  require ((proposed.asDict.getD []).any (isCurrent host.now)) "keyring requires a currently valid active key"
  require (host.directory.any fun s => decide (s.kind = .directory ∧ s.uid = bundle.uid ∧ s.mode = 0o700))
    "invalid security directory ownership or mode"
  require (host.lock.any fun s => decide (s.kind = .regular ∧ s.links = 1 ∧ s.mode = 0o600)) "invalid keyring lock"
  require (host.lock.any fun s => decide (s.uid = bundle.uid ∨ s.uid = host.euid ∧ s.size = 0))
    "invalid keyring lock owner"

/-- What `_write` comes to: it raises before the file is replaced or behind it, or not at all. -/
inductive Disk where
  | fails | replaces | syncs
  deriving DecidableEq, Repr

/-- One call of `install_keyring`; `initializing` is its `initialize`. -/
structure Call where
  bundle : Bundle
  host : Host
  proposed : Json
  expected : Option String
  initializing : Bool
  apply : Bool
  disk : Disk

/-- `status`, `previous_document_sha256` and `document_sha256`. -/
structure Receipt where
  status : String
  previous : Option String
  document : String
  deriving DecidableEq, Repr

section
variable (floats : Floats) (sha256 : List Char → String)

/-- The document in place, which is none if the keyring may be initialized. -/
def readPrevious (c : Call) (file : Option (List Char)) : Except String (Option Json) :=
  match file with
  | some raw => do
    checkFile c.host.keyring c.bundle.uid
    let previous ← parseDocument floats raw
    validateDocument previous c.bundle.deploymentId c.bundle.organizationId
    return some previous
  | none =>
    if !c.initializing || c.host.initialized then
      .error "initialized keyring is missing; authorized recovery is required"
    else .ok none

/-- What a call decides under its lock. -/
def decideCall (c : Call) (file : Option (List Char)) : Except String Receipt := do
  checkHost c.bundle c.host c.proposed
  let previous ← readPrevious floats c file
  let before := previous.map (fingerprint sha256)
  let after := fingerprint sha256 c.proposed
  if before = some after then
    return ⟨"already_staged", none, after⟩
  else
    require (decide (c.expected = none ∨ c.expected = before))
      "keyring changed since preview; read and review the current document"
    checkNext previous c.proposed
    return ⟨if c.apply then "staged" else "preview", before, after⟩

/-- `install_keyring`: the text the file is replaced with, if it is, and what the call comes to. -/
def installKeyring (c : Call) (file : Option (List Char)) : Option (List Char) × Except String Receipt :=
  match decideCall floats sha256 c file with
  | .error message => (none, .error message)
  | .ok receipt =>
    if c.apply then
      match c.disk with
      | .fails => (none, .error "OSError")
      | .replaces => (some (render c.proposed), .error "OSError")
      | .syncs => (some (render c.proposed), .ok receipt)
    else (none, .ok receipt)

/-- The file, and the documents that were installed, the latest last. -/
structure State where
  file : Option (List Char)
  installed : List Json

/-- The calls of a host, one after the other under the lock of the file. -/
def step (s : State) (c : Call) : State :=
  match (installKeyring floats sha256 c s.file).1 with
  | some text => ⟨some text, s.installed ++ [c.proposed]⟩
  | none => s

def run (calls : List Call) : State := calls.foldl (step floats sha256) ⟨none, []⟩

end
end Keyring
