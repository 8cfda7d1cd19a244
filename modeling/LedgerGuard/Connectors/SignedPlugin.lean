import LedgerGuard.Ingestion.Batch
import LedgerGuard.Lib.Raising

/-! # Signed requests of the plugin

`signed_plugin` answers the batches, heartbeats and key rotations of one Woo
connector. Under the lock of the connector it checks the signing key and the
signature, looks up the receipt of the request, and otherwise runs the handler and
stores the receipt in the same transaction.
-/

namespace LedgerGuard.Connectors

open Ingestion Raising

inductive RequestKind
  | batch | heartbeat | rotation
  deriving DecidableEq, Repr

structure Versions where
  plugin : String
  wordpress : String
  woocommerce : String
  gateway : String
  php : String
  deriving DecidableEq

structure HeartbeatEnvelope where
  requestId : String
  installationId : String
  sentAt : String
  queueDepth : ℕ
  versions : Versions
  hpos : Bool
  clockOffsetSeconds : ℤ
  deriving DecidableEq

structure RotationEnvelope where
  requestId : String
  installationId : String
  sentAt : String
  newKeyId : String
  newPublicKey : String
  deriving DecidableEq

/-- A body that one of the three schemas accepts; no body fits two of them. -/
inductive PluginEnvelope
  | batch (e : Envelope)
  | heartbeat (e : HeartbeatEnvelope)
  | rotation (e : RotationEnvelope)
  deriving DecidableEq

namespace PluginEnvelope

def kind : PluginEnvelope → RequestKind
  | batch _ => .batch
  | heartbeat _ => .heartbeat
  | rotation _ => .rotation

def requestId : PluginEnvelope → String
  | batch e => e.requestId
  | heartbeat e => e.requestId
  | rotation e => e.requestId

def installationId : PluginEnvelope → String
  | batch e => e.installationId
  | heartbeat e => e.installationId
  | rotation e => e.installationId

def sentAt : PluginEnvelope → String
  | batch e => e.sentAt
  | heartbeat e => e.sentAt
  | rotation e => e.sentAt

end PluginEnvelope

/-- What arrives at the view of a kind of request. -/
structure PluginRequest where
  kind : RequestKind
  contentEncoding : String := "identity"
  contentType : String := "application/json"
  /-- Absent where the header is not a number. -/
  contentLength : Option ℤ
  body : String
  keyId : String
  signature : String
  deriving DecidableEq

structure PublicKey where
  keyId : String
  organizationId : String
  installationId : String
  /-- The 32 bytes as a number. -/
  publicKey : ℕ
  expiresAt : Option Instant := none
  revokedAt : Option Instant := none
  deriving DecidableEq

inductive ReceiptKind
  | claim
  | request (kind : RequestKind)
  deriving DecidableEq, Repr

inductive ReceiptStatus
  | pending | normalized | ignored | failed
  deriving DecidableEq, Repr

inductive PluginResult
  | claimed (installationId keyId : String) (mode : Mode) (serverTime : Instant)
  | batch (result : BatchResult)
  | accepted (requestId : String) (serverTime : Instant)
  deriving DecidableEq

structure Receipt where
  externalId : String
  bodyHash : String
  kind : ReceiptKind
  status : ReceiptStatus
  result : PluginResult
  createdAt : Instant
  deriving DecidableEq

structure Quota where
  bucket : String
  window : ℤ
  count : ℕ := 0
  createdAt : Instant
  deriving DecidableEq

def Quota.key (q : Quota) : String × ℤ := (q.bucket, q.window)

inductive InstallationStatus
  | active | disconnected | suspended
  deriving DecidableEq, Repr

structure Health where
  queueDepth : ℕ
  hpos : Bool
  clockOffsetSeconds : ℤ
  deriving DecidableEq

structure AuditLog where
  action : String
  resourceId : String
  createdAt : Instant
  deriving DecidableEq

/-- A Woo connector, and the rows of its organization that its requests read and write. -/
structure Server where
  organizationActive : Bool := true
  connector : Installation
  status : InstallationStatus := .active
  lastHeartbeatAt : Option Instant := none
  versions : Versions
  health : Option Health := none
  keys : Table PublicKey.keyId
  receipts : Table Receipt.externalId
  quotas : Table Quota.key := .empty
  db : Ingestion.Db := {}
  audits : List AuditLog := []

inductive Raised
  | refused (r : Refusal)
  /-- A row that row security hides has the unique value already. -/
  | integrityError
  deriving DecidableEq, Repr

def Raised.problem (code : String) (status : ℕ) : Raised := .refused (.problem code status)

def maxBody : ℕ := 1048576

/-- `request_body`. -/
def requestBody (r : PluginRequest) : Except Raised String :=
  if r.contentEncoding ≠ "identity" then .error (.problem "UNSUPPORTED_ENCODING" 415)
  else if r.contentType ≠ "application/json" then .error (.problem "UNSUPPORTED_MEDIA_TYPE" 415)
  else
    match r.contentLength with
    | none => .error (.problem "INVALID_CONTENT_LENGTH" 400)
    | some length =>
      if maxBody < length ∨ length < 0 ∨ maxBody < r.body.utf8ByteSize then
        .error (.problem "PAYLOAD_TOO_LARGE" 413)
      else .ok r.body

def sextet (c : Char) : Option ℕ :=
  if 'A' ≤ c ∧ c ≤ 'Z' then some (c.toNat - 'A'.toNat)
  else if 'a' ≤ c ∧ c ≤ 'z' then some (c.toNat - 'a'.toNat + 26)
  else if '0' ≤ c ∧ c ≤ '9' then some (c.toNat - '0'.toNat + 52)
  else if c = '+' then some 62
  else if c = '/' then some 63
  else none

/-- Decode 32 bytes: the last of 43 characters carries two bits that are dropped. -/
def b64decode (s : String) : Except Raised ℕ :=
  match s.toList.dropLast.mapM sextet with
  | some digits =>
    if s.toList.length = 44 ∧ s.toList.getLast? = some '=' then
      .ok (digits.foldl (fun n d => n * 64 + d) 0 / 4)
    else .error (.refused (.valueError "Incorrect padding"))
  | none => .error (.refused (.valueError "Non-base64 digit found"))

section Checks

variable (sha256 : String → String) (verify : ℕ → String → String → Bool)

def signatureBase (installationId requestId sentAt body : String) : String :=
  "v1\n" ++ installationId ++ "\n" ++ requestId ++ "\n" ++ sentAt ++ "\n" ++ sha256 body

/-- `verify_woo`: the clock window, then the signature. -/
def verifyWoo (publicKey : ℕ) (signature installationId requestId sentAt body : String)
    (now : Instant) : Except Raised Unit :=
  match timestamp sentAt with
  | none => .error (.refused (.valueError "UTC timestamp required"))
  | some sent =>
    if seconds 300 < |now - sent| then .error (.problem "SIGNATURE_EXPIRED" 401)
    else if verify publicKey signature (signatureBase sha256 installationId requestId sentAt body)
    then .ok ()
    else .error (.problem "INVALID_SIGNATURE" 401)

theorem verifyWoo_ok {publicKey : ℕ} {signature installationId requestId sentAt body : String}
    {now : Instant}
    (h : verifyWoo sha256 verify publicKey signature installationId requestId sentAt body now =
      .ok ()) : ∃ sent, timestamp sentAt = some sent ∧ |now - sent| ≤ seconds 300 := by
  unfold verifyWoo at h
  split at h
  · cases h
  case h_2 sent hs =>
    split at h
    · cases h
    case isFalse hw => exact ⟨sent, hs, not_lt.mp hw⟩

end Checks

/-- A key that signs for the connector: neither revoked nor expired. -/
def Server.activeKey (s : Server) (keyId : String) (now : Instant) : Except Raised PublicKey :=
  match s.keys.get keyId with
  | none => .error (.problem "KEY_INACTIVE" 401)
  | some key =>
    if key.installationId = s.connector.id ∧ key.revokedAt = none ∧
        key.expiresAt.all (now < ·) then .ok key
    else .error (.problem "KEY_INACTIVE" 401)

/-- `_active`. -/
def Server.active (s : Server) : Except Raised Unit :=
  if s.status = .active ∧ s.organizationActive = true then .ok ()
  else .error (.problem "CONNECTOR_INACTIVE" 403)

def quotaSeconds : ℤ := 60

/-- `quota`: count a request in the current window of its bucket. -/
def takeQuota (bucket : String) (limit : ℕ) (now : Instant) (quotas : Table Quota.key) :
    Except Raised (Table Quota.key) :=
  let window := now / seconds quotaSeconds
  let record := (quotas.get (bucket, window)).getD { bucket, window, createdAt := now }
  if limit ≤ record.count then .error (.problem "RATE_LIMITED" 429)
  else .ok (quotas.put { record with count := record.count + 1 })

section Handlers

def roundSeconds (d : Duration) : ℤ :=
  let whole := d / 1000000
  let rest := d % 1000000
  if rest < 500000 then whole
  else if 500000 < rest then whole + 1
  else if whole % 2 = 0 then whole else whole + 1

def Server.heartbeat (s : Server) (e : HeartbeatEnvelope) (now : Instant) : Server :=
  { s with
    lastHeartbeatAt := some now
    versions := e.versions
    health := some
      { queueDepth := e.queueDepth
        hpos := e.hpos
        clockOffsetSeconds := roundSeconds ((timestamp e.sentAt).getD now - now) } }

def overlap : Duration := minutes (24 * 60)

/-- Another installation, other bytes or a revocation: the key cannot be registered again. -/
def PublicKey.conflicts (k : PublicKey) (s : Server) (newPublicKey : ℕ) : Bool :=
  k.installationId ≠ s.connector.id || k.publicKey ≠ newPublicKey || k.revokedAt.isSome

/-- The table of keys with the new key, registered before or now. -/
def Server.register (s : Server) (newKeyId : String) (newPublicKey : ℕ) :
    Except Raised (Table PublicKey.keyId) :=
  match s.keys.get newKeyId with
  | none => .ok (s.keys.put
      { keyId := newKeyId, organizationId := s.connector.organizationId
        installationId := s.connector.id, publicKey := newPublicKey })
  | some existing =>
    if existing.organizationId ≠ s.connector.organizationId then .error .integrityError
    else if existing.conflicts s newPublicKey then .error (.problem "KEY_ID_CONFLICT" 409)
    else .ok s.keys

/-- The signing key after a rotation: it expires a day after the first one. -/
def PublicKey.retired (k : PublicKey) (now : Instant) : PublicKey :=
  { k with expiresAt := some (k.expiresAt.getD (now + overlap)) }

def Server.rotateKey (s : Server) (key : PublicKey) (e : RotationEnvelope) (now : Instant) :
    Except Raised Server := do
  let newPublicKey ← b64decode e.newPublicKey
  let keys ← s.register e.newKeyId newPublicKey
  return { s with
    keys := if key.expiresAt = none then keys.put (key.retired now) else keys
    audits := s.audits ++ [⟨"woo.key_rotated", s.connector.id, now⟩] }

variable (sha256 : String → String)

def Server.handle (s : Server) (key : PublicKey) (now : Instant) :
    PluginEnvelope → Except Raised (Server × PluginResult)
  | .batch e =>
    match acceptWooBatch sha256 s.connector now e s.db with
    | .ok (db, result) => .ok ({ s with db }, .batch result)
    | .error r => .error (.refused r)
  | .heartbeat e => .ok (s.heartbeat e now, .accepted e.requestId now)
  | .rotation e => do
    let s ← s.rotateKey key e now
    return (s, .accepted e.requestId now)

end Handlers

section View

variable (sha256 : String → String) (verify : ℕ → String → String → Bool)
  (decode : String → Except Raised PluginEnvelope)

/-- Everything that is checked before the receipt is looked up. -/
def Server.authenticate (s : Server) (r : PluginRequest) (now : Instant) :
    Except Raised (PluginEnvelope × PublicKey) := do
  let body ← requestBody r
  let e ← decode body
  if e.kind ≠ r.kind then .error (.problem "SCHEMA_VALIDATION_FAILED" 422)
  else if e.installationId ≠ s.connector.id then .error (.problem "INSTALLATION_UNKNOWN" 401)
  else do
    s.active
    let key ← s.activeKey r.keyId now
    verifyWoo sha256 verify key.publicKey r.signature e.installationId e.requestId e.sentAt body
      now
    return (e, key)

def pluginLimit : ℕ := 240

/-- Handle a request without a receipt and store its receipt. -/
def Server.apply (s : Server) (e : PluginEnvelope) (key : PublicKey) (body : String)
    (now written : Instant) : Except Raised (Server × PluginResult) := do
  let quotas ← takeQuota ("plugin:" ++ s.connector.id) pluginLimit now s.quotas
  let (s, result) ← { s with quotas }.handle sha256 key written e
  return ({ s with
    receipts := s.receipts.put
      { externalId := e.requestId, bodyHash := sha256 body, kind := .request e.kind
        status := .normalized, result, createdAt := written } }, result)

/-- How a request ends. -/
inductive Outcome
  /-- Refused by a check before the receipt. -/
  | unauthenticated (e : Raised)
  /-- The receipt is for another body. -/
  | conflict
  /-- Refused by the quota or the handler. -/
  | refused (e : Raised)
  /-- Answered with the stored result. -/
  | replayed (result : PluginResult)
  /-- Handled and committed. -/
  | applied (result : PluginResult)
  deriving DecidableEq

def Outcome.isApplied : Outcome → Bool
  | .applied _ => true
  | _ => false

/-- `signed_plugin`: a raise rolls the transaction back. -/
def Server.signedPlugin (s : Server) (r : PluginRequest) (now written : Instant) :
    Outcome × Server :=
  match s.authenticate sha256 verify decode r now with
  | .error e => (.unauthenticated e, s)
  | .ok (e, key) =>
    match s.receipts.get e.requestId with
    | some existing =>
      if existing.bodyHash ≠ sha256 r.body then (.conflict, s) else (.replayed existing.result, s)
    | none =>
      match s.apply sha256 e key r.body now written with
      | .error raised => (.refused raised, s)
      | .ok (s, result) => (.applied result, s)

end View

section

variable {sha256 : String → String} {verify : ℕ → String → String → Bool}
  {decode : String → Except Raised PluginEnvelope} {s s' : Server} {r : PluginRequest}
  {now written : Instant} {e : PluginEnvelope} {key : PublicKey} {result : PluginResult}

theorem requestBody_ok {body : String} (h : requestBody r = .ok body) : body = r.body := by
  unfold requestBody at h
  split at h
  · cases h
  · split at h
    · cases h
    · split at h
      · cases h
      · split at h
        · cases h
        · exact (Except.ok.inj h).symm

theorem activeKey_ok {keyId : String} (h : s.activeKey keyId now = .ok key) :
    s.keys.get keyId = some key ∧ key.installationId = s.connector.id ∧ key.revokedAt = none ∧
      key.expiresAt.all (now < ·) = true := by
  unfold Server.activeKey at h
  split at h
  · cases h
  case h_2 k hk =>
    split at h
    case isTrue hlive =>
      obtain rfl := Except.ok.inj h
      exact ⟨hk, hlive⟩
    case isFalse => cases h

theorem authenticate_ok (h : s.authenticate sha256 verify decode r now = .ok (e, key)) :
    decode r.body = .ok e ∧ e.kind = r.kind ∧ s.activeKey r.keyId now = .ok key ∧
      ∃ sent, timestamp e.sentAt = some sent ∧ |now - sent| ≤ seconds 300 := by
  unfold Server.authenticate at h
  obtain ⟨body, hb, h⟩ := bind_eq_ok.mp h
  obtain ⟨e', he, h⟩ := bind_eq_ok.mp h
  obtain rfl := requestBody_ok hb
  split at h
  · cases h
  case isFalse hk =>
    split at h
    · cases h
    · obtain ⟨_, -, h⟩ := bind_eq_ok.mp h
      obtain ⟨key', hkey, h⟩ := bind_eq_ok.mp h
      obtain ⟨_, hv, h⟩ := bind_eq_ok.mp h
      obtain ⟨rfl, rfl⟩ := Prod.mk.inj (Except.ok.inj h)
      exact ⟨he, not_not.mp hk, hkey, verifyWoo_ok sha256 verify hv⟩

theorem handle_receipts (h : s.handle sha256 key now e = .ok (s', result)) :
    s'.receipts = s.receipts := by
  cases e with
  | batch e =>
    unfold Server.handle at h
    dsimp only at h
    split at h
    · obtain ⟨rfl, -⟩ := Prod.mk.inj (Except.ok.inj h)
      rfl
    · cases h
  | heartbeat e =>
    obtain ⟨rfl, -⟩ := Prod.mk.inj (Except.ok.inj h)
    rfl
  | rotation e =>
    obtain ⟨s₁, hr, h⟩ := bind_eq_ok.mp h
    obtain ⟨rfl, -⟩ := Prod.mk.inj (Except.ok.inj h)
    obtain ⟨_, -, hr⟩ := bind_eq_ok.mp hr
    obtain ⟨_, -, hr⟩ := bind_eq_ok.mp hr
    obtain rfl := Except.ok.inj hr
    rfl

theorem apply_receipts (h : s.apply sha256 e key r.body now written = .ok (s', result)) :
    s'.receipts = s.receipts.put
      { externalId := e.requestId, bodyHash := sha256 r.body, kind := .request e.kind
        status := .normalized, result, createdAt := written } := by
  obtain ⟨quotas, -, h⟩ := bind_eq_ok.mp h
  obtain ⟨⟨s₁, result₁⟩, hh, h⟩ := bind_eq_ok.mp h
  obtain ⟨rfl, rfl⟩ := Prod.mk.inj (Except.ok.inj h)
  have hr := handle_receipts hh
  dsimp only at hr ⊢
  rw [hr]

theorem signedPlugin_cases (s : Server) (r : PluginRequest) (now written : Instant) :
    (∃ e, s.signedPlugin sha256 verify decode r now written = (.unauthenticated e, s)) ∨
    ∃ e key, s.authenticate sha256 verify decode r now = .ok (e, key) ∧
      ((∃ existing, s.receipts.get e.requestId = some existing ∧
          s.signedPlugin sha256 verify decode r now written =
            (if existing.bodyHash = sha256 r.body then .replayed existing.result else .conflict,
              s)) ∨
        s.receipts.get e.requestId = none ∧
          ((∃ raised, s.signedPlugin sha256 verify decode r now written = (.refused raised, s)) ∨
            ∃ s' result, s.apply sha256 e key r.body now written = .ok (s', result) ∧
              s.signedPlugin sha256 verify decode r now written = (.applied result, s'))) := by
  unfold Server.signedPlugin
  cases ha : s.authenticate sha256 verify decode r now with
  | error e => exact Or.inl ⟨e, rfl⟩
  | ok answer =>
    obtain ⟨e, key⟩ := answer
    refine Or.inr ⟨e, key, rfl, ?_⟩
    cases hg : s.receipts.get e.requestId with
    | some existing =>
      refine Or.inl ⟨existing, rfl, ?_⟩
      dsimp only
      by_cases hb : existing.bodyHash = sha256 r.body
      · simp [hb, hg]
      · simp [hb, hg]
    | none =>
      refine Or.inr ⟨rfl, ?_⟩
      dsimp only
      rw [hg]
      cases hp : s.apply sha256 e key r.body now written with
      | error raised => exact Or.inl ⟨raised, rfl⟩
      | ok answer => exact Or.inr ⟨answer.1, answer.2, rfl, rfl⟩

theorem signedPlugin_unchanged
    (h : (s.signedPlugin sha256 verify decode r now written).1.isApplied = false) :
    (s.signedPlugin sha256 verify decode r now written).2 = s := by
  rcases signedPlugin_cases s r now written with ⟨e, hs⟩ | ⟨e, key, -, ⟨existing, -, hs⟩ | ⟨-, hs⟩⟩
  · exact congrArg Prod.snd hs
  · exact congrArg Prod.snd hs
  · rcases hs with ⟨raised, hs⟩ | ⟨s', result, -, hs⟩
    · exact congrArg Prod.snd hs
    · rw [hs] at h
      cases h

theorem signedPlugin_applied
    (h : (s.signedPlugin sha256 verify decode r now written).1 = .applied result) :
    ∃ e key, s.authenticate sha256 verify decode r now = .ok (e, key) ∧
      s.receipts.get e.requestId = none ∧
      s.apply sha256 e key r.body now written =
        .ok ((s.signedPlugin sha256 verify decode r now written).2, result) := by
  rcases signedPlugin_cases s r now written with ⟨e, hs⟩ | ⟨e, key, ha, ⟨existing, -, hs⟩ | ⟨hg, hs⟩⟩
  · rw [hs] at h
    cases h
  · rw [hs] at h
    dsimp only at h
    split at h <;> cases h
  · rcases hs with ⟨raised, hs⟩ | ⟨s', result', hp, hs⟩
    · rw [hs] at h
      cases h
    · rw [hs] at h ⊢
      obtain rfl := Outcome.applied.inj h
      exact ⟨e, key, ha, hg, hp⟩

end

end LedgerGuard.Connectors
