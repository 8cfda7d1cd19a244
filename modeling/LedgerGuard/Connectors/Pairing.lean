import LedgerGuard.Connectors.Rotation

/-! # Pairing and the chain of keys

A claim creates an installation with its first key, and each rotation can add one
more. A rotation may be signed with any key that is still accepted, so also with
one that has been rotated away and is in its overlap. What such a rotation may
add decides whether the overlap bounds what the old key is good for.
-/

namespace LedgerGuard.Connectors.Pairing

open Ingestion Raising Rotation

structure ClaimEnvelope where
  requestId : String
  pairingCode : String
  publicKey : String
  keyId : String
  sentAt : String
  mode : Mode
  versions : Versions
  deriving DecidableEq

/-- What arrives at `claim`. -/
structure ClaimRequest where
  contentEncoding : String := "identity"
  contentType : String := "application/json"
  contentLength : Option ℤ
  body : String
  signature : String
  deriving DecidableEq

/-- The body, under the headers that `request_body` reads. -/
def ClaimRequest.requestBody (r : ClaimRequest) : Except Raised String :=
  Connectors.requestBody
    { kind := .rotation, contentEncoding := r.contentEncoding, contentType := r.contentType
      contentLength := r.contentLength, body := r.body, keyId := "", signature := r.signature }

/-- A pairing code, with the mode of its store. -/
structure PairingCode where
  codeHash : String
  storeId : String
  mode : Mode
  expiresAt : Instant
  usedAt : Option Instant := none
  deriving DecidableEq

/-- An installation of the plugin with the rows that only its own requests touch. -/
structure Row where
  connector : Installation
  status : InstallationStatus := .active
  lastHeartbeatAt : Option Instant := none
  versions : Versions
  health : Option Health := none
  receipts : Table Receipt.externalId := .empty
  db : Ingestion.Db := {}

def Row.id (r : Row) : String := r.connector.id

/-- The rows of an organization that claims and signed requests read and write. The keys are those
of every organization: their identifiers are unique across all. -/
structure Registry where
  organizationId : String
  organizationActive : Bool := true
  pairings : Table PairingCode.codeHash := .empty
  installations : Table Row.id := .empty
  keys : Table PublicKey.keyId := .empty
  quotas : Table Quota.key := .empty
  audits : List AuditLog := []

namespace Registry

/-- What a signed request of an installation sees. -/
def server (w : Registry) (row : Row) : Server where
  organizationActive := w.organizationActive
  connector := row.connector
  status := row.status
  lastHeartbeatAt := row.lastHeartbeatAt
  versions := row.versions
  health := row.health
  keys := w.keys
  receipts := row.receipts
  quotas := w.quotas
  db := row.db
  audits := w.audits

def store (w : Registry) (s : Server) : Registry :=
  { w with
    installations := w.installations.put
      { connector := s.connector, status := s.status, lastHeartbeatAt := s.lastHeartbeatAt
        versions := s.versions, health := s.health, receipts := s.receipts, db := s.db }
    keys := s.keys
    quotas := s.quotas
    audits := s.audits }

end Registry

def answerAt (now : Instant) : PluginResult → PluginResult
  | .claimed installationId keyId mode _ => .claimed installationId keyId mode now
  | .batch result => .batch { result with serverTime := now }
  | .accepted requestId _ => .accepted requestId now

/-- The receipt that answers a repeated claim: its own, or the one of the first claim. -/
def Row.original (row : Row) (requestId bodyHash : String) : Option Receipt :=
  match (row.receipts.get requestId).filter (·.bodyHash = bodyHash) with
  | some receipt => some receipt
  | none => row.receipts.rows.find? (·.kind = .claim)

def Row.closed (storeId : String) (row : Row) : Row :=
  if row.connector.storeId = some storeId ∧ row.status = .active then
    { row with status := .disconnected }
  else row

theorem Row.closed_id {storeId : String} (row : Row) : (row.closed storeId).id = row.id := by
  unfold Row.closed
  split <;> rfl

namespace Registry

/-- A claim with a code that has been used: the same key of the same store gets its answer again. -/
def reclaim (w : Registry) (pairing : PairingCode) (e : ClaimEnvelope) (publicKey : ℕ)
    (bodyHash : String) (now : Instant) : Except Raised PluginResult :=
  let answer : Option PluginResult := do
    let existing ← w.keys.get e.keyId
    let row ← w.installations.get existing.installationId
    if row.connector.storeId = some pairing.storeId ∧ existing.publicKey = publicKey ∧
        row.status = .active then
      (row.original e.requestId bodyHash).map fun receipt => answerAt now receipt.result
    else none
  match answer with
  | some result => .ok result
  | none => .error (.problem "PAIRING_CODE_USED" 409)

/-- A claim with a fresh code creates an installation, under an identifier of its own. -/
def pair (w : Registry) (pairing : PairingCode) (e : ClaimEnvelope) (publicKey : ℕ)
    (installationId bodyHash : String) (now : Instant) : Except Raised (Registry × PluginResult) :=
  if w.organizationActive = false then .error (.problem "ORGANIZATION_INACTIVE" 403)
  else if w.installations.get installationId |>.isSome then .error .integrityError
  else if w.keys.get e.keyId |>.isSome then .error .integrityError
  else
    let result := PluginResult.claimed installationId e.keyId pairing.mode now
    let row : Row :=
      { connector := ⟨installationId, w.organizationId, some pairing.storeId, pairing.mode⟩
        versions := e.versions
        receipts := Table.empty.put
          { externalId := e.requestId, bodyHash, kind := .claim, status := .normalized, result
            createdAt := now } }
    .ok ({ w with
      installations := (w.installations.map (Row.closed pairing.storeId) Row.closed_id).put row
      keys := w.keys.put
        { keyId := e.keyId, organizationId := w.organizationId, installationId, publicKey }
      pairings := w.pairings.put { pairing with usedAt := some now }
      audits := w.audits ++ [⟨"woo.paired", installationId, now⟩] }, result)

end Registry

def pairingLimit : ℕ := 20

/-- A request, the clock of its checks and the later one of its rows. A claim brings the identifier
that an installation of it would get. -/
inductive Request
  | claim (r : ClaimRequest) (installationId : String) (now written : Instant)
  | plugin (r : PluginRequest) (now written : Instant)

def Request.signer : Request → Option String
  | .claim .. => none
  | .plugin r .. => some r.keyId

/-- Handled, or answered from the receipt. -/
def Fulfilled : Outcome → Prop
  | .applied _ | .replayed _ => True
  | _ => False

instance : DecidablePred Fulfilled
  | .applied _ | .replayed _ => .isTrue trivial
  | .unauthenticated _ | .conflict | .refused _ => .isFalse id

/-- The hash, the check of a signature, and the parsers of the two kinds of bodies. -/
structure Outside where
  sha256 : String → String
  verify : ℕ → String → String → Bool
  decodeClaim : String → Except Raised ClaimEnvelope
  decode : String → Except Raised PluginEnvelope

namespace Registry

/-- `claim`, from the pairing code on. -/
def claimWith (o : Outside) (w : Registry) (r : ClaimRequest) (e : ClaimEnvelope)
    (pairing : PairingCode) (installationId : String) (now written : Instant) :
    Except Raised (Registry × Outcome) := do
  let quotas ← takeQuota "pairing" pairingLimit now w.quotas
  let publicKey ← b64decode e.publicKey
  verifyWoo o.sha256 o.verify publicKey r.signature "claim" e.requestId e.sentAt r.body now
  match pairing.usedAt with
  | some _ =>
    let result ← w.reclaim pairing e publicKey (o.sha256 r.body) written
    return ({ w with quotas }, .replayed result)
  | none =>
    let (w, result) ← { w with quotas }.pair pairing e publicKey installationId (o.sha256 r.body)
      written
    return (w, .applied result)

/-- `claim`. -/
def claim (o : Outside) (w : Registry) (r : ClaimRequest) (installationId : String)
    (now written : Instant) : Except Raised (Registry × Outcome) := do
  let body ← r.requestBody
  let e ← o.decodeClaim body
  match w.pairings.get (o.sha256 e.pairingCode) with
  | none => .error (.problem "PAIRING_CODE_INVALID" 401)
  | some pairing =>
    if pairing.expiresAt ≤ now ∨ pairing.mode ≠ e.mode then
      .error (.problem "PAIRING_CODE_INVALID" 401)
    else w.claimWith o r e pairing installationId now written

/-- The installation that a signed request names. -/
def route (o : Outside) (w : Registry) (r : PluginRequest) : Except Raised Row := do
  let body ← Connectors.requestBody r
  let e ← o.decode body
  if e.kind ≠ r.kind then .error (.problem "SCHEMA_VALIDATION_FAILED" 422)
  else
    match w.installations.get e.installationId with
    | none => .error (.problem "INSTALLATION_UNKNOWN" 401)
    | some row => .ok row

/-- Answer a request; a raise rolls the transaction back. -/
def serve (o : Outside) (w : Registry) : Request → Outcome × Registry
  | .claim r installationId now written =>
    match w.claim o r installationId now written with
    | .error e => (.refused e, w)
    | .ok (w, outcome) => (outcome, w)
  | .plugin r now written =>
    match w.route o r with
    | .error e => (.unauthenticated e, w)
    | .ok row =>
      let answer := (w.server row).signedPlugin o.sha256 o.verify o.decode r now written
      (answer.1, w.store answer.2)

/-- The state that a sequence of requests leads to. -/
def after (o : Outside) (w : Registry) (requests : List Request) : Registry :=
  requests.foldl (fun w r => (w.serve o r).2) w

end Registry

section Steps

variable {o : Outside} {s s' : Server} {w w' : Registry} {r : PluginRequest} {e : PluginEnvelope}
  {key : PublicKey} {now written : Instant} {result : PluginResult} {id : String}

theorem handle_frame (h : s.handle o.sha256 key now e = .ok (s', result)) :
    s'.connector.id = s.connector.id ∧ s'.status = s.status ∧
      (e.kind ≠ .rotation → s'.keys = s.keys) := by
  cases e with
  | batch e =>
    unfold Server.handle at h
    dsimp only at h
    split at h
    · obtain ⟨rfl, -⟩ := Prod.mk.inj (Except.ok.inj h)
      exact ⟨rfl, rfl, fun _ => rfl⟩
    · cases h
  | heartbeat e =>
    obtain ⟨rfl, -⟩ := Prod.mk.inj (Except.ok.inj h)
    exact ⟨rfl, rfl, fun _ => rfl⟩
  | rotation e =>
    obtain ⟨s₁, hr, h⟩ := bind_eq_ok.mp h
    obtain ⟨rfl, -⟩ := Prod.mk.inj (Except.ok.inj h)
    obtain ⟨_, -, hr⟩ := bind_eq_ok.mp hr
    obtain ⟨_, -, hr⟩ := bind_eq_ok.mp hr
    obtain rfl := Except.ok.inj hr
    exact ⟨rfl, rfl, fun hne => absurd rfl hne⟩

theorem apply_frame {body : String}
    (h : s.apply o.sha256 e key body now written = .ok (s', result)) :
    s'.connector.id = s.connector.id ∧ s'.status = s.status ∧
      (e.kind ≠ .rotation → s'.keys = s.keys) := by
  obtain ⟨quotas, -, h⟩ := bind_eq_ok.mp h
  obtain ⟨⟨s₁, result₁⟩, hh, h⟩ := bind_eq_ok.mp h
  obtain ⟨rfl, -⟩ := Prod.mk.inj (Except.ok.inj h)
  obtain ⟨hid, hstatus, hkeys⟩ := handle_frame hh
  exact ⟨hid, hstatus, hkeys⟩

theorem signedPlugin_id :
    (s.signedPlugin o.sha256 o.verify o.decode r now written).2.connector.id = s.connector.id := by
  rcases @signedPlugin_cases o.sha256 o.verify o.decode s r now written with
    ⟨e, hs⟩ | ⟨e, key, -, ⟨existing, -, hs⟩ | ⟨-, ⟨raised, hs⟩ | ⟨s', result, hp, hs⟩⟩⟩
  · rw [hs]
  · rw [hs]
  · rw [hs]
  · rw [hs]
    exact (apply_frame hp).1

theorem signedPlugin_keys :
    (s.signedPlugin o.sha256 o.verify o.decode r now written).2.keys = s.keys ∨
    ∃ e key new keys, o.decode r.body = .ok (.rotation e) ∧
      s.receipts.get e.requestId = none ∧
      Rotated s (s.signedPlugin o.sha256 o.verify o.decode r now written).2 r e written key new
        keys := by
  cases ho : (s.signedPlugin o.sha256 o.verify o.decode r now written).1 with
  | applied result =>
    obtain ⟨e₀, key, hauth, hfresh, happly⟩ := signedPlugin_applied ho
    obtain ⟨hdecode₀, hkind, -⟩ := authenticate_ok hauth
    by_cases hr : r.kind = .rotation
    · obtain ⟨e, key, new, keys, hdecode, -, hrot⟩ := applied_rotation hr ho
      obtain rfl := Except.ok.inj (hdecode₀.symm.trans hdecode)
      exact Or.inr ⟨e, key, new, keys, hdecode, hfresh, hrot⟩
    · exact Or.inl ((apply_frame happly).2.2 (by rw [hkind]; exact hr))
  | _ =>
    have hsame := signedPlugin_unchanged (congrArg Outcome.isApplied ho)
    exact Or.inl (congrArg Server.keys hsame)

/-- What a request can do to the keys and to the set of installations. -/
inductive KeyStep (o : Outside) (w w' : Registry) : Request → Prop
  | same {request : Request} (keys : w'.keys = w.keys)
      (installations : ∀ j, (w'.installations.get j).isSome = (w.installations.get j).isSome) :
      KeyStep o w w' request
  | paired {claim : ClaimRequest} {j : String} {t t' : Instant} {k : PublicKey}
      (free : w.installations.get j = none) (unknown : w.keys.get k.keyId = none)
      (installation : k.installationId = j) (permanent : k.expiresAt = none)
      (keys : w'.keys = w.keys.put k)
      (installations : ∀ i, (w'.installations.get i).isSome =
        ((w.installations.get i).isSome || decide (i = j))) :
      KeyStep o w w' (.claim claim j t t')
  | rotated {p : PluginRequest} {t t' : Instant} {row : Row} {s : Server} {e : RotationEnvelope}
      {key : PublicKey} {new : ℕ} {registered : Table PublicKey.keyId}
      (known : w.installations.get row.id = some row) (decode : o.decode p.body = .ok (.rotation e))
      (fresh : row.receipts.get e.requestId = none)
      (rotated : Rotated (w.server row) s p e t' key new registered) (keys : w'.keys = s.keys)
      (installations : ∀ j, (w'.installations.get j).isSome = (w.installations.get j).isSome) :
      KeyStep o w w' (.plugin p t t')

theorem isSome_get_put {t : Table Row.id} {row : Row} : ((t.put row).get id).isSome =
    ((t.get id).isSome || decide (id = row.id)) := by
  rw [Table.get_put]
  by_cases h : id = row.id <;> simp [h]

theorem isSome_get_store {row : Row} (hrow : w.installations.get row.id = some row)
    (hs : s.connector.id = row.id) :
    ((w.store s).installations.get id).isSome = (w.installations.get id).isSome := by
  unfold Registry.store
  dsimp only
  rw [isSome_get_put]
  by_cases h : id = row.id
  · simp [h, hrow]
  · have hne : id ≠ s.connector.id := by rwa [hs]
    simp [Row.id, hne]

theorem route_ok {row : Row} (h : w.route o r = .ok row) :
    ∃ e, o.decode r.body = .ok e ∧ w.installations.get e.installationId = some row := by
  obtain ⟨body, hb, h⟩ := bind_eq_ok.mp h
  obtain ⟨e, he, h⟩ := bind_eq_ok.mp h
  rw [requestBody_ok hb] at he
  split at h
  · cases h
  · split at h
    · cases h
    case h_2 row' hrow =>
      obtain rfl := Except.ok.inj h
      exact ⟨e, he, hrow⟩

theorem pair_ok {pairing : PairingCode} {e : ClaimEnvelope} {publicKey : ℕ} {bodyHash : String}
    (h : w.pair pairing e publicKey id bodyHash now = .ok (w', result)) :
    w.installations.get id = none ∧ w.keys.get e.keyId = none ∧
      w'.keys = w.keys.put
        { keyId := e.keyId, organizationId := w.organizationId, installationId := id, publicKey } ∧
      ∀ j, (w'.installations.get j).isSome =
        ((w.installations.get j).isSome || decide (j = id)) := by
  unfold Registry.pair at h
  split at h
  · cases h
  · split at h
    · cases h
    case isFalse hfree =>
      split at h
      · cases h
      case isFalse hunknown =>
        obtain ⟨rfl, -⟩ := Prod.mk.inj (Except.ok.inj h)
        refine ⟨by simpa using hfree, by simpa using hunknown, rfl, fun j => ?_⟩
        dsimp only
        rw [isSome_get_put, Table.get_map, Option.isSome_map]
        rfl

theorem claim_step {r : ClaimRequest} {outcome : Outcome}
    (h : w.claim o r id now written = .ok (w', outcome)) :
    KeyStep o w w' (.claim r id now written) := by
  obtain ⟨body, -, h⟩ := bind_eq_ok.mp h
  obtain ⟨e, -, h⟩ := bind_eq_ok.mp h
  split at h
  · cases h
  · split at h
    · cases h
    · obtain ⟨quotas, -, h⟩ := bind_eq_ok.mp h
      obtain ⟨publicKey, -, h⟩ := bind_eq_ok.mp h
      obtain ⟨_, -, h⟩ := bind_eq_ok.mp h
      split at h
      · obtain ⟨result, -, h⟩ := bind_eq_ok.mp h
        obtain ⟨rfl, -⟩ := Prod.mk.inj (Except.ok.inj h)
        exact .same rfl fun _ => rfl
      · obtain ⟨⟨w₁, result⟩, hpair, h⟩ := bind_eq_ok.mp h
        obtain ⟨rfl, -⟩ := Prod.mk.inj (Except.ok.inj h)
        obtain ⟨hfree, hunknown, hkeys, hinst⟩ := pair_ok hpair
        exact .paired hfree hunknown rfl rfl hkeys hinst

theorem serve_step (w : Registry) (r : Request) : KeyStep o w (w.serve o r).2 r := by
  cases r with
  | claim r id now written =>
    unfold Registry.serve
    dsimp only
    cases h : w.claim o r id now written with
    | error raised => exact .same rfl fun _ => rfl
    | ok answer => exact claim_step h
  | plugin r now written =>
    unfold Registry.serve
    dsimp only
    cases h : w.route o r with
    | error raised => exact .same rfl fun _ => rfl
    | ok row =>
      obtain ⟨e, -, hrow⟩ := route_ok h
      have hid : e.installationId = row.id := ((Table.get_eq_some.mp hrow).2).symm
      rw [hid] at hrow
      dsimp only
      have hinst := fun id => @isSome_get_store _ w id row hrow
        (@signedPlugin_id o (w.server row) r now written)
      rcases @signedPlugin_keys o (w.server row) r now written with
        hkeys | ⟨e, key, new, keys, hdecode, hfresh, hrot⟩
      · exact .same hkeys hinst
      · exact .rotated hrow hdecode hfresh hrot rfl hinst

end Steps

section Access

/-- An unrevoked key of the installation without an expiry. -/
structure Permanent (w : Registry) (id : String) (k : PublicKey) : Prop where
  mem : k ∈ w.keys
  installation : k.installationId = id
  unrevoked : k.revokedAt = none
  unexpiring : k.expiresAt = none

def Sole (w : Registry) (id : String) : Prop :=
  ∀ k k', Permanent w id k → Permanent w id k' → k = k'

/-- The installation answers requests that are signed with the key. -/
def Admits (w : Registry) (id keyId : String) (now : Instant) : Prop :=
  ∃ row key, w.installations.get id = some row ∧ (w.server row).active = .ok () ∧
    (w.server row).activeKey keyId now = .ok key

/-- The request starts the overlap of a key. -/
structure Retires (o : Outside) (w : Registry) (id : String) (r : Request) (keyId : String) :
    Prop where
  signer : r.signer = some keyId
  before : ∃ key, w.keys.get keyId = some key ∧ key.installationId = id ∧ key.expiresAt = none
  after : ∃ key, (w.serve o r).2.keys.get keyId = some key ∧ key.expiresAt ≠ none

/-- The keys that a request registers under the signature of one of some keys. -/
def minted (o : Outside) (w : Registry) (ids : Set String) (r : Request) : Set String :=
  {k | (∃ signer ∈ ids, r.signer = some signer) ∧ w.keys.get k = none ∧
    (w.serve o r).2.keys.get k ≠ none}

/-- The keys that the holder of some keys can come to hold with a sequence of requests. -/
def held (o : Outside) (w : Registry) (ids : Set String) : List Request → Set String
  | [] => ids
  | r :: rs => held o (w.serve o r).2 (ids ∪ minted o w ids r) rs

def Request.written : Request → Instant
  | .claim _ _ _ written | .plugin _ _ written => written

/-- One permanent key at most, and no access a day after the overlap of a key has begun: neither
with that key nor with any that came of it. -/
structure Bounded (o : Outside) (w₀ : Registry) (id : String) (rs : List Request) : Prop where
  sole : Sole (w₀.after o rs) id
  access : ∀ p r q keyId, rs = p ++ r :: q → Retires o (w₀.after o p) id r keyId →
    ∀ k ∈ held o (w₀.after o (p ++ [r])) {keyId} q, ∀ now, r.written + overlap ≤ now →
      ¬ Admits (w₀.after o rs) id k now

/-- A condition on every request of a sequence and the state that it meets. -/
def Along (o : Outside) (w₀ : Registry) (rs : List Request) (P : Registry → Request → Prop) :
    Prop :=
  ∀ p r q, rs = p ++ r :: q → P (w₀.after o p) r

/-- A rotation without a receipt is signed with a key that has an expiry, and names a key that has
no row. -/
def Mints (o : Outside) (id : String) (w : Registry) : Request → Prop
  | .claim .. => False
  | .plugin r .. => ∃ key e, w.keys.get r.keyId = some key ∧ key.installationId = id ∧
      key.expiresAt ≠ none ∧ o.decode r.body = .ok (.rotation e) ∧
      w.keys.get e.newKeyId = none ∧
      ∀ row, w.installations.get id = some row → row.receipts.get e.requestId = none

/-- The installation has not been paired yet. -/
structure Unpaired (w : Registry) (id : String) : Prop where
  installation : w.installations.get id = none
  keys : ∀ k ∈ w.keys, k.installationId ≠ id

end Access

section Runs

variable {o : Outside} {w w₀ w' : Registry} {rs p q : List Request} {r : Request}
  {id keyId k : String} {key : PublicKey} {x : Instant}

theorem after_cons : w.after o (r :: rs) = (w.serve o r).2.after o rs := rfl

theorem after_append : w.after o (p ++ q) = (w.after o p).after o q := List.foldl_append

theorem after_snoc : w.after o (p ++ [r]) = ((w.after o p).serve o r).2 := after_append

theorem along_cons {P : Registry → Request → Prop} :
    Along o w₀ (r :: rs) P ↔ P w₀ r ∧ Along o (w₀.serve o r).2 rs P := by
  constructor
  · intro h
    exact ⟨h [] r rs rfl, fun p r' q hs => h (r :: p) r' q (congrArg (r :: ·) hs)⟩
  · rintro ⟨hr, h⟩ p r' q hs
    cases p with
    | nil =>
      obtain ⟨rfl, -⟩ := List.cons.inj hs
      exact hr
    | cons r'' p =>
      obtain ⟨rfl, htail⟩ := List.cons.inj hs
      exact h p r' q htail

theorem along_nil {P : Registry → Request → Prop} : Along o w₀ [] P := by
  intro p r q hs
  simp at hs

instance decidableAlong (o : Outside) (P : Registry → Request → Prop) [∀ w r, Decidable (P w r)] :
    ∀ (w : Registry) (rs : List Request), Decidable (Along o w rs P)
  | _, [] => .isTrue along_nil
  | w, r :: rs =>
    have := decidableAlong o P (w.serve o r).2 rs
    decidable_of_iff _ along_cons.symm

theorem Along.take {P : Registry → Request → Prop} (h : Along o w₀ rs P) (hp : p <+: rs) :
    Along o w₀ p P := by
  obtain ⟨q, rfl⟩ := hp
  intro p' r q' hs
  apply h p' r (q' ++ q)
  rw [hs, List.append_assoc, List.cons_append]

theorem Along.drop {P : Registry → Request → Prop} (h : Along o w₀ (p ++ q) P) :
    Along o (w₀.after o p) q P := by
  intro p' r q' hs
  rw [← after_append]
  apply h (p ++ p') r q'
  rw [hs, List.append_assoc]

theorem KeyStep.kept (h : KeyStep o w w' r) (hk : w.keys.get k = some key) :
    ∃ key', w'.keys.get k = some key' ∧ key'.installationId = key.installationId ∧
      (key' = key ∨ key.expiresAt = none ∧ key'.expiresAt ≠ none) := by
  cases h with
  | same hkeys => exact ⟨key, by rw [hkeys, hk], rfl, Or.inl rfl⟩
  | @paired claim j t t' k' free unknown inst perm hkeys =>
    refine ⟨key, ?_, rfl, Or.inl rfl⟩
    rw [hkeys, Table.get_put, if_neg, hk]
    rintro rfl
    rw [hk] at unknown
    cases unknown
  | @rotated p t t' row s e signer new registered known decode fresh hrot hkeys =>
    rw [hkeys, hrot.get]
    by_cases hs : k = p.keyId
    · have hsigner := hrot.signer
      rw [← hs] at hsigner
      obtain rfl := Option.some.inj (hk.symm.trans hsigner)
      refine ⟨key.retired t', if_pos hs, rfl, ?_⟩
      cases hx : key.expiresAt with
      | none => exact Or.inr ⟨rfl, nofun⟩
      | some x =>
        left
        rw [PublicKey.retired, hx, Option.getD_some, ← hx]
    · exact ⟨key, (if_neg hs).trans (register_kept hrot.register hk), rfl, Or.inl rfl⟩

theorem KeyStep.installations_grow (h : KeyStep o w w' r) (id : String) :
    (w.installations.get id).isSome = true → (w'.installations.get id).isSome = true := by
  intro hs
  cases h with
  | same _ hinst => rw [hinst, hs]
  | paired _ _ _ _ _ hinst => rw [hinst, hs, Bool.true_or]
  | rotated _ _ _ _ _ hinst => rw [hinst, hs]

theorem KeyStep.created {new : PublicKey} (h : KeyStep o w w' r) (hn : w.keys.get k = none)
    (hk : w'.keys.get k = some new) : new.expiresAt = none ∧
    (∀ j, w.keys.get j = none → w'.keys.get j ≠ none → j = k) ∧
    (w'.installations.get new.installationId).isSome = true ∧
    (w.installations.get new.installationId = none ∧ r.signer = none ∨
      ∃ signer key, r.signer = some signer ∧ w.keys.get signer = some key ∧
        key.installationId = new.installationId ∧ key.revokedAt = none ∧
        (∃ key', w'.keys.get signer = some key' ∧ key'.expiresAt ≠ none) ∧
        (key.expiresAt ≠ none → Mints o new.installationId w r)) := by
  cases h with
  | same hkeys =>
    rw [hkeys, hn] at hk
    cases hk
  | @paired claim j t t' k' free unknown inst perm hkeys hinst =>
    rw [hkeys, Table.get_put] at hk
    split at hk
    case isFalse => rw [hn] at hk; cases hk
    case isTrue hid =>
      obtain rfl := Option.some.inj hk
      refine ⟨perm, fun i hi hi' => ?_, ?_, Or.inl ⟨by rw [inst, free], rfl⟩⟩
      · rw [hkeys, Table.get_put] at hi'
        split at hi'
        case isTrue hik => exact hik.trans hid.symm
        case isFalse => exact absurd hi hi'
      · rw [hinst, inst]
        simp
  | @rotated p t t' row s e signer value registered known decode fresh hrot hkeys hinst =>
    have hget := fun i => (congrArg (fun keys => keys.get i) hkeys).trans (hrot.get i)
    have hsigner : ∀ i, w.keys.get i = none → i ≠ p.keyId := by
      rintro i hi rfl
      have hs : w.keys.get p.keyId = some signer := hrot.signer
      rw [hi] at hs
      cases hs
    rcases register_get hrot.register with ⟨_, -, -, -, -, hsame⟩ | ⟨hfree, hput⟩
    · have hk' := hget k
      rw [if_neg (hsigner k hn), hsame, hk] at hk'
      exact absurd (hk'.trans hn) (Option.some_ne_none new)
    · have hadded : ∀ i, w.keys.get i = none → w'.keys.get i ≠ none → i = e.newKeyId := by
        intro i hi hi'
        by_contra hne
        apply hi'
        have hi'' := hget i
        rw [if_neg (hsigner i hi), hput, Table.get_put, if_neg hne] at hi''
        exact hi''.trans hi
      have hke : k = e.newKeyId := hadded k hn (by rw [hk]; exact Option.some_ne_none new)
      have hnew := hget k
      rw [if_neg (hsigner k hn), hput, Table.get_put, if_pos hke, hk] at hnew
      obtain rfl := Option.some.inj hnew
      have hrow : (w'.installations.get row.id).isSome = true := by
        rw [hinst, known]
        rfl
      refine ⟨rfl, fun i hi hi' => (hadded i hi hi').trans hke.symm, hrow, Or.inr ?_⟩
      refine ⟨p.keyId, signer, rfl, hrot.signer, hrot.installation, hrot.unrevoked, ?_, ?_⟩
      · exact ⟨_, (hget p.keyId).trans (if_pos rfl), Option.some_ne_none _⟩
      · intro hexp
        refine ⟨signer, e, hrot.signer, hrot.installation, hexp, decode, hfree, fun row' hrow' => ?_⟩
        obtain rfl := Option.some.inj (known.symm.trans hrow')
        exact fresh

theorem KeyStep.retired {key' : PublicKey} (h : KeyStep o w w' r) (hk : w.keys.get k = some key)
    (hnone : key.expiresAt = none) (hk' : w'.keys.get k = some key') (hsome : key'.expiresAt ≠ none) :
    r.signer = some k ∧ key'.expiresAt = some (r.written + overlap) := by
  cases h with
  | same hkeys =>
    rw [hkeys, hk] at hk'
    obtain rfl := Option.some.inj hk'
    exact absurd hnone hsome
  | @paired claim j t t' new free unknown inst perm hkeys =>
    rw [hkeys, Table.get_put] at hk'
    split at hk'
    case isTrue hid =>
      rw [hid, unknown] at hk
      cases hk
    case isFalse =>
      obtain rfl := Option.some.inj (hk.symm.trans hk')
      exact absurd hnone hsome
  | @rotated p t t' row s e signer value registered known decode fresh hrot hkeys =>
    rw [hkeys, hrot.get] at hk'
    split at hk'
    case isTrue hs =>
      obtain rfl := Option.some.inj hk'
      have hsigner := hrot.signer
      rw [← hs] at hsigner
      obtain rfl := Option.some.inj (hk.symm.trans hsigner)
      refine ⟨congrArg some hs.symm, ?_⟩
      rw [PublicKey.retired, hnone]
      rfl
    case isFalse =>
      obtain rfl := Option.some.inj ((register_kept hrot.register hk).symm.trans hk')
      exact absurd hnone hsome

/-- An installation has keys only once it exists, and at most one of them is permanent. -/
structure Chained (w : Registry) (id : String) : Prop where
  keys : w.installations.get id = none → ∀ k ∈ w.keys, k.installationId ≠ id
  sole : Sole w id

theorem Unpaired.chained (h : Unpaired w id) : Chained w id where
  keys _ := h.keys
  sole k _ hk _ := absurd hk.installation (h.keys k hk.mem)

theorem get_of_mem {k : PublicKey} (h : k ∈ w.keys) : w.keys.get k.keyId = some k :=
  Table.get_eq_some.mpr ⟨h, rfl⟩

theorem mem_of_get (h : w.keys.get k = some key) : key ∈ w.keys := (Table.get_eq_some.mp h).1

theorem KeyStep.permanent (h : KeyStep o w w' r) (hp : Permanent w' id key)
    (hk : w.keys.get key.keyId ≠ none) : Permanent w id key := by
  obtain ⟨old, hold⟩ := Option.ne_none_iff_exists'.mp hk
  obtain ⟨key', hkey', -, hsame⟩ := h.kept hold
  obtain rfl := Option.some.inj ((get_of_mem hp.mem).symm.trans hkey')
  rcases hsame with rfl | ⟨-, hsome⟩
  · exact { hp with mem := mem_of_get hold }
  · exact absurd hp.unexpiring hsome

theorem KeyStep.not_both {old new : PublicKey} (h : KeyStep o w w' r) (hw : Chained w id)
    (hm : ¬ Mints o id w r) (hold : Permanent w' id old) (hknown : w.keys.get old.keyId ≠ none)
    (hnew : Permanent w' id new) (hfree : w.keys.get new.keyId = none) : False := by
  have hbefore := h.permanent hold hknown
  obtain ⟨-, -, -, hfrom⟩ := h.created hfree (get_of_mem hnew.mem)
  rw [hnew.installation] at hfrom
  rcases hfrom with ⟨hnone, -⟩ | ⟨signer, key, -, hkey, hinst, hrev, ⟨key', hkey', hsome⟩, hmints⟩
  · exact hw.keys hnone old hbefore.mem hbefore.installation
  · have hexp : key.expiresAt = none := by
      by_contra hne
      exact hm (hmints hne)
    obtain rfl := hw.sole old key hbefore ⟨mem_of_get hkey, hinst, hrev, hexp⟩
    have hsigner : old.keyId = signer := (Table.get_eq_some.mp hkey).2
    rw [← hsigner, get_of_mem hold.mem] at hkey'
    obtain rfl := Option.some.inj hkey'
    exact hsome hexp

theorem KeyStep.chained (h : KeyStep o w w' r) (hw : Chained w id) (hm : ¬ Mints o id w r) :
    Chained w' id := by
  constructor
  · rintro hnone k hk rfl
    cases hold : w.keys.get k.keyId with
    | some old =>
      obtain ⟨key', hkey', hinst, -⟩ := h.kept hold
      obtain rfl := Option.some.inj ((get_of_mem hk).symm.trans hkey')
      have hgone : w.installations.get k.installationId = none := by
        have hgrow := h.installations_grow k.installationId
        rw [hnone] at hgrow
        simpa using mt hgrow
      exact hw.keys hgone old (mem_of_get hold) hinst.symm
    | none =>
      obtain ⟨-, -, hrow, -⟩ := h.created hold (get_of_mem hk)
      rw [hnone] at hrow
      cases hrow
  · intro k k' hk hk'
    by_cases hold : w.keys.get k.keyId = none
    · by_cases hold' : w.keys.get k'.keyId = none
      · obtain ⟨-, honly, -⟩ := h.created hold (get_of_mem hk.mem)
        have hid := honly k'.keyId hold' (by rw [get_of_mem hk'.mem]; exact Option.some_ne_none k')
        exact Table.eq_of_key hk.mem hk'.mem hid.symm
      · exact (h.not_both hw hm hk' hold' hk hold).elim
    · by_cases hold' : w.keys.get k'.keyId = none
      · exact (h.not_both hw hm hk hold hk' hold').elim
      · exact hw.sole k k' (h.permanent hk hold) (h.permanent hk' hold')

theorem after_chained (h₀ : Chained w id) (hm : Along o w rs fun w r => ¬ Mints o id w r) :
    Chained (w.after o rs) id := by
  induction rs using List.reverseRecOn with
  | nil => exact h₀
  | append_singleton rs r ih =>
    rw [after_snoc]
    exact (serve_step _ r).chained (ih (hm.take (List.prefix_append rs [r]))) (hm rs r [] rfl)

theorem minted_empty (hk : w.keys.get keyId = some key) (hexp : key.expiresAt ≠ none)
    (hm : ¬ Mints o key.installationId w r) : minted o w {keyId} r = ∅ := by
  ext k
  simp only [minted, Set.mem_ofPred_eq, Set.mem_empty_iff_false, iff_false]
  rintro ⟨⟨signer, rfl, hsigner⟩, hnone, hsome⟩
  obtain ⟨new, hnew⟩ := Option.ne_none_iff_exists'.mp hsome
  obtain ⟨-, -, -, hfrom⟩ := (serve_step w r).created hnone hnew
  rcases hfrom with ⟨-, hr⟩ | ⟨signer', key', hr, hkey', hinst, -, -, hmints⟩
  · rw [hr] at hsigner
    cases hsigner
  · obtain rfl := Option.some.inj (hsigner.symm.trans hr)
    obtain rfl := Option.some.inj (hk.symm.trans hkey')
    rw [hinst] at hm
    exact hm (hmints hexp)

theorem held_retired (hk : w.keys.get keyId = some key) (hexp : key.expiresAt ≠ none)
    (hm : Along o w q fun w r => ¬ Mints o key.installationId w r) :
    held o w {keyId} q = {keyId} ∧ (w.after o q).keys.get keyId = some key := by
  induction q generalizing w with
  | nil => exact ⟨rfl, hk⟩
  | cons r q ih =>
    obtain ⟨key', hkey', -, hsame⟩ := (serve_step (o := o) w r).kept hk
    obtain rfl : key' = key := by
      rcases hsame with rfl | ⟨hnone, -⟩
      · rfl
      · exact absurd hnone hexp
    rw [held, minted_empty hk hexp (hm [] r q rfl), Set.union_empty]
    exact ih hkey' (Along.drop (p := [r]) hm)

theorem held_snoc {ids : Set String} : held o w ids (q ++ [r]) =
    held o w ids q ∪ minted o (w.after o q) (held o w ids q) r := by
  induction q generalizing w ids with
  | nil => rfl
  | cons r' q ih => exact ih

theorem subset_held {ids : Set String} : ids ⊆ held o w ids q := by
  induction q generalizing w ids with
  | nil => exact subset_rfl
  | cons r' q ih => exact Set.subset_union_left.trans ih

theorem expiry_begun (h₀ : Unpaired w₀ id) (hk : (w₀.after o p).keys.get k = some key)
    (hid : key.installationId = id) (hexp : key.expiresAt ≠ none) :
    ∃ p' r q', p = p' ++ r :: q' ∧ Retires o (w₀.after o p') id r k := by
  induction p using List.reverseRecOn generalizing key with
  | nil => exact absurd hid (h₀.keys key (mem_of_get hk))
  | append_singleton p r ih =>
    rw [after_snoc] at hk
    have hstep := serve_step (o := o) (w₀.after o p) r
    cases hold : (w₀.after o p).keys.get k with
    | none => exact absurd (hstep.created hold hk).1 hexp
    | some old =>
      obtain ⟨key', hkey', hinst, hsame⟩ := hstep.kept hold
      obtain rfl := Option.some.inj (hk.symm.trans hkey')
      rcases hsame with rfl | ⟨hnone, -⟩
      · obtain ⟨p', r', q', rfl, hr⟩ := ih hold hid hexp
        exact ⟨p', r', q' ++ [r], by simp, hr⟩
      · exact ⟨p, r, [], rfl, (hstep.retired hold hnone hk hexp).1, ⟨old, hold, hinst ▸ hid, hnone⟩,
          key, hk, hexp⟩

theorem authenticate_active {s : Server} {r : PluginRequest} {e : PluginEnvelope} {now : Instant}
    (h : s.authenticate o.sha256 o.verify o.decode r now = .ok (e, key)) : s.active = .ok () := by
  obtain ⟨body, -, h⟩ := bind_eq_ok.mp h
  obtain ⟨e', -, h⟩ := bind_eq_ok.mp h
  split at h
  · cases h
  · split at h
    · cases h
    · obtain ⟨_, hactive, -⟩ := bind_eq_ok.mp h
      exact hactive

theorem accepted_rotated {s : Server} {r : PluginRequest} {e : RotationEnvelope}
    {now written : Instant}
    (hacc : Fulfilled (s.signedPlugin o.sha256 o.verify o.decode r now written).1)
    (hdecode : o.decode r.body = .ok (.rotation e)) (hkey : s.keys.get r.keyId = some key)
    (hfresh : key.installationId = s.connector.id → s.receipts.get e.requestId = none) :
    s.active = .ok () ∧
    (s.signedPlugin o.sha256 o.verify o.decode r now written).2.status = s.status ∧
    ∃ new keys, Rotated s (s.signedPlugin o.sha256 o.verify o.decode r now written).2 r e
      written key new keys := by
  rcases @signedPlugin_cases o.sha256 o.verify o.decode s r now written with
    ⟨_, hs⟩ | ⟨e', k, hauth, ⟨existing, hg, -⟩ | ⟨-, ⟨raised, hs⟩ | ⟨s', result, hp, hs⟩⟩⟩
  · rw [hs] at hacc
    exact hacc.elim
  · obtain ⟨hdecode', -, hactive, -⟩ := authenticate_ok hauth
    obtain ⟨hk, hinst, -⟩ := activeKey_ok hactive
    obtain rfl := Except.ok.inj (hdecode.symm.trans hdecode')
    obtain rfl := Option.some.inj (hkey.symm.trans hk)
    exact absurd ((hfresh hinst).symm.trans hg) nofun
  · rw [hs] at hacc
    exact hacc.elim
  · obtain ⟨hdecode', hkind, -⟩ := authenticate_ok hauth
    obtain rfl := Except.ok.inj (hdecode.symm.trans hdecode')
    obtain ⟨e', key', new, keys, hdecode', -, hrot⟩ :=
      applied_rotation hkind.symm (congrArg Prod.fst hs)
    obtain rfl := PluginEnvelope.rotation.inj (Except.ok.inj (hdecode.symm.trans hdecode'))
    obtain rfl := Option.some.inj (hkey.symm.trans hrot.signer)
    refine ⟨authenticate_active hauth, ?_, new, keys, hrot⟩
    rw [hs]
    exact (apply_frame hp).2.1

theorem active_ok {s : Server} :
    s.active = .ok () ↔ s.status = .active ∧ s.organizationActive = true := by
  unfold Server.active
  split
  case isTrue h => exact iff_of_true rfl h
  case isFalse h => exact iff_of_false nofun h

theorem admits_store {s : Server} {now : Instant} (hs : s.connector.id = id)
    (horg : w.organizationActive = true) (hstatus : s.status = .active)
    (hk : s.keys.get k = some key) (hid : key.installationId = id) (hrev : key.revokedAt = none)
    (hexp : key.expiresAt = none) : Admits (w.store s) id k now := by
  refine ⟨_, key, Table.get_eq_some.mpr ⟨Table.mem_put.mpr (Or.inl rfl), hs⟩, ?_, ?_⟩
  · exact active_ok.mpr ⟨hstatus, horg⟩
  · have hkeys : (w.store s).keys.get k = some key := hk
    simp [Server.activeKey, Registry.server, hkeys, hid, hs, hrev, hexp]

theorem mints_admits (hacc : Fulfilled (w.serve o r).1) (hm : Mints o id w r) :
    ∃ signer key new, r.signer = some signer ∧ w.keys.get signer = some key ∧
      key.installationId = id ∧ key.expiresAt ≠ none ∧ new ∈ minted o w {signer} r ∧
      ∀ now, Admits (w.serve o r).2 id new now := by
  cases r with
  | claim => exact hm.elim
  | plugin r now written =>
    obtain ⟨key, e, hkey, hid, hexp, hdecode, hnew, hfresh⟩ := hm
    cases hroute : w.route o r with
    | error raised =>
      simp only [Registry.serve, hroute] at hacc
      exact hacc.elim
    | ok row =>
      obtain ⟨e', hdecode', hrow⟩ := route_ok hroute
      obtain rfl := Except.ok.inj (hdecode.symm.trans hdecode')
      have hserve : w.serve o (.plugin r now written) =
          (((w.server row).signedPlugin o.sha256 o.verify o.decode r now written).1,
            w.store ((w.server row).signedPlugin o.sha256 o.verify o.decode r now written).2) := by
        simp only [Registry.serve, hroute]
      have hrowid : row.id = e.installationId := (Table.get_eq_some.mp hrow).2
      rw [hserve] at hacc
      have hfresh' : key.installationId = (w.server row).connector.id →
          (w.server row).receipts.get e.requestId = none := by
        intro hinst
        apply hfresh row
        rw [← hid, hinst, ← hrow]
        exact congrArg _ hrowid
      obtain ⟨hactive, hstatus, new, keys, hrot⟩ := accepted_rotated hacc hdecode hkey hfresh'
      have hne : e.newKeyId ≠ r.keyId := by
        intro he
        rw [he, hkey] at hnew
        cases hnew
      have hadded := hrot.get e.newKeyId
      rw [if_neg hne] at hadded
      rcases register_get hrot.register with ⟨_, hk, -⟩ | ⟨-, hput⟩
      · exact absurd (hnew.symm.trans hk) nofun
      · rw [hput, Table.get_put, if_pos rfl] at hadded
        refine ⟨r.keyId, key, e.newKeyId, rfl, hkey, hid, hexp, ⟨⟨_, rfl, rfl⟩, hnew, ?_⟩, ?_⟩
        · rw [hserve]
          exact fun hnone => absurd (hadded.symm.trans hnone) nofun
        · intro now'
          rw [hserve]
          have hconn : (w.server row).connector.id = id := hrot.installation.symm.trans hid
          refine admits_store ?_ (active_ok.mp hactive).2 ?_ hadded hconn rfl rfl
          · exact (congrArg Installation.id hrot.connector).trans hconn
          · exact hstatus.trans (active_ok.mp hactive).1

theorem bounded_of_no_minting (h₀ : Unpaired w₀ id)
    (hm : Along o w₀ rs fun w r => ¬ Mints o id w r) : Bounded o w₀ id rs := by
  constructor
  · exact (after_chained h₀.chained hm).sole
  · rintro p r q keyId rfl hr k hk now hnow ⟨row, found, -, -, hactive⟩
    obtain ⟨-, ⟨key, hkey, hid, hnone⟩, key', hkey', hsome⟩ := hr
    have hstep := serve_step (o := o) (w₀.after o p) r
    obtain ⟨-, hexp⟩ := hstep.retired hkey hnone hkey' hsome
    have hid' : key'.installationId = id := by
      obtain ⟨key'', hkey'', hinst, -⟩ := hstep.kept hkey
      obtain rfl := Option.some.inj (hkey'.symm.trans hkey'')
      exact hinst.trans hid
    rw [after_snoc] at hk
    have hrest : Along o ((w₀.after o p).serve o r).2 q
        fun w r => ¬ Mints o key'.installationId w r := by
      rw [hid', ← after_snoc]
      apply Along.drop
      rw [List.append_assoc]
      exact hm
    obtain ⟨hheld, hlast⟩ := held_retired hkey' hsome hrest
    rw [hheld] at hk
    obtain rfl := Set.mem_singleton_iff.mp hk
    obtain ⟨hfound, -, -, hlive⟩ := activeKey_ok hactive
    have hkeys : (w₀.after o (p ++ r :: q)).keys.get k = some found := hfound
    rw [after_append, after_cons, hlast] at hkeys
    obtain rfl := Option.some.inj hkeys
    rw [hexp, Option.all_some, decide_eq_true_eq] at hlive
    exact absurd hlive (not_lt.mpr hnow)

theorem not_bounded_of_minting (h₀ : Unpaired w₀ id)
    (hacc : Fulfilled ((w₀.after o p).serve o r).1) (hm : Mints o id (w₀.after o p) r) :
    ¬ Bounded o w₀ id (p ++ [r]) := by
  intro hb
  obtain ⟨signer, key, new, -, hkey, hid, hexp, hnew, hadmits⟩ := mints_admits hacc hm
  obtain ⟨p', r', q', rfl, hretires⟩ := expiry_begun h₀ hkey hid hexp
  have hheld : new ∈ held o (w₀.after o (p' ++ [r'])) {signer} (q' ++ [r]) := by
    rw [held_snoc, ← after_append, List.append_assoc]
    right
    obtain ⟨⟨s, hs, hsigner⟩, hnew⟩ := hnew
    exact ⟨⟨s, subset_held hs, hsigner⟩, hnew⟩
  have hsplit : p' ++ r' :: q' ++ [r] = p' ++ r' :: (q' ++ [r]) := by simp
  apply hb.access p' r' (q' ++ [r]) signer hsplit hretires new hheld (r'.written + overlap) le_rfl
  rw [after_snoc]
  exact hadmits _

/-- Whatever is accepted from the pairing on, at most one key of an installation is permanent and
no key is worth anything a day after its overlap has begun, exactly if no rotation that is signed
with a key in its overlap names a key without a row. -/
theorem overlap_bounds_access_iff (h₀ : Unpaired w₀ id)
    (hacc : Along o w₀ rs fun w r => Fulfilled (w.serve o r).1) :
    (∀ p, p <+: rs → Bounded o w₀ id p) ↔ Along o w₀ rs fun w r => ¬ Mints o id w r := by
  constructor
  · rintro hb p r q rfl hm
    refine not_bounded_of_minting h₀ (hacc p r q rfl) hm (hb _ ⟨q, ?_⟩)
    rw [List.append_assoc, List.singleton_append]
  · intro hm p hp
    exact bounded_of_no_minting h₀ (hm.take hp)

end Runs

namespace Fixture

open Rotation.Fixture

def storeId : String := "01890a5d-ac96-774b-bcce-b302099a8055"

def pairingCode : String := "Zk3b0dQmJw8xV1nT5uR7yL2sP9aC4eG6hK0iM3oQ5rS"

def third : KeyMaterial where
  keyId := "6ec0bd7f-11c0-43da-975e-2a8ad9ebae0b"
  publicKey := "/FHNjmIYoaONpH7QAjDwWAgW7RO6MwOsXeuRFUiQgCU="
  sealedKey := "c2VhbGVkIHRoaXJkIGtleQ=="

def claimEnvelope : ClaimEnvelope where
  requestId := "2c5ea4c0-4067-11e9-8bad-9b1deb4d3b7d"
  pairingCode := pairingCode
  publicKey := current.publicKey
  keyId := current.keyId
  sentAt := "2026-09-05T12:00:00Z"
  mode := .test
  versions := ⟨"1.0.0", "6.8", "10.1", "9.8", "8.3"⟩

def claimBody : String :=
  "\x7b\"schema_version\":\"1.0\",\"request_id\":\"2c5ea4c0-4067-11e9-8bad-9b1deb4d3b7d\"," ++
  "\"pairing_code\":\"Zk3b0dQmJw8xV1nT5uR7yL2sP9aC4eG6hK0iM3oQ5rS\"," ++
  "\"public_key\":\"11qYAYKxCrfVS/7TyWQHOg7hcvPapiMlrwIaaPcHURo=\"," ++
  "\"key_id\":\"9b1deb4d-3b7d-4bad-9bdd-2b0d7b3dcb6d\",\"sent_at\":\"2026-09-05T12:00:00Z\"," ++
  "\"mode\":\"test\",\"versions\":\x7b\"plugin\":\"1.0.0\",\"wordpress\":\"6.8\"," ++
  "\"woocommerce\":\"10.1\",\"gateway\":\"9.8\",\"php\":\"8.3\"\x7d," ++
  "\"capabilities\":[\"orders\",\"refunds\",\"hpos\",\"delta\"]\x7d"

/-- A second rotation of the first key. -/
def again : RotationEnvelope where
  requestId := "7d444840-9dc0-11d1-b245-5ffdce74fad2"
  installationId := installationId
  sentAt := "2026-09-05T12:00:00Z"
  newKeyId := third.keyId
  newPublicKey := third.publicKey

def againBody : String :=
  "\x7b\"schema_version\":\"1.0\",\"request_id\":\"7d444840-9dc0-11d1-b245-5ffdce74fad2\"," ++
  "\"installation_id\":\"01890a5d-ac96-774b-bcce-b302099a8057\"," ++
  "\"sent_at\":\"2026-09-05T12:00:00Z\"," ++
  "\"new_key_id\":\"6ec0bd7f-11c0-43da-975e-2a8ad9ebae0b\"," ++
  "\"new_public_key\":\"/FHNjmIYoaONpH7QAjDwWAgW7RO6MwOsXeuRFUiQgCU=\"\x7d"

def outside : Outside where
  sha256 := Sha256.hexdigest
  verify := verify
  decodeClaim text :=
    if text = claimBody then .ok claimEnvelope else .error (.problem "INVALID_JSON" 400)
  decode text :=
    if text = body then .ok (.rotation envelope)
    else if text = againBody then .ok (.rotation again)
    else .error (.problem "INVALID_JSON" 400)

/-- A store with a pairing code. -/
def unpaired : Registry where
  organizationId := organizationId
  pairings := Table.empty.put
    { codeHash := Sha256.hexdigest pairingCode, storeId, mode := .test
      expiresAt := noon + minutes 10 }

def pairing : Request :=
  .claim { contentLength := some claimBody.utf8ByteSize, body := claimBody, signature }
    installationId noon noon

def rotation (body : String) : Request :=
  .plugin
    { kind := .rotation, contentLength := some body.utf8ByteSize, body, keyId := current.keyId
      signature } noon noon

theorem unpaired_installation : Unpaired unpaired installationId where
  installation := rfl
  keys _ hk := absurd hk Table.not_mem_empty

/-- The claim and both rotations are carried out, and the keys that they name are permanent. -/
theorem both_rotated :
    (Along outside unpaired [pairing, rotation body, rotation againBody] fun w r =>
      Fulfilled (w.serve outside r).1) ∧
    (unpaired.after outside [pairing, rotation body, rotation againBody]).keys.get next.keyId =
      some ⟨next.keyId, organizationId, installationId,
        27704325997540877152697034439860373247153298234086518749545043220089451865612, none,
        none⟩ ∧
    (unpaired.after outside [pairing, rotation body, rotation againBody]).keys.get third.keyId =
      some ⟨third.keyId, organizationId, installationId,
        114127371151874435156269515996956452418977907303166947552099256281500652437541, none,
        none⟩ := by
  decide +kernel

end Fixture

open Fixture in
theorem overlap_bounds_access_iff_rotated :
    (∀ p, p <+: [pairing, rotation Rotation.Fixture.body, rotation againBody] →
      Bounded outside unpaired Rotation.Fixture.installationId p) ↔
    Along outside unpaired [pairing, rotation Rotation.Fixture.body, rotation againBody]
      fun w r => ¬ Mints outside Rotation.Fixture.installationId w r :=
  overlap_bounds_access_iff unpaired_installation both_rotated.1

open Fixture in
/-- A key in its overlap signs a second rotation, and both of its successors are permanent. -/
theorem overlap_mints_permanent :
    ¬ ∀ (w₀ : Registry) (id : String) (rs : List Request), Unpaired w₀ id →
      (Along outside w₀ rs fun w r => Fulfilled (w.serve outside r).1) →
      ∀ p, p <+: rs → Sole (w₀.after outside p) id := by
  intro h
  have hsole := h unpaired Rotation.Fixture.installationId _ unpaired_installation both_rotated.1
    _ List.prefix_rfl
  obtain ⟨hnext, hthird⟩ := both_rotated.2
  have heq := hsole _ _ ⟨mem_of_get hnext, rfl, rfl, rfl⟩ ⟨mem_of_get hthird, rfl, rfl, rfl⟩
  exact absurd (congrArg PublicKey.keyId heq) (by decide +kernel)

end LedgerGuard.Connectors.Pairing
