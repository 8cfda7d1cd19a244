import LedgerGuard.Connectors.SignedPlugin
import LedgerGuard.Core.Fixtures
import LedgerGuard.Lib.Sha256
import LedgerGuard.Lib.Transition

/-! # Key rotation

The two sides of a rotation switch keys at different times. The server registers
the new key and lets the signing key expire as soon as it accepts the request; the
plugin keeps the new key pending until a call of `rotate()` sees the
acknowledgement. Calls can overlap, requests and responses can be lost or arrive
twice, and any time can pass in between.
-/

namespace LedgerGuard.Connectors.Rotation

open Ingestion Raising Transition

/-- What `LedgerGuard_Crypto::generate` returns. -/
structure KeyMaterial where
  keyId : String
  publicKey : String
  sealedKey : String
  deriving DecidableEq

/-- The option `ledgerguard_identity`. -/
structure Identity where
  installationId : String
  mode : Mode
  key : KeyMaterial
  deriving DecidableEq

/-- A call of `rotate()`, by how far it has come. -/
inductive Call
  | idle
  /-- The identity has been read. -/
  | identified (identity : Identity)
  /-- There was no pending key. -/
  | generating (identity : Identity)
  | prepared (identity : Identity) (next : KeyMaterial)
  | sent (identity : Identity) (next : KeyMaterial) (e : RotationEnvelope)
  | acknowledged (identity : Identity) (next : KeyMaterial)
  /-- The identity has been updated. -/
  | stored

/-- The server, the options of the plugin, its calls of `rotate()` and everything that was ever
sent either way. -/
structure Site where
  server : Server
  /-- The last time that the clock of the server showed. -/
  clock : Instant
  identity : Identity
  /-- The option `ledgerguard_rotation`. -/
  rotation : Option KeyMaterial := none
  calls : ℕ → Call := fun _ => .idle
  requests : List PluginRequest := []
  responses : List (PluginRequest × Outcome) := []

def Site.update (w : Site) (i : ℕ) (c : Call) : Site :=
  { w with calls := fun j => if j = i then c else w.calls j }

theorem update_calls {w : Site} {i : ℕ} {c : Call} : (w.update i c).calls i = c := by
  simp [Site.update]

/-- `require_ack`. -/
def acknowledges (requestId : String) : Outcome → Bool
  | .applied (.accepted id _) | .replayed (.accepted id _) => id = requestId
  | _ => false

inductive Event
  | begin (i : ℕ)
  | readPending (i : ℕ)
  | generate (i : ℕ) (next : KeyMaterial)
  | send (i : ℕ) (e : RotationEnvelope)
  | serve (r : PluginRequest) (now written : Instant) (outcome : Outcome)
  | acknowledge (i : ℕ)
  | storeIdentity (i : ℕ)
  | deletePending (i : ℕ)
  | fail (i : ℕ)
  | wait (now : Instant)

def Event.acceptance (keyId : String) : Event → Option Instant
  | .serve r _ written (.applied _) => if r.keyId = keyId then some written else none
  | _ => none

def acceptances (keyId : String) (events : List Event) : List Instant :=
  events.filterMap (Event.acceptance keyId)

section System

variable (sha256 : String → String) (verify : ℕ → String → String → Bool)
  (sign : String → String → String) (encode : RotationEnvelope → String)
  (decode : String → Except Raised PluginEnvelope)

/-- The request of `LedgerGuard_Client::send`. -/
def clientRequest (identity : Identity) (e : RotationEnvelope) : PluginRequest where
  kind := .rotation
  contentLength := some (encode e).utf8ByteSize
  body := encode e
  keyId := identity.key.keyId
  signature := sign identity.key.sealedKey
    (signatureBase sha256 e.installationId e.requestId e.sentAt (encode e))

/-- An envelope for a pending key. -/
structure ForKey (e : RotationEnvelope) (identity : Identity) (next : KeyMaterial) : Prop where
  installationId : e.installationId = identity.installationId
  newKeyId : e.newKeyId = next.keyId
  newPublicKey : e.newPublicKey = next.publicKey

/-- A request identifier that nobody has used. -/
structure Fresh (w : Site) (requestId : String) : Prop where
  receipts : w.server.receipts.get requestId = none
  requests : ∀ r ∈ w.requests, ∀ e, decode r.body = .ok e → e.requestId ≠ requestId

inductive Step : Site → Event → Site → Prop
  | begin {w i} (h : w.calls i = .idle) : Step w (.begin i) (w.update i (.identified w.identity))
  | readPending {w i identity next} (h : w.calls i = .identified identity)
      (hp : w.rotation = some next) : Step w (.readPending i) (w.update i (.prepared identity next))
  | readEmpty {w i identity} (h : w.calls i = .identified identity) (hp : w.rotation = none) :
      Step w (.readPending i) (w.update i (.generating identity))
  | generate {w i identity next} (h : w.calls i = .generating identity) :
      Step w (.generate i next)
        ({ w with rotation := some next }.update i (.prepared identity next))
  | send {w i identity next e} (h : w.calls i = .prepared identity next)
      (he : ForKey e identity next) (hfresh : Fresh decode w e.requestId) :
      Step w (.send i e)
        ({ w with requests := clientRequest sha256 sign encode identity e :: w.requests }.update i
          (.sent identity next e))
  | serve {w r now written} (hr : r ∈ w.requests) (hnow : w.clock ≤ now) (hwritten : now ≤ written) :
      Step w (.serve r now written (w.server.signedPlugin sha256 verify decode r now written).1)
        { w with
          server := (w.server.signedPlugin sha256 verify decode r now written).2
          clock := written
          responses :=
            (r, (w.server.signedPlugin sha256 verify decode r now written).1) :: w.responses }
  | acknowledge {w i identity next e outcome} (h : w.calls i = .sent identity next e)
      (hr : (clientRequest sha256 sign encode identity e, outcome) ∈ w.responses)
      (hack : acknowledges e.requestId outcome = true) :
      Step w (.acknowledge i) (w.update i (.acknowledged identity next))
  | storeIdentity {w i identity next} (h : w.calls i = .acknowledged identity next) :
      Step w (.storeIdentity i) ({ w with identity := { identity with key := next } }.update i .stored)
  | deletePending {w i} (h : w.calls i = .stored) :
      Step w (.deletePending i) ({ w with rotation := none }.update i .idle)
  /-- Whatever ends a call: a lost request or response, a refusal, a raise. -/
  | fail {w i} : Step w (.fail i) (w.update i .idle)
  | wait {w now} (h : w.clock ≤ now) : Step w (.wait now) { w with clock := now }

end System

/-- A key is registered for the installation with some bytes, and not revoked. -/
def Registered (s : Server) (keyId publicKey : String) : Prop :=
  ∃ key, s.keys.get keyId = some key ∧ key.installationId = s.connector.id ∧
    key.revokedAt = none ∧ b64decode publicKey = .ok key.publicKey

section Keys

variable {s s' : Server} {key : PublicKey} {e : RotationEnvelope} {now : Instant} {id : String}

theorem register_get {newKeyId : String} {new : ℕ} {keys : Table PublicKey.keyId}
    (h : s.register newKeyId new = .ok keys) :
    (∃ k, s.keys.get newKeyId = some k ∧ k.installationId = s.connector.id ∧ k.publicKey = new ∧
      k.revokedAt = none ∧ keys = s.keys) ∨
    (s.keys.get newKeyId = none ∧ keys = s.keys.put
      { keyId := newKeyId, organizationId := s.connector.organizationId
        installationId := s.connector.id, publicKey := new }) := by
  unfold Server.register at h
  split at h
  case h_1 hn => exact Or.inr ⟨hn, (Except.ok.inj h).symm⟩
  case h_2 k hk =>
    split at h
    · cases h
    · split at h
      · cases h
      case isFalse hc =>
        simp only [PublicKey.conflicts, Bool.or_eq_true, not_or, decide_eq_true_eq, not_not,
          Option.not_isSome_iff_eq_none] at hc
        exact Or.inl ⟨k, hk, hc.1.1, hc.1.2, hc.2, (Except.ok.inj h).symm⟩

theorem register_kept {newKeyId : String} {new : ℕ} {keys : Table PublicKey.keyId}
    (h : s.register newKeyId new = .ok keys) (hid : s.keys.get id = some key) :
    keys.get id = some key := by
  rcases register_get h with ⟨_, -, -, -, -, rfl⟩ | ⟨hn, rfl⟩
  · exact hid
  · rw [Table.get_put, if_neg, hid]
    rintro rfl
    rw [hid] at hn
    cases hn

theorem retire_get {keys : Table PublicKey.keyId} (hkey : keys.get key.keyId = some key) :
    (if key.expiresAt = none then keys.put (key.retired now) else keys).get id =
      if id = key.keyId then some (key.retired now) else keys.get id := by
  cases hx : key.expiresAt with
  | none =>
    rw [if_pos rfl, Table.get_put]
    rfl
  | some x =>
    have hretired : key.retired now = key := by
      rw [PublicKey.retired, hx, Option.getD_some, ← hx]
    rw [if_neg nofun, hretired]
    by_cases hid : id = key.keyId
    · rw [if_pos hid, hid, hkey]
    · rw [if_neg hid]

theorem rotateKey_ok (h : s.rotateKey key e now = .ok s') (hkey : s.keys.get key.keyId = some key) :
    ∃ new keys, b64decode e.newPublicKey = .ok new ∧ s.register e.newKeyId new = .ok keys ∧
      s'.connector = s.connector ∧
      ∀ id, s'.keys.get id = if id = key.keyId then some (key.retired now) else keys.get id := by
  obtain ⟨new, hnew, h⟩ := bind_eq_ok.mp h
  obtain ⟨keys, hreg, h⟩ := bind_eq_ok.mp h
  obtain rfl := Except.ok.inj h
  exact ⟨new, keys, hnew, hreg, rfl, fun id => retire_get (register_kept hreg hkey)⟩

end Keys

section Served

variable {sha256 : String → String} {verify : ℕ → String → String → Bool}
  {decode : String → Except Raised PluginEnvelope} {s : Server} {r : PluginRequest}
  {now written : Instant} {result : PluginResult}

/-- A rotation that is applied: who signed it, and what it leaves of the keys and receipts. -/
structure Rotated (s s' : Server) (r : PluginRequest) (e : RotationEnvelope) (written : Instant)
    (key : PublicKey) (new : ℕ) (keys : Table PublicKey.keyId) : Prop where
  signer : s.keys.get r.keyId = some key
  keyId : key.keyId = r.keyId
  installation : key.installationId = s.connector.id
  unrevoked : key.revokedAt = none
  bytes : b64decode e.newPublicKey = .ok new
  register : s.register e.newKeyId new = .ok keys
  connector : s'.connector = s.connector
  get : ∀ id, s'.keys.get id = if id = r.keyId then some (key.retired written) else keys.get id
  receipts : ∀ id, id ≠ e.requestId → s'.receipts.get id = s.receipts.get id

theorem applied_rotation (hk : r.kind = .rotation)
    (h : (s.signedPlugin sha256 verify decode r now written).1 = .applied result) :
    ∃ e key new keys, decode r.body = .ok (.rotation e) ∧ result = .accepted e.requestId written ∧
      Rotated s (s.signedPlugin sha256 verify decode r now written).2 r e written key new keys := by
  obtain ⟨e, key, hauth, hfree, happly⟩ := signedPlugin_applied h
  obtain ⟨hdecode, hkind, hkey, -⟩ := authenticate_ok hauth
  obtain ⟨hget, hinst, hrev, -⟩ := activeKey_ok hkey
  have hid : key.keyId = r.keyId := (Table.get_eq_some.mp hget).2
  have hreceipts := apply_receipts happly
  cases e with
  | batch e =>
    rw [hk] at hkind
    cases hkind
  | heartbeat e =>
    rw [hk] at hkind
    cases hkind
  | rotation e =>
    obtain ⟨quotas, -, happly⟩ := bind_eq_ok.mp happly
    obtain ⟨⟨s₁, result₁⟩, hhandle, happly⟩ := bind_eq_ok.mp happly
    obtain ⟨s₂, hrotate, hhandle⟩ := bind_eq_ok.mp hhandle
    obtain ⟨rfl, rfl⟩ := Prod.mk.inj (Except.ok.inj hhandle)
    obtain ⟨hs, rfl⟩ := Prod.mk.inj (Except.ok.inj happly)
    obtain ⟨new, keys, hbytes, hreg, hconn, hkeys⟩ :=
      rotateKey_ok hrotate (by dsimp only; rw [hid, hget])
    refine ⟨e, key, new, keys, hdecode, rfl, hget, hid, hinst, hrev, hbytes, hreg, ?_, ?_, ?_⟩
    · rw [← hs]
      exact hconn
    · intro id
      rw [← hs, ← hid]
      exact hkeys id
    · intro id hne
      rw [hreceipts, Table.get_put]
      exact if_neg hne

theorem replayed_rotation (hk : r.kind = .rotation)
    (h : (s.signedPlugin sha256 verify decode r now written).1 = .replayed result) :
    ∃ e, decode r.body = .ok (.rotation e) ∧ s.receipts.get e.requestId ≠ none := by
  rcases signedPlugin_cases s r now written with
    ⟨e, hs⟩ | ⟨e, key, hauth, ⟨existing, hg, -⟩ | ⟨-, ⟨raised, hs⟩ | ⟨s', result', -, hs⟩⟩⟩
  · rw [hs] at h
    cases h
  · obtain ⟨hdecode, hkind, -⟩ := authenticate_ok hauth
    rw [hk] at hkind
    cases e with
    | rotation e => exact ⟨e, hdecode, Option.ne_none_iff_exists'.mpr ⟨existing, hg⟩⟩
    | _ => cases hkind
  · rw [hs] at h
    cases h
  · rw [hs] at h
    cases h

variable {s' : Server} {e : RotationEnvelope} {key : PublicKey} {new : ℕ}
  {keys : Table PublicKey.keyId} {id publicKey : String}

namespace Rotated

theorem registered_kept (h : Rotated s s' r e written key new keys)
    (hr : Registered s id publicKey) : Registered s' id publicKey := by
  obtain ⟨k, hk, hinst, hrev, hb⟩ := hr
  by_cases hid : id = r.keyId
  · have hget := h.get id
    rw [if_pos hid] at hget
    rw [hid, h.signer] at hk
    obtain rfl := Option.some.inj hk
    exact ⟨key.retired written, hget, hinst.trans (congrArg _ h.connector.symm), hrev, hb⟩
  · have hget := h.get id
    rw [if_neg hid, register_kept h.register hk] at hget
    exact ⟨k, hget, hinst.trans (congrArg _ h.connector.symm), hrev, hb⟩

theorem registered_new (h : Rotated s s' r e written key new keys) :
    Registered s' e.newKeyId e.newPublicKey := by
  rcases register_get h.register with ⟨k, hk, hinst, hpub, hrev, -⟩ | ⟨hn, hput⟩
  · exact h.registered_kept ⟨k, hk, hinst, hrev, hpub ▸ h.bytes⟩
  · have hne : e.newKeyId ≠ r.keyId := by
      intro he
      rw [he, h.signer] at hn
      cases hn
    have hget := h.get e.newKeyId
    rw [if_neg hne, hput, Table.get_put, if_pos rfl] at hget
    exact ⟨_, hget, congrArg Installation.id h.connector.symm, rfl, h.bytes⟩

end Rotated

end Served

section Expiry

variable {events : List Event} {event : Event} {w w' : Site} {id : String}

theorem acceptances_snoc : acceptances id (events ++ [event]) =
    acceptances id events ++ (event.acceptance id).toList := by
  rw [acceptances, List.filterMap_append]
  cases h : event.acceptance id <;> simp [acceptances, h]

/-- A key of the installation expires a day after the first rotation that it signed. -/
structure Dated (events : List Event) (w : Site) : Prop where
  rows : ∀ id key, w.server.keys.get id = some key →
    key.installationId = w.server.connector.id → key.revokedAt = none ∧
      key.expiresAt = (acceptances id events).head?.map (· + overlap)
  known : ∀ id, w.server.keys.get id = none → acceptances id events = []
  past : ∀ id, ∀ a ∈ acceptances id events, a ≤ w.clock
  sorted : ∀ id, (acceptances id events).Pairwise (· ≤ ·)

theorem Dated.of_frame (h : Dated events w) (hserver : w'.server = w.server)
    (hclock : w.clock ≤ w'.clock) (hnone : ∀ id, event.acceptance id = none) :
    Dated (events ++ [event]) w' := by
  have hsame : ∀ id, acceptances id (events ++ [event]) = acceptances id events := by
    intro id
    rw [acceptances_snoc, hnone, Option.toList_none, List.append_nil]
  constructor
  · intro id key
    rw [hserver, hsame]
    exact h.rows id key
  · intro id
    rw [hserver, hsame]
    exact h.known id
  · intro id a ha
    rw [hsame] at ha
    exact (h.past id a ha).trans hclock
  · intro id
    rw [hsame]
    exact h.sorted id

theorem before_first_iff {times : List Instant} (h : times.Pairwise (· ≤ ·)) {now : Instant}
    {d : Duration} :
    (times.head?.map (· + d)).all (now < ·) = true ↔ ∀ a ∈ times, now < a + d := by
  cases times with
  | nil => simp
  | cons t times =>
    rw [List.pairwise_cons] at h
    simp only [List.head?_cons, Option.map_some, Option.all_some, decide_eq_true_eq,
      List.forall_mem_cons]
    constructor
    · intro ht
      exact ⟨ht, fun a ha => ht.trans_le (Int.add_le_add_right (h.1 a ha) d)⟩
    · exact And.left

theorem Dated.rotated {r : PluginRequest} {now written : Instant} {result : PluginResult}
    {s' : Server} {e : RotationEnvelope} {key : PublicKey} {new : ℕ} {keys : Table PublicKey.keyId}
    {responses : List (PluginRequest × Outcome)} (h : Dated events w)
    (hrot : Rotated w.server s' r e written key new keys) (hclock : w.clock ≤ written) :
    Dated (events ++ [.serve r now written (.applied result)])
      { w with server := s', clock := written, responses } := by
  have hother : ∀ id, id ≠ r.keyId →
      acceptances id (events ++ [.serve r now written (.applied result)]) =
        acceptances id events := by
    intro id hid
    rw [acceptances_snoc, Event.acceptance, if_neg (Ne.symm hid), Option.toList_none,
      List.append_nil]
  have hsigner : acceptances r.keyId (events ++ [.serve r now written (.applied result)]) =
      acceptances r.keyId events ++ [written] := by
    rw [acceptances_snoc, Event.acceptance, if_pos rfl, Option.toList_some]
  have hpast : ∀ id, ∀ a ∈ acceptances id events, a ≤ written :=
    fun id a ha => (h.past id a ha).trans hclock
  constructor
  · intro id k hget hinst
    dsimp only at hget hinst
    rw [hrot.get] at hget
    by_cases hid : id = r.keyId
    · rw [if_pos hid] at hget
      obtain rfl := Option.some.inj hget
      obtain ⟨hrev, hexp⟩ := h.rows _ _ hrot.signer hrot.installation
      refine ⟨hrev, ?_⟩
      rw [hid, hsigner, PublicKey.retired, hexp]
      cases acceptances r.keyId events <;> rfl
    · rw [if_neg hid] at hget
      rw [hother id hid]
      rw [hrot.connector] at hinst
      rcases register_get hrot.register with ⟨_, -, -, -, -, rfl⟩ | ⟨hn, rfl⟩
      · exact h.rows id k hget hinst
      · rw [Table.get_put] at hget
        split at hget
        case isTrue hnew =>
          obtain rfl := Option.some.inj hget
          refine ⟨rfl, ?_⟩
          rw [h.known id (hnew ▸ hn)]
          rfl
        case isFalse => exact h.rows id k hget hinst
  · intro id hn
    dsimp only at hn
    rw [hrot.get] at hn
    by_cases hid : id = r.keyId
    · rw [if_pos hid] at hn
      cases hn
    · rw [if_neg hid] at hn
      rw [hother id hid]
      apply h.known
      cases hk : w.server.keys.get id with
      | none => rfl
      | some k =>
        rw [register_kept hrot.register hk] at hn
        cases hn
  · intro id a ha
    by_cases hid : id = r.keyId
    · rw [hid, hsigner] at ha
      rcases List.mem_append.mp ha with ha | ha
      · exact hpast _ a ha
      · exact (List.mem_singleton.mp ha).le
    · rw [hother id hid] at ha
      exact hpast id a ha
  · intro id
    by_cases hid : id = r.keyId
    · rw [hid, hsigner, List.pairwise_append]
      refine ⟨h.sorted _, List.pairwise_singleton _ _, ?_⟩
      intro a ha b hb
      obtain rfl := List.mem_singleton.mp hb
      exact hpast _ a ha
    · rw [hother id hid]
      exact h.sorted id

end Expiry

section Protocol

variable {sha256 : String → String} {verify : ℕ → String → String → Bool}
  {sign : String → String → String} {encode : RotationEnvelope → String}
  {decode : String → Except Raised PluginEnvelope} {events : List Event} {event : Event}
  {w₀ w w' : Site} {i : ℕ} {c : Call}

/-- What a call of `rotate()` relies on. -/
def Call.Holds (s : Server) : Call → Prop
  | .sent identity next e => ForKey e identity next
  | .acknowledged _ next => Registered s next.keyId next.publicKey
  | _ => True

/-- The plugin holds a key that the server knows, and only acknowledges such keys. -/
structure Sound (decode : String → Except Raised PluginEnvelope) (w : Site) : Prop where
  identity : Registered w.server w.identity.key.keyId w.identity.key.publicKey
  calls : ∀ i, (w.calls i).Holds w.server
  kinds : ∀ r ∈ w.requests, r.kind = .rotation
  distinct : ∀ r ∈ w.requests, ∀ r' ∈ w.requests, ∀ e e', decode r.body = .ok (.rotation e) →
    decode r'.body = .ok (.rotation e') → e.requestId = e'.requestId → r = r'
  receipts : ∀ r ∈ w.requests, ∀ e, decode r.body = .ok (.rotation e) →
    w.server.receipts.get e.requestId ≠ none → Registered w.server e.newKeyId e.newPublicKey
  responses : ∀ x ∈ w.responses, ∀ id, acknowledges id x.2 = true →
    ∃ e, decode x.1.body = .ok (.rotation e) ∧ Registered w.server e.newKeyId e.newPublicKey

theorem holds_update (h : ∀ j, (w.calls j).Holds w.server) (hc : c.Holds w.server) (j : ℕ) :
    ((w.update i c).calls j).Holds w.server := by
  unfold Site.update
  dsimp only
  split
  · exact hc
  · exact h j

theorem Sound.update (h : Sound decode w) (hc : c.Holds w.server) : Sound decode (w.update i c) :=
  { identity := h.identity
    calls := holds_update h.calls hc
    kinds := h.kinds
    distinct := h.distinct
    receipts := h.receipts
    responses := h.responses }

theorem Sound.rotated {s' : Server} {r : PluginRequest} {e : RotationEnvelope} {key : PublicKey}
    {new : ℕ} {keys : Table PublicKey.keyId} {written : Instant} {result : PluginResult}
    (h : Sound decode w) (hr : r ∈ w.requests) (hdecode : decode r.body = .ok (.rotation e))
    (hrot : Rotated w.server s' r e written key new keys) :
    Sound decode { w with
      server := s', clock := written, responses := (r, .applied result) :: w.responses } := by
  refine ⟨hrot.registered_kept h.identity, fun j => ?_, h.kinds, h.distinct, ?_, ?_⟩
  · have hj := h.calls j
    dsimp only
    cases hc : w.calls j with
    | acknowledged identity next =>
      rw [hc] at hj
      exact hrot.registered_kept hj
    | sent identity next e =>
      rw [hc] at hj
      exact hj
    | _ => trivial
  · intro r₁ hr₁ e₁ he₁ hg
    by_cases hid : e₁.requestId = e.requestId
    · obtain rfl := h.distinct r₁ hr₁ r hr e₁ e he₁ hdecode hid
      obtain rfl := PluginEnvelope.rotation.inj (Except.ok.inj (he₁.symm.trans hdecode))
      exact hrot.registered_new
    · dsimp only at hg
      rw [hrot.receipts _ hid] at hg
      exact hrot.registered_kept (h.receipts r₁ hr₁ e₁ he₁ hg)
  · intro x hx id hack
    rcases List.mem_cons.mp hx with rfl | hx
    · exact ⟨e, hdecode, hrot.registered_new⟩
    · obtain ⟨e₁, he₁, hreg⟩ := h.responses x hx id hack
      exact ⟨e₁, he₁, hrot.registered_kept hreg⟩

theorem Sound.answered {r : PluginRequest} {written : Instant} {outcome : Outcome}
    (h : Sound decode w) (hr : ∀ id, acknowledges id outcome = true →
      ∃ e, decode r.body = .ok (.rotation e) ∧ Registered w.server e.newKeyId e.newPublicKey) :
    Sound decode { w with clock := written, responses := (r, outcome) :: w.responses } := by
  refine ⟨h.identity, h.calls, h.kinds, h.distinct, h.receipts, fun x hx id hack => ?_⟩
  rcases List.mem_cons.mp hx with rfl | hx
  · exact hr id hack
  · exact h.responses x hx id hack

theorem Sound.send {identity : Identity} {next : KeyMaterial} {e : RotationEnvelope}
    (hcodec : ∀ e e', decode (encode e) = .ok (.rotation e') → e' = e) (h : Sound decode w)
    (he : ForKey e identity next) (hfresh : Fresh decode w e.requestId) :
    Sound decode ({ w with
      requests := clientRequest sha256 sign encode identity e :: w.requests }.update i
        (.sent identity next e)) := by
  refine ⟨h.identity, holds_update h.calls he, ?_, ?_, ?_, h.responses⟩
  · intro r hr
    rcases List.mem_cons.mp hr with rfl | hr
    · rfl
    · exact h.kinds r hr
  · intro r hr r' hr' e₁ e₂ he₁ he₂ hid
    rcases List.mem_cons.mp hr with rfl | hr
    · rcases List.mem_cons.mp hr' with rfl | hr'
      · rfl
      · rw [hcodec e e₁ he₁] at hid
        exact absurd hid.symm (hfresh.requests r' hr' _ he₂)
    · rcases List.mem_cons.mp hr' with rfl | hr'
      · rw [hcodec e e₂ he₂] at hid
        exact absurd hid (hfresh.requests r hr _ he₁)
      · exact h.distinct r hr r' hr' e₁ e₂ he₁ he₂ hid
  · intro r hr e₁ he₁ hg
    rcases List.mem_cons.mp hr with rfl | hr
    · rw [hcodec e e₁ he₁] at hg
      exact absurd hfresh.receipts hg
    · exact h.receipts r hr e₁ he₁ hg

theorem step_keeps (hcodec : ∀ e e', decode (encode e) = .ok (.rotation e') → e' = e)
    (hstep : Step sha256 verify sign encode decode w event w') (hs : Sound decode w)
    (hd : Dated events w) : Sound decode w' ∧ Dated (events ++ [event]) w' := by
  cases hstep with
  | begin h => exact ⟨hs.update trivial, hd.of_frame rfl le_rfl fun _ => rfl⟩
  | readPending h hp => exact ⟨hs.update trivial, hd.of_frame rfl le_rfl fun _ => rfl⟩
  | readEmpty h hp => exact ⟨hs.update trivial, hd.of_frame rfl le_rfl fun _ => rfl⟩
  | @generate i identity next h =>
    have hs' : Sound decode { w with rotation := some next } := { hs with }
    exact ⟨hs'.update trivial, hd.of_frame rfl le_rfl fun _ => rfl⟩
  | send h he hfresh => exact ⟨hs.send hcodec he hfresh, hd.of_frame rfl le_rfl fun _ => rfl⟩
  | @serve r now written hr hnow hwritten =>
    have hclock := hnow.trans hwritten
    have hk := hs.kinds r hr
    cases ho : (w.server.signedPlugin sha256 verify decode r now written).1 with
    | applied result =>
      obtain ⟨e, key, new, keys, hdecode, -, hrot⟩ := applied_rotation hk ho
      exact ⟨hs.rotated hr hdecode hrot, hd.rotated hrot hclock⟩
    | replayed result =>
      have hsame := signedPlugin_unchanged (congrArg Outcome.isApplied ho)
      obtain ⟨e, hdecode, hg⟩ := replayed_rotation hk ho
      rw [hsame]
      exact ⟨hs.answered fun _ _ => ⟨e, hdecode, hs.receipts r hr e hdecode hg⟩,
        hd.of_frame rfl hclock fun _ => rfl⟩
    | _ =>
      have hsame := signedPlugin_unchanged (congrArg Outcome.isApplied ho)
      rw [hsame]
      exact ⟨hs.answered nofun, hd.of_frame rfl hclock fun _ => rfl⟩
  | @acknowledge i identity next e outcome h hr hack =>
    obtain ⟨e', hdecode, hreg⟩ := hs.responses _ hr _ hack
    obtain rfl := hcodec e e' hdecode
    have hfor : ForKey e' identity next := by
      have hc := hs.calls i
      rw [h] at hc
      exact hc
    have hnext : Registered w.server next.keyId next.publicKey := by
      rw [← hfor.newKeyId, ← hfor.newPublicKey]
      exact hreg
    exact ⟨hs.update hnext, hd.of_frame rfl le_rfl fun _ => rfl⟩
  | @storeIdentity i identity next h =>
    have hnext : Registered w.server next.keyId next.publicKey := by
      have hc := hs.calls i
      rw [h] at hc
      exact hc
    have hs' : Sound decode { w with identity := { identity with key := next } } :=
      { hs with identity := hnext }
    exact ⟨hs'.update trivial, hd.of_frame rfl le_rfl fun _ => rfl⟩
  | deletePending h =>
    have hs' : Sound decode { w with rotation := none } := { hs with }
    exact ⟨hs'.update trivial, hd.of_frame rfl le_rfl fun _ => rfl⟩
  | fail => exact ⟨hs.update trivial, hd.of_frame rfl le_rfl fun _ => rfl⟩
  | wait h => exact ⟨{ hs with }, hd.of_frame rfl h fun _ => rfl⟩

/-- A store right after its pairing: no key has ever been rotated. -/
structure Paired (w : Site) : Prop where
  identity : Registered w.server w.identity.key.keyId w.identity.key.publicKey
  calls : ∀ i, w.calls i = .idle
  requests : w.requests = []
  responses : w.responses = []
  keys : ∀ id key, w.server.keys.get id = some key → key.installationId = w.server.connector.id →
    key.revokedAt = none ∧ key.expiresAt = none

theorem Paired.sound (h : Paired w) : Sound decode w := by
  refine ⟨h.identity, fun i => ?_, ?_, ?_, ?_, ?_⟩
  · rw [h.calls]
    trivial
  all_goals
    first
    | rw [h.requests]
    | rw [h.responses]
    exact List.forall_mem_nil _

theorem Paired.dated (h : Paired w) : Dated [] w where
  rows id key hg hi := h.keys id key hg hi
  known _ _ := rfl
  past _ := List.forall_mem_nil _
  sorted _ := .nil

/-- In every run of overlapping, lost and repeated rotations the stored key is registered and not
revoked, and the server accepts it until a day after the first rotation that it signed. -/
theorem stored_key_accepted_iff
    (hcodec : ∀ e e', decode (encode e) = .ok (.rotation e') → e' = e) (h₀ : Paired w₀)
    (hrun : Run (Step sha256 verify sign encode decode) w₀ events w) :
    Registered w.server w.identity.key.keyId w.identity.key.publicKey ∧
    ∀ now, (∃ key, w.server.activeKey w.identity.key.keyId now = .ok key) ↔
      ∀ accepted ∈ acceptances w.identity.key.keyId events, now < accepted + overlap := by
  have hinv : Sound decode w ∧ Dated events w := by
    refine hrun.invariant (I := fun events w => Sound decode w ∧ Dated events w) ?_ ?_
    · exact ⟨h₀.sound, h₀.dated⟩
    · rintro events w event w' ⟨hs, hd⟩ hstep
      exact step_keeps hcodec hstep hs hd
  obtain ⟨hs, hd⟩ := hinv
  refine ⟨hs.identity, fun now => ?_⟩
  obtain ⟨key, hget, hinst, hrev, -⟩ := hs.identity
  obtain ⟨-, hexp⟩ := hd.rows _ _ hget hinst
  rw [← before_first_iff (hd.sorted _), ← hexp]
  constructor
  · rintro ⟨key', hkey⟩
    obtain ⟨hget', -, -, hlive⟩ := activeKey_ok hkey
    obtain rfl := Option.some.inj (hget.symm.trans hget')
    exact hlive
  · intro hlive
    refine ⟨key, ?_⟩
    unfold Server.activeKey
    rw [hget]
    exact if_pos ⟨hinst, hrev, hlive⟩

theorem lost_response {next : KeyMaterial} {e : RotationEnvelope} {now later : Instant}
    (hidle : w.calls 0 = .idle) (hnone : w.rotation = none) (hrequests : w.requests = [])
    (he : ForKey e w.identity next) (hfree : w.server.receipts.get e.requestId = none)
    (hnow : w.clock ≤ now) (hlater : now ≤ later) :
    ∃ events w', Run (Step sha256 verify sign encode decode) w events w' ∧ w'.clock = later ∧
      w'.identity = w.identity ∧ w'.server = (w.server.signedPlugin sha256 verify decode
        (clientRequest sha256 sign encode w.identity e) now now).2 := by
  let w₂ : Site := (w.update 0 (.identified w.identity)).update 0 (.generating w.identity)
  let w₃ : Site := { w₂ with rotation := some next }.update 0 (.prepared w.identity next)
  have hfresh : Fresh decode w₃ e.requestId := by
    refine ⟨hfree, fun r hr => ?_⟩
    have hr : r ∈ w.requests := hr
    rw [hrequests] at hr
    exact absurd hr List.not_mem_nil
  have hnil : Run (Step sha256 verify sign encode decode) w [] w := .nil
  have hread : Run (Step sha256 verify sign encode decode) w _ w₂ :=
    (hnil.snoc (.begin hidle)).snoc (.readEmpty update_calls hnone)
  have hready : Run (Step sha256 verify sign encode decode) w _ w₃ :=
    hread.snoc (.generate update_calls)
  have hserved := (hready.snoc (.send update_calls he hfresh)).snoc
    (.serve List.mem_cons_self hnow le_rfl)
  have hfailed := hserved.snoc (@Step.fail sha256 verify sign encode decode _ 0)
  exact ⟨_, _, hfailed.snoc (.wait hlater), rfl, rfl, rfl⟩

end Protocol

namespace Fixture

def installationId : String := "01890a5d-ac96-774b-bcce-b302099a8057"

def organizationId : String := "01890a5d-ac96-774b-bcce-b302099a8056"

def current : KeyMaterial where
  keyId := "9b1deb4d-3b7d-4bad-9bdd-2b0d7b3dcb6d"
  publicKey := "11qYAYKxCrfVS/7TyWQHOg7hcvPapiMlrwIaaPcHURo="
  sealedKey := "c2VhbGVkIGZpcnN0IGtleQ=="

def next : KeyMaterial where
  keyId := "1b9d6bcd-bbfd-4b2d-9b5d-ab8dfbbd4bed"
  publicKey := "PUAXw+hDiVqStwqnTRt+vJyYLM8uxJaMwM1V8Sr0Zgw="
  sealedKey := "c2VhbGVkIHNlY29uZCBrZXk="

def envelope : RotationEnvelope where
  requestId := "5c2c7a0e-8f63-4f0c-9f5e-0d7f2a1b3c4d"
  installationId := installationId
  sentAt := "2026-09-05T12:00:00Z"
  newKeyId := next.keyId
  newPublicKey := next.publicKey

def body : String :=
  "\x7b\"schema_version\":\"1.0\",\"request_id\":\"5c2c7a0e-8f63-4f0c-9f5e-0d7f2a1b3c4d\"," ++
  "\"installation_id\":\"01890a5d-ac96-774b-bcce-b302099a8057\"," ++
  "\"sent_at\":\"2026-09-05T12:00:00Z\"," ++
  "\"new_key_id\":\"1b9d6bcd-bbfd-4b2d-9b5d-ab8dfbbd4bed\"," ++
  "\"new_public_key\":\"PUAXw+hDiVqStwqnTRt+vJyYLM8uxJaMwM1V8Sr0Zgw=\"\x7d"

/-- The encoding of the one envelope that is sent. -/
def encode (e : RotationEnvelope) : String := if e = envelope then body else ""

def decode (text : String) : Except Raised PluginEnvelope :=
  if text = body then .ok (.rotation envelope) else .error (.problem "INVALID_JSON" 400)

def signature : String := "c2lnbmF0dXJl"

def sign (_ _ : String) : String := signature

def verify (_ : ℕ) (given _ : String) : Bool := given = signature

def currentRow : PublicKey where
  keyId := current.keyId
  organizationId := organizationId
  installationId := installationId
  publicKey := 97407327787400415639667502615603022372991571135152837278227918677548317757722

/-- A paired store. -/
def site : Site where
  server :=
    { connector := ⟨installationId, organizationId, some "01890a5d-ac96-774b-bcce-b302099a8055", .test⟩
      versions := ⟨"1.0.0", "6.8", "10.1", "9.8", "8.3"⟩
      keys := Table.empty.put currentRow
      receipts := .empty }
  clock := noon
  identity := ⟨installationId, .test, current⟩

def later : Instant := noon + minutes (25 * 60)

theorem le_later : noon ≤ later := le_add_of_nonneg_right (by decide)

theorem codec (e e' : RotationEnvelope) (h : decode (encode e) = .ok (.rotation e')) : e' = e := by
  unfold encode at h
  split at h
  case isTrue he =>
    rw [decode, if_pos rfl] at h
    rw [he]
    exact (PluginEnvelope.rotation.inj (Except.ok.inj h)).symm
  case isFalse =>
    rw [decode, if_neg (by decide +kernel)] at h
    cases h

theorem paired : Paired site where
  identity := ⟨currentRow, by decide +kernel, rfl, rfl, by decide +kernel⟩
  calls _ := rfl
  requests := rfl
  responses := rfl
  keys id key h _ := by
    obtain ⟨hmem, -⟩ := Table.get_eq_some.mp h
    rcases Table.mem_put.mp hmem with rfl | ⟨hmem, -⟩
    · exact ⟨rfl, rfl⟩
    · exact absurd hmem Table.not_mem_empty

theorem forNext : ForKey envelope site.identity next := ⟨rfl, rfl, rfl⟩

theorem expired : ((site.server.signedPlugin Sha256.hexdigest verify decode
    (clientRequest Sha256.hexdigest sign encode site.identity envelope) site.clock
    site.clock).2.activeKey site.identity.key.keyId later).isOk = false := by
  decide +kernel

end Fixture

theorem stored_key_accepted_iff_lost_response : ∃ events w,
    Run (Step Sha256.hexdigest Fixture.verify Fixture.sign Fixture.encode Fixture.decode)
      Fixture.site events w ∧
    Registered w.server w.identity.key.keyId w.identity.key.publicKey ∧
    ∀ now, (∃ key, w.server.activeKey w.identity.key.keyId now = .ok key) ↔
      ∀ accepted ∈ acceptances w.identity.key.keyId events, now < accepted + overlap := by
  obtain ⟨events, w, hrun, -⟩ := lost_response rfl rfl rfl Fixture.forNext rfl le_rfl
    Fixture.le_later
  exact ⟨events, w, hrun, stored_key_accepted_iff Fixture.codec Fixture.paired hrun⟩

/-- The response to a rotation is lost and the next try comes after a day. -/
theorem delayed_retry_locked_out :
    ¬ ∀ (w₀ w : Site) (events : List Event), Paired w₀ →
      Run (Step Sha256.hexdigest Fixture.verify Fixture.sign Fixture.encode Fixture.decode) w₀
        events w → ∃ key, w.server.activeKey w.identity.key.keyId w.clock = .ok key := by
  intro h
  obtain ⟨events, w, hrun, hclock, hidentity, hserver⟩ := lost_response rfl rfl rfl Fixture.forNext
    rfl le_rfl Fixture.le_later
  obtain ⟨key, hkey⟩ := h _ _ _ Fixture.paired hrun
  rw [hclock, hidentity, hserver] at hkey
  have hexpired := Fixture.expired
  rw [hkey] at hexpired
  cases hexpired

end LedgerGuard.Connectors.Rotation
