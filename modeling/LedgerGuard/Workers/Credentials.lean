import LedgerGuard.Access.Tenancy
import LedgerGuard.Ingestion.WireSchema
import LedgerGuard.Lib.Savepoint
import LedgerGuard.Workers.Runtime

/-! # Rotation of connector credentials

A worker attempt exchanges an expired credential in a savepoint of its own, before
the savepoint of the resource work, while it holds the row of the connector. A late
failure of the work then keeps the new refresh token, and every failure that leaves
it open which token is valid suspends the connector.
-/

namespace LedgerGuard.Workers.Credentials

open Savepoint LedgerGuard.Access LedgerGuard.Ingestion

structure Tokens where
  accessToken : String
  refreshToken : String
  accountId : String
  deriving DecidableEq

def Tokens.object (t : Tokens) : Object :=
  [("access_token", .str t.accessToken), ("refresh_token", .str t.refreshToken),
    ("account_id", .str t.accountId)]

/-- What `httpx.post` comes to. -/
inductive Answer
  | httpError
  | raised (typeName : String)
  /-- The body is `none` unless it is JSON. -/
  | response (statusCode : ℕ) (body : Option Json)

def truthy : Json → Bool
  | .null => false
  | .bool b => b
  | .int n => n ≠ 0
  | .str s => s ≠ ""
  | .arr elems => elems ≠ []
  | .obj fields => fields ≠ []

/-- Python's `==` between a value and a truth value. -/
def equalsBool (b : Bool) : Json → Bool
  | .bool b' => b' = b
  | .int n => n = if b then 1 else 0
  | _ => false

/-- `acct_[A-Za-z0-9]+`. -/
def isAccount (s : String) : Bool := prefixed "acct_".toList isAlnum s.toList

def asString : Option Json → Option String
  | some (.str s) => some s
  | _ => none

def isToken (s : String) : Bool := 10 ≤ s.length && s.length ≤ 4096

def readTokens (mode : String) (value : Object) : Except WorkFailure Tokens :=
  let account := asString <|
    if (value.lookup "stripe_user_id").any truthy then value.lookup "stripe_user_id"
    else value.lookup "account_id"
  match account with
  | none => .error (.connector "OAUTH_IDENTITY_INVALID" true)
  | some accountId =>
    if asString (value.lookup "scope") ≠ some "stripe_apps" ∨
        asString (value.lookup "token_type") ≠ some "bearer" ∨
        (value.lookup "livemode").any (equalsBool (mode = "live")) = false ∨
        isAccount accountId = false then
      .error (.connector "OAUTH_IDENTITY_INVALID" true)
    else
      match (asString (value.lookup "access_token")).filter isToken,
        (asString (value.lookup "refresh_token")).filter isToken with
      | some accessToken, some refreshToken => .ok ⟨accessToken, refreshToken, accountId⟩
      | _, _ => .error (.connector "OAUTH_TOKEN_INVALID" true)

/-- `exchange`; without a developer key of the mode nothing is sent. -/
def exchange (configured : Bool) (mode : String) (answer : Answer) : Except WorkFailure Tokens :=
  if configured = false then .error (.other "Problem")
  else
    match answer with
    | .httpError => .error (.connector "OAUTH_EXCHANGE_UNCERTAIN" true)
    | .raised typeName => .error (.other typeName)
    | .response statusCode body =>
      if statusCode ≠ 200 then .error (.connector "OAUTH_REAUTHORIZATION_REQUIRED" true)
      else
        match body with
        | some (.obj value) => readTokens mode value
        | _ => .error (.connector "OAUTH_RESPONSE_INVALID" true)

inductive InstallationStatus
  | active | suspended | disconnected
  deriving DecidableEq

structure StripeInstallation where
  id : String
  organizationId : String
  mode : String
  accountId : String
  status : InstallationStatus := .active
  credentialCiphertext : Json
  tokenExpiresAt : Option Instant
  lockVersion : ℕ := 0
  lastErrorCode : String := ""
  nextApiAt : Option Instant := none

/-- `encrypt_secret` and `decrypt_secret` as they turn out once, with fresh keys and with the key
service at hand or not; an exception is given by its type. -/
structure Vault where
  encryptSecret : Object → String → String → String → Except String Json
  decryptSecret : Json → String → String → String → Except String Object

/-- A call of `exchange`: the refresh token that it gets, and the pair that it returns. -/
structure Exchange where
  refreshToken : Json
  returned : Option Tokens

/-- What a refresh meets. -/
structure Circumstances where
  vault : Vault
  now : Instant
  configured : Bool := true
  answer : Answer
  savedAt : Instant
  saves : Bool := true
  audits : Bool := true

abbrev CredentialResult := Result StripeInstallation WorkFailure Exchange

def raising (e : Raised WorkFailure) (c : Conn StripeInstallation) (log : List Exchange := []) :
    CredentialResult :=
  ⟨.raised e, c, log⟩

def StripeInstallation.expired (connector : StripeInstallation) (now : Instant) : Bool :=
  connector.tokenExpiresAt.all (· ≤ now)

def StripeInstallation.rotated (connector : StripeInstallation) (ciphertext : Json) (savedAt : Instant) :
    StripeInstallation :=
  { connector with
    credentialCiphertext := ciphertext
    tokenExpiresAt := some (savedAt + minutes 55)
    lockVersion := connector.lockVersion + 1 }

/-- The pair that `exchange` has returned is encrypted and saved. -/
def persist (o : Circumstances) (call : Exchange) (tokens : Tokens) (c : Conn StripeInstallation) :
    CredentialResult :=
  let connector := c.data
  if tokens.accountId ≠ connector.accountId then
    raising (.own (.connector "OAUTH_ACCOUNT_CHANGED" true)) c [call]
  else
    match o.vault.encryptSecret tokens.object connector.organizationId connector.id "oauth" with
    | .error typeName => raising (.own (.other typeName)) c [call]
    | .ok ciphertext =>
      let saved := { c with data := connector.rotated ciphertext o.savedAt }
      if o.saves = false then raising .databaseError { c with aborted := true } [call]
      else if o.audits = false then raising .databaseError { saved with aborted := true } [call]
      else ⟨.completed, saved, [call]⟩

/-- `refresh_access_token`. -/
def refreshAccessToken (o : Circumstances) (c : Conn StripeInstallation) : CredentialResult :=
  let connector := c.data
  if connector.status ≠ .active then raising (.own (.connector "CONNECTOR_INACTIVE" true)) c
  else
    match o.vault.decryptSecret connector.credentialCiphertext connector.organizationId connector.id
      "oauth" with
    | .error typeName => raising (.own (.other typeName)) c
    | .ok tokens =>
      if connector.expired o.now then
        match tokens.lookup "refresh_token" with
        | none => raising (.own (.other "KeyError")) c
        | some refreshToken =>
          match exchange o.configured connector.mode o.answer with
          | .error e => raising (.own e) c [⟨refreshToken, none⟩]
          | .ok pair => persist o ⟨refreshToken, some pair⟩ pair c
      else if (tokens.lookup "access_token").isNone then raising (.own (.other "KeyError")) c
      else ⟨.completed, c, []⟩

/-- Any other exception of a refresh leaves it open whether the tokens are stored. -/
def asConnectorFailure : Raised WorkFailure → WorkFailure
  | .own (.connector code permanent retryAfter) => .connector code permanent retryAfter
  | _ => .connector "OAUTH_PERSISTENCE_UNCERTAIN" true

def uncertain (r : CredentialResult) : CredentialResult :=
  match r.outcome with
  | .raised e => { r with outcome := .raised (.own (asConnectorFailure e)) }
  | _ => r

def refreshed (o : Circumstances) (c : Conn StripeInstallation) : CredentialResult :=
  uncertain (Savepoint.atomic (refreshAccessToken o) c)

/-- The resource work: how it ends, and what it writes to the row of the connector. -/
structure Work where
  outcome : Except (Raised WorkFailure) Unit
  nextApiAt : Option Instant
  lastErrorCode : String
  aborted : Bool := false

/-- `handle` and the row that is done. -/
def handle (t : Work) (c : Conn StripeInstallation) : CredentialResult where
  outcome :=
    match t.outcome with
    | .error e => .raised e
    | .ok _ => .completed
  conn :=
    { c with
      data := { c.data with nextApiAt := t.nextApiAt, lastErrorCode := t.lastErrorCode }
      aborted := t.aborted }

def worked (t : Work) (c : Conn StripeInstallation) : CredentialResult := Savepoint.atomic (handle t) c

def StripeInstallation.suspend (connector : StripeInstallation) (code : String) : StripeInstallation :=
  { connector with status := .suspended, lastErrorCode := code, credentialCiphertext := .obj [] }

def failureOf : Raised WorkFailure → WorkFailure
  | .own failure => failure
  | .transactionManagementError => .other "TransactionManagementError"
  | .databaseError => .other "DatabaseError"
  | .internalError => .other "InternalError"

/-- A permanent failure suspends the connector, outside both savepoints. -/
def suspension (failure : WorkFailure) (c : Conn StripeInstallation) : CredentialResult :=
  if failure.permanent then
    statement (fun c => ⟨.completed, { c with data := c.data.suspend failure.code }, []⟩) c
  else ⟨.completed, c, []⟩

variable {o : Circumstances} {c : Conn StripeInstallation} {call : Exchange} {tokens : Tokens}

def Fatal (e : Raised WorkFailure) : Prop := (asConnectorFailure e).permanent = true

theorem exchange_error {configured : Bool} {mode : String} {answer : Answer} {e : WorkFailure}
    (h : exchange configured mode answer = .error e) : Fatal (.own e) := by
  unfold exchange readTokens at h
  split at h
  · cases h
    rfl
  split at h
  · cases h
    rfl
  · cases h
    rfl
  · dsimp only at h
    repeat' split at h
    all_goals cases h
    all_goals rfl

theorem persist_cases :
    (∃ e, (persist o call tokens c).outcome = .raised e ∧ Fatal e ∧
      (persist o call tokens c).log = [call]) ∨
    ∃ ciphertext, o.vault.encryptSecret tokens.object c.data.organizationId c.data.id "oauth" =
        .ok ciphertext ∧
      persist o call tokens c =
        ⟨.completed, { c with data := c.data.rotated ciphertext o.savedAt }, [call]⟩ := by
  unfold persist
  dsimp only
  split
  · exact Or.inl ⟨_, rfl, rfl, rfl⟩
  cases hv : o.vault.encryptSecret tokens.object c.data.organizationId c.data.id "oauth" with
  | error typeName => exact Or.inl ⟨_, rfl, rfl, rfl⟩
  | ok ciphertext =>
    dsimp only
    split_ifs
    · exact Or.inl ⟨_, rfl, rfl, rfl⟩
    · exact Or.inl ⟨_, rfl, rfl, rfl⟩
    · exact Or.inr ⟨ciphertext, rfl, rfl⟩

/-- The refresh token that is given to `exchange` is the stored one. -/
def Given (o : Circumstances) (c : Conn StripeInstallation) (call : Exchange) : Prop :=
  ∃ value, o.vault.decryptSecret c.data.credentialCiphertext c.data.organizationId c.data.id
    "oauth" = .ok value ∧ value.lookup "refresh_token" = some call.refreshToken

theorem refreshAccessToken_cases :
    (refreshAccessToken o c = ⟨.completed, c, []⟩ ∨
      ∃ e, (refreshAccessToken o c).outcome = .raised e ∧ Fatal e ∧
        (refreshAccessToken o c).log = []) ∨
    ∃ call, Given o c call ∧
      ((∃ e, (refreshAccessToken o c).outcome = .raised e ∧ Fatal e ∧
        (refreshAccessToken o c).log = [call]) ∨
      ∃ tokens ciphertext, call.returned = some tokens ∧
        o.vault.encryptSecret tokens.object c.data.organizationId c.data.id "oauth" =
          .ok ciphertext ∧
        refreshAccessToken o c =
          ⟨.completed, { c with data := c.data.rotated ciphertext o.savedAt }, [call]⟩) := by
  unfold refreshAccessToken
  dsimp only
  split
  · exact Or.inl (Or.inr ⟨_, rfl, rfl, rfl⟩)
  cases hv : o.vault.decryptSecret c.data.credentialCiphertext c.data.organizationId c.data.id
      "oauth" with
  | error typeName => exact Or.inl (Or.inr ⟨_, rfl, rfl, rfl⟩)
  | ok value =>
    dsimp only
    split
    · cases ht : value.lookup "refresh_token" with
      | none => exact Or.inl (Or.inr ⟨_, rfl, rfl, rfl⟩)
      | some refreshToken =>
        right
        dsimp only
        cases he : exchange o.configured c.data.mode o.answer with
        | error e =>
          exact ⟨⟨refreshToken, none⟩, ⟨value, hv, ht⟩, Or.inl ⟨_, rfl, exchange_error he, rfl⟩⟩
        | ok pair =>
          refine ⟨⟨refreshToken, some pair⟩, ⟨value, hv, ht⟩, ?_⟩
          rcases @persist_cases o c ⟨refreshToken, some pair⟩ pair with hp | ⟨sealed, hs, hp⟩
          · exact Or.inl hp
          · exact Or.inr ⟨pair, sealed, rfl, hs, hp⟩
    · split
      · exact Or.inl (Or.inr ⟨_, rfl, rfl, rfl⟩)
      · exact Or.inl (Or.inl rfl)

theorem refreshed_failed {e : Raised WorkFailure} (hc : c.Usable) (hfatal : Fatal e)
    (he : (refreshAccessToken o c).outcome = .raised e) :
    ∃ failure : WorkFailure, failure.permanent = true ∧ refreshed o c =
      ⟨.raised (.own failure), { data := c.data }, (refreshAccessToken o c).log⟩ := by
  refine ⟨asConnectorFailure e, hfatal, ?_⟩
  rw [refreshed, atomic_eq_release hc, release_raised he]
  rfl

theorem refreshed_completed {c' : Conn StripeInstallation} {log : List Exchange} (hc : c.Usable)
    (hc' : c'.Usable) (h : refreshAccessToken o c = ⟨.completed, c', log⟩) :
    refreshed o c = ⟨.completed, c', log⟩ := by
  rw [refreshed, atomic_eq_release hc, h, release_usable hc' rfl]
  rfl

theorem refreshed_cases (hc : c.Usable) :
    refreshed o c = ⟨.completed, c, []⟩ ∨
    (∃ failure : WorkFailure, failure.permanent = true ∧
      refreshed o c = ⟨.raised (.own failure), { data := c.data }, []⟩) ∨
    ∃ call, Given o c call ∧
      ((∃ failure : WorkFailure, failure.permanent = true ∧
        refreshed o c = ⟨.raised (.own failure), { data := c.data }, [call]⟩) ∨
      ∃ tokens ciphertext, call.returned = some tokens ∧
        o.vault.encryptSecret tokens.object c.data.organizationId c.data.id "oauth" =
          .ok ciphertext ∧
        refreshed o c =
          ⟨.completed, { c with data := c.data.rotated ciphertext o.savedAt }, [call]⟩) := by
  rcases @refreshAccessToken_cases o c with (h | ⟨e, he, hf, hl⟩) |
    ⟨call, hg, ⟨e, he, hf, hl⟩ | ⟨tokens, ciphertext, ht, hs, h⟩⟩
  · exact Or.inl (refreshed_completed hc hc h)
  · obtain ⟨failure, hp, hr⟩ := refreshed_failed hc hf he
    exact Or.inr (Or.inl ⟨failure, hp, hl ▸ hr⟩)
  · obtain ⟨failure, hp, hr⟩ := refreshed_failed hc hf he
    exact Or.inr (Or.inr ⟨call, hg, Or.inl ⟨failure, hp, hl ▸ hr⟩⟩)
  · exact Or.inr (Or.inr ⟨call, hg, Or.inr ⟨tokens, ciphertext, ht, hs,
      refreshed_completed hc hc h⟩⟩)

def ending (r : CredentialResult) : Except WorkFailure Unit :=
  match r.outcome with
  | .raised e => .error (failureOf e)
  | _ => .ok ()

theorem savepoints_eq_attempt {t : Work} {w : Conditions} {row : Outbox} {id : String}
    (hrefresh : w.refreshAccessToken = ending (Savepoint.atomic (refreshAccessToken o) c))
    (htask : w.task = ending (worked t (refreshed o c).conn))
    (hrow : row.taskType.maintenance = false) :
    (do refresh w (some id); Workers.handle w row) =
      (do ending (refreshed o c); ending (worked t (refreshed o c).conn)) := by
  have hr : refresh w (some id) = ending (refreshed o c) := by
    rw [refresh, hrefresh, refreshed, uncertain]
    generalize Savepoint.atomic (refreshAccessToken o) c = r
    obtain ⟨outcome, conn, log⟩ := r
    cases outcome with
    | raised e =>
      cases e with
      | own failure => cases failure <;> rfl
      | _ => rfl
    | _ => rfl
  have hh : Workers.handle w row = ending (worked t (refreshed o c).conn) := by
    rw [Workers.handle, hrow, htask]
    rfl
  rw [hr, hh]

theorem suspension_eq_attempt {failure : WorkFailure} (hc : c.Usable) :
    (suspension failure c).conn.data =
      (Workers.suspension failure (some c.data.id)).elim c.data fun s => c.data.suspend s.2 := by
  unfold suspension Workers.suspension
  split
  · rw [statement_usable (refusal_eq_none.mpr hc)]
    rfl
  · rfl

end LedgerGuard.Workers.Credentials
