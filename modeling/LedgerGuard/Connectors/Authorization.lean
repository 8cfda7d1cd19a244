import LedgerGuard.Lib.Blocks
import LedgerGuard.Lib.Sha256
import LedgerGuard.Workers.Rotations

/-! # Authorization of a Stripe account

`oauth_start` draws a state for a user and a session, and the callback exchanges the code
that comes back with it. The callback consumes the state before the exchange, in the
transaction of its request. That transaction commits after a `Problem`; any other exception
takes the consumption back, although the exchange has happened.
-/

namespace LedgerGuard.Connectors.Authorization

open Block Transition Workers Workers.Credentials

structure OAuthState where
  organizationId : String
  stateHash : String
  userId : ℕ
  sessionHash : String
  storeId : String
  expiresAt : Instant
  consumedAt : Option Instant := none
  mode : String
  deriving DecidableEq

structure StoreStripeLink where
  storeId : String
  organizationId : String
  stripe : String
  status : String
  ownerConfirmedAt : Instant
  merchantConfirmedAt : Option Instant
  verifiedPaymentId : String

structure AuditEntry where
  id : String
  actor : String
  action : String
  resourceId : String

structure Intent where
  dedupeKey : String
  taskType : TaskType
  resourceId : String

structure Db where
  states : Table OAuthState.stateHash := .empty
  /-- The connectors of kind `stripe`. -/
  installations : Table StripeInstallation.id := .empty
  links : Table StoreStripeLink.storeId := .empty
  audits : List AuditEntry := []
  intents : Table Intent.dedupeKey := .empty

def Db.enqueue (db : Db) (taskType : TaskType) (resourceId dedupeKey : String) : Db :=
  if (db.intents.get dedupeKey).isSome then db
  else { db with intents := db.intents.put ⟨dedupeKey, taskType, resourceId⟩ }

/-- `audit` with an action that the owners are told about. -/
def Db.audit (db : Db) (entry : AuditEntry) : Db :=
  { db with audits := db.audits ++ [entry] }.enqueue .securityNotify entry.id
    ("security-notify:" ++ entry.id)

structure Start where
  organizationId : String
  userId : ℕ
  sessionKey : String
  storeId : String
  mode : String
  state : String
  now : Instant

def Start.row (sha256 : String → String) (r : Start) : OAuthState where
  organizationId := r.organizationId
  stateHash := sha256 r.state
  userId := r.userId
  sessionHash := sha256 r.sessionKey
  storeId := r.storeId
  expiresAt := r.now + minutes 10
  mode := r.mode

/-- `oauth_start` in the transaction of its request; `configured` tells whether the mode has a
client. -/
def oauthStart (sha256 : String → String) (configured : Bool) (r : Start) (db : Db) : Db :=
  if (db.states.get (sha256 r.state)).isSome ∨ configured = false then db
  else { db with states := db.states.put (r.row sha256) }

structure Callback where
  organizationId : String
  userId : ℕ
  sessionKey : String
  state : String

/-- The row that a callback locks; those of other organizations are invisible to it. -/
def Callback.row (sha256 : String → String) (r : Callback) (now : Instant) (db : Db) :
    Option OAuthState :=
  (db.states.get (sha256 r.state)).filter fun row =>
    row.organizationId = r.organizationId ∧ row.userId = r.userId ∧
      row.sessionHash = sha256 r.sessionKey ∧ row.consumedAt = none ∧ now < row.expiresAt

/-- What a callback meets after the exchange. An exception is given by its type. -/
structure Circumstances where
  now : Instant
  installationId : String
  auditId : String
  /-- The creation date of an active Woo connector of the store. -/
  merchantConfirmedAt : Option Instant := none
  creates : Except String Unit := .ok ()
  encryptSecret : Except String Json
  writes : Except String Unit := .ok ()

def Db.stripeOf (db : Db) (row : OAuthState) (tokens : Tokens) : Option StripeInstallation :=
  db.installations.rows.find? fun c =>
    c.organizationId = row.organizationId ∧ c.accountId = tokens.accountId ∧ c.mode = row.mode ∧
      c.status = .active

def attemptWrite : Except String Unit → Block Db WorkFailure Unit
  | .error typeName => raise (.other typeName)
  | .ok _ => return ()

def connectorOf (o : Circumstances) (row : OAuthState) (tokens : Tokens) :
    Block Db WorkFailure StripeInstallation := do
  let db ← read
  match db.stripeOf row tokens with
  | some connector => return connector
  | none =>
    let connector : StripeInstallation :=
      { id := o.installationId
        organizationId := row.organizationId
        mode := row.mode
        accountId := tokens.accountId
        credentialCiphertext := .obj []
        tokenExpiresAt := none }
    attemptWrite o.creates
    write fun db => { db with installations := db.installations.put connector }
    return connector

/-- The connector with its credentials, its link to the store and its first scan. -/
def storeCredentials (o : Circumstances) (row : OAuthState) (userId : ℕ)
    (connector : StripeInstallation) (ciphertext : Json) : Block Db WorkFailure StripeInstallation := do
  let connector := { connector with
    credentialCiphertext := ciphertext
    tokenExpiresAt := some (o.now + minutes 55)
    status := .active
    lockVersion := connector.lockVersion + 1 }
  attemptWrite o.writes
  write fun db => { db with installations := db.installations.put connector }
  write fun db =>
    { db with
      links := db.links.put
        { storeId := row.storeId
          organizationId := row.organizationId
          stripe := connector.id
          status := "unverified"
          ownerConfirmedAt := o.now
          merchantConfirmedAt := o.merchantConfirmedAt
          verifiedPaymentId := "" } }
  write fun db => db.audit ⟨o.auditId, toString userId, "stripe.connected", connector.id⟩
  write fun db => db.enqueue .stripeRepair connector.id
    ("initial-stripe:" ++ connector.id ++ ":" ++ toString connector.lockVersion)
  return connector

/-- The writes of a callback that are atomic among themselves. -/
def connect (o : Circumstances) (row : OAuthState) (userId : ℕ) (tokens : Tokens) :
    Block Db WorkFailure StripeInstallation := do
  let connector ← connectorOf o row tokens
  match o.encryptSecret with
  | .error typeName => raise (.other typeName)
  | .ok ciphertext => storeCredentials o row userId connector ciphertext

def afterExchange (o : Circumstances) (row : OAuthState) (userId : ℕ)
    (exchanged : Except WorkFailure Tokens) : Block Db WorkFailure StripeInstallation :=
  match exchanged with
  | .error failure => raise failure
  | .ok tokens => atomic (connect o row userId tokens)

/-- A `ConnectorFailure` is a `Problem`. -/
def isProblem : WorkFailure → Bool
  | .connector _ _ _ => true
  | .other typeName => typeName = "Problem"

/-- The view answers a `Problem` itself, so that its transaction is completed. -/
def answered : Except WorkFailure StripeInstallation → Bool
  | .ok _ => true
  | .error failure => isProblem failure

/-- A callback that holds the lock of its row. It has consumed the row in its transaction. -/
structure Held where
  row : OAuthState
  request : Callback
  checkedAt : Instant
  consumedAt : Instant
  exchanged : Option (Except WorkFailure Tokens) := none

def Held.stateHash (h : Held) : String := h.row.stateHash

/-- The committed tables, the callbacks under way, and the digests of the states drawn so far. -/
structure World where
  db : Db := {}
  held : Table Held.stateHash := .empty
  drawn : List String := []

/-- A call of `exchange`. -/
structure Call where
  state : String
  userId : ℕ
  sessionKey : String
  /-- The clock reading that the expiry was compared with. -/
  checkedAt : Instant
  deriving DecidableEq

def Held.call (h : Held) : Call :=
  ⟨h.request.state, h.request.userId, h.request.sessionKey, h.checkedAt⟩

inductive Event
  | start (r : Start)
  | lock (r : Callback) (now : Instant)
  | refuse (r : Callback) (now : Instant)
  | abandon (stateHash : String)
  | exchange (call : Call)
  | finish (stateHash : String) (o : Circumstances) (commits : Bool)
  | purge (now : Instant)

def World.free (w : World) (stateHash : String) : Table Held.stateHash :=
  w.held.filter fun h => h.stateHash ≠ stateHash

def Held.spentRow (h : Held) : OAuthState := { h.row with consumedAt := some h.consumedAt }

def Held.consumed (h : Held) (db : Db) : Db :=
  { db with states := db.states.put h.spentRow }

def Held.finished (h : Held) (o : Circumstances) (exchanged : Except WorkFailure Tokens)
    (commits : Bool) (db : Db) : Db :=
  let r := afterExchange o h.row h.request.userId exchanged (h.consumed db)
  if answered r.outcome && commits then r.state else db

inductive Step (sha256 : String → String) : World → Event → World → Prop
  /-- A state is drawn at random, and is not one that was drawn before. -/
  | start {w} (r : Start) (configured : Bool) (hfresh : sha256 r.state ∉ w.drawn) :
      Step sha256 w (.start r)
        { w with
          db := oauthStart sha256 configured r w.db
          drawn := w.drawn ++ [sha256 r.state] }
  | lock {w} {r : Callback} {now : Instant} {row : OAuthState} (consumedAt : Instant)
      (hrow : r.row sha256 now w.db = some row) (hfree : w.held.get row.stateHash = none) :
      Step sha256 w (.lock r now)
        { w with
          held := w.held.put
            { row, request := r, checkedAt := now, consumedAt, exchanged := none } }
  | refuse {w} {r : Callback} {now : Instant} (hrow : r.row sha256 now w.db = none) :
      Step sha256 w (.refuse r now) w
  /-- The consumption cannot be written, or the process ends. -/
  | abandon {w stateHash h} (hheld : w.held.get stateHash = some h) (hopen : h.exchanged = none) :
      Step sha256 w (.abandon stateHash) { w with held := w.free stateHash }
  | exchange {w stateHash h} (configured : Bool) (answer : Answer)
      (hheld : w.held.get stateHash = some h) (hopen : h.exchanged = none) :
      Step sha256 w (.exchange h.call)
        { w with
          held := w.held.put
            { h with exchanged := some (Credentials.exchange configured h.row.mode answer) } }
  | finish {w stateHash h exchanged} (o : Circumstances) (commits : Bool)
      (hheld : w.held.get stateHash = some h) (hexchanged : h.exchanged = some exchanged) :
      Step sha256 w (.finish stateHash o commits)
        { w with db := h.finished o exchanged commits w.db, held := w.free stateHash }
  /-- Retention does not delete a locked row. -/
  | purge {w} (now : Instant) :
      Step sha256 w (.purge now)
        { w with
          db.states := w.db.states.filter fun row =>
            now - minutes (24 * 60) ≤ row.expiresAt || (w.held.get row.stateHash).isSome }

def Circumstances.failure (o : Circumstances) (known : Bool) : Except String Unit :=
  match (if known then .ok () else o.creates), o.encryptSecret with
  | .error typeName, _ => .error typeName
  | .ok _, .error typeName => .error typeName
  | .ok _, .ok _ => o.writes

/-- What follows the exchange raises nothing but a `Problem`, and the request commits. -/
def Held.Settles (h : Held) (o : Circumstances) (commits : Bool) (db : Db) : Prop :=
  commits = true ∧
    (∀ failure, h.exchanged = some (.error failure) → isProblem failure = true) ∧
    ∀ tokens, h.exchanged = some (.ok tokens) → ∀ typeName,
      o.failure (db.stripeOf h.row tokens).isSome = .error typeName → typeName = "Problem"

def World.Settles (w : World) : Event → Prop
  | .finish stateHash o commits => ∀ h, w.held.get stateHash = some h → h.Settles o commits w.db
  | _ => True

variable {sha256 : String → String} {o : Circumstances} {row : OAuthState} {userId : ℕ}
  {tokens : Tokens} {db : Db} {h : Held} {exchanged : Except WorkFailure Tokens}
  {commits : Bool} {w w' : World} {events : List Event} {event : Event}

@[simp] theorem enqueue_states {taskType : TaskType} {resourceId dedupeKey : String} :
    (db.enqueue taskType resourceId dedupeKey).states = db.states := by
  unfold Db.enqueue
  split <;> rfl

@[simp] theorem audit_states {entry : AuditEntry} : (db.audit entry).states = db.states := by
  unfold Db.audit
  rw [enqueue_states]

theorem connectorOf_spec :
    (∃ typeName, (db.stripeOf row tokens).isSome = false ∧ o.creates = .error typeName ∧
      connectorOf o row tokens db = ⟨.error (.other typeName), db⟩) ∨
    ∃ connector db', connectorOf o row tokens db = ⟨.ok connector, db'⟩ ∧
      db'.states = db.states ∧
      ((db.stripeOf row tokens).isSome = true ∨ o.creates = .ok ()) := by
  unfold connectorOf
  rw [read_bind]
  cases hknown : db.stripeOf row tokens with
  | some connector => exact Or.inr ⟨connector, db, rfl, rfl, Or.inl rfl⟩
  | none =>
    cases hcreates : o.creates with
    | error typeName => exact Or.inl ⟨typeName, rfl, rfl, rfl⟩
    | ok u => exact Or.inr ⟨_, _, rfl, rfl, Or.inr rfl⟩

theorem storeCredentials_spec {connector : StripeInstallation} {ciphertext : Json} :
    (∃ typeName, o.writes = .error typeName ∧
      storeCredentials o row userId connector ciphertext db =
        ⟨.error (.other typeName), db⟩) ∨
    o.writes = .ok () ∧ ∃ connector' db',
      storeCredentials o row userId connector ciphertext db = ⟨.ok connector', db'⟩ ∧
        db'.states = db.states := by
  unfold storeCredentials
  cases hwrites : o.writes with
  | error typeName => exact Or.inl ⟨typeName, rfl, rfl⟩
  | ok u =>
    refine Or.inr ⟨rfl, _, _, rfl, ?_⟩
    rw [enqueue_states, audit_states]

theorem connect_spec : (answered (connect o row userId tokens db).outcome = true ↔
      ∀ typeName, o.failure (db.stripeOf row tokens).isSome = .error typeName →
        typeName = "Problem") ∧
    (connect o row userId tokens db).state.states = db.states := by
  unfold connect Circumstances.failure
  rcases @connectorOf_spec o row tokens db with ⟨typeName, hknown, hcreates, hraised⟩ |
    ⟨connector, db', hfound, hstates, hknown⟩
  · rw [Block.bind_error hraised, hknown, hcreates]
    simp [answered, isProblem]
  · rw [Block.bind_ok hfound]
    have hcreated : (if (db.stripeOf row tokens).isSome then .ok () else o.creates) =
        Except.ok () := by
      split
      · rfl
      case isFalse h => exact hknown.resolve_left h
    rw [hcreated]
    cases hencrypt : o.encryptSecret with
    | error typeName => simp [answered, isProblem, hstates]
    | ok ciphertext =>
      dsimp only
      rcases @storeCredentials_spec o row userId db' connector ciphertext with
        ⟨typeName, hwrites, hraised⟩ | ⟨hwrites, connector', db'', hstored, hstates'⟩
      · rw [hwrites, hraised]
        simp [answered, isProblem, hstates]
      · rw [hwrites, hstored]
        simp [answered, hstates, hstates']

theorem afterExchange_spec (hexchanged : h.exchanged = some exchanged) :
    ((answered (afterExchange o h.row userId exchanged (h.consumed db)).outcome && commits) = true ↔
      h.Settles o commits db) ∧
    (afterExchange o h.row userId exchanged (h.consumed db)).state.states =
      (h.consumed db).states := by
  unfold Held.Settles
  rw [Bool.and_eq_true, hexchanged]
  cases exchanged with
  | error failure => simp [afterExchange, answered, and_comm]
  | ok tokens =>
    obtain ⟨houtcome, hstates⟩ := @connect_spec o h.row userId tokens (h.consumed db)
    have hknown : (h.consumed db).stripeOf h.row tokens = db.stripeOf h.row tokens := rfl
    rw [hknown] at houtcome
    constructor
    · change answered (atomic (connect o h.row userId tokens) (h.consumed db)).outcome = true ∧ _ ↔ _
      rw [atomic_outcome, houtcome]
      simp [and_comm]
    · exact atomic_keeps (P := fun db' : Db => db'.states = (h.consumed db).states) rfl hstates

theorem finished_states (hexchanged : h.exchanged = some exchanged) :
    (h.Settles o commits db ∧ (h.finished o exchanged commits db).states =
        db.states.put h.spentRow) ∨
      ¬ h.Settles o commits db ∧ h.finished o exchanged commits db = db := by
  obtain ⟨hsettles, hstates⟩ :=
    @afterExchange_spec o h.request.userId db h exchanged commits hexchanged
  unfold Held.finished
  dsimp only
  split
  case isTrue ha => exact Or.inl ⟨hsettles.mp ha, hstates⟩
  case isFalse ha => exact Or.inr ⟨fun hs => ha (hsettles.mpr hs), rfl⟩

def Event.starts : Event → List Start
  | .start r => [r]
  | _ => []

def Event.calls : Event → List Call
  | .exchange call => [call]
  | _ => []

def startsOf (events : List Event) : List Start := events.flatMap Event.starts

def callsOf (events : List Event) : List Call := events.flatMap Event.calls

@[simp] theorem startsOf_append : startsOf (events ++ [event]) = startsOf events ++ event.starts := by
  simp [startsOf]

@[simp] theorem callsOf_append : callsOf (events ++ [event]) = callsOf events ++ event.calls := by
  simp [callsOf]

def OAuthState.Started (sha256 : String → String) (events : List Event) (row : OAuthState) : Prop :=
  ∃ r ∈ startsOf events, { row with consumedAt := none } = r.row sha256

/-- The call is made for the user and the session of a start, and its clock reading is before the
end of the state. -/
def Call.Owned (sha256 : String → String) (events : List Event) (call : Call) : Prop :=
  ∃ r ∈ startsOf events, r.userId = call.userId ∧ sha256 r.state = sha256 call.state ∧
    sha256 r.sessionKey = sha256 call.sessionKey ∧ call.checkedAt < r.now + minutes 10

/-- A callback under way holds an open row that is its own. -/
structure Held.Sound (sha256 : String → String) (w : World) (h : Held) : Prop where
  current : w.db.states.get h.stateHash = some h.row
  fresh : h.row.consumedAt = none
  state : h.stateHash = sha256 h.request.state
  user : h.row.userId = h.request.userId
  session : h.row.sessionHash = sha256 h.request.sessionKey
  unexpired : h.checkedAt < h.row.expiresAt

structure Consistent (sha256 : String → String) (events : List Event) (w : World) : Prop where
  started : ∀ row ∈ w.db.states, row.Started sha256 events
  drawn : ∀ row ∈ w.db.states, row.stateHash ∈ w.drawn
  held : ∀ h ∈ w.held, h.Sound sha256 w
  owned : ∀ call ∈ callsOf events, call.Owned sha256 events

theorem row_spec {r : Callback} {now : Instant} (hrow : r.row sha256 now db = some row) :
    db.states.get (sha256 r.state) = some row ∧ row.userId = r.userId ∧
      row.sessionHash = sha256 r.sessionKey ∧ row.consumedAt = none ∧ now < row.expiresAt := by
  obtain ⟨hget, hp⟩ := Option.filter_eq_some_iff.mp hrow
  simp only [decide_eq_true_eq] at hp
  exact ⟨hget, hp.2⟩

theorem OAuthState.Started.extend (hs : row.Started sha256 events) :
    row.Started sha256 (events ++ [event]) := by
  obtain ⟨r, hr, he⟩ := hs
  exact ⟨r, by simp [hr], he⟩

theorem Call.Owned.extend {call : Call} (hc : call.Owned sha256 events) :
    call.Owned sha256 (events ++ [event]) := by
  obtain ⟨r, hr, he⟩ := hc
  exact ⟨r, by simp [hr], he⟩

theorem Held.Sound.owned (hs : h.Sound sha256 w) (hw : Consistent sha256 events w) :
    h.call.Owned sha256 events := by
  obtain ⟨r, hr, he⟩ := hw.started h.row (Table.get_eq_some.mp hs.current).1
  refine ⟨r, hr, ?_, ?_, ?_, ?_⟩
  · exact (congrArg OAuthState.userId he).symm.trans hs.user
  · exact (congrArg OAuthState.stateHash he).symm.trans hs.state
  · exact (congrArg OAuthState.sessionHash he).symm.trans hs.session
  · have hexpires : h.row.expiresAt = r.now + minutes 10 := congrArg OAuthState.expiresAt he
    exact hexpires ▸ hs.unexpired

theorem Held.Sound.of_get (hs : h.Sound sha256 w)
    (hget : w'.db.states.get h.stateHash = w.db.states.get h.stateHash) : h.Sound sha256 w' :=
  { hs with current := hget.trans hs.current }

theorem mem_free {stateHash : String} : h ∈ w.free stateHash ↔
    h ∈ w.held ∧ h.stateHash ≠ stateHash := by
  rw [World.free, Table.mem_filter]
  simp

theorem Consistent.calls (hw : Consistent sha256 events w) (hstep : Step sha256 w event w') :
    ∀ call ∈ callsOf (events ++ [event]), call.Owned sha256 (events ++ [event]) := by
  intro call hm
  rw [callsOf_append, List.mem_append] at hm
  rcases hm with hm | hm
  · exact (hw.owned call hm).extend
  · cases hstep with
    | exchange configured answer hheld hopen =>
      obtain rfl := List.mem_singleton.mp hm
      exact ((hw.held _ (Table.get_eq_some.mp hheld).1).owned hw).extend
    | _ => cases hm

theorem Consistent.step (hw : Consistent sha256 events w) (hstep : Step sha256 w event w') :
    Consistent sha256 (events ++ [event]) w' := by
  have howned := hw.calls hstep
  have hstarted : ∀ row ∈ w.db.states, row.Started sha256 (events ++ [event]) :=
    fun row hm => (hw.started row hm).extend
  cases hstep with
  | start r configured hfresh =>
    have hstates : ∀ row ∈ (oauthStart sha256 configured r w.db).states,
        row = r.row sha256 ∨ row ∈ w.db.states := by
      intro row hm
      unfold oauthStart at hm
      split at hm
      · exact Or.inr hm
      · exact (Table.mem_put.mp hm).imp id And.left
    refine ⟨fun row hm => ?_, fun row hm => ?_, fun h hm => ?_, howned⟩
    · rcases hstates row hm with rfl | hm
      · exact ⟨r, by simp [Event.starts], rfl⟩
      · exact hstarted row hm
    · rcases hstates row hm with rfl | hm
      · exact List.mem_append_right _ (List.mem_singleton_self _)
      · exact List.mem_append_left _ (hw.drawn row hm)
    · have hs := hw.held h hm
      refine hs.of_get ?_
      have hne : h.stateHash ≠ sha256 r.state := by
        intro he
        exact hfresh (he ▸ hw.drawn h.row (Table.get_eq_some.mp hs.current).1)
      unfold oauthStart
      dsimp only
      split
      · rfl
      · rw [Table.get_put]
        exact if_neg hne
  | @lock r now row consumedAt hrow hfree =>
    refine ⟨hstarted, hw.drawn, fun h hm => ?_, howned⟩
    · rcases Table.mem_put.mp hm with rfl | ⟨hm, -⟩
      · obtain ⟨hget, huser, hsession, hconsumed, hexpires⟩ := row_spec hrow
        have hhash : row.stateHash = sha256 r.state := (Table.get_eq_some.mp hget).2
        refine ⟨?_, hconsumed, hhash, huser, hsession, hexpires⟩
        change w.db.states.get row.stateHash = some row
        rw [hhash, hget]
      · exact (hw.held h hm).of_get rfl
  | refuse hrow =>
    exact ⟨hstarted, hw.drawn, hw.held, howned⟩
  | abandon hheld hopen =>
    refine ⟨hstarted, hw.drawn, fun h hm => ?_, howned⟩
    · exact (hw.held h (mem_free.mp hm).1).of_get rfl
  | @exchange stateHash h configured answer hheld hopen =>
    have hs := hw.held h (Table.get_eq_some.mp hheld).1
    refine ⟨hstarted, hw.drawn, fun h' hm => ?_, howned⟩
    · rcases Table.mem_put.mp hm with rfl | ⟨hm, -⟩
      · exact ⟨hs.current, hs.fresh, hs.state, hs.user, hs.session, hs.unexpired⟩
      · exact (hw.held h' hm).of_get rfl
  | @finish stateHash h exchanged o commits hheld hexchanged =>
    have hs := hw.held h (Table.get_eq_some.mp hheld).1
    have hhash : h.stateHash = stateHash := (Table.get_eq_some.mp hheld).2
    have hold : h.row ∈ w.db.states := (Table.get_eq_some.mp hs.current).1
    rcases @finished_states o w.db h exchanged commits hexchanged with ⟨-, hf⟩ | ⟨-, hf⟩
    · refine ⟨fun row hm => ?_, fun row hm => ?_, fun h' hm => ?_, howned⟩
      · rw [hf] at hm
        rcases Table.mem_put.mp hm with rfl | ⟨hm, -⟩
        · exact hstarted h.row hold
        · exact hstarted row hm
      · rw [hf] at hm
        rcases Table.mem_put.mp hm with rfl | ⟨hm, -⟩
        · exact hw.drawn h.row hold
        · exact hw.drawn row hm
      · obtain ⟨hm, hne⟩ := mem_free.mp hm
        refine (hw.held h' hm).of_get ?_
        rw [hf, Table.get_put]
        exact if_neg fun he => hne (he.trans hhash)
    · rw [hf]
      refine ⟨hstarted, hw.drawn, fun h' hm => ?_, howned⟩
      · exact (hw.held h' (mem_free.mp hm).1).of_get rfl
  | purge now =>
    refine ⟨fun row hm => ?_, fun row hm => ?_, fun h hm => ?_, howned⟩
    · exact hstarted row (Table.mem_filter.mp hm).1
    · exact hw.drawn row (Table.mem_filter.mp hm).1
    · have hs := hw.held h hm
      refine hs.of_get ?_
      have hheld : w.held.get h.row.stateHash = some h := Table.get_eq_some.mpr ⟨hm, rfl⟩
      dsimp only
      rw [Table.get_filter, hs.current]
      simp [hheld]

/-- No callback can lock the state any more: one holds it that has called `exchange`, or it is
consumed or deleted. -/
structure World.Spent (w : World) (stateHash : String) : Prop where
  drawn : stateHash ∈ w.drawn
  closed : (∃ h, w.held.get stateHash = some h ∧ h.exchanged ≠ none) ∨
    w.held.get stateHash = none ∧
      ∀ row, w.db.states.get stateHash = some row → row.consumedAt ≠ none

variable {stateHash k : String}

theorem World.Spent.not_open (hk : w.Spent k) (hheld : w.held.get k = some h) :
    h.exchanged ≠ none := by
  rcases hk.closed with ⟨h', hget, he⟩ | ⟨hnone, -⟩
  · obtain rfl := Option.some.inj (hheld.symm.trans hget)
    exact he
  · rw [hnone] at hheld
    cases hheld

theorem get_free (hne : k ≠ stateHash) : (w.free stateHash).get k = w.held.get k := by
  rw [World.free, Table.get_filter]
  cases hg : w.held.get k with
  | none => rfl
  | some h =>
    obtain rfl := (Table.get_eq_some.mp hg).2
    simp [hne]

theorem get_free_self : (w.free stateHash).get stateHash = none := by
  rw [Table.get_eq_none]
  exact fun h hm => (mem_free.mp hm).2

theorem World.Spent.step (hk : w.Spent k)
    (hstep : Step sha256 w event w') (hsettles : w.Settles event) : w'.Spent k := by
  obtain ⟨hdrawn, hclosed⟩ := hk
  cases hstep with
  | start r configured hfresh =>
    refine ⟨List.mem_append_left _ hdrawn, hclosed.imp_right fun ⟨hnone, hrow⟩ => ⟨hnone, ?_⟩⟩
    have hne : k ≠ sha256 r.state := fun he => hfresh (he ▸ hdrawn)
    intro row hg
    apply hrow row
    unfold oauthStart at hg
    dsimp only at hg
    split at hg
    · exact hg
    · rw [Table.get_put, show (r.row sha256).stateHash = sha256 r.state from rfl,
        if_neg hne] at hg
      exact hg
  | @lock r now row consumedAt hrow hfree =>
    obtain ⟨hget, -, -, hopen, -⟩ := row_spec hrow
    have hne : k ≠ row.stateHash := by
      rintro rfl
      have hcurrent : w.db.states.get row.stateHash = some row := by
        rw [(Table.get_eq_some.mp hget).2, hget]
      rcases hclosed with ⟨h, hheld, -⟩ | ⟨-, hconsumed⟩
      · rw [hfree] at hheld
        cases hheld
      · exact hconsumed row hcurrent hopen
    have hput : (w.held.put ⟨row, r, now, consumedAt, none⟩).get k = w.held.get k :=
      Table.get_put.trans (if_neg hne)
    refine ⟨hdrawn, ?_⟩
    dsimp only
    rw [hput]
    exact hclosed
  | refuse hrow => exact ⟨hdrawn, hclosed⟩
  | @abandon stateHash h hheld hopen =>
    have hne : k ≠ stateHash := by
      rintro rfl
      exact World.Spent.not_open ⟨hdrawn, hclosed⟩ hheld hopen
    refine ⟨hdrawn, ?_⟩
    dsimp only
    rw [get_free hne]
    exact hclosed
  | @exchange stateHash h configured answer hheld hopen =>
    have hne : k ≠ h.stateHash := by
      rintro rfl
      obtain rfl := (Table.get_eq_some.mp hheld).2
      exact World.Spent.not_open ⟨hdrawn, hclosed⟩ hheld hopen
    have hput : (w.held.put { h with exchanged := some (Credentials.exchange configured
        h.row.mode answer) }).get k = w.held.get k := Table.get_put.trans (if_neg hne)
    refine ⟨hdrawn, ?_⟩
    dsimp only
    rw [hput]
    exact hclosed
  | @finish stateHash h exchanged o commits hheld hexchanged =>
    obtain rfl := (Table.get_eq_some.mp hheld).2
    have hstates := ((@finished_states o w.db h exchanged commits hexchanged).resolve_right
      fun hn => hn.1 (hsettles h hheld)).2
    refine ⟨hdrawn, ?_⟩
    dsimp only
    rw [hstates, Table.get_put]
    by_cases hk : k = h.stateHash
    · obtain rfl := hk
      refine Or.inr ⟨get_free_self, fun row hrow => ?_⟩
      obtain rfl := Option.some.inj ((if_pos rfl).symm.trans hrow)
      exact Option.some_ne_none _
    · rw [get_free hk, if_neg (show k ≠ h.spentRow.stateHash from hk)]
      exact hclosed
  | purge now =>
    refine ⟨hdrawn, hclosed.imp_right fun ⟨hnone, hrow⟩ => ⟨hnone, fun row hg => ?_⟩⟩
    rw [Table.get_filter] at hg
    exact hrow row (Option.filter_eq_some_iff.mp hg).1

theorem exchange_spends (hw : Consistent sha256 events w) (hheld : w.held.get stateHash = some h)
    (hopen : h.exchanged = none) (configured : Bool) (answer : Answer) :
    ¬ w.Spent (sha256 h.call.state) ∧
      World.Spent
        { w with
          held := w.held.put
            { h with exchanged := some (Credentials.exchange configured h.row.mode answer) } }
        (sha256 h.call.state) := by
  have hs := hw.held h (Table.get_eq_some.mp hheld).1
  have hhash : stateHash = sha256 h.call.state := (Table.get_eq_some.mp hheld).2.symm.trans hs.state
  constructor
  · intro hn
    exact (hn.not_open (hhash ▸ hheld)) hopen
  · refine ⟨?_, Or.inl ⟨_, Table.get_put.trans (if_pos ?_), Option.some_ne_none _⟩⟩
    · have hm := hw.drawn h.row (Table.get_eq_some.mp hs.current).1
      exact (show h.row.stateHash = sha256 h.call.state from hs.state) ▸ hm
    · exact hs.state.symm

/-- The states of the calls, all of them spent, are distinct. -/
structure Once (sha256 : String → String) (events : List Event) (w : World) : Prop where
  consistent : Consistent sha256 events w
  distinct : ((callsOf events).map fun call => sha256 call.state).Nodup
  spent : ∀ call ∈ callsOf events, w.Spent (sha256 call.state)

theorem Once.step (hw : Once sha256 events w)
    (hstep : Guarded (Step sha256) World.Settles w event w') :
    Once sha256 (events ++ [event]) w' := by
  obtain ⟨hconsistent, hdistinct, hspent⟩ := hw
  obtain ⟨hsettles, hstep⟩ := hstep
  have hold : ∀ call ∈ callsOf events, w'.Spent (sha256 call.state) := fun call hm =>
    (hspent call hm).step hstep hsettles
  have hkeeps : event.calls = [] → Once sha256 (events ++ [event]) w' := by
    intro hnone
    refine ⟨hconsistent.step hstep, ?_, ?_⟩
    · rwa [callsOf_append, hnone, List.append_nil]
    · rwa [callsOf_append, hnone, List.append_nil]
  cases hstep with
  | @exchange stateHash h configured answer hheld hopen =>
    obtain ⟨hbefore, hafter⟩ := exchange_spends hconsistent hheld hopen configured answer
    refine ⟨hconsistent.step (.exchange configured answer hheld hopen), ?_, fun call hm => ?_⟩
    · rw [callsOf_append, List.map_append, List.nodup_append]
      refine ⟨hdistinct, List.nodup_singleton _, fun a ha b hb => ?_⟩
      obtain ⟨call, hm, rfl⟩ := List.mem_map.mp ha
      obtain rfl := List.mem_singleton.mp hb
      intro he
      have hspent := hspent call hm
      rw [show sha256 call.state = sha256 h.call.state from he] at hspent
      exact hbefore hspent
    · rw [callsOf_append, List.mem_append] at hm
      rcases hm with hm | hm
      · exact hold call hm
      · obtain rfl := List.mem_singleton.mp hm
        exact hafter
  | _ => exact hkeeps rfl

theorem consistent_start : Consistent sha256 [] {} where
  started _ hm := absurd hm Table.not_mem_empty
  drawn _ hm := absurd hm Table.not_mem_empty
  held _ hm := absurd hm Table.not_mem_empty
  owned _ hm := absurd hm List.not_mem_nil

/-- In every interleaving a state is exchanged for the user and the session that started it and
before it ends. It is exchanged at most once if every callback that has called `exchange` ends with
a return or a `Problem` and commits. -/
theorem exchanged_once (sha256 : String → String) :
    (∀ events w, Run (Step sha256) {} events w →
      ∀ call ∈ callsOf events, call.Owned sha256 events) ∧
    ∀ events w, Run (Guarded (Step sha256) World.Settles) {} events w →
      ((callsOf events).map fun call => sha256 call.state).Nodup := by
  constructor
  · intro events w hrun
    exact (hrun.invariant (I := Consistent sha256) consistent_start
      fun _ _ _ _ hw hstep => hw.step hstep).owned
  · intro events w hrun
    have hstart : Once sha256 [] {} :=
      ⟨consistent_start, List.nodup_nil, fun call hm => absurd hm List.not_mem_nil⟩
    exact (hrun.invariant (I := Once sha256) hstart fun _ _ _ _ hw hstep => hw.step hstep).distinct

def started : Start := ⟨"organization", 7, "session", "store", "live", "state", 0⟩

def returning : Callback := ⟨"organization", 7, "session", "state"⟩

def holding (sha256 : String → String) : Held where
  row := started.row sha256
  request := returning
  checkedAt := 0
  consumedAt := 0

def holdingTokens (sha256 : String → String) : Held :=
  { holding sha256 with exchanged := some (.ok Fixture.next) }

def openDb (sha256 : String → String) : Db :=
  { states := Table.empty.put (started.row sha256) }

/-- The key service refuses to encrypt. -/
def keyServiceDown : Circumstances where
  now := 0
  installationId := "connector"
  auditId := "audit"
  encryptSecret := .error "ClientError"

def keyServiceUp : Circumstances := { keyServiceDown with encryptSecret := .ok .null }

theorem row_returning : returning.row sha256 0 (openDb sha256) = some (started.row sha256) := by
  unfold Callback.row
  rw [Option.filter_eq_some_iff]
  have hunexpired : (0 : Instant) < 0 + minutes 10 := by decide
  exact ⟨Table.get_put.trans (if_pos rfl), decide_eq_true ⟨rfl, rfl, rfl, rfl, hunexpired⟩⟩

section Runs

variable {ok : World → Event → Prop}

theorem run_started (hstart : ∀ w, ok w (.start started)) :
    Run (Guarded (Step sha256) ok) {} [.start started]
      { db := openDb sha256, drawn := [sha256 "state"] } := by
  have hnew : oauthStart sha256 true started {} = openDb sha256 :=
    if_neg (by simp [Table.get_empty])
  have hstep := Step.start (w := {}) started true (List.not_mem_nil : sha256 "state" ∉ [])
  rw [hnew] at hstep
  exact Run.nil.snoc ⟨hstart _, hstep⟩

theorem run_exchange (hlock : ∀ w, ok w (.lock returning 0)) (hexchange : ∀ w c, ok w (.exchange c))
    (hrun : Run (Guarded (Step sha256) ok) {} events w) (hdb : w.db = openDb sha256)
    (hfree : w.held.get (sha256 "state") = none) :
    ∃ w', Run (Guarded (Step sha256) ok) {}
        (events ++ [.lock returning 0] ++ [.exchange (holding sha256).call]) w' ∧
      w'.db = openDb sha256 ∧ w'.held.get (sha256 "state") = some (holdingTokens sha256) := by
  have hlocked := hrun.snoc ⟨hlock w, .lock 0 (hdb ▸ row_returning) hfree⟩
  have hheld : (w.held.put (holding sha256)).get (sha256 "state") = some (holding sha256) :=
    Table.get_put.trans (if_pos rfl)
  have hexchanged := hlocked.snoc ⟨hexchange _ _, .exchange true Fixture.granted hheld rfl⟩
  rw [show Credentials.exchange true (holding sha256).row.mode Fixture.granted = .ok Fixture.next
    from Fixture.exchange_granted] at hexchanged
  exact ⟨_, hexchanged, hdb, Table.get_put.trans (if_pos rfl)⟩

end Runs

theorem not_settles_keyServiceDown :
    ¬ (holdingTokens sha256).Settles keyServiceDown true (openDb sha256) := by
  rintro ⟨-, -, h⟩
  exact absurd (h Fixture.next rfl "ClientError" rfl) (by decide)

/-- A key service that fails after the exchange gives the state back, and the next callback exchanges
it once more. -/
theorem state_exchanged_twice : ∃ events w, Run (Step Sha256.hexdigest) {} events w ∧
    callsOf events = [⟨"state", 7, "session", 0⟩, ⟨"state", 7, "session", 0⟩] := by
  have hstart : Run (Guarded (Step Sha256.hexdigest) fun _ _ => True) {} _ _ :=
    run_started fun _ => trivial
  obtain ⟨w, hrun, hdb, hheld⟩ :=
    run_exchange (fun _ => trivial) (fun _ _ => trivial) hstart rfl Table.get_empty
  have hfinish := hrun.snoc ⟨trivial, .finish keyServiceDown true hheld rfl⟩
  have hundone : (holdingTokens Sha256.hexdigest).finished keyServiceDown (.ok Fixture.next) true
      w.db = openDb Sha256.hexdigest := by
    rw [hdb]
    exact ((finished_states rfl).resolve_left fun hn => not_settles_keyServiceDown hn.1).2
  obtain ⟨w', hrun', -, -⟩ :=
    run_exchange (fun _ => trivial) (fun _ _ => trivial) hfinish hundone get_free_self
  exact ⟨_, w', hrun'.mono fun _ _ _ h => h.2, rfl⟩

theorem row_spent {now : Instant}
    (hsettles : (holdingTokens sha256).Settles keyServiceUp true db) :
    returning.row sha256 now
      ((holdingTokens sha256).finished keyServiceUp (.ok Fixture.next) true db) = none := by
  have hstates := ((finished_states rfl).resolve_right fun hn => hn.1 hsettles).2
  have hget : (db.states.put (holdingTokens sha256).spentRow).get (sha256 returning.state) =
      some (holdingTokens sha256).spentRow := Table.get_put.trans (if_pos rfl)
  unfold Callback.row
  rw [hstates, hget, Option.filter_some, if_neg]
  simp [Held.spentRow]

theorem run_returned (hrun : Run (Guarded (Step sha256) World.Settles) {} events w)
    (hdb : w.db = openDb sha256) (hheld : w.held.get (sha256 "state") = some (holdingTokens sha256)) :
    ∃ w', Run (Guarded (Step sha256) World.Settles) {}
      (events ++ [.finish (sha256 "state") keyServiceUp true] ++ [.refuse returning 1]) w' := by
  have hsettles : (holdingTokens sha256).Settles keyServiceUp true w.db := by
    refine ⟨rfl, nofun, fun tokens ht typeName hf => ?_⟩
    rw [hdb] at hf
    cases hf
  have hworld : w.Settles (.finish (sha256 "state") keyServiceUp true) := by
    intro h hh
    obtain rfl := Option.some.inj (hheld.symm.trans hh)
    exact hsettles
  have hfinish := hrun.snoc ⟨hworld, .finish keyServiceUp true hheld rfl⟩
  have hrefuse := Step.refuse (w := { w with
    db := (holdingTokens sha256).finished keyServiceUp (.ok Fixture.next) true w.db
    held := w.free (sha256 "state") }) (@row_spent sha256 w.db 1 hsettles)
  exact ⟨_, hfinish.snoc ⟨trivial, hrefuse⟩⟩

/-- A callback that returns exchanges its state once, and the same callback is refused after it. -/
theorem exchanged_once_returned : ∃ events, .refuse returning 1 ∈ events ∧
    (∀ call ∈ callsOf events, call.Owned Sha256.hexdigest events) ∧
      callsOf events = [⟨"state", 7, "session", 0⟩] ∧
      ((callsOf events).map fun call => Sha256.hexdigest call.state).Nodup := by
  have hstart : Run (Guarded (Step Sha256.hexdigest) World.Settles) {} _ _ :=
    run_started fun _ => trivial
  obtain ⟨w, hrun, hdb, hheld⟩ :=
    run_exchange (fun _ => trivial) (fun _ _ => trivial) hstart rfl Table.get_empty
  obtain ⟨w', hreturned⟩ := run_returned hrun hdb hheld
  exact ⟨_, List.mem_append_right _ (List.mem_singleton_self _),
    (exchanged_once Sha256.hexdigest).1 _ _ (hreturned.mono fun _ _ _ h => h.2), rfl,
    (exchanged_once Sha256.hexdigest).2 _ _ hreturned⟩

end LedgerGuard.Connectors.Authorization
