import LedgerGuard.Access.Idempotency
import LedgerGuard.Lib.Table
import LedgerGuard.Lib.Transition

/-! # Mutations that take effect once

A wrapped mutation locks the row of its organization, looks up the record of its
key, runs the view and saves the record, all in one transaction. Whatever fails on
the way, the record and the effects of the view are committed together or not at
all, so a retry finds either nothing or the response of the one commit.
-/

namespace LedgerGuard.Access.Mutating

open Raising Transition

inductive MutationResponse
  | storeCreated (id : String) (lockVersion : ℕ)
  | pairingCode (token expiresAt mode : String)
  | linkUnresolved
  | linkStatus (status paymentId : String)
  | disconnected
  | webhookSecret (destinationUrl : String) (lockVersion : ℕ)
  | findingAction (id state : String) (lockVersion : ℕ)
  | reportRequested (id : String)
  | policyUpdated (policyVersion lockVersion : ℕ)
  | memberInvited (token expiresAt : String)
  | membershipUpdated
  | supportRevoked
  | supportGranted (id expiresAt : String)
  | alertRoute (id : String) (active : Bool)
  | deletionPending
  | organizationPolicy (retentionDays : ℕ) (alertsEnabled : Bool) (lockVersion : ℕ)

def MutationResponse.toResponse : MutationResponse → JsonResponse
  | storeCreated id lockVersion =>
    ⟨[("id", .str id), ("location", .str ("/stores/" ++ id ++ "/")),
      ("lock_version", .int lockVersion)], 201⟩
  | pairingCode token expiresAt mode =>
    ⟨[("pairing_code", .str token), ("expires_at", .str expiresAt), ("mode", .str mode)], 201⟩
  | linkUnresolved =>
    ⟨[("status", .str "conflict"), ("detail",
      .str "An exact identifier does not resolve in the selected account and mode.")], 200⟩
  | linkStatus status paymentId => ⟨[("status", .str status), ("payment_id", .str paymentId)], 200⟩
  | disconnected => ⟨[("status", .str "disconnected")], 200⟩
  | webhookSecret destinationUrl lockVersion =>
    ⟨[("destination_url", .str destinationUrl), ("lock_version", .int lockVersion)], 200⟩
  | findingAction id state lockVersion =>
    ⟨[("id", .str id), ("state", .str state), ("lock_version", .int lockVersion),
      ("location", .str ("/findings/" ++ id ++ "/"))], 200⟩
  | reportRequested id =>
    ⟨[("id", .str id), ("status", .str "pending"), ("location", .str ("/reports/" ++ id ++ "/"))],
      202⟩
  | policyUpdated policyVersion lockVersion =>
    ⟨[("policy_version", .int policyVersion), ("lock_version", .int lockVersion)], 200⟩
  | memberInvited token expiresAt =>
    ⟨[("invitation_token", .str token), ("expires_at", .str expiresAt)], 201⟩
  | membershipUpdated => ⟨[("status", .str "updated")], 200⟩
  | supportRevoked => ⟨[("status", .str "revoked")], 200⟩
  | supportGranted id expiresAt => ⟨[("id", .str id), ("expires_at", .str expiresAt)], 201⟩
  | alertRoute id active => ⟨[("id", .str id), ("active", .bool active)], 200⟩
  | deletionPending => ⟨[("status", .str "deletion_pending")], 202⟩
  | organizationPolicy retentionDays alertsEnabled lockVersion =>
    ⟨[("retention_days", .int retentionDays), ("alerts_enabled", .bool alertsEnabled),
      ("lock_version", .int lockVersion)], 200⟩

theorem MutationResponse.status_lt (a : MutationResponse) : a.toResponse.status < 400 := by
  cases a <;> simp [toResponse]

theorem MutationResponse.not_sealed (a : MutationResponse) :
    a.toResponse.content.lookup "sealed_response" = none := by
  cases a <;> rfl

variable {ω : Type}

/-- How far a transaction has come since it locked the organization. -/
inductive Phase (ω : Type)
  | locked
  /-- There is no live record. -/
  | running
  /-- The view has returned, with what it writes. -/
  | viewed (answer : MutationResponse) (write : Tables ω → Tables ω)
  /-- The response is known; a replay writes nothing. -/
  | ready (response : JsonResponse) (write : Option (Db ω → Db ω))

structure Transaction (ω : Type) where
  ctx : TenantContext
  r : Request
  phase : Phase ω := .locked

section Step

variable (sha256 : String → String) (crypto : Crypto)
  (effects : TenantContext → Request → Tables ω →
    Except Raised (MutationResponse × (Tables ω → Tables ω)))

/-- The record of the key, read under the lock. -/
def lookUp (ctx : TenantContext) (r : Request) (db : Db ω) : Except Raised (Phase ω) :=
  match db.existing ctx r with
  | none => .ok .running
  | some e =>
    if r.now < e.expiresAt then
      if e.requestHash ≠ sha256 r.body then .error (.refused "IDEMPOTENCY_KEY_CONFLICT" 409)
      else do
        let value ← e.unseal crypto ctx
        .ok (.ready ⟨value, e.responseStatus⟩ none)
    else .ok .running

def viewChecks (ctx : TenantContext) (r : Request) : Except Raised Unit := do
  requireRole r.mutation.roles ctx.role
  if r.mutation.recentAuth then requireRecentAuth r

def runView (ctx : TenantContext) (r : Request) (db : Db ω) : Except Raised (Phase ω) := do
  viewChecks ctx r
  let (answer, write) ← effects ctx r db.tables
  .ok (.viewed answer write)

def newRecord (ctx : TenantContext) (r : Request) (response : JsonResponse) (stored : Object) :
    IdempotencyRecord where
  id := r.recordId
  organizationId := ctx.organizationId
  principal := toString ctx.user.pk
  route := r.path
  key := r.idempotencyKey
  requestHash := sha256 r.body
  response := stored
  responseStatus := response.status
  expiresAt := r.savedAt + minutes (24 * 60)

/-- Seal and save an accepted response; an expired record is gone by then. -/
def save (ctx : TenantContext) (r : Request) (answer : MutationResponse)
    (write : Tables ω → Tables ω) : Except Raised (Phase ω) :=
  if answer.toResponse.status < 400 then do
    let stored ← sealResponse crypto ctx r answer.toResponse.content
    .ok (.ready answer.toResponse (some fun db => ⟨write db.tables,
      db.records.eraseP (·.isFor ctx r) ++ [newRecord sha256 ctx r answer.toResponse stored]⟩))
  else .ok (.ready answer.toResponse (some fun db =>
    ⟨write db.tables, db.records.eraseP (·.isFor ctx r)⟩))

def Transaction.next (x : Transaction ω) (db : Db ω) : Except Raised (Phase ω) :=
  match x.phase with
  | .locked => lookUp sha256 crypto x.ctx x.r db
  | .running => runView effects x.ctx x.r db
  | .viewed answer write => save sha256 crypto x.ctx x.r answer write
  | .ready response write => .ok (.ready response write)

def Transaction.reading (x : Transaction ω) : Option Instant :=
  match x.phase with
  | .locked => some x.r.now
  | .viewed _ _ => some x.r.savedAt
  | _ => none

/-- The rows of one organization, the transaction that has locked it, and the last time that the
clock showed. -/
structure World (ω : Type) where
  db : Db ω
  clock : Instant
  holder : Option (Transaction ω) := none
  erased : Bool := false

inductive Event
  /-- A request that `tenant_view` has let in. -/
  | lock (ctx : TenantContext) (r : Request)
  | work
  | raised (ctx : TenantContext) (r : Request) (e : Raised)
  /-- The process dies, or the connection does. -/
  | died (ctx : TenantContext) (r : Request)
  /-- Whether the view ran in the transaction, or a stored response is replayed. -/
  | committed (ctx : TenantContext) (r : Request) (response : JsonResponse) (fresh : Bool)
  | retain (now : Instant)
  | erase
  /-- Other transactions, which do not take the lock, write other tables. -/
  | change

inductive Step : World ω → Event → World ω → Prop
  | lock {w ctx r} (h : w.holder = none) (hkey : validKey r.idempotencyKey = true)
      (herased : w.erased = false) :
      Step w (.lock ctx r) { w with holder := some { ctx, r } }
  | work {w x phase} (h : w.holder = some x) (hclock : w.clock ≤ x.reading.getD w.clock)
      (hnext : x.next sha256 crypto effects w.db = .ok phase) :
      Step w .work { w with clock := x.reading.getD w.clock, holder := some { x with phase } }
  | raised {w x e} (h : w.holder = some x) (hclock : w.clock ≤ x.reading.getD w.clock)
      (hnext : x.next sha256 crypto effects w.db = .error e) :
      Step w (.raised x.ctx x.r e) { w with clock := x.reading.getD w.clock, holder := none }
  | died {w x} (h : w.holder = some x) : Step w (.died x.ctx x.r) { w with holder := none }
  | committed {w x response write} (h : w.holder = some x) (hready : x.phase = .ready response write) :
      Step w (.committed x.ctx x.r response write.isSome)
        { w with db := write.elim w.db fun f => f w.db, holder := none }
  | retain {w now} (hclock : w.clock ≤ now) :
      Step w (.retain now)
        { w with
          clock := now
          db.records := w.db.records.filter fun e => !decide (e.expiresAt < now) }
  /-- The row of the organization is locked, and deleted with all others. -/
  | erase {w tables} (h : w.holder = none) :
      Step w .erase { w with db := { tables }, erased := true }
  | change {w tables} : Step w .change { w with db.tables := tables }

end Step

section Alone

variable {sha256 : String → String} {crypto : Crypto}
  {effects : TenantContext → Request → Tables ω →
    Except Raised (MutationResponse × (Tables ω → Tables ω))}
  {ctx : TenantContext} {r : Request} {db : Db ω}

def viewBody (effects : TenantContext → Request → Tables ω →
    Except Raised (MutationResponse × (Tables ω → Tables ω))) (ctx : TenantContext) (r : Request)
    (t : Tables ω) : Except Raised (JsonResponse × Tables ω) := do
  let (answer, write) ← effects ctx r t
  .ok (answer.toResponse, write t)

def Transaction.drive (sha256 : String → String) (crypto : Crypto)
    (effects : TenantContext → Request → Tables ω →
      Except Raised (MutationResponse × (Tables ω → Tables ω))) (db : Db ω) (x : Transaction ω) :
    ℕ → Except Raised (Transaction ω)
  | 0 => .ok x
  | n + 1 => do
    let phase ← x.next sha256 crypto effects db
    { x with phase }.drive sha256 crypto effects db n

/-- The response and the database of a transaction that is ready. -/
def Transaction.commit (db : Db ω) (x : Transaction ω) : Except Raised (JsonResponse × Db ω) :=
  match x.phase with
  | .ready response write => .ok (response, write.elim db fun f => f db)
  | _ => .error .other

theorem drive_succ {n : ℕ} {x : Transaction ω} : x.drive sha256 crypto effects db (n + 1) =
    (x.next sha256 crypto effects db).bind fun phase =>
      { x with phase }.drive sha256 crypto effects db n := rfl

theorem view_eq {body : TenantContext → Request → Tables ω →
    Except Raised (JsonResponse × Tables ω)} {t : Tables ω} :
    view body ctx r t = (viewChecks ctx r).bind fun _ => body ctx r t := by
  unfold view viewChecks
  cases requireRole r.mutation.roles ctx.role with
  | error e => rfl
  | ok _ => cases r.mutation.recentAuth <;> rfl

theorem drive_running :
    (Transaction.drive sha256 crypto effects db { ctx, r, phase := .running } 2).bind (·.commit db) =
      respond sha256 crypto (viewBody effects) ctx r
        { db with records := db.records.eraseP (·.isFor ctx r) } := by
  simp only [Transaction.drive, Transaction.next, runView, respond, view_eq, viewBody, bind,
    Except.bind]
  cases viewChecks ctx r with
  | error e => rfl
  | ok _ =>
    dsimp only
    cases effects ctx r db.tables with
    | error e => rfl
    | ok v =>
      simp only [save, if_pos v.1.status_lt, bind, Except.bind]
      cases sealResponse crypto ctx r v.1.toResponse.content <;> rfl

theorem alone_eq_idempotent (hkey : validKey r.idempotencyKey = true) :
    (Transaction.drive sha256 crypto effects db { ctx, r } 3).bind (·.commit db) =
      idempotent sha256 crypto (viewBody effects) ctx r db := by
  have hrunning : lookUp sha256 crypto ctx r db = .ok .running →
      (Transaction.drive sha256 crypto effects db { ctx, r } 3).bind (·.commit db) =
        respond sha256 crypto (viewBody effects) ctx r
          { db with records := db.records.eraseP (·.isFor ctx r) } := by
    intro h
    rw [← drive_running, drive_succ, Transaction.next, h]
    rfl
  rw [idempotent, if_neg (by rw [hkey]; exact Bool.noConfusion)]
  cases he : db.existing ctx r with
  | none =>
    rw [hrunning (by rw [lookUp, he]), List.eraseP_of_forall_not]
    intro e hmem hfor
    exact List.find?_eq_none.mp he e hmem hfor
  | some e =>
    dsimp only
    by_cases hlive : r.now < e.expiresAt
    · rw [if_pos hlive]
      simp only [Transaction.drive, Transaction.next, lookUp, he, if_pos hlive, bind, Except.bind]
      by_cases hh : e.requestHash ≠ sha256 r.body
      · simp only [if_pos hh]
      · simp only [if_neg hh]
        cases e.unseal crypto ctx <;> rfl
    · rw [if_neg hlive]
      exact hrunning (by rw [lookUp, he]; exact if_neg hlive)

end Alone

/-- What the unique constraint of the records is about. -/
def slot (e : IdempotencyRecord) : String × String × String × String :=
  (e.organizationId, e.principal, e.route, e.key)

def slotOf (ctx : TenantContext) (r : Request) : String × String × String × String :=
  (ctx.organizationId, toString ctx.user.pk, r.path, r.idempotencyKey)

/-- The secrets of a record can be opened again. -/
def Sound (crypto : Crypto) : Prop :=
  ∀ value organization record kind sealed,
    crypto.encryptSecret value organization record kind = .ok sealed →
      crypto.decryptSecret sealed organization record kind = .ok value

section Records

variable {sha256 : String → String} {crypto : Crypto} {ctx ctx' : TenantContext} {r : Request}
  {db : Db ω} {e : IdempotencyRecord} {answer : MutationResponse} {stored : Object}

theorem isFor_eq : (fun e : IdempotencyRecord => e.isFor ctx r) =
    fun e => decide (slot e = slotOf ctx r) := by
  ext e
  simp [IdempotencyRecord.isFor, slot, slotOf, Prod.ext_iff, Bool.and_assoc]

theorem existing_eq : db.existing ctx r = db.records.find? (slot · = slotOf ctx r) := by
  rw [Db.existing, isFor_eq]

theorem slot_newRecord {response : JsonResponse} :
    slot (newRecord sha256 ctx r response stored) = slotOf ctx r := rfl

theorem unseal_saved (hcrypto : Sound crypto)
    (hs : sealResponse crypto ctx r answer.toResponse.content = .ok stored)
    (hctx : ctx'.organizationId = ctx.organizationId) :
    (newRecord sha256 ctx r answer.toResponse stored).unseal crypto ctx' =
      .ok answer.toResponse.content := by
  unfold sealResponse at hs
  unfold IdempotencyRecord.unseal newRecord
  dsimp only
  split at hs
  · obtain ⟨sealed, he, hs⟩ := bind_eq_ok.mp hs
    obtain rfl := Except.ok.inj hs
    rw [List.lookup_cons_self, hctx]
    exact hcrypto _ _ _ _ _ he
  · obtain rfl := Except.ok.inj hs
    rw [answer.not_sealed]

end Records

def day : Duration := minutes (24 * 60)

section Once

variable {sha256 : String → String} {crypto : Crypto}
  {effects : TenantContext → Request → Tables ω →
    Except Raised (MutationResponse × (Tables ω → Tables ω))}
  {w w' : World ω} {events : List Event} {event : Event} {x : Transaction ω} {phase : Phase ω}

/-- What the effects of a transaction mean for a later one with its key on the same day, up to
hashes. -/
def Settles (sha256 : String → String) : Event → Event → Prop
  | .committed ctx r response true, .committed ctx' r' response' fresh' =>
    slotOf ctx' r' = slotOf ctx r → r'.now < r.now + day →
      sha256 r'.body = sha256 r.body ∧ response' = response ∧ fresh' = false
  | .committed ctx r _ true, .raised ctx' r' e =>
    slotOf ctx' r' = slotOf ctx r → r'.now < r.now + day →
      sha256 r'.body ≠ sha256 r.body ∧ e = .refused "IDEMPOTENCY_KEY_CONFLICT" 409
  | _, _ => True

section Commit

variable (sha256 crypto) (ctx : TenantContext) (r : Request) (response : JsonResponse)

def Recorded (w : World ω) : Prop :=
  w.erased = false → w.clock < r.now + day →
    ∃ e, w.db.records.find? (slot · = slotOf ctx r) = some e ∧ e.requestHash = sha256 r.body ∧
      r.now + day ≤ e.expiresAt ∧ e.responseStatus = response.status ∧
      ∀ ctx' : TenantContext, ctx'.organizationId = ctx.organizationId →
        e.unseal crypto ctx' = .ok response.content

/-- A transaction after a commit with its key has read nothing yet, or replays it. -/
def Follows (x : Transaction ω) : Prop :=
  slotOf x.ctx x.r = slotOf ctx r → x.r.now < r.now + day →
    x.phase = .locked ∨ (x.phase = .ready response none ∧ sha256 x.r.body = sha256 r.body)

end Commit

def Transaction.Prepared (sha256 : String → String) (crypto : Crypto) (clock : Instant)
    (x : Transaction ω) : Prop :=
  (x.phase ≠ .locked → x.r.now ≤ clock) ∧
  ∀ response f, x.phase = .ready response (some f) →
    ∃ (answer : MutationResponse) (write : Tables ω → Tables ω) (stored : Object),
    response = answer.toResponse ∧ x.r.now ≤ x.r.savedAt ∧
    sealResponse crypto x.ctx x.r answer.toResponse.content = .ok stored ∧
    f = fun db => ⟨write db.tables, db.records.eraseP (·.isFor x.ctx x.r) ++
      [newRecord sha256 x.ctx x.r answer.toResponse stored]⟩

structure Consistent (sha256 : String → String) (crypto : Crypto) (events : List Event)
    (w : World ω) : Prop where
  unique : (w.db.records.map slot).Nodup
  present : ∀ x, w.holder = some x → w.erased = false
  recorded : ∀ ctx r response, .committed ctx r response true ∈ events →
    Recorded sha256 crypto ctx r response w
  prepared : ∀ x, w.holder = some x → x.Prepared sha256 crypto w.clock
  follows : ∀ x, w.holder = some x → ∀ ctx r response, .committed ctx r response true ∈ events →
    Follows sha256 ctx r response x
  settled : events.Pairwise (Settles sha256)

theorem mem_of_not_fresh (hevent : ∀ ctx r response, event ≠ .committed ctx r response true)
    {ctx : TenantContext} {r : Request} {response : JsonResponse}
    (h : Event.committed ctx r response true ∈ events ++ [event]) :
    Event.committed ctx r response true ∈ events := by
  rcases List.mem_append.mp h with h | h
  · exact h
  · exact absurd (List.mem_singleton.mp h).symm (hevent ctx r response)

theorem settled_extend (h : events.Pairwise (Settles sha256))
    (hsettles : ∀ a ∈ events, Settles sha256 a event) :
    (events ++ [event]).Pairwise (Settles sha256) := by
  rw [List.pairwise_append]
  refine ⟨h, List.pairwise_singleton _ _, ?_⟩
  intro a ha b hb
  obtain rfl := List.mem_singleton.mp hb
  exact hsettles a ha

theorem Consistent.extend (h : Consistent sha256 crypto events w)
    (hrecords : w'.db.records = w.db.records) (herased : w'.erased = w.erased)
    (hclock : w.clock ≤ w'.clock)
    (hevent : ∀ ctx r response, event ≠ .committed ctx r response true)
    (hholder : ∀ x, w'.holder = some x → w.erased = false ∧ x.Prepared sha256 crypto w'.clock ∧
      ∀ ctx r response, .committed ctx r response true ∈ events → Follows sha256 ctx r response x)
    (hsettles : ∀ a ∈ events, Settles sha256 a event) :
    Consistent sha256 crypto (events ++ [event]) w' := by
  constructor
  · rw [hrecords]
    exact h.unique
  · intro x hx
    rw [herased]
    exact (hholder x hx).1
  · intro ctx r response ha he hlt
    rw [hrecords]
    exact h.recorded ctx r response (mem_of_not_fresh hevent ha) (herased ▸ he)
      (hclock.trans_lt hlt)
  · intro x hx
    exact (hholder x hx).2.1
  · intro x hx ctx r response ha
    exact (hholder x hx).2.2 ctx r response (mem_of_not_fresh hevent ha)
  · exact settled_extend h.settled hsettles

theorem lookUp_recorded {ctx : TenantContext} {r : Request} {response : JsonResponse}
    (h : Recorded sha256 crypto ctx r response w) (herased : w.erased = false)
    (hclock : w.clock ≤ x.r.now) (hslot : slotOf x.ctx x.r = slotOf ctx r)
    (hsoon : x.r.now < r.now + day) :
    lookUp sha256 crypto x.ctx x.r w.db =
      if sha256 x.r.body = sha256 r.body then .ok (.ready response none)
      else .error (.refused "IDEMPOTENCY_KEY_CONFLICT" 409) := by
  obtain ⟨e, hfind, hhash, hexpires, hstatus, hvalue⟩ := h herased (hclock.trans_lt hsoon)
  rw [lookUp, existing_eq, hslot, hfind]
  dsimp only
  rw [if_pos (hsoon.trans_le hexpires), hhash]
  by_cases hbody : sha256 x.r.body = sha256 r.body
  · rw [if_neg (not_not.mpr hbody.symm), if_pos hbody, hvalue x.ctx (congrArg Prod.fst hslot),
      hstatus]
    rfl
  · rw [if_pos (Ne.symm hbody), if_neg hbody]

theorem Follows.elim {ctx : TenantContext} {r : Request} {response : JsonResponse}
    (h : Follows sha256 ctx r response x) (hlocked : x.phase ≠ .locked)
    (hready : x.phase ≠ .ready response none) :
    ¬ (slotOf x.ctx x.r = slotOf ctx r ∧ x.r.now < r.now + day) := by
  rintro ⟨hslot, hsoon⟩
  rcases h hslot hsoon with hp | ⟨hp, -⟩
  · exact hlocked hp
  · exact hready hp

theorem lookUp_ready {ctx : TenantContext} {r : Request} {db : Db ω} {response : JsonResponse}
    {write : Option (Db ω → Db ω)}
    (h : lookUp sha256 crypto ctx r db = .ok (.ready response write)) : write = none := by
  unfold lookUp at h
  split at h
  · cases h
  · split at h
    · split at h
      · cases h
      · obtain ⟨value, -, hv⟩ := bind_eq_ok.mp h
        exact (Phase.ready.inj (Except.ok.inj hv)).2.symm
    · cases h

theorem runView_ok {ctx : TenantContext} {r : Request} {db : Db ω}
    (h : runView effects ctx r db = .ok phase) : ∃ answer write, phase = .viewed answer write := by
  obtain ⟨_, -, h⟩ := bind_eq_ok.mp h
  obtain ⟨v, -, h⟩ := bind_eq_ok.mp h
  exact ⟨v.1, v.2, (Except.ok.inj h).symm⟩

theorem save_ok {ctx : TenantContext} {r : Request} {answer : MutationResponse}
    {write : Tables ω → Tables ω} (h : save sha256 crypto ctx r answer write = .ok phase) :
    ∃ stored, sealResponse crypto ctx r answer.toResponse.content = .ok stored ∧
      phase = .ready answer.toResponse (some fun db => ⟨write db.tables,
        db.records.eraseP (·.isFor ctx r) ++ [newRecord sha256 ctx r answer.toResponse stored]⟩) := by
  rw [save, if_pos answer.status_lt] at h
  obtain ⟨stored, hstored, h⟩ := bind_eq_ok.mp h
  exact ⟨stored, hstored, (Except.ok.inj h).symm⟩

theorem Transaction.Prepared.next {clock : Instant} (h : x.Prepared sha256 crypto clock)
    (hclock : clock ≤ x.reading.getD clock) {db : Db ω}
    (hnext : x.next sha256 crypto effects db = .ok phase) :
    { x with phase }.Prepared sha256 crypto (x.reading.getD clock) := by
  obtain ⟨ctx, r, p⟩ := x
  cases p with
  | locked =>
    refine ⟨fun _ => le_rfl, fun response f hready => ?_⟩
    have hnone := lookUp_ready (hnext.trans (congrArg Except.ok hready))
    cases hnone
  | running =>
    obtain ⟨answer, write, rfl⟩ := runView_ok hnext
    exact ⟨fun _ => h.1 nofun, fun response f hready => nomatch hready⟩
  | viewed answer write =>
    obtain ⟨stored, hstored, rfl⟩ := save_ok hnext
    have hnow : r.now ≤ r.savedAt := (h.1 nofun).trans hclock
    refine ⟨fun _ => hnow, fun response f hready => ?_⟩
    obtain ⟨rfl, hf⟩ := Phase.ready.inj hready
    exact ⟨answer, write, stored, rfl, hnow, hstored, (Option.some.inj hf).symm⟩
  | ready response write =>
    obtain rfl := Except.ok.inj hnext
    exact ⟨fun _ => h.1 nofun, h.2⟩

theorem Follows.next {ctx : TenantContext} {r : Request} {response : JsonResponse}
    (h : Follows sha256 ctx r response x) (hrecorded : Recorded sha256 crypto ctx r response w)
    (herased : w.erased = false) (hclock : w.clock ≤ x.reading.getD w.clock)
    (hnext : x.next sha256 crypto effects w.db = .ok phase) :
    Follows sha256 ctx r response { x with phase } := by
  rintro hslot hsoon
  right
  obtain ⟨ctx', r', p⟩ := x
  cases p with
  | locked =>
    have hfound := lookUp_recorded hrecorded herased hclock hslot hsoon
    rw [show lookUp sha256 crypto ctx' r' w.db = .ok phase from hnext] at hfound
    split at hfound
    case isTrue hbody => exact ⟨Except.ok.inj hfound, hbody⟩
    case isFalse => cases hfound
  | ready response' write =>
    obtain rfl := Except.ok.inj hnext
    exact (h hslot hsoon).resolve_left nofun
  | _ => exact absurd ⟨hslot, hsoon⟩ (h.elim nofun nofun)

theorem Follows.raised {ctx : TenantContext} {r : Request} {response : JsonResponse} {e : Raised}
    (h : Follows sha256 ctx r response x) (hrecorded : Recorded sha256 crypto ctx r response w)
    (herased : w.erased = false) (hclock : w.clock ≤ x.reading.getD w.clock)
    (hnext : x.next sha256 crypto effects w.db = .error e)
    (hslot : slotOf x.ctx x.r = slotOf ctx r) (hsoon : x.r.now < r.now + day) :
    sha256 x.r.body ≠ sha256 r.body ∧ e = .refused "IDEMPOTENCY_KEY_CONFLICT" 409 := by
  obtain ⟨ctx', r', p⟩ := x
  cases p with
  | locked =>
    have hfound := lookUp_recorded hrecorded herased hclock hslot hsoon
    rw [show lookUp sha256 crypto ctx' r' w.db = .error e from hnext] at hfound
    split at hfound
    case isTrue => cases hfound
    case isFalse hbody => exact ⟨hbody, Except.error.inj hfound⟩
  | ready response' write => cases hnext
  | _ => exact absurd ⟨hslot, hsoon⟩ (h.elim nofun nofun)

/-- Events that are no answer to a request. -/
def Event.quiet : Event → Bool
  | .raised .. | .committed .. => false
  | _ => true

theorem settles_quiet {a : Event} (h : event.quiet = true) : Settles sha256 a event := by
  cases a with
  | committed ctx r response fresh =>
    cases fresh with
    | true => cases event <;> trivial
    | false => cases event <;> trivial
  | _ => trivial

theorem settles_raised {a : Event} {ctx' : TenantContext} {r' : Request} {e : Raised}
    (h : ∀ ctx r response, a = .committed ctx r response true → slotOf ctx' r' = slotOf ctx r →
      r'.now < r.now + day →
        sha256 r'.body ≠ sha256 r.body ∧ e = .refused "IDEMPOTENCY_KEY_CONFLICT" 409) :
    Settles sha256 a (.raised ctx' r' e) := by
  cases a with
  | committed ctx r response fresh =>
    cases fresh with
    | true => exact h ctx r response rfl
    | false => trivial
  | _ => trivial

theorem settles_committed {a : Event} {ctx' : TenantContext} {r' : Request}
    {response' : JsonResponse} {fresh' : Bool}
    (h : ∀ ctx r response, a = .committed ctx r response true → slotOf ctx' r' = slotOf ctx r →
      r'.now < r.now + day →
        sha256 r'.body = sha256 r.body ∧ response' = response ∧ fresh' = false) :
    Settles sha256 a (.committed ctx' r' response' fresh') := by
  cases a with
  | committed ctx r response fresh =>
    cases fresh with
    | true => exact h ctx r response rfl
    | false => trivial
  | _ => trivial

theorem Consistent.committed (hcrypto : Sound crypto) (h : Consistent sha256 crypto events w)
    (hx : w.holder = some x) {response : JsonResponse} {f : Db ω → Db ω}
    (hready : x.phase = .ready response (some f)) :
    Consistent sha256 crypto (events ++ [.committed x.ctx x.r response true])
      { w with db := f w.db, holder := none } := by
  have hprep := h.prepared x hx
  obtain ⟨answer, write, stored, rfl, hsaved, hstored, rfl⟩ := hprep.2 response f hready
  have hlocked : x.phase ≠ .locked := by simp [hready]
  have hnow : x.r.now ≤ w.clock := hprep.1 hlocked
  have hapart : ∀ ctx r response, Event.committed ctx r response true ∈ events →
      ¬ (slotOf x.ctx x.r = slotOf ctx r ∧ x.r.now < r.now + day) := by
    intro ctx r response ha
    apply (h.follows x hx ctx r response ha).elim hlocked
    rw [hready]
    intro hp
    cases (Phase.ready.inj hp).2
  have hslot : slot (newRecord sha256 x.ctx x.r answer.toResponse stored) = slotOf x.ctx x.r := rfl
  have hfind := Table.find_replaced h.unique hslot
  constructor
  · dsimp only
    rw [isFor_eq]
    exact Table.nodup_replaced h.unique hslot
  · intro x' hx'
    cases hx'
  · intro ctx r response ha he hlt
    dsimp only
    rw [isFor_eq]
    rcases List.mem_append.mp ha with ha | ha
    · have hne : slotOf ctx r ≠ slotOf x.ctx x.r := fun hs =>
        hapart ctx r response ha ⟨hs.symm, hnow.trans_lt hlt⟩
      rw [Table.find_other hslot hne]
      exact h.recorded ctx r response ha he hlt
    · obtain ⟨rfl, rfl, rfl, -⟩ := Event.committed.inj (List.mem_singleton.mp ha)
      refine ⟨_, hfind, rfl, ?_, rfl, fun ctx' hctx => ?_⟩
      · exact Int.add_le_add_right hsaved day
      · exact unseal_saved hcrypto hstored hctx
  · intro x' hx'
    cases hx'
  · intro x' hx'
    cases hx'
  · apply settled_extend h.settled
    intro a ha
    apply settles_committed
    rintro ctx r response rfl hs hsoon
    exact absurd ⟨hs, hsoon⟩ (hapart ctx r response ha)

theorem Consistent.retain (h : Consistent sha256 crypto events w) {now : Instant}
    (hclock : w.clock ≤ now) : Consistent sha256 crypto (events ++ [.retain now])
      { w with
        clock := now
        db.records := w.db.records.filter fun e => !decide (e.expiresAt < now) } := by
  have hunique : ((w.db.records.filter fun e => !decide (e.expiresAt < now)).map slot).Nodup :=
    h.unique.sublist (List.filter_sublist.map slot)
  have hevent : ∀ ctx r response, Event.retain now ≠ .committed ctx r response true := by
    intro ctx r response he
    cases he
  constructor
  · exact hunique
  · exact h.present
  · intro ctx r response ha he hlt
    obtain ⟨e, hfind, hrest⟩ :=
      h.recorded ctx r response (mem_of_not_fresh hevent ha) he (hclock.trans_lt hlt)
    refine ⟨e, ?_, hrest⟩
    have hmem := List.mem_of_find?_eq_some hfind
    have hs : slot e = slotOf ctx r := by simpa using List.find?_some hfind
    rw [← hs]
    apply Ordered.find?_of_nodup hunique
    rw [List.mem_filter]
    exact ⟨hmem, by simpa using (hlt.trans_le hrest.2.1).le⟩
  · intro x hx
    exact ⟨fun hp => ((h.prepared x hx).1 hp).trans hclock, (h.prepared x hx).2⟩
  · intro x hx ctx r response ha
    exact h.follows x hx ctx r response (mem_of_not_fresh hevent ha)
  · exact settled_extend h.settled fun a _ => settles_quiet rfl

theorem Consistent.erase (h : Consistent sha256 crypto events w) (hnone : w.holder = none)
    {tables : Tables ω} : Consistent sha256 crypto (events ++ [.erase])
      { w with db := { tables }, erased := true } := by
  have habsent : ∀ x, w.holder ≠ some x := by
    intro x hx
    rw [hnone] at hx
    cases hx
  constructor
  · exact List.nodup_nil
  · intro x hx
    exact absurd hx (habsent x)
  · intro ctx r response _ he
    cases he
  · intro x hx
    exact absurd hx (habsent x)
  · intro x hx
    exact absurd hx (habsent x)
  · exact settled_extend h.settled fun a _ => settles_quiet rfl

theorem not_held {p : Transaction ω → Prop} (x : Transaction ω)
    (h : (none : Option (Transaction ω)) = some x) : p x := by
  cases h

theorem Consistent.step (hcrypto : Sound crypto) (h : Consistent sha256 crypto events w)
    (hstep : Step sha256 crypto effects w event w') :
    Consistent sha256 crypto (events ++ [event]) w' := by
  cases hstep with
  | @lock ctx r hnone hkey herased =>
    refine h.extend rfl rfl le_rfl (fun _ _ _ he => by cases he) ?_ fun a _ => settles_quiet rfl
    rintro x hx
    obtain rfl := Option.some.inj hx
    refine ⟨herased, ⟨fun hp => absurd rfl hp, fun response f hready => by cases hready⟩, ?_⟩
    rintro ctx' r' response - - -
    exact Or.inl rfl
  | @work x phase hx hclock hnext =>
    have herased := h.present x hx
    refine h.extend rfl rfl hclock (fun _ _ _ he => by cases he) ?_ fun a _ => settles_quiet rfl
    rintro x' hx'
    obtain rfl := Option.some.inj hx'
    refine ⟨herased, (h.prepared x hx).next hclock hnext, fun ctx r response ha => ?_⟩
    exact (h.follows x hx ctx r response ha).next (h.recorded ctx r response ha) herased hclock hnext
  | @raised x e hx hclock hnext =>
    refine h.extend rfl rfl hclock (fun _ _ _ he => by cases he) not_held fun a ha =>
      settles_raised ?_
    rintro ctx r response rfl hslot hsoon
    exact (h.follows x hx ctx r response ha).raised (h.recorded ctx r response ha) (h.present x hx)
      hclock hnext hslot hsoon
  | @died x hx =>
    exact h.extend rfl rfl le_rfl (fun _ _ _ he => by cases he) not_held fun a _ =>
      settles_quiet rfl
  | @committed x response write hx hready =>
    cases write with
    | some f => exact h.committed hcrypto hx hready
    | none =>
      refine h.extend rfl rfl le_rfl (fun _ _ _ he => by cases he) not_held fun a ha =>
        settles_committed ?_
      rintro ctx r response' rfl hslot hsoon
      rcases h.follows x hx ctx r response' ha hslot hsoon with hl | ⟨hr, hbody⟩
      · rw [hready] at hl
        cases hl
      · rw [hready] at hr
        exact ⟨hbody, (Phase.ready.inj hr).1, rfl⟩
  | retain hclock => exact h.retain hclock
  | erase hnone => exact h.erase hnone
  | change =>
    refine h.extend rfl rfl le_rfl (fun _ _ _ he => by cases he) ?_ fun a _ => settles_quiet rfl
    intro x hx
    exact ⟨h.present x hx, h.prepared x hx, h.follows x hx⟩

def Stems (initial : List IdempotencyRecord) (events : List Event) (w : World ω) : Prop :=
  ∀ e ∈ w.db.records, e ∈ initial ∨
    ∃ ctx r response, .committed ctx r response true ∈ events ∧ slot e = slotOf ctx r

theorem Stems.extend {initial : List IdempotencyRecord} (h : Stems initial events w)
    (hrecords : ∀ e ∈ w'.db.records, e ∈ w.db.records ∨
      ∃ ctx r response, .committed ctx r response true = event ∧ slot e = slotOf ctx r) :
    Stems initial (events ++ [event]) w' := by
  intro e he
  rcases hrecords e he with he | ⟨ctx, r, response, rfl, hs⟩
  · rcases h e he with hi | ⟨ctx, r, response, ha, hs⟩
    · exact Or.inl hi
    · exact Or.inr ⟨ctx, r, response, List.mem_append_left _ ha, hs⟩
  · exact Or.inr ⟨ctx, r, response, by simp, hs⟩

/-- Events that are no write to the rows: every end of a request but a commit of a view. -/
def Event.writes : Event → Bool
  | .committed _ _ _ fresh => fresh
  | .retain _ | .erase | .change => true
  | _ => false

theorem step_unchanged (hstep : Step sha256 crypto effects w event w')
    (hevent : event.writes = false) : w'.db = w.db := by
  cases hstep with
  | @committed x response write hx hready =>
    cases write with
    | some f => cases hevent
    | none => rfl
  | retain => cases hevent
  | erase => cases hevent
  | change => cases hevent
  | _ => rfl

theorem Stems.step {initial : List IdempotencyRecord} (hc : Consistent sha256 crypto events w)
    (h : Stems initial events w) (hstep : Step sha256 crypto effects w event w') :
    Stems initial (events ++ [event]) w' := by
  apply h.extend
  intro e he
  by_cases hevent : event.writes = false
  · rw [step_unchanged hstep hevent] at he
    exact Or.inl he
  · cases hstep with
    | @committed x response write hx hready =>
      cases write with
      | none => exact absurd rfl hevent
      | some f =>
        obtain ⟨answer, g, stored, -, -, -, rfl⟩ := (hc.prepared x hx).2 response f hready
        rcases List.mem_append.mp he with he | he
        · exact Or.inl (List.mem_of_mem_eraseP he)
        · obtain rfl := List.mem_singleton.mp he
          exact Or.inr ⟨_, _, _, rfl, slot_newRecord⟩
    | retain => exact Or.inl (List.mem_of_mem_filter he)
    | erase => cases he
    | change => exact Or.inl he
    | _ => exact absurd rfl hevent

theorem Stems.runs {initial : List IdempotencyRecord} (h : Stems initial events w)
    {ctx : TenantContext} {r : Request} (hinitial : ∀ e ∈ initial, slot e ≠ slotOf ctx r)
    (hevents : ∀ ctx' r' response, .committed ctx' r' response true ∈ events →
      slotOf ctx' r' ≠ slotOf ctx r) :
    lookUp sha256 crypto ctx r w.db = .ok .running := by
  have hnone : w.db.existing ctx r = none := by
    rw [existing_eq, List.find?_eq_none]
    intro e he
    rw [decide_eq_true_iff]
    rcases h e he with hi | ⟨ctx', r', response, ha, hs⟩
    · exact hinitial e hi
    · rw [hs]
      exact hevents ctx' r' response ha
  rw [lookUp, hnone]

/-- What a commit means for a later request with its key on the same day. -/
def Once : Event → Event → Prop
  | .committed ctx r response true, .committed ctx' r' response' fresh' =>
    slotOf ctx' r' = slotOf ctx r → r'.now < r.now + day →
      r'.body = r.body ∧ response' = response ∧ fresh' = false
  | .committed ctx r _ true, .raised ctx' r' e =>
    slotOf ctx' r' = slotOf ctx r → r'.now < r.now + day →
      r'.body ≠ r.body ∧ e = .refused "IDEMPOTENCY_KEY_CONFLICT" 409
  | _, _ => True

/-- The body of the request that an event ends. -/
def Event.body : Event → Option String
  | .raised _ r _ | .committed _ r _ _ => some r.body
  | _ => none

theorem Settles.once {a b : Event} (h : Settles sha256 a b)
    (hsha : ∀ x ∈ a.body, ∀ y ∈ b.body, sha256 y = sha256 x → y = x) : Once a b := by
  cases a with
  | committed ctx r response fresh =>
    cases fresh with
    | false => cases b <;> trivial
    | true =>
      cases b with
      | committed ctx' r' response' fresh' =>
        intro hslot hsoon
        obtain ⟨hbody, hrest⟩ := h hslot hsoon
        exact ⟨hsha _ rfl _ rfl hbody, hrest⟩
      | raised ctx' r' e =>
        intro hslot hsoon
        obtain ⟨hbody, he⟩ := h hslot hsoon
        exact ⟨fun hb => hbody (congrArg sha256 hb), he⟩
      | _ => trivial
  | _ => trivial

/-- The effects of a request are committed once a day: every later request with its key and body
replays the response, and one with another body is refused. No other end of a request writes
anything, and a request finds a record only after a commit with its key. -/
theorem mutations_take_effect_once (hcrypto : Sound crypto) {w₀ : World ω}
    (hholder : w₀.holder = none) (hunique : (w₀.db.records.map slot).Nodup)
    (hrun : Run (Step sha256 crypto effects) w₀ events w)
    (hsha : Set.InjOn sha256 {body | ∃ a ∈ events, a.body = some body}) :
    events.Pairwise Once ∧
    (∀ a (b b' : World ω), Step sha256 crypto effects b a b' → a.writes = false → b'.db = b.db) ∧
    ∀ ctx r, (∀ e ∈ w₀.db.records, slot e ≠ slotOf ctx r) →
      (∀ ctx' r' response, .committed ctx' r' response true ∈ events →
        slotOf ctx' r' ≠ slotOf ctx r) →
      lookUp sha256 crypto ctx r w.db = .ok .running := by
  have hinv : Consistent sha256 crypto events w ∧ Stems w₀.db.records events w := by
    refine hrun.invariant (I := fun events w => Consistent sha256 crypto events w ∧
      Stems w₀.db.records events w) ⟨?_, fun e he => Or.inl he⟩ ?_
    · constructor
      · exact hunique
      · intro x hx
        rw [hholder] at hx
        cases hx
      · intro ctx r response ha
        cases ha
      · intro x hx
        rw [hholder] at hx
        cases hx
      · intro x hx
        rw [hholder] at hx
        cases hx
      · exact List.Pairwise.nil
    · rintro as s a s' ⟨hc, hstems⟩ hstep
      exact ⟨hc.step hcrypto hstep, hstems.step hc hstep⟩
  refine ⟨?_, fun a b b' => step_unchanged, fun ctx r => hinv.2.runs⟩
  apply hinv.1.settled.imp_of_mem
  intro a b ha hb hab
  apply hab.once
  intro x hx y hy hxy
  exact hsha ⟨b, hb, hy⟩ ⟨a, ha, hx⟩ hxy

end Once

namespace Fixture

open LedgerGuard.Access.Fixture

theorem crypto_sound : Sound crypto := by
  intro value organization record kind sealed h
  obtain rfl := Except.ok.inj h
  simp [crypto]

def member : TenantContext := ⟨organizationId, admin, .member .admin⟩

/-- A store is created in the first minute, and the request is repeated in the fifth. -/
def first : Request := creation "01890a5d-ac96-774b-bcce-b302099a8059" 1

def again : Request := creation "01890a5d-ac96-774b-bcce-b302099a8060" 5

def created : MutationResponse := .storeCreated "01890a5d-ac96-774b-bcce-b302099a8058" 0

def insert (t : Tables Unit) : Tables Unit :=
  { t with
    resourceLocators :=
      t.resourceLocators ++ [⟨"01890a5d-ac96-774b-bcce-b302099a8058", organizationId⟩] }

def effects (_ : TenantContext) (_ : Request) (_ : Tables Unit) :
    Except Raised (MutationResponse × (Tables Unit → Tables Unit)) :=
  .ok (created, insert)

def before : World Unit := ⟨⟨tables .admin, []⟩, 0, none, false⟩

def saved (sha256 : String → String) : IdempotencyRecord :=
  newRecord sha256 member first created.toResponse created.toResponse.content

def after (sha256 : String → String) : World Unit :=
  ⟨⟨insert (tables .admin), [saved sha256]⟩, minutes 1, none, false⟩

def commit : List Event :=
  [.lock member first, .work, .work, .work, .committed member first created.toResponse true]

def replay : List Event :=
  [.lock member again, .work, .committed member again created.toResponse false]

def write (sha256 : String → String) (db : Db Unit) : Db Unit :=
  ⟨insert db.tables, db.records.eraseP (·.isFor member first) ++ [saved sha256]⟩

def held (db : Db Unit) (clock : Instant) (r : Request) (phase : Phase Unit) : World Unit :=
  ⟨db, clock, some ⟨member, r, phase⟩, false⟩

theorem run_commit (sha256 : String → String) :
    Run (Step sha256 crypto effects) before commit (after sha256) := by
  have hkey : validKey first.idempotencyKey = true := by decide
  have hclock : (0 : Instant) ≤ minutes 1 := by decide
  have h₁ : Run (Step sha256 crypto effects) before [.lock member first]
      (held before.db 0 first .locked) := Run.nil.snoc (Step.lock rfl hkey rfl)
  have h₂ : Run (Step sha256 crypto effects) before [.lock member first, .work]
      (held before.db (minutes 1) first .running) :=
    h₁.snoc (Step.work (x := ⟨member, first, .locked⟩) rfl hclock rfl)
  have h₃ : Run (Step sha256 crypto effects) before [.lock member first, .work, .work]
      (held before.db (minutes 1) first (.viewed created insert)) :=
    h₂.snoc (Step.work (x := ⟨member, first, .running⟩) rfl le_rfl rfl)
  have h₄ : Run (Step sha256 crypto effects) before [.lock member first, .work, .work, .work]
      (held before.db (minutes 1) first (.ready created.toResponse (some (write sha256)))) :=
    h₃.snoc (Step.work (x := ⟨member, first, .viewed created insert⟩) rfl le_rfl rfl)
  exact h₄.snoc (@Step.committed _ _ _ _ _ ⟨member, first, _⟩ _ (some (write sha256)) rfl rfl)

theorem run_replay (sha256 : String → String) :
    Run (Step sha256 crypto effects) before (commit ++ replay)
      ⟨(after sha256).db, minutes 5, none, false⟩ := by
  have hkey : validKey again.idempotencyKey = true := by decide
  have hclock : minutes 1 ≤ minutes 5 := by decide
  have hfound : lookUp sha256 crypto member again (after sha256).db =
      .ok (.ready created.toResponse none) := by
    have hfind : (after sha256).db.existing member again = some (saved sha256) := by
      rw [existing_eq]
      exact List.find?_cons_of_pos (by simp [saved, slot_newRecord, slotOf, first, again, creation])
    have hlive : minutes 5 < minutes 1 + minutes (24 * 60) := by decide
    have hhash : (saved sha256).requestHash = sha256 again.body := rfl
    rw [lookUp, hfind]
    dsimp only
    rw [if_pos (show again.now < (saved sha256).expiresAt from hlive), if_neg (not_not.mpr hhash)]
    rfl
  have h₁ : Run (Step sha256 crypto effects) before (commit ++ [.lock member again])
      (held (after sha256).db (minutes 1) again .locked) :=
    (run_commit sha256).snoc (Step.lock rfl hkey rfl)
  have h₂ : Run (Step sha256 crypto effects) before (commit ++ [.lock member again, .work])
      (held (after sha256).db (minutes 5) again (.ready created.toResponse none)) :=
    h₁.snoc (Step.work (x := ⟨member, again, .locked⟩) rfl hclock hfound)
  exact h₂.snoc (@Step.committed _ _ _ _ _ ⟨member, again, _⟩ _ none rfl rfl)

end Fixture

open LedgerGuard.Access.Fixture Fixture

/-- The repetition of a request replays its response. -/
theorem mutations_take_effect_once_creation :
    (commit ++ replay).Pairwise Once ∧
    (∀ a (b b' : World Unit), Step Sha256.hexdigest crypto effects b a b' → a.writes = false →
      b'.db = b.db) ∧
    ∀ ctx r, (∀ e ∈ before.db.records, slot e ≠ slotOf ctx r) →
      (∀ ctx' r' response, .committed ctx' r' response true ∈ commit ++ replay →
        slotOf ctx' r' ≠ slotOf ctx r) →
      lookUp Sha256.hexdigest crypto ctx r (after Sha256.hexdigest).db = .ok .running := by
  have hunique : (before.db.records.map slot).Nodup := List.nodup_nil
  apply mutations_take_effect_once crypto_sound rfl hunique (run_replay Sha256.hexdigest)
  rintro x ⟨a, ha, hx⟩ y ⟨b, hb, hy⟩ -
  have hbody : ∀ c ∈ commit ++ replay, ∀ body, c.body = some body → body = first.body := by
    intro c hc body hbody
    simp only [commit, replay, List.cons_append, List.nil_append, List.mem_cons,
      List.not_mem_nil, or_false] at hc
    rcases hc with rfl | rfl | rfl | rfl | rfl | rfl | rfl | rfl <;> cases hbody <;> rfl
  rw [hbody a ha x hx, hbody b hb y hy]

end LedgerGuard.Access.Mutating
