import LedgerGuard.Core.Decoding
import LedgerGuard.Findings.Notifications
import LedgerGuard.Lib.Transition

/-! # The mailroom of an organization

Runs of the notification queue: attempts that commit, fail or are rolled back,
the feedback of the provider and the changes of alert routes, in any order. A
journal records the mails that left and what was decided about routes and digests.
-/

namespace LedgerGuard.Notifications

open Raising Transition Workers

/-- What an attempt meets. The provider can take a mail though its call fails. -/
structure Turn where
  reads : Reads
  newId : String → String
  response : Except WorkFailure String
  taken : Bool := false

def Turn.takes (o : Turn) : Bool := o.response.isOk || o.taken

section

variable (sha256 : String → String) (c : Settings)

/-- `handle` of the work of the notification queue, which alone is in the outbox here. -/
def handle (o : Turn) (row : Outbox) (m : Mailroom) : Except WorkFailure Mailroom :=
  match row.taskType with
  | .notify => m.prepare o.newId o.reads row.resourceId
  | .securityNotify => m.security o.newId o.reads row.resourceId
  | .deliverEmail => m.deliver c o.response o.reads row.resourceId
  | .notifyDigest => m.digest sha256 o.newId o.reads row.id
  | _ => .error (.other "ValueError")

def conditions (o : Turn) (row : Outbox) (m : Mailroom) : Conditions where
  now := o.reads.start
  active := m.around.active
  deletionRequested := m.auditLog.any fun a => a.id = row.resourceId && a.action = deletionRequested
  deletionEmail := m.deliveries.rows.any fun d => d.id = row.resourceId &&
    m.auditLog.any fun a => d.cause = .securityEvent a.id && a.action = deletionRequested
  task := (handle sha256 c o row m).map fun _ => ()

def outgoing (row : Outbox) (m : Mailroom) : Option Mail :=
  match row.taskType, m.deliveries.get row.resourceId with
  | .deliverEmail, some d =>
    match m.plan c d with
    | .ok (.send mail) => some mail
    | _ => none
  | _, _ => none

end

inductive Entry
  /-- A mail left, and the delivery was recorded or is to be tried again. -/
  | mailed (mail : Mail) (recorded : Bool)
  | silenced (route : String)
  | enabled (route : String)
  /-- An event was announced to the routes of its time, or left to a digest. -/
  | announced (bucket : String) (now : Instant)
  | postponed (event : String) (hour : ℤ)
  /-- Work ended, by its handler or because the organization is inactive. -/
  | ended (key : String) (handled : Bool)
  deriving DecidableEq

/-- What an entry is about. -/
inductive Kind
  | mail | route | announcement | postponement | ending

def Entry.kind : Entry → Kind
  | .mailed _ _ => .mail
  | .silenced _ | .enabled _ => .route
  | .announced _ _ => .announcement
  | .postponed _ _ => .postponement
  | .ended _ _ => .ending

/-- The rows of an organization, the failed attempts that have yet to be recorded, and the journal
of what happened. -/
structure World where
  clock : Instant
  room : Mailroom
  failed : List (String × WorkFailure) := []
  journal : List Entry := []

inductive Event
  | attempt (o : Turn) (m : Message)
  | record (id : String) (l : Lookups)
  | dispatch (id : String) (now : Instant)
  | replay (id reason : String) (now : Instant)
  | feedback (eventType deliveryId messageId : String) (now : Instant)
  | setRoute (email newId : String) (active : Bool) (now : Instant)
  | dropRoute (email : String)
  | around (s : Surroundings)
  | recordEvent (event : EventRow) (now : Instant)
  | audit (event : AuditRow) (now : Instant)

section

variable (sha256 : String → String) (c : Settings)

def Turn.mails (o : Turn) (row : Outbox) (m : Mailroom) (recorded : Bool) : List Entry :=
  if o.takes then (outgoing c row m).toList.map (.mailed · recorded) else []

def Turn.notices (o : Turn) (row : Outbox) (m : Mailroom) : List Entry :=
  if row.taskType = .notify then
    match m.notice o.reads row.resourceId with
    | .ok .postponed => [.postponed row.resourceId (o.reads.hour / hourLength)]
    | .ok (.announced bucket _) => [.announced bucket o.reads.quota]
    | _ => []
  else []

def silences (eventType deliveryId : String) (m : Mailroom) : List Entry :=
  match m.deliveries.get deliveryId, feedbackStatus eventType with
  | some d, some status => if d.takes status ∧ status.silences then [.silenced d.route] else []
  | _, _ => []

/-- The route that an address has after `setRoute`. -/
def enables (email : String) (active : Bool) (m : Mailroom) : List Entry :=
  if active then ((m.alertRoutes.get email).map fun r => .enabled r.id).toList else []

def endings (row row' : Outbox) : List Entry := if row' = row then [] else [.ended row.id false]

/-- An event reads the clock after those before it, and an attempt in the order of its code. -/
def World.InOrder (w : World) : Event → Prop
  | .attempt o _ => w.clock ≤ o.reads.start ∧ o.reads.Ordered
  | .record _ l => w.clock ≤ l.now
  | .dispatch _ now | .replay _ _ now | .feedback _ _ _ now | .setRoute _ _ _ now
  | .recordEvent _ now | .audit _ now => w.clock ≤ now
  | .dropRoute _ | .around _ => True

instance (w : World) : DecidablePred w.InOrder
  | .attempt o _ => inferInstanceAs (Decidable (w.clock ≤ o.reads.start ∧ o.reads.Ordered))
  | .record _ l => inferInstanceAs (Decidable (w.clock ≤ l.now))
  | .dispatch _ now | .replay _ _ now | .feedback _ _ _ now | .setRoute _ _ _ now
  | .recordEvent _ now | .audit _ now => inferInstanceAs (Decidable (w.clock ≤ now))
  | .dropRoute _ | .around _ => inferInstanceAs (Decidable True)

inductive Step (w : World) : Event → World → Prop
  /-- The work is done and its transaction commits. -/
  | committed {o m row row' room} (hrow : w.room.outbox.get m.messageId = some row)
      (hv : Workers.attempt (conditions sha256 c o row w.room) m row = (.committed, row'))
      (hroom : handle sha256 c o row w.room = .ok room) :
      Step w (.attempt o m)
        { w with
          clock := o.reads.last
          room := { room with outbox := room.outbox.put row' }
          journal := w.journal ++ (o.mails c row w.room true ++ o.notices row w.room ++
            [.ended row.id true]) }
  /-- The work is done, but its transaction is rolled back. -/
  | rolledBack {o m row row'} (failure : WorkFailure)
      (hrow : w.room.outbox.get m.messageId = some row)
      (hv : Workers.attempt (conditions sha256 c o row w.room) m row = (.committed, row')) :
      Step w (.attempt o m)
        { w with
          clock := o.reads.last
          failed := (row.id, failure) :: w.failed
          journal := w.journal ++ o.mails c row w.room false }
  | failed {o m row row' failure s} (hrow : w.room.outbox.get m.messageId = some row)
      (hv : Workers.attempt (conditions sha256 c o row w.room) m row = (.failed failure s, row')) :
      Step w (.attempt o m)
        { w with
          clock := o.reads.last
          failed := (row.id, failure) :: w.failed
          journal := w.journal ++ o.mails c row w.room false }
  /-- The work is not tried; that of an inactive organization ends. -/
  | returned {o m row row' value} (hrow : w.room.outbox.get m.messageId = some row)
      (hv : Workers.attempt (conditions sha256 c o row w.room) m row = (.returned value, row')) :
      Step w (.attempt o m)
        { w with
          clock := o.reads.last
          room.outbox := w.room.outbox.put row'
          journal := w.journal ++ endings row row' }
  | record {id failure row} (l : Lookups) (hfailed : (id, failure) ∈ w.failed)
      (hrow : w.room.outbox.get id = some row) :
      Step w (.record id l)
        { w with
          clock := l.now
          room.outbox := w.room.outbox.put (recordFailure failure l row).1
          failed := w.failed.erase (id, failure) }
  | dispatch {id now row row'} (hrow : w.room.outbox.get id = some row)
      (h : Workers.dispatch now row = some row') :
      Step w (.dispatch id now) { w with clock := now, room.outbox := w.room.outbox.put row' }
  | replay {id reason now row row'} (hrow : w.room.outbox.get id = some row)
      (h : replayWork now reason row = some row') :
      Step w (.replay id reason now) { w with clock := now, room.outbox := w.room.outbox.put row' }
  | feedback {eventType deliveryId messageId now room}
      (h : w.room.feedback eventType deliveryId messageId now = .ok room) :
      Step w (.feedback eventType deliveryId messageId now)
        { w with clock := now, room, journal := w.journal ++ silences eventType deliveryId w.room }
  | setRoute {email newId active now room}
      (h : w.room.setRoute email newId active now = .ok room) :
      Step w (.setRoute email newId active now)
        { w with clock := now, room, journal := w.journal ++ enables email active room }
  | dropRoute {email} : Step w (.dropRoute email) { w with room := w.room.dropRoute email }
  /-- Members, stores, findings and the settings of the organization change. -/
  | around {s} : Step w (.around s) { w with room.around := s }
  | recordEvent {event now} :
      Step w (.recordEvent event now) { w with clock := now, room := w.room.recordEvent event now }
  | audit {event now} :
      Step w (.audit event now) { w with clock := now, room := w.room.audit event now }

/-- The step that an event makes when no transaction is rolled back and the oldest failure of a row
is recorded first. -/
def next (w : World) : Event → Option World
  | .attempt o m => do
    let row ← w.room.outbox.get m.messageId
    let (verdict, row') := Workers.attempt (conditions sha256 c o row w.room) m row
    match verdict, handle sha256 c o row w.room with
    | .committed, .ok room =>
      some { w with
        clock := o.reads.last
        room := { room with outbox := room.outbox.put row' }
        journal := w.journal ++ (o.mails c row w.room true ++ o.notices row w.room ++
          [.ended row.id true]) }
    | .failed failure _, _ =>
      some { w with
        clock := o.reads.last
        failed := (row.id, failure) :: w.failed
        journal := w.journal ++ o.mails c row w.room false }
    | .returned _, _ =>
      some { w with
        clock := o.reads.last
        room.outbox := w.room.outbox.put row'
        journal := w.journal ++ endings row row' }
    | _, _ => none
  | .record id l => do
    let x ← w.failed.find? (·.1 = id)
    let row ← w.room.outbox.get x.1
    some { w with
      clock := l.now
      room.outbox := w.room.outbox.put (recordFailure x.2 l row).1
      failed := w.failed.erase x }
  | .dispatch id now => do
    let row ← w.room.outbox.get id
    let row' ← Workers.dispatch now row
    some { w with clock := now, room.outbox := w.room.outbox.put row' }
  | .replay id reason now => do
    let row ← w.room.outbox.get id
    let row' ← replayWork now reason row
    some { w with clock := now, room.outbox := w.room.outbox.put row' }
  | .feedback eventType deliveryId messageId now => do
    let room ← (w.room.feedback eventType deliveryId messageId now).toOption
    some { w with
      clock := now, room, journal := w.journal ++ silences eventType deliveryId w.room }
  | .setRoute email newId active now => do
    let room ← (w.room.setRoute email newId active now).toOption
    some { w with clock := now, room, journal := w.journal ++ enables email active room }
  | .dropRoute email => some { w with room := w.room.dropRoute email }
  | .around s => some { w with room.around := s }
  | .recordEvent event now =>
    some { w with clock := now, room := w.room.recordEvent event now }
  | .audit event now =>
    some { w with clock := now, room := w.room.audit event now }

def nextInOrder (w : World) (e : Event) : Option World :=
  if w.InOrder e then next sha256 c w e else none

theorem toOption_some {x : Except WorkFailure Mailroom} {room : Mailroom}
    (h : x.toOption = some room) : x = .ok room := by
  cases x with
  | error e => cases h
  | ok m => exact congrArg Except.ok (Option.some.inj h)

variable {sha256 c}

theorem step_of_next {w w' : World} {e : Event} (h : next sha256 c w e = some w') :
    Step sha256 c w e w' := by
  cases e with
  | attempt o m =>
    obtain ⟨row, hrow, h⟩ := Option.bind_eq_some_iff.mp h
    dsimp only at h
    split at h
    · rename_i hverdict hhandle
      obtain rfl := Option.some.inj h
      exact .committed hrow (Prod.ext hverdict rfl) hhandle
    · rename_i hverdict
      obtain rfl := Option.some.inj h
      exact .failed hrow (Prod.ext hverdict rfl)
    · rename_i hverdict
      obtain rfl := Option.some.inj h
      exact .returned hrow (Prod.ext hverdict rfl)
    · cases h
  | record id l =>
    obtain ⟨⟨id', failure⟩, hx, h⟩ := Option.bind_eq_some_iff.mp h
    obtain ⟨row, hrow, h⟩ := Option.bind_eq_some_iff.mp h
    obtain rfl := Option.some.inj h
    obtain rfl : id' = id := by simpa using List.find?_some hx
    exact .record l (List.mem_of_find?_eq_some hx) hrow
  | dispatch id now =>
    obtain ⟨row, hrow, h⟩ := Option.bind_eq_some_iff.mp h
    obtain ⟨row', hrow', h⟩ := Option.bind_eq_some_iff.mp h
    obtain rfl := Option.some.inj h
    exact .dispatch hrow hrow'
  | replay id reason now =>
    obtain ⟨row, hrow, h⟩ := Option.bind_eq_some_iff.mp h
    obtain ⟨row', hrow', h⟩ := Option.bind_eq_some_iff.mp h
    obtain rfl := Option.some.inj h
    exact .replay hrow hrow'
  | feedback eventType deliveryId messageId now =>
    obtain ⟨room, hroom, h⟩ := Option.bind_eq_some_iff.mp h
    obtain rfl := Option.some.inj h
    exact .feedback (toOption_some hroom)
  | setRoute email newId active now =>
    obtain ⟨room, hroom, h⟩ := Option.bind_eq_some_iff.mp h
    obtain rfl := Option.some.inj h
    exact .setRoute (toOption_some hroom)
  | dropRoute email =>
    obtain rfl := Option.some.inj h
    exact .dropRoute
  | around s =>
    obtain rfl := Option.some.inj h
    exact .around
  | recordEvent event now =>
    obtain rfl := Option.some.inj h
    exact .recordEvent
  | audit event now =>
    obtain rfl := Option.some.inj h
    exact .audit

theorem step_of_nextInOrder {w w' : World} {e : Event} (h : nextInOrder sha256 c w e = some w') :
    Guarded (Step sha256 c) World.InOrder w e w' := by
  unfold nextInOrder at h
  split at h
  · rename_i hin
    exact ⟨hin, step_of_next h⟩
  · cases h

end

/-- The mailroom of a new organization. -/
def opened (organizationId : String) (clock : Instant) : World where
  clock := clock
  room := { organizationId }

section

variable {c : Settings} {o : Turn} {row row' : Outbox} {m : Mailroom} {x : Entry}

theorem mails_cases (c : Settings) (o : Turn) (row : Outbox) (m : Mailroom) (recorded : Bool) :
    o.mails c row m recorded = [] ∨
    ∃ mail, outgoing c row m = some mail ∧ o.mails c row m recorded = [.mailed mail recorded] := by
  unfold Turn.mails
  split
  · cases h : outgoing c row m with
    | none => exact Or.inl rfl
    | some mail => exact Or.inr ⟨mail, rfl, rfl⟩
  · exact Or.inl rfl

theorem mails_kind {recorded : Bool} (h : x ∈ o.mails c row m recorded) : x.kind = .mail := by
  rcases mails_cases c o row m recorded with hnone | ⟨mail, -, hone⟩
  · rw [hnone] at h
    cases h
  · rw [hone] at h
    obtain rfl := List.mem_singleton.mp h
    rfl

theorem notices_kind (h : x ∈ o.notices row m) :
    x.kind = .announcement ∨ x.kind = .postponement := by
  unfold Turn.notices at h
  split at h
  · split at h
    · obtain rfl := List.mem_singleton.mp h
      exact Or.inr rfl
    · obtain rfl := List.mem_singleton.mp h
      exact Or.inl rfl
    · cases h
  · cases h

theorem endings_kind (h : x ∈ endings row row') : x.kind = .ending := by
  unfold endings at h
  split at h
  · cases h
  · obtain rfl := List.mem_singleton.mp h
    rfl

theorem silences_kind {eventType id : String} (h : x ∈ silences eventType id m) :
    x.kind = .route := by
  unfold silences at h
  split at h
  · split at h
    · obtain rfl := List.mem_singleton.mp h
      rfl
    · cases h
  · cases h

theorem enables_kind {email : String} {active : Bool} (h : x ∈ enables email active m) :
    x.kind = .route := by
  unfold enables at h
  split at h
  · obtain ⟨r, -, rfl⟩ := Option.map_eq_some_iff.mp (Option.mem_toList.mp h)
    rfl
  · cases h

end

namespace Fixture

def settings : Settings where
  publicUrl := "https://ledgerguard.test"
  sesFromEmail := "alerts@ledgerguard.test"
  production := true

def scenery : Surroundings where
  members := [{ email := "owner@shop.test", role := .owner }]
  stores := [{ id := "store", name := "Shop", hostname := "shop.test" }]
  findings := [⟨"finding", "store", .live, .pi001, .critical, .opened⟩]

def reads (s : ℤ) : Reads := ⟨seconds s, seconds s, seconds s, seconds s⟩

def turn (s : ℤ) : Turn where
  reads := reads s
  newId := fun _ => "delivery"
  response := .ok "message"

/-- A finding opens, its mail is sent, and the mail bounces. -/
def history : List Event :=
  [.around scenery, .setRoute "owner@shop.test" "route" true 0,
    .recordEvent ⟨"event", "finding", .opened⟩ 0,
    .attempt (turn 1) ⟨"notify:event", .notify, "organization", "event", 0⟩,
    .attempt (turn 2) ⟨"email:delivery", .deliverEmail, "organization", "delivery", 0⟩,
    .feedback "Bounce" "delivery" "message" (seconds 3)]

theorem exists_history : ∃ w, Run (Step id settings) (opened "organization" 0) history w ∧
    w.journal.length = 6 := by
  have hlength : (history.foldlM (next id settings) (opened "organization" 0)).map
      (·.journal.length) = some 6 := by decide +kernel
  exact Run.exists_of_foldlM (fun _ _ _ => step_of_next) hlength

end Fixture

end LedgerGuard.Notifications
