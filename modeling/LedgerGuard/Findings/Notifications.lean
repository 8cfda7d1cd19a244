import LedgerGuard.Access.Tenancy
import LedgerGuard.Findings.Service
import LedgerGuard.Ingestion.Quotas
import LedgerGuard.Workers.Runtime

/-! # Notifications

The intents that alerting events and security changes create, their delivery
through the mail provider, and what the provider reports back. A delivery is
created once for its cause and recipient, and it is sent only while it is pending.
-/

namespace LedgerGuard.Notifications

open Access Connectors Workers

structure Member where
  email : String
  role : Role
  active : Bool := true
  userActive : Bool := true

structure StoreRow where
  id : String
  name : String
  hostname : String
  alertsEnabled : Bool := true

structure FindingRow where
  id : String
  storeId : String
  mode : Mode
  ruleCode : RuleCode
  severity : Severity
  state : FindingState

structure EventRow where
  id : String
  findingId : String
  eventType : EventType

structure AuditRow where
  id : String
  action : String

structure AlertRoute where
  id : String
  email : String
  verifiedAt : Option Instant
  active : Bool := true
  bouncedAt : Option Instant := none

/-- What a delivery is about; exactly one of its three columns is set. -/
inductive Cause
  | event (id : String)
  | securityEvent (id : String)
  | digest (key : String)
  deriving DecidableEq

inductive DeliveryStatus
  | pending | accepted | delivered | bounced | complained | localOnly | cancelled
  deriving DecidableEq

structure EmailDelivery where
  id : String
  cause : Cause
  route : String
  status : DeliveryStatus := .pending
  providerId : String := ""
  acceptedAt : Option Instant := none
  feedbackAt : Option Instant := none
  deriving DecidableEq

/-- The columns of the unique constraint on deliveries of a cause; the key of a digest is unique
on its own. -/
def slotOf : Cause → String → Cause × Option String
  | .digest key, _ => (.digest key, none)
  | cause, route => (cause, some route)

def EmailDelivery.slot (d : EmailDelivery) : Cause × Option String := slotOf d.cause d.route

/-- What other transactions of the organization write. -/
structure Surroundings where
  active : Bool := true
  alertsEnabled : Bool := true
  members : List Member := []
  stores : List StoreRow := []
  findings : List FindingRow := []

/-- The rows of one organization that notifications read and write; an outbox row goes by its
dedupe key. -/
structure Mailroom where
  organizationId : String
  around : Surroundings := {}
  events : List EventRow := []
  auditLog : List AuditRow := []
  alertRoutes : Table AlertRoute.email := .empty
  deliveries : Table EmailDelivery.id := .empty
  quotas : Table Quota.key := .empty
  outbox : Table Outbox.id := .empty

/-- The routes that may be written to whose address belongs to a member of one of some roles. -/
def Mailroom.eligible (m : Mailroom) (role : Role → Bool) : List AlertRoute :=
  m.alertRoutes.rows.filter fun r =>
    r.active && r.verifiedAt.isSome && r.bouncedAt.isNone &&
      m.around.members.any fun x => x.active && x.userActive && role x.role && x.email = r.email

def Mailroom.routes (m : Mailroom) : List AlertRoute := m.eligible (· ≠ .merchant)

def Mailroom.ownerRoutes (m : Mailroom) : List AlertRoute := m.eligible (· = .owner)

/-- `SECURITY_MESSAGES`: the subject and the description of each action. -/
def securityMessages : List (String × String × String) :=
  [("alert_route.updated", "Alert recipient changed", "An alert recipient setting was changed."),
    ("connector.disconnected", "Connector disconnected",
      "A payment-data connector was disconnected."),
    ("connector.suspended", "Connector suspended",
      "A connector was suspended after a permanent provider error."),
    ("member.changed", "Member access changed", "An organization member's access was changed."),
    ("member.invited", "Member invited", "A new organization invitation was created."),
    ("member.joined", "Member joined", "An invited member joined the organization."),
    ("organization.deletion_requested", "Organization deletion requested",
      "Organization deletion was requested and connector intake was disabled."),
    ("report.requested", "Evidence export requested", "An evidence report export was requested."),
    ("stripe.connected", "Stripe connected", "A Stripe account authorization was connected."),
    ("stripe.webhook_secret_updated", "Stripe webhook secret changed",
      "The Stripe webhook verification secret was changed."),
    ("support.approved", "Support access approved", "Time-limited support access was approved."),
    ("support.revoked", "Support access revoked", "Time-limited support access was revoked."),
    ("woo.key_rotated", "WooCommerce key rotated",
      "The WooCommerce connector signing key was rotated."),
    ("woo.paired", "WooCommerce paired", "A WooCommerce connector was paired.")]

def missing : WorkFailure := .other "DoesNotExist"

def Mailroom.finding (m : Mailroom) (eventId : String) :
    Except WorkFailure (FindingRow × StoreRow) := do
  let event ← (m.events.find? (·.id = eventId)).elim (.error missing) .ok
  let finding ← (m.around.findings.find? (·.id = event.findingId)).elim (.error missing) .ok
  let store ← (m.around.stores.find? (·.id = finding.storeId)).elim (.error missing) .ok
  return (finding, store)

/-- `enqueue`. -/
def Mailroom.enqueue (m : Mailroom) (task : TaskType) (resource key : String) (now : Instant) :
    Mailroom :=
  if (m.outbox.get key).isSome then m
  else { m with outbox := m.outbox.put (Workers.enqueue key m.organizationId task resource now) }

/-- Create the delivery of a cause to a route unless there is one, and its work. -/
def Mailroom.deliverTo (newId : String → String) (now : Instant) (cause : AlertRoute → Cause)
    (m : Mailroom) (route : AlertRoute) : Except WorkFailure Mailroom :=
  match m.deliveries.rows.find? (·.slot = slotOf (cause route) route.id) with
  | some d => .ok (m.enqueue .deliverEmail d.id ("email:" ++ d.id) now)
  | none =>
    let id := newId route.id
    if (m.deliveries.get id).isSome then .error (.other "IntegrityError")
    else
      let delivery := { id, cause := cause route, route := route.id }
      .ok ({ m with deliveries := m.deliveries.put delivery }.enqueue .deliverEmail id
        ("email:" ++ id) now)

/-- The clock as an attempt reads it: for the row, the quota, the hour of a digest, and last. -/
structure Reads where
  start : Instant
  quota : Instant
  hour : Instant
  last : Instant

def Reads.Ordered (t : Reads) : Prop := t.start ≤ t.quota ∧ t.quota ≤ t.hour ∧ t.hour ≤ t.last

instance (t : Reads) : Decidable t.Ordered := inferInstanceAs (Decidable (_ ∧ _))

def hourLength : Duration := seconds 3600

def digestKey (organizationId : String) (hour : ℤ) : String :=
  "digest:" ++ organizationId ++ ":" ++ toString hour

/-- Leave an event over the quota to the digest of the hour, which waits for another hour. -/
def Mailroom.postpone (m : Mailroom) (t : Reads) : Mailroom :=
  let key := digestKey m.organizationId (t.hour / hourLength)
  let m := m.enqueue .notifyDigest m.organizationId key t.hour
  match m.outbox.get key with
  | none => m
  | some row => { m with outbox := m.outbox.put { row with availableAt := t.last + hourLength } }

/-- What an alerting event comes to before anything is written. -/
inductive Notice
  | silent | postponed
  | announced (bucket : String) (quotas : Table Quota.key)

def Mailroom.notice (t : Reads) (eventId : String) (m : Mailroom) : Except WorkFailure Notice := do
  let (finding, store) ← m.finding eventId
  if ¬ store.alertsEnabled ∨ ¬ m.around.alertsEnabled then return .silent
  if finding.state ∈ [FindingState.resolved, .suppressed, .provisional] then return .silent
  let bucket := "notification:" ++ finding.ruleCode.render
  match Quotas.quota bucket 20 hourLength t.quota m.quotas with
  | .error _ => return .postponed
  | .ok quotas => return .announced bucket quotas

def Mailroom.prepare (newId : String → String) (t : Reads) (eventId : String) (m : Mailroom) :
    Except WorkFailure Mailroom := do
  match ← m.notice t eventId with
  | .silent => return m
  | .postponed => return m.postpone t
  | .announced _ quotas =>
    m.routes.foldlM (deliverTo newId t.last fun _ => .event eventId) { m with quotas }

def Mailroom.security (newId : String → String) (t : Reads) (eventId : String) (m : Mailroom) :
    Except WorkFailure Mailroom := do
  let event ← (m.auditLog.find? (·.id = eventId)).elim (.error missing) .ok
  if (securityMessages.lookup event.action).isNone then return m
  m.ownerRoutes.foldlM (deliverTo newId t.last fun _ => .securityEvent eventId) m

def Mailroom.digest (sha256 : String → String) (newId : String → String) (t : Reads)
    (intentKey : String) (m : Mailroom) : Except WorkFailure Mailroom :=
  if ¬ (m.around.active ∧ m.around.alertsEnabled) then .ok m
  else m.routes.foldlM
    (deliverTo newId t.last fun route => .digest (sha256 (intentKey ++ ":" ++ route.id))) m

/-- `settings`, as far as mail goes. -/
structure Settings where
  publicUrl : String
  sesFromEmail : String
  production : Bool
  sesConfigurationSet : String := ""

structure Mail where
  delivery : String
  organization : String
  slot : Cause × Option String
  route : String
  source : String
  recipient : String
  subject : String
  body : String
  configurationSet : Option String
  deriving DecidableEq

structure Letter where
  allowed : Bool
  subject : String
  body : String

def title : Severity → String
  | .high => "High"
  | .critical => "Critical"

def Mailroom.reaches (m : Mailroom) (routes : List AlertRoute) (d : EmailDelivery) : Bool :=
  m.around.active && m.around.alertsEnabled && routes.any (·.id = d.route)

def Mailroom.findingLetter (c : Settings) (m : Mailroom) (d : EmailDelivery) (finding : FindingRow)
    (store : StoreRow) : Letter where
  allowed := m.reaches m.routes d && store.alertsEnabled &&
    finding.state ∉ [FindingState.suppressed, .resolved, .provisional]
  subject := "[" ++ title finding.severity ++ "] Payment integrity issue on " ++ store.hostname
  body := "A payment integrity finding needs review.\n\nRule: " ++ finding.ruleCode.render ++
    "\nStore: " ++ store.name ++ " (" ++ finding.mode.render ++
    ")\n\nReview the evidence and diagnostic steps:\n" ++ c.publicUrl ++ "/findings/" ++ finding.id ++
    "/\n\nLedgerGuard does not modify orders or payments."

def deletionRequested : String := "organization.deletion_requested"

def Mailroom.securityLetter (c : Settings) (m : Mailroom) (d : EmailDelivery) (event : AuditRow) :
    Letter :=
  let message := securityMessages.lookup event.action
  let (subject, description) :=
    message.getD ("Security change", "A security-sensitive change was recorded.")
  let reviewUrl :=
    if event.action = deletionRequested then c.publicUrl ++ "/login/"
    else c.publicUrl ++ "/o/" ++ m.organizationId ++ "/settings/"
  { allowed := message.isSome && m.ownerRoutes.any (·.id = d.route) &&
      (event.action = deletionRequested || m.around.active)
    subject
    body := description ++ "\n\nReview organization activity and access controls:\n" ++ reviewUrl ++
      "\n\nIf this change was unexpected, revoke affected access and follow the " ++
      "security incident runbook." }

def Mailroom.remaining (m : Mailroom) : ℕ :=
  m.around.findings.countP fun f =>
    f.state ∈ [FindingState.opened, .reopened] &&
      m.around.stores.any fun s => s.id = f.storeId && s.alertsEnabled

def Mailroom.digestLetter (c : Settings) (m : Mailroom) (d : EmailDelivery) (key : String) :
    Letter where
  allowed := m.reaches m.routes d && m.remaining ≠ 0 && key ≠ ""
  subject := "Payment integrity findings require review"
  body := toString m.remaining ++ " findings remain open. Review your dashboard: " ++ c.publicUrl ++
    "/o/" ++ m.organizationId ++ "/"

def Mailroom.compose (c : Settings) (m : Mailroom) (d : EmailDelivery) :
    Except WorkFailure Letter :=
  match d.cause with
  | .event id => do
    let (finding, store) ← m.finding id
    return m.findingLetter c d finding store
  | .securityEvent id => do
    let event ← (m.auditLog.find? (·.id = id)).elim (.error missing) .ok
    return m.securityLetter c d event
  | .digest key => .ok (m.digestLetter c d key)

/-- What a delivery comes to before the provider is called. -/
inductive Plan
  | settled | cancel | keepLocal
  | send (mail : Mail)

def Mailroom.plan (c : Settings) (m : Mailroom) (d : EmailDelivery) : Except WorkFailure Plan := do
  if d.status ≠ .pending then return .settled
  let letter ← m.compose c d
  if ¬ letter.allowed then return .cancel
  if c.sesFromEmail = "" then
    if c.production then .error (.other "Problem") else return .keepLocal
  let route ← (m.alertRoutes.rows.find? (·.id = d.route)).elim (.error missing) .ok
  return .send
    { delivery := d.id, organization := m.organizationId, slot := d.slot, route := d.route
      source := c.sesFromEmail, recipient := route.email, subject := letter.subject, body := letter.body
      configurationSet :=
        if c.sesConfigurationSet = "" then none else some c.sesConfigurationSet }

/-- `deliver`, where the call of the provider returns a message id or fails. -/
def Mailroom.deliver (c : Settings) (response : Except WorkFailure String) (t : Reads)
    (deliveryId : String) (m : Mailroom) : Except WorkFailure Mailroom := do
  let d ← (m.deliveries.get deliveryId).elim (.error missing) .ok
  match ← m.plan c d with
  | .settled => return m
  | .cancel => return { m with deliveries := m.deliveries.put { d with status := .cancelled } }
  | .keepLocal => return { m with deliveries := m.deliveries.put { d with status := .localOnly } }
  | .send _ =>
    let messageId ← response
    let d := { d with status := .accepted, providerId := messageId, acceptedAt := some t.last }
    return { m with deliveries := m.deliveries.put d }

def feedbackStatus (eventType : String) : Option DeliveryStatus :=
  [("Bounce", DeliveryStatus.bounced), ("Complaint", .complained), ("Delivery", .delivered),
    ("Reject", .bounced)].lookup eventType

def AlertRoute.silenced (now : Instant) (id : String) (r : AlertRoute) : AlertRoute :=
  if r.id = id then { r with bouncedAt := some now, active := false } else r

theorem AlertRoute.silenced_email {now : Instant} {id : String} (r : AlertRoute) :
    (r.silenced now id).email = r.email := by
  unfold AlertRoute.silenced
  split <;> rfl

/-- A status of the provider that takes effect on a delivery. -/
def EmailDelivery.takes (d : EmailDelivery) (status : DeliveryStatus) : Prop :=
  d.status ∉ [DeliveryStatus.bounced, .complained] ∨ status = .complained

instance (d : EmailDelivery) (status : DeliveryStatus) : Decidable (d.takes status) :=
  inferInstanceAs (Decidable (_ ∨ _))

def DeliveryStatus.silences (status : DeliveryStatus) : Prop :=
  status ∈ [DeliveryStatus.bounced, .complained]

instance (status : DeliveryStatus) : Decidable status.silences :=
  inferInstanceAs (Decidable (_ ∈ _))

def Mailroom.feedback (eventType deliveryId messageId : String) (now : Instant) (m : Mailroom) :
    Except WorkFailure Mailroom := do
  let d ← (m.deliveries.get deliveryId).elim (.error missing) .ok
  if d.providerId ≠ messageId then .error missing
  match feedbackStatus eventType with
  | none => return m
  | some status =>
    if ¬ d.takes status then return m
    let deliveries := m.deliveries.put { d with status, feedbackAt := some now }
    if status.silences then
      return { m with
        deliveries
        alertRoutes := m.alertRoutes.map (AlertRoute.silenced now d.route) AlertRoute.silenced_email }
    else return { m with deliveries }

/-- `alert_route` for the address of a member: update its route or create it. -/
def Mailroom.setRoute (email newId : String) (active : Bool) (now : Instant) (m : Mailroom) :
    Except WorkFailure Mailroom :=
  match m.alertRoutes.get email with
  | some r =>
    let route := { r with active, verifiedAt := some now, bouncedAt := none }
    .ok { m with alertRoutes := m.alertRoutes.put route }
  | none =>
    if m.alertRoutes.rows.any (·.id = newId) then .error (.other "IntegrityError")
    else
      let route := { id := newId, email, verifiedAt := some now, active }
      .ok { m with alertRoutes := m.alertRoutes.put route }

/-- `membership_change` takes the route of a member who leaves or becomes a merchant. -/
def AlertRoute.dropped (email : String) (r : AlertRoute) : AlertRoute :=
  if r.email = email then { r with active := false } else r

theorem AlertRoute.dropped_email {email : String} (r : AlertRoute) :
    (r.dropped email).email = r.email := by
  unfold AlertRoute.dropped
  split <;> rfl

def Mailroom.dropRoute (email : String) (m : Mailroom) : Mailroom :=
  { m with alertRoutes := m.alertRoutes.map (AlertRoute.dropped email) AlertRoute.dropped_email }

/-- `_event`: record an event and, if it alerts, its intent. -/
def Mailroom.recordEvent (event : EventRow) (now : Instant) (m : Mailroom) : Mailroom :=
  let m := { m with events := m.events ++ [event] }
  if event.eventType ∈ [EventType.opened, .reopened, .unsuppressed] then
    m.enqueue .notify event.id ("notify:" ++ event.id) now
  else m

/-- `audit`: record an action and, if owners hear of it, its intent. -/
def Mailroom.audit (event : AuditRow) (now : Instant) (m : Mailroom) : Mailroom :=
  let m := { m with auditLog := m.auditLog ++ [event] }
  if (securityMessages.lookup event.action).isSome then
    m.enqueue .securityNotify event.id ("security-notify:" ++ event.id) now
  else m

open Raising

variable {m m' : Mailroom} {d d' : EmailDelivery} {c : Settings} {t : Reads}
  {newId : String → String} {id key : String} {now : Instant} {sha256 : String → String}

theorem elim_ok {α : Type} {x : Option α} {e : WorkFailure} {a : α}
    (h : x.elim (.error e) Except.ok = .ok a) : x = some a := by
  cases x with
  | none => cases h
  | some b => exact congrArg some (Except.ok.inj h)

theorem eligible_active {role : Role → Bool} {r : AlertRoute} (h : r ∈ m.eligible role) :
    r ∈ m.alertRoutes ∧ r.active = true ∧ r.bouncedAt = none ∧
      ∃ x ∈ m.around.members, x.active = true ∧ x.userActive = true ∧ role x.role = true ∧
        x.email = r.email := by
  obtain ⟨hr, h⟩ := List.mem_filter.mp h
  simp only [Bool.and_eq_true, Option.isNone_iff_eq_none, List.any_eq_true,
    decide_eq_true_eq] at h
  obtain ⟨⟨⟨hactive, -⟩, hbounced⟩, x, hx, ⟨⟨hxa, hxu⟩, hxr⟩, hxe⟩ := h
  exact ⟨hr, hactive, hbounced, x, hx, hxa, hxu, hxr, hxe⟩

theorem any_id {rs : List AlertRoute} (h : rs.any (·.id = d.route) = true) :
    ∃ r ∈ rs, r.id = d.route := by
  obtain ⟨r, hr, he⟩ := List.any_eq_true.mp h
  exact ⟨r, hr, of_decide_eq_true he⟩

theorem compose_allowed {letter : Letter} (h : m.compose c d = .ok letter)
    (ha : letter.allowed = true) :
    (∃ r ∈ m.routes, r.id = d.route) ∨ ∃ r ∈ m.ownerRoutes, r.id = d.route := by
  unfold Mailroom.compose at h
  split at h
  · obtain ⟨fs, -, h⟩ := bind_eq_ok.mp h
    obtain rfl := Except.ok.inj h
    simp only [Mailroom.findingLetter, Mailroom.reaches, Bool.and_eq_true] at ha
    exact Or.inl (any_id ha.1.1.2)
  · obtain ⟨event, -, h⟩ := bind_eq_ok.mp h
    obtain rfl := Except.ok.inj h
    simp only [Mailroom.securityLetter, Bool.and_eq_true] at ha
    exact Or.inr (any_id ha.1.2)
  · obtain rfl := Except.ok.inj h
    simp only [Mailroom.digestLetter, Mailroom.reaches, Bool.and_eq_true] at ha
    exact Or.inl (any_id ha.1.1.2)

theorem plan_send {mail : Mail} (h : m.plan c d = .ok (.send mail)) :
    d.status = .pending ∧ mail.slot = d.slot ∧ mail.route = d.route ∧
      ((∃ r ∈ m.routes, r.id = d.route) ∨ ∃ r ∈ m.ownerRoutes, r.id = d.route) := by
  unfold Mailroom.plan at h
  by_cases hs : d.status = .pending
  · rw [if_neg (not_not_intro hs)] at h
    obtain ⟨letter, hletter, h⟩ := bind_eq_ok.mp h
    by_cases ha : letter.allowed = true
    · rw [if_neg (not_not_intro ha)] at h
      by_cases hfrom : c.sesFromEmail = ""
      · rw [if_pos hfrom] at h
        split at h <;> cases h
      · rw [if_neg hfrom] at h
        obtain ⟨route, -, h⟩ := bind_eq_ok.mp h
        have hmail := Plan.send.inj (Except.ok.inj h)
        exact ⟨hs, hmail ▸ rfl, hmail ▸ rfl, compose_allowed hletter ha⟩
    · rw [if_pos ha] at h
      cases h
  · rw [if_pos hs] at h
    cases h

theorem plan_settled (h : m.plan c d = .ok .settled) : d.status ≠ .pending := by
  intro hs
  unfold Mailroom.plan at h
  rw [if_neg (not_not_intro hs)] at h
  obtain ⟨letter, -, h⟩ := bind_eq_ok.mp h
  by_cases ha : letter.allowed = true
  · rw [if_neg (not_not_intro ha)] at h
    by_cases hfrom : c.sesFromEmail = ""
    · rw [if_pos hfrom] at h
      split at h <;> cases h
    · rw [if_neg hfrom] at h
      obtain ⟨route, -, h⟩ := bind_eq_ok.mp h
      cases h
  · rw [if_pos ha] at h
    cases h

theorem deliver_ok {response : Except WorkFailure String} (h : m.deliver c response t id = .ok m') :
    ∃ d ∈ m.deliveries, d.id = id ∧ ((d.status ≠ .pending ∧ m' = m) ∨
      ∃ d', d'.id = d.id ∧ d'.slot = d.slot ∧ d'.status ≠ .pending ∧
        m' = { m with deliveries := m.deliveries.put d' }) := by
  obtain ⟨d, hd, h⟩ := bind_eq_ok.mp h
  obtain ⟨hm, hid⟩ := Table.get_eq_some.mp (elim_ok hd)
  obtain ⟨plan, hplan, h⟩ := bind_eq_ok.mp h
  refine ⟨d, hm, hid, ?_⟩
  cases plan with
  | settled => exact Or.inl ⟨plan_settled hplan, (Except.ok.inj h).symm⟩
  | cancel =>
    exact Or.inr ⟨{ d with status := .cancelled }, rfl, rfl, DeliveryStatus.noConfusion,
      (Except.ok.inj h).symm⟩
  | keepLocal =>
    exact Or.inr ⟨{ d with status := .localOnly }, rfl, rfl, DeliveryStatus.noConfusion,
      (Except.ok.inj h).symm⟩
  | send mail =>
    obtain ⟨messageId, -, h⟩ := bind_eq_ok.mp h
    exact Or.inr ⟨{ d with
      status := .accepted, providerId := messageId, acceptedAt := some t.last },
      rfl, rfl, DeliveryStatus.noConfusion, (Except.ok.inj h).symm⟩

theorem feedback_ok {eventType messageId : String}
    (h : m.feedback eventType id messageId now = .ok m') : ∃ d ∈ m.deliveries, d.id = id ∧
      ((m' = m ∧ ∀ status, feedbackStatus eventType = some status → ¬ d.takes status) ∨
        ∃ d' status, feedbackStatus eventType = some status ∧ d.takes status ∧
        d' = { d with status, feedbackAt := some now } ∧
        m' = { m with
          deliveries := m.deliveries.put d'
          alertRoutes := if status.silences then
            m.alertRoutes.map (AlertRoute.silenced now d.route) AlertRoute.silenced_email
          else m.alertRoutes }) := by
  obtain ⟨d, hd, h⟩ := bind_eq_ok.mp h
  obtain ⟨hm, hid⟩ := Table.get_eq_some.mp (elim_ok hd)
  refine ⟨d, hm, hid, ?_⟩
  by_cases hp : d.providerId = messageId
  · rw [if_neg (not_not_intro hp)] at h
    cases hs : feedbackStatus eventType with
    | none =>
      rw [hs] at h
      exact Or.inl ⟨(Except.ok.inj h).symm, fun status hs => nomatch hs⟩
    | some status =>
      rw [hs] at h
      dsimp only at h
      by_cases ht : d.takes status
      · rw [if_neg (not_not_intro ht)] at h
        refine Or.inr ⟨_, status, rfl, ht, rfl, ?_⟩
        split at h
        · rename_i hsil
          rw [if_pos hsil]
          exact (Except.ok.inj h).symm
        · rename_i hsil
          rw [if_neg hsil]
          exact (Except.ok.inj h).symm
      · rw [if_pos ht] at h
        exact Or.inl ⟨(Except.ok.inj h).symm, fun _ hs => Option.some.inj hs ▸ ht⟩
  · rw [if_pos hp] at h
    cases h

theorem feedbackStatus_ne {eventType : String} {status : DeliveryStatus}
    (h : feedbackStatus eventType = some status) : status ≠ .pending := by
  rintro rfl
  unfold feedbackStatus at h
  simp only [List.lookup_cons] at h
  split at h
  · cases h
  split at h
  · cases h
  split at h
  · cases h
  split at h <;> cases h

theorem setRoute_ok {email : String} {active : Bool}
    (h : m.setRoute email id active now = .ok m') :
    ∃ r : AlertRoute, r.email = email ∧ r.active = active ∧ r.bouncedAt = none ∧
      m' = { m with alertRoutes := m.alertRoutes.put r } := by
  unfold Mailroom.setRoute at h
  split at h
  · rename_i r hr
    obtain rfl := Except.ok.inj h
    exact ⟨{ r with active, verifiedAt := some now, bouncedAt := none },
      (Table.get_eq_some.mp hr).2, rfl, rfl, rfl⟩
  · split at h
    · cases h
    · obtain rfl := Except.ok.inj h
      exact ⟨{ id, email, verifiedAt := some now, active }, rfl, rfl, rfl, rfl⟩

def Slotted (deliveries : Table EmailDelivery.id) : Prop :=
  ∀ d ∈ deliveries, ∀ d' ∈ deliveries, d.slot = d'.slot → d = d'

theorem slotted_put {deliveries : Table EmailDelivery.id} (h : Slotted deliveries)
    (hd : ∀ x ∈ deliveries, x.slot = d.slot → x.id = d.id) : Slotted (deliveries.put d) := by
  intro x hx y hy he
  rcases Table.mem_put.mp hx with rfl | ⟨hx, hxk⟩
  · rcases Table.mem_put.mp hy with rfl | ⟨hy, hyk⟩
    · rfl
    · exact absurd (hd y hy he.symm) hyk
  · rcases Table.mem_put.mp hy with hy | ⟨hy, hyk⟩
    · exact absurd (hd x hx (hy ▸ he)) hxk
    · exact h x hx y hy he

def emailKey (id : String) : String := "email:" ++ id

/-- The rows after new deliveries are created, each with its work. -/
structure Grown (m m' : Mailroom) : Prop where
  organizationId : m'.organizationId = m.organizationId
  alertRoutes : m'.alertRoutes = m.alertRoutes
  quotas : m'.quotas = m.quotas
  kept : ∀ d ∈ m.deliveries, d ∈ m'.deliveries
  slotted : Slotted m.deliveries → Slotted m'.deliveries
  rows : ∀ row ∈ m.outbox, row ∈ m'.outbox
  fresh : ∀ row ∈ m'.outbox, row ∈ m.outbox ∨ ∃ d ∈ m'.deliveries, ∃ now,
    row = Workers.enqueue (emailKey d.id) m.organizationId .deliverEmail d.id now
  served : ∀ d ∈ m'.deliveries, d ∈ m.deliveries ∨ ∃ row ∈ m'.outbox, row.id = emailKey d.id

theorem Grown.refl (m : Mailroom) : Grown m m :=
  ⟨rfl, rfl, rfl, fun _ h => h, id, fun _ h => h, fun _ h => Or.inl h, fun _ h => Or.inl h⟩

theorem Grown.trans {m₁ m₂ m₃ : Mailroom} (h : Grown m₁ m₂) (h' : Grown m₂ m₃) : Grown m₁ m₃ where
  organizationId := h'.organizationId.trans h.organizationId
  alertRoutes := h'.alertRoutes.trans h.alertRoutes
  quotas := h'.quotas.trans h.quotas
  kept d hd := h'.kept d (h.kept d hd)
  slotted hs := h'.slotted (h.slotted hs)
  rows row hr := h'.rows row (h.rows row hr)
  fresh row hr := by
    rcases h'.fresh row hr with hr | ⟨d, hd, now, he⟩
    · rcases h.fresh row hr with hr | ⟨d, hd, now, he⟩
      · exact Or.inl hr
      · exact Or.inr ⟨d, h'.kept d hd, now, he⟩
    · exact Or.inr ⟨d, hd, now, h.organizationId ▸ he⟩
  served d hd := by
    rcases h'.served d hd with hd | hr
    · rcases h.served d hd with hd | ⟨row, hr, he⟩
      · exact Or.inl hd
      · exact Or.inr ⟨row, h'.rows row hr, he⟩
    · exact Or.inr hr

theorem mem_enqueue {task : TaskType} {resource : String} {row : Outbox} :
    row ∈ (m.enqueue task resource key now).outbox ↔ row ∈ m.outbox ∨
      (m.outbox.get key = none ∧ row = Workers.enqueue key m.organizationId task resource now) := by
  unfold Mailroom.enqueue
  cases hg : m.outbox.get key with
  | some r => simp
  | none =>
    simp only [Option.isSome_none, Bool.false_eq_true, if_false, true_and, Table.mem_put]
    constructor
    · rintro (rfl | ⟨hr, -⟩)
      · exact Or.inr rfl
      · exact Or.inl hr
    · rintro (hr | rfl)
      · exact Or.inr ⟨hr, Table.get_eq_none.mp hg row hr⟩
      · exact Or.inl rfl

theorem exists_enqueue {task : TaskType} {resource : String} :
    ∃ row ∈ (m.enqueue task resource key now).outbox, row.id = key := by
  cases hg : m.outbox.get key with
  | some row =>
    obtain ⟨hr, hk⟩ := Table.get_eq_some.mp hg
    exact ⟨row, mem_enqueue.mpr (Or.inl hr), hk⟩
  | none => exact ⟨_, mem_enqueue.mpr (Or.inr ⟨hg, rfl⟩), rfl⟩

@[simp] theorem enqueue_deliveries {task : TaskType} {resource : String} :
    (m.enqueue task resource key now).deliveries = m.deliveries := by
  unfold Mailroom.enqueue
  split <;> rfl

@[simp] theorem enqueue_alertRoutes {task : TaskType} {resource : String} :
    (m.enqueue task resource key now).alertRoutes = m.alertRoutes := by
  unfold Mailroom.enqueue
  split <;> rfl

@[simp] theorem enqueue_organizationId {task : TaskType} {resource : String} :
    (m.enqueue task resource key now).organizationId = m.organizationId := by
  unfold Mailroom.enqueue
  split <;> rfl

@[simp] theorem enqueue_quotas {task : TaskType} {resource : String} :
    (m.enqueue task resource key now).quotas = m.quotas := by
  unfold Mailroom.enqueue
  split <;> rfl

theorem grown_enqueue (hd : d ∈ m.deliveries) :
    Grown m (m.enqueue .deliverEmail d.id (emailKey d.id) now) where
  organizationId := enqueue_organizationId
  alertRoutes := enqueue_alertRoutes
  quotas := enqueue_quotas
  kept x hx := by simpa using hx
  slotted hs := by simpa using hs
  rows row hr := mem_enqueue.mpr (Or.inl hr)
  fresh row hr := (mem_enqueue.mp hr).imp_right fun h => ⟨d, by simpa using hd, now, h.2⟩
  served x hx := Or.inl (by simpa using hx)

theorem grown_deliverTo {cause : AlertRoute → Cause} {route : AlertRoute}
    (h : m.deliverTo newId now cause route = .ok m') : Grown m m' := by
  unfold Mailroom.deliverTo at h
  cases hf : m.deliveries.rows.find? (·.slot = slotOf (cause route) route.id) with
  | some d =>
    rw [hf] at h
    obtain rfl := Except.ok.inj h
    exact grown_enqueue (List.mem_of_find?_eq_some hf)
  | none =>
    rw [hf] at h
    dsimp only at h
    split at h
    · cases h
    · rename_i hid
      obtain rfl := Except.ok.inj h
      have hfree : ∀ x ∈ m.deliveries, x.slot ≠ slotOf (cause route) route.id := by
        intro x hx he
        exact absurd (decide_eq_true he) (List.find?_eq_none.mp hf x hx)
      have hnew : ∀ x ∈ m.deliveries, x.id ≠ newId route.id :=
        Table.get_eq_none.mp (Option.not_isSome_iff_eq_none.mp hid)
      have hmem : ∀ x ∈ m.deliveries, x ∈ m.deliveries.put
          { id := newId route.id, cause := cause route, route := route.id } := fun x hx =>
        Table.mem_put.mpr (Or.inr ⟨hx, hnew x hx⟩)
      exact {
        organizationId := enqueue_organizationId
        alertRoutes := enqueue_alertRoutes
        quotas := enqueue_quotas
        kept := fun x hx => by simpa using hmem x hx
        slotted := fun hs => by
          rw [enqueue_deliveries]
          exact slotted_put hs fun x hx (he : x.slot = slotOf (cause route) route.id) =>
            absurd he (hfree x hx)
        rows := fun row hr => mem_enqueue.mpr (Or.inl hr)
        fresh := fun row hr => (mem_enqueue.mp hr).imp_right fun h =>
          ⟨{ id := newId route.id, cause := cause route, route := route.id },
            by simpa using Table.mem_put.mpr (Or.inl rfl), now, h.2⟩
        served := fun x hx => by
          rw [enqueue_deliveries] at hx
          rcases Table.mem_put.mp hx with rfl | ⟨hx, -⟩
          · exact Or.inr exists_enqueue
          · exact Or.inl hx }

theorem grown_foldlM {cause : AlertRoute → Cause} {routes : List AlertRoute}
    (h : routes.foldlM (Mailroom.deliverTo newId now cause) m = .ok m') : Grown m m' := by
  induction routes generalizing m with
  | nil =>
    obtain rfl := Except.ok.inj h
    exact .refl m
  | cons route routes ih =>
    rw [List.foldlM_cons] at h
    obtain ⟨m₁, h₁, h⟩ := bind_eq_ok.mp h
    exact (grown_deliverTo h₁).trans (ih h)

theorem grown_security (h : m.security newId t id = .ok m') : Grown m m' := by
  obtain ⟨event, -, h⟩ := bind_eq_ok.mp h
  split at h
  · obtain rfl := Except.ok.inj h
    exact .refl m
  · exact grown_foldlM h

theorem grown_digest (h : m.digest sha256 newId t key = .ok m') : Grown m m' := by
  unfold Mailroom.digest at h
  split at h
  · obtain rfl := Except.ok.inj h
    exact .refl m
  · exact grown_foldlM h

@[simp] theorem postpone_deliveries : (m.postpone t).deliveries = m.deliveries := by
  unfold Mailroom.postpone
  dsimp only
  split <;> simp

@[simp] theorem postpone_alertRoutes : (m.postpone t).alertRoutes = m.alertRoutes := by
  unfold Mailroom.postpone
  dsimp only
  split <;> simp

@[simp] theorem postpone_organizationId :
    (m.postpone t).organizationId = m.organizationId := by
  unfold Mailroom.postpone
  dsimp only
  split <;> simp

@[simp] theorem postpone_quotas : (m.postpone t).quotas = m.quotas := by
  unfold Mailroom.postpone
  dsimp only
  split <;> simp

theorem mem_postpone {row : Outbox} (h : row ∈ (m.postpone t).outbox) :
    (row ∈ m.outbox ∧ row.id ≠ digestKey m.organizationId (t.hour / hourLength)) ∨
    ∃ old : Outbox, row = { old with availableAt := t.last + hourLength } ∧
      old.id = digestKey m.organizationId (t.hour / hourLength) ∧ (old ∈ m.outbox ∨
        old = Workers.enqueue (digestKey m.organizationId (t.hour / hourLength)) m.organizationId
          .notifyDigest m.organizationId t.hour) := by
  unfold Mailroom.postpone at h
  dsimp only at h
  split at h
  · rename_i hnone
    obtain ⟨row', hr', hk'⟩ := @exists_enqueue m (digestKey m.organizationId (t.hour / hourLength))
      t.hour .notifyDigest m.organizationId
    exact absurd hk' (Table.get_eq_none.mp hnone row' hr')
  · rename_i old hold
    obtain ⟨hmem, hkey⟩ := Table.get_eq_some.mp hold
    rcases Table.mem_put.mp h with rfl | ⟨hr, hne⟩
    · exact Or.inr ⟨old, rfl, hkey, (mem_enqueue.mp hmem).imp_right And.right⟩
    · refine Or.inl ⟨?_, fun he => hne (he.trans hkey.symm)⟩
      rcases mem_enqueue.mp hr with hr | ⟨-, rfl⟩
      · exact hr
      · exact absurd hkey.symm hne

theorem exists_postpone : ∃ row ∈ (m.postpone t).outbox,
    row.id = digestKey m.organizationId (t.hour / hourLength) := by
  unfold Mailroom.postpone
  dsimp only
  split
  · exact exists_enqueue
  · rename_i old hold
    exact ⟨_, Table.mem_put.mpr (Or.inl rfl), (Table.get_eq_some.mp hold).2⟩

theorem postpone_row {row : Outbox} (h : row ∈ m.outbox) :
    ∃ due, { row with availableAt := due } ∈ (m.postpone t).outbox := by
  unfold Mailroom.postpone
  dsimp only
  have hmem := mem_enqueue.mpr (Or.inl h :
    row ∈ m.outbox ∨ (m.outbox.get (digestKey m.organizationId (t.hour / hourLength)) = none ∧ row =
      Workers.enqueue (digestKey m.organizationId (t.hour / hourLength)) m.organizationId
        .notifyDigest m.organizationId t.hour))
  split
  · exact ⟨row.availableAt, hmem⟩
  · rename_i old hold
    obtain ⟨hold, hkey⟩ := Table.get_eq_some.mp hold
    by_cases hr : row.id = old.id
    · obtain rfl := Table.eq_of_key hmem hold hr
      exact ⟨_, Table.mem_put.mpr (Or.inl rfl)⟩
    · exact ⟨row.availableAt, Table.mem_put.mpr (Or.inr ⟨hmem, hr⟩)⟩

theorem prepare_ok (h : m.prepare newId t id = .ok m') :
    (m.notice t id = .ok .silent ∧ m' = m) ∨
    (m.notice t id = .ok .postponed ∧ m' = m.postpone t) ∨
    ∃ bucket quotas, m.notice t id = .ok (.announced bucket quotas) ∧
      (∃ rule : RuleCode, bucket = "notification:" ++ rule.render) ∧
      Quotas.quota bucket 20 hourLength t.quota m.quotas = .ok quotas ∧
      Grown { m with quotas } m' := by
  obtain ⟨notice, hn, h⟩ := bind_eq_ok.mp h
  cases notice with
  | silent => exact Or.inl ⟨hn, (Except.ok.inj h).symm⟩
  | postponed => exact Or.inr (Or.inl ⟨hn, (Except.ok.inj h).symm⟩)
  | announced bucket quotas =>
    refine Or.inr (Or.inr ⟨bucket, quotas, hn, ?_⟩)
    obtain ⟨fs, -, hn⟩ := bind_eq_ok.mp hn
    dsimp only at hn
    split at hn
    · cases hn
    split at hn
    · cases hn
    split at hn
    · cases hn
    · rename_i hq
      obtain ⟨rfl, rfl⟩ := Notice.announced.inj (Except.ok.inj hn)
      exact ⟨⟨_, rfl⟩, hq, grown_foldlM h⟩

end LedgerGuard.Notifications
