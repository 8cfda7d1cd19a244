import LedgerGuard.Findings.Service
import LedgerGuard.Ingestion.Projections
import LedgerGuard.Lib.References

/-! # Retention

The cleanup of one organization: the deletions of `retain` in their order, over the
tables they read. A deletion that a protecting foreign key refuses raises, and the
transaction rolls back.
-/

namespace LedgerGuard.Retention

open References Ingestion

def days (n : ℤ) : Duration := minutes (n * 24 * 60)

structure Organization where
  retentionDays : ℕ := 400
  allowed : retentionDays ∈ [90, 180, 400] := by decide
  deriving DecidableEq

structure IdempotencyRecord where
  expiresAt : Instant
  deriving DecidableEq

structure AgedReceipt where
  createdAt : Instant
  status : String
  deriving DecidableEq

structure BatchPage where
  createdAt : Instant
  deriving DecidableEq

structure AgedQuota where
  createdAt : Instant
  deriving DecidableEq

structure AgedPairingCode where
  codeHash : String
  expiresAt : Instant
  deriving DecidableEq

structure Invitation where
  tokenHash : String
  expiresAt : Instant
  deriving DecidableEq

structure OAuthState where
  expiresAt : Instant
  deriving DecidableEq

/-- What a delivery is about; the database demands exactly one of the three. -/
inductive Subject
  | event (id : ℕ)
  | securityEvent (id : ℕ)
  | digest (key : String)
  deriving DecidableEq

structure EmailDelivery where
  createdAt : Instant
  subject : Subject
  deriving DecidableEq

def EmailDelivery.event (d : EmailDelivery) : Option ℕ :=
  match d.subject with
  | .event id => some id
  | _ => none

def EmailDelivery.securityEvent (d : EmailDelivery) : Option ℕ :=
  match d.subject with
  | .securityEvent id => some id
  | _ => none

/-- An event of the finding with a key. -/
structure FindingEvent where
  id : ℕ
  finding : String
  run : Option ℕ
  deriving DecidableEq

structure ReconciliationRun where
  id : ℕ
  createdAt : Instant
  deriving DecidableEq

structure StoreInstallation where
  id : ℕ
  store : Option String
  deriving DecidableEq

structure StoreStripeLink where
  store : String
  stripe : ℕ
  deriving DecidableEq

structure Observation where
  id : ℕ
  createdAt : Instant
  deriving DecidableEq

structure Projection where
  connector : ℕ
  kind : Kind
  sourceId : String
  revision : Instant
  observation : ℕ
  deriving DecidableEq

structure Outbox where
  status : String
  createdAt : Instant
  deriving DecidableEq

structure AuditLog where
  id : ℕ
  createdAt : Instant
  deriving DecidableEq

structure Report where
  expiresAt : Instant
  objectKey : String := ""
  deriving DecidableEq

/-- The tables of one organization, and the files of its reports. -/
structure Db where
  organization : Organization := {}
  idempotencyRecords : List IdempotencyRecord := []
  receipts : List AgedReceipt := []
  batchPages : List BatchPage := []
  quotas : List AgedQuota := []
  pairingCodes : List AgedPairingCode := []
  invitations : List Invitation := []
  pairingLocators : List String := []
  oauthStates : List OAuthState := []
  deliveries : List EmailDelivery := []
  findings : List Finding := []
  events : List FindingEvent := []
  runs : List ReconciliationRun := []
  installations : List StoreInstallation := []
  links : List StoreStripeLink := []
  projections : List Projection := []
  observations : List Observation := []
  outbox : List Outbox := []
  auditLogs : List AuditLog := []
  reports : List Report := []
  reportFiles : List String := []

def Db.cutoff (now : Instant) (db : Db) : Instant := now - days db.organization.retentionDays

def Db.expireWork (now : Instant) (db : Db) : Db :=
  { db with
    idempotencyRecords := delete (·.expiresAt < now) db.idempotencyRecords
    receipts := delete (fun r => r.createdAt < now - days 2 &&
      r.status ∈ ["normalized", "ignored"]) db.receipts
    batchPages := delete (·.createdAt < now - days 2) db.batchPages
    quotas := delete (·.createdAt < now - days 2) db.quotas }

def Db.expireCodes (now : Instant) (db : Db) : Db :=
  let codes := db.pairingCodes.filter (·.expiresAt < now - days 1)
  let tokens := db.invitations.filter (·.expiresAt < now - days 1)
  { db with
    pairingLocators := delete (· ∈ tokens.map (·.tokenHash))
      (delete (· ∈ codes.map (·.codeHash)) db.pairingLocators)
    pairingCodes := delete (·.expiresAt < now - days 1) db.pairingCodes
    invitations := delete (·.expiresAt < now - days 1) db.invitations
    oauthStates := delete (·.expiresAt < now - days 1) db.oauthStates }

def expired (cutoff : Instant) (f : Finding) : Bool := f.state = .resolved && f.lastSeen < cutoff

/-- Old deliveries without an event, then the expired findings: first what refers to them. -/
def Db.expireFindings (cutoff : Instant) (db : Db) : Db :=
  let ofExpired := fun e : FindingEvent =>
    db.findings.any fun f => expired cutoff f && some e.finding = some f.findingKey
  { db with
    deliveries := cascade FindingEvent.id EmailDelivery.event ofExpired db.events
      (delete (fun d => d.event = none && d.createdAt < cutoff) db.deliveries)
    events := delete ofExpired db.events
    findings := delete (expired cutoff) db.findings }

/-- The message of Django's `ProtectedError`. -/
def protectedError (model field : String) : String :=
  "Cannot delete some instances of model '" ++ model ++
    "' because they are referenced through protected foreign keys: '" ++ field ++ "'."

def Db.expireRuns (cutoff : Instant) (db : Db) : Except String Db :=
  match deleteProtected ReconciliationRun.id FindingEvent.run db.events
      (fun r => r.createdAt < cutoff &&
        !referenced ReconciliationRun.id FindingEvent.run db.events r)
      db.runs with
  | none => .error (protectedError "ReconciliationRun" "FindingEvent.run")
  | some runs => .ok { db with runs }

/-- `identity.split(":", 1)[1]`, if there is a colon. -/
def afterColon (identity : String) : Option String :=
  if ':' ∈ identity.toList then
    some (String.ofList (identity.toList.dropWhile (· ≠ ':')).tail)
  else none

/-- The source ids in the identities of the findings that are not resolved. -/
def Db.retainedIds (db : Db) : List String :=
  (db.findings.filter (·.state ≠ .resolved)).flatMap fun f =>
    (f.identities.map Identity.render).filterMap afterColon

def Db.expireProjections (cutoff : Instant) (db : Db) : Db :=
  { db with
    projections := delete (fun p => p.revision < cutoff && p.sourceId ∉ db.retainedIds)
      db.projections }

def Projection.refers (p : Projection) : Option ℕ := some p.observation

def Db.expireObservations (cutoff : Instant) (db : Db) : Except String Db :=
  match deleteProtected Observation.id Projection.refers db.projections
      (fun o => o.createdAt < cutoff &&
        !referenced Observation.id Projection.refers db.projections o)
      db.observations with
  | none => .error (protectedError "Observation" "Projection.observation")
  | some observations => .ok { db with observations }

def Db.expireOutbox (now : Instant) (db : Db) : Db :=
  { db with outbox := delete (fun w => w.status = "done" && w.createdAt < now - days 2) db.outbox }

def Db.expireAudit (now : Instant) (db : Db) : Except String Db :=
  match deleteProtected AuditLog.id EmailDelivery.securityEvent db.deliveries
      (·.createdAt < now - days 400) db.auditLogs with
  | none => .error (protectedError "AuditLog" "EmailDelivery.security_event")
  | some auditLogs => .ok { db with auditLogs }

/-- Expired reports, and their files where no bucket holds them. -/
def Db.expireReports (bucket : Bool) (now : Instant) (db : Db) : Db :=
  { db with
    reports := delete (·.expiresAt < now) db.reports
    reportFiles := delete (fun path => !bucket && db.reports.any fun r =>
      r.expiresAt < now && r.objectKey ≠ "" && r.objectKey = path) db.reportFiles }

def retain (bucket : Bool) (now : Instant) (db : Db) : Except String Db := do
  let cutoff := db.cutoff now
  let db ← (((db.expireWork now).expireCodes now).expireFindings cutoff).expireRuns cutoff
  let db ← (db.expireProjections cutoff).expireObservations cutoff
  let db ← (db.expireOutbox now).expireAudit now
  return db.expireReports bucket now

section Spec

variable {now cutoff : Instant} {db db' : Db} {bucket : Bool}

theorem expireRuns_eq : db.expireRuns cutoff = .ok { db with
    runs := delete (fun r => r.createdAt < cutoff &&
      !referenced ReconciliationRun.id FindingEvent.run db.events r) db.runs } := by
  rw [Db.expireRuns, deleteProtected_unreferenced]

theorem expireObservations_eq : db.expireObservations cutoff = .ok { db with
    observations := delete (fun o => o.createdAt < cutoff &&
      !referenced Observation.id Projection.refers db.projections o) db.observations } := by
  rw [Db.expireObservations, deleteProtected_unreferenced]

/-- The tables when the old audit rows are to be deleted: no deletion before is refused. -/
def Db.beforeAudit (now : Instant) (db : Db) : Db :=
  let expired := ((db.expireWork now).expireCodes now).expireFindings (db.cutoff now)
  let kept := expired.expireProjections (db.cutoff now)
  { kept.expireOutbox now with
    runs := delete (fun r => r.createdAt < db.cutoff now &&
      !referenced ReconciliationRun.id FindingEvent.run expired.events r) db.runs
    observations := delete (fun o => o.createdAt < db.cutoff now &&
      !referenced Observation.id Projection.refers kept.projections o) db.observations }

theorem retain_eq : retain bucket now db =
    ((db.beforeAudit now).expireAudit now).bind fun db => .ok (db.expireReports bucket now) := by
  unfold retain
  simp only [bind, Except.bind, expireRuns_eq, expireObservations_eq]
  rfl

theorem expireAudit_ok : db.expireAudit now = .ok db' ↔
    (∀ a ∈ db.auditLogs, a.createdAt < now - days 400 →
      referenced AuditLog.id EmailDelivery.securityEvent db.deliveries a = false) ∧
      db' = { db with auditLogs := delete (·.createdAt < now - days 400) db.auditLogs } := by
  have hspec := @deleteProtected_eq_some _ _ _ _ AuditLog.id EmailDelivery.securityEvent
    (fun a => a.createdAt < now - days 400) db.auditLogs
  unfold Db.expireAudit
  split
  case h_1 h =>
    constructor
    · intro he
      cases he
    · rintro ⟨hfree, -⟩
      have := hspec.mpr ⟨fun a ha hp => hfree a ha (of_decide_eq_true hp), rfl⟩
      rw [h] at this
      cases this
  case h_2 auditLogs h =>
    obtain ⟨hfree, rfl⟩ := hspec.mp h
    rw [Except.ok.injEq, eq_comm]
    exact ⟨fun he => ⟨fun a ha hp => hfree a ha (decide_eq_true hp), he⟩, fun h => h.2⟩

theorem retain_ok (h : retain bucket now db = .ok db') :
    (∀ a ∈ db.auditLogs, a.createdAt < now - days 400 →
      referenced AuditLog.id EmailDelivery.securityEvent (db.beforeAudit now).deliveries a =
        false) ∧
      db' = Db.expireReports bucket now { db.beforeAudit now with
        auditLogs := delete (·.createdAt < now - days 400) db.auditLogs } := by
  rw [retain_eq] at h
  cases ha : (db.beforeAudit now).expireAudit now with
  | error e =>
    rw [ha] at h
    cases h
  | ok db₁ =>
    rw [ha] at h
    obtain rfl := Except.ok.inj h
    obtain ⟨hfree, rfl⟩ := expireAudit_ok.mp ha
    exact ⟨hfree, rfl⟩

/-- The foreign keys of the database lead to rows. -/
structure Db.Intact (db : Db) : Prop where
  events_finding : References.Intact Finding.findingKey (fun e => some e.finding) db.findings
    db.events
  events_run : References.Intact ReconciliationRun.id FindingEvent.run db.runs db.events
  deliveries_event : References.Intact FindingEvent.id EmailDelivery.event db.events db.deliveries
  deliveries_audit : References.Intact AuditLog.id EmailDelivery.securityEvent db.auditLogs
    db.deliveries
  projections_observation : References.Intact Observation.id Projection.refers db.observations
    db.projections

theorem delete_subset {α : Type} {p : α → Bool} {rows : List α} : delete p rows ⊆ rows :=
  List.filter_subset_self _

theorem retain_intact (hdb : db.Intact) (h : retain bucket now db = .ok db') : db'.Intact := by
  obtain ⟨hfree, rfl⟩ := retain_ok h
  constructor
  · exact hdb.events_finding.cascade
  · apply Intact.deleteProtected _ deleteProtected_unreferenced
    exact hdb.events_run.mono (List.Subset.refl _) delete_subset
  · exact (hdb.deliveries_event.mono (List.Subset.refl _) delete_subset).cascade
  · have hkept : (db.beforeAudit now).deliveries ⊆ db.deliveries :=
      List.Subset.trans delete_subset delete_subset
    apply Intact.deleteProtected (hdb.deliveries_audit.mono (List.Subset.refl _) hkept)
    rw [deleteProtected_eq_some]
    exact ⟨fun a ha hp => hfree a ha (of_decide_eq_true hp), rfl⟩
  · apply Intact.deleteProtected _ deleteProtected_unreferenced
    exact hdb.projections_observation.mono (List.Subset.refl _) delete_subset

end Spec

end LedgerGuard.Retention
