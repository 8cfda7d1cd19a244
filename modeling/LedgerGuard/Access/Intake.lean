import LedgerGuard.Access.Idempotency
import LedgerGuard.Connectors.SignedPlugin
import LedgerGuard.Workers.Runtime

/-! # Transactions of an organization

Everything that can write the evidence of an organization: pairing claims, signed
requests of the plugin, webhooks of Stripe, tenant views and the work of the queue.
Each looks for itself whether the organization is active; what it does after its
checks is a parameter.
-/

namespace LedgerGuard.Access.Deletion

open Raising LedgerGuard.Workers

inductive ConnectorKind
  | woo | stripe
  deriving DecidableEq

inductive Connectors.InstallationStatus
  | active | suspended | disconnected
  deriving DecidableEq

structure Connector where
  id : String
  kind : ConnectorKind
  storeId : Option String := none
  destinationId : Option String := none
  status : Connectors.InstallationStatus := .active
  credentialCiphertext : Json := .obj []
  webhookCiphertext : Json := .obj []

structure Connectors.PublicKey where
  keyId : String
  installationId : String
  publicKey : ℕ
  revokedAt : Option Instant := none

structure IssuedCode where
  codeHash : String
  storeId : String
  mode : String
  expiresAt : Instant
  usedAt : Option Instant := none

structure IntakeReceipt where
  id : String
  connectorId : String
  externalId : String
  kind : String
  bodyHash : String
  status : String
  deriving DecidableEq

structure IntakeScan where
  id : String
  connectorId : String
  status : String := "pending"
  deriving DecidableEq

structure IntakeCursor where
  connectorId : String
  objectClass : String
  complete : Bool
  deriving DecidableEq

structure AuditLog where
  id : String
  action : String
  resourceId : String

structure EmailDelivery where
  id : String
  securityEvent : Option String
  route : String
  status : String := "pending"

structure Report where
  id : String
  status : String

/-- The tables that intake fills; `evidence` is the observations, projections, reconciliation runs
and findings, which no check reads. -/
structure Intake (ω : Type) where
  receipts : List IntakeReceipt
  scans : List IntakeScan
  cursors : List IntakeCursor
  evidence : ω

/-- The rows of the organization besides what tenant requests are admitted by; `other` is
everything that is neither read nor written here. -/
structure Rows (ω τ : Type) where
  name : String
  deletedAt : Option Instant := none
  connectors : List Connector
  publicKeys : List Connectors.PublicKey
  pairings : List IssuedCode
  intake : Intake ω
  outbox : List Outbox
  auditLog : List AuditLog
  deliveries : List EmailDelivery
  reports : List Report
  other : τ

abbrev World (ω τ : Type) := Db (Rows ω τ)

variable {ω τ : Type}

def World.rows (w : World ω τ) : Rows ω τ := w.tables.rest

def World.withRows (w : World ω τ) (rows : Rows ω τ) : World ω τ :=
  { w with tables.rest := rows }

/-- `Organization.objects.filter(id=org, active=True).exists()`. -/
def isActive (org : String) (t : Tables (Rows ω τ)) : Bool :=
  t.organizations.any fun o => o.id = org && o.active

/-- The rows that intake may not create or change once the organization is deleted. -/
def World.evidence (w : World ω τ) : Intake ω × List FindingRow := (w.rows.intake, w.tables.findings)

def enqueue (id org : String) (task : TaskType) (resource : String) (now : Instant)
    (rows : Rows ω τ) : Rows ω τ :=
  if rows.outbox.any (·.id = id) then rows
  else { rows with outbox := rows.outbox ++ [Workers.enqueue id org task resource now] }

/-- `audit` of an action that owners are notified of. -/
def auditSecurity (org : String) (event : AuditLog) (now : Instant) (rows : Rows ω τ) : Rows ω τ :=
  enqueue ("security-notify:" ++ event.id) org .securityNotify event.id now
    { rows with auditLog := rows.auditLog ++ [event] }

def deletionRequested : String := "organization.deletion_requested"

def Connector.disconnected (c : Connector) : Connector :=
  { c with status := .disconnected, credentialCiphertext := .obj [], webhookCiphertext := .obj [] }

def deleted (org auditId : String) (now : Instant) (t : Tables (Rows ω τ)) : Tables (Rows ω τ) :=
  let rows := auditSecurity org ⟨auditId, deletionRequested, org⟩ now t.rest
  { t with
    organizations := t.organizations.map fun o => if o.id = org then { o with active := false } else o
    rest := enqueue ("delete:" ++ org) org .deleteTenant org now
      { rows with
        deletedAt := some now
        connectors := rows.connectors.map Connector.disconnected
        publicKeys := rows.publicKeys.map fun k => { k with revokedAt := some now } } }

/-- `organization_delete` behind `tenant_view` and `idempotent`. -/
def organizationDelete (confirmName : Option String) (auditId : String) (ctx : TenantContext)
    (r : Request) (t : Tables (Rows ω τ)) : Except Raised (JsonResponse × Tables (Rows ω τ)) := do
  requireRole [.owner] ctx.role
  requireRecentAuth r
  if confirmName ≠ some t.rest.name then .error (.refused "CONFIRMATION_NAME_MISMATCH" 422)
  else .ok (⟨[("status", .str "deletion_pending")], 202⟩,
    deleted ctx.organizationId auditId r.savedAt t)

/-- What a claim brings, and how its quota and its signature come out. -/
structure ClaimRequest where
  codeHash : String
  mode : String
  keyId : String
  publicKey : ℕ
  requestId : String
  bodyHash : String
  now : Instant
  verified : Except Raised Unit

/-- A request of an installed plugin. -/
structure SignedRequest where
  kind : Connectors.RequestKind
  installationId : String

structure WebhookRequest where
  destinationId : String

/-- What the code does once its own checks have passed. -/
structure Bodies (ω τ : Type) where
  /-- The quota of pairing, which is none of the modelled rows. -/
  quota : τ → Except Raised τ
  pair : ClaimRequest → World ω τ → Except Raised (World ω τ)
  signed : SignedRequest → Connector → World ω τ → Except Raised (World ω τ)
  webhook : WebhookRequest → Connector → World ω τ → Except Raised (World ω τ)
  view : TenantContext → Request → World ω τ → Except Raised (JsonResponse × World ω τ)
  refresh : String → World ω τ → Except WorkFailure (World ω τ)
  work : Outbox → World ω τ → Except WorkFailure (World ω τ)

section Requests

variable (b : Bodies ω τ) (org : String)

/-- The claim was made before, with this key, and the installation is still active. -/
def claimedBefore (r : ClaimRequest) (pairing : IssuedCode) (rows : Rows ω τ) : Bool :=
  match rows.publicKeys.find? (·.keyId = r.keyId) with
  | none => false
  | some key =>
    match rows.connectors.find? (·.id = key.installationId) with
    | none => false
    | some c =>
      c.storeId = some pairing.storeId && key.publicKey = r.publicKey && c.status = .active &&
        rows.intake.receipts.any fun x => x.connectorId = c.id &&
          ((x.externalId = r.requestId && x.bodyHash = r.bodyHash) || x.kind = "claim")

def claimPairing (r : ClaimRequest) (pairing : IssuedCode) (w : World ω τ) :
    Except Raised (World ω τ) :=
  if pairing.usedAt.isSome then
    if claimedBefore r pairing w.rows then .ok w else .error (.refused "PAIRING_CODE_USED" 409)
  else if isActive org w.tables = false then .error (.refused "ORGANIZATION_INACTIVE" 403)
  else b.pair r w

/-- `claim`. -/
def claim (r : ClaimRequest) (w : World ω τ) : Except Raised (World ω τ) :=
  match w.rows.pairings.find? fun p => p.codeHash = r.codeHash && r.now < p.expiresAt with
  | none => .error (.refused "PAIRING_CODE_INVALID" 401)
  | some pairing =>
    if pairing.mode ≠ r.mode then .error (.refused "PAIRING_CODE_INVALID" 401)
    else do
      let other ← b.quota w.rows.other
      r.verified
      claimPairing b org r pairing (w.withRows { w.rows with other })

/-- `_active`. -/
def checkActive (c : Connector) (w : World ω τ) : Except Raised Unit :=
  if c.status ≠ .active ∨ isActive org w.tables = false then
    .error (.refused "CONNECTOR_INACTIVE" 403)
  else .ok ()

/-- `signed_plugin`: batches, heartbeats and rotations. -/
def signedPlugin (r : SignedRequest) (w : World ω τ) : Except Raised (World ω τ) :=
  match w.rows.connectors.find? fun c => c.id = r.installationId && c.kind = .woo with
  | none => .error .other
  | some c => do
    checkActive org c w
    b.signed r c w

def stripeWebhook (r : WebhookRequest) (w : World ω τ) : Except Raised (World ω τ) :=
  match w.rows.connectors.find? fun c => c.destinationId = some r.destinationId with
  | none => .error .other
  | some c => do
    checkActive org c w
    b.webhook r c w

/-- A view behind `tenant_view`, such as the callback of the authorization. -/
def scopedView (r : Request) (w : World ω τ) : Except Raised (JsonResponse × World ω τ) := do
  let ctx ← admitRequest w.tables r
  b.view ctx r w

end Requests

theorem serve_eq_scopedView {sha256 : String → String} {crypto : Crypto}
    {body : TenantContext → Request → Tables (Rows ω τ) →
      Except Raised (JsonResponse × Tables (Rows ω τ))} {b : Bodies ω τ} {r : Request}
    {w : World ω τ} (h : b.view = idempotent sha256 crypto body) :
    serve sha256 crypto body r w = scopedView b r w := by
  rw [scopedView, h]
  rfl

def securityMessages : List String :=
  ["alert_route.updated", "connector.disconnected", "connector.suspended", "member.changed",
    "member.invited", "member.joined", "organization.deletion_requested", "report.requested",
    "stripe.connected", "stripe.webhook_secret_updated", "support.approved", "support.revoked",
    "woo.key_rotated", "woo.paired"]

section Work

variable (b : Bodies ω τ) (org : String)

/-- What an attempt meets: the clock, the routes of the owners, new identifiers and how an email
ends. -/
structure Turn where
  now : Instant
  ownerRoutes : List String := []
  newId : String → String
  sent : Except WorkFailure String

def deliverTo (o : Turn) (event : AuditLog) (rows : Rows ω τ) (route : String) : Rows ω τ :=
  match rows.deliveries.find? fun d => d.securityEvent = some event.id && d.route = route with
  | some d => enqueue ("email:" ++ d.id) org .deliverEmail d.id o.now rows
  | none =>
    enqueue ("email:" ++ o.newId route) org .deliverEmail (o.newId route) o.now
      { rows with
        deliveries := rows.deliveries ++
          [{ id := o.newId route, securityEvent := some event.id, route }] }

/-- `security`. -/
def security (o : Turn) (row : Outbox) (rows : Rows ω τ) : Except WorkFailure (Rows ω τ) :=
  match rows.auditLog.find? (·.id = row.resourceId) with
  | none => .error (.other "DoesNotExist")
  | some event =>
    if event.action ∉ securityMessages then .ok rows
    else .ok (o.ownerRoutes.foldl (deliverTo org o event) rows)

def terminal (status : String) : Bool :=
  status ∈ ["accepted", "delivered", "bounced", "complained", "local", "cancelled"]

/-- `deliver`. -/
def deliver (o : Turn) (row : Outbox) (rows : Rows ω τ) : Except WorkFailure (Rows ω τ) :=
  match rows.deliveries.find? (·.id = row.resourceId) with
  | none => .error (.other "DoesNotExist")
  | some d =>
    if terminal d.status then .ok rows
    else do
      let status ← o.sent
      .ok { rows with
        deliveries := rows.deliveries.map fun x =>
          if x.id = row.resourceId then { x with status } else x }

/-- `handle`. -/
def handle (o : Turn) (row : Outbox) (w : World ω τ) : Except WorkFailure (World ω τ) :=
  match row.taskType with
  | .securityNotify => do .ok (w.withRows (← security org o row w.rows))
  | .deliverEmail => do .ok (w.withRows (← deliver o row w.rows))
  | .deleteTenant | .retention => .error (.other "ProblemMaintenance")
  | _ => b.work row w

def isDeletionNotice (row : Outbox) (rows : Rows ω τ) : Bool :=
  rows.auditLog.any fun a => a.id = row.resourceId && a.action = deletionRequested

def isDeletionDelivery (row : Outbox) (rows : Rows ω τ) : Bool :=
  rows.deliveries.any fun d => d.id = row.resourceId &&
    rows.auditLog.any fun a => d.securityEvent = some a.id && a.action = deletionRequested

/-- `credential_connector`. -/
def credentialConnector (row : Outbox) (rows : Rows ω τ) : Except WorkFailure (Option String) :=
  let connector : Option String :=
    match row.taskType with
    | .stripeReceipt =>
      (rows.intake.receipts.find? fun x => x.id = row.resourceId && x.status ≠ "normalized" &&
        x.status ≠ "ignored").map (·.connectorId)
    | .stripeScanPage =>
      (rows.intake.scans.find? fun x => x.id = row.resourceId && x.status = "pending").map
        (·.connectorId)
    | _ => none
  match connector with
  | none => .ok none
  | some id =>
    if rows.connectors.any fun c => c.id = id && c.kind = .stripe && c.status = .active then
      .ok (some id)
    else .error (.other "DoesNotExist")

/-- The refresh of the credential that the work needs, if it needs one. -/
def refreshed (row : Outbox) (w : World ω τ) : Except WorkFailure (World ω τ) :=
  match credentialConnector row w.rows with
  | .ok (some id) => b.refresh id w
  | _ => .ok w

def conditions (o : Turn) (row : Outbox) (w : World ω τ) : Conditions where
  now := o.now
  active := isActive org w.tables
  deletionRequested := isDeletionNotice row w.rows
  deletionEmail := isDeletionDelivery row w.rows
  credentialConnector := credentialConnector row w.rows
  refreshAccessToken := (refreshed b row w).map fun _ => ()
  task := (do handle b org o row (← refreshed b row w)).map fun _ => ()

def Connector.suspend (c : Connector) : Connector :=
  { c with status := .suspended, credentialCiphertext := .obj [] }

def suspendConnector (id : String) (rows : Rows ω τ) : Rows ω τ :=
  { rows with connectors := rows.connectors.map fun c => if c.id = id then c.suspend else c }

def setRow (row : Outbox) (rows : Rows ω τ) : Rows ω τ :=
  { rows with outbox := rows.outbox.map fun x => if x.id = row.id then row else x }

/-- The tables as an attempt that ends so leaves them. A failure keeps the refresh. -/
def afterAttempt (o : Turn) (row : Outbox) (w : World ω τ) : Verdict → World ω τ
  | .committed =>
    match do handle b org o row (← refreshed b row w) with
    | .ok w' => w'
    | .error _ => w
  | .failed _ suspended =>
    let w' := match refreshed b row w with
      | .ok w' => w'
      | .error _ => w
    suspended.elim w' fun s => w'.withRows (suspendConnector s.1 w'.rows)
  | _ => w

/-- Whether the attempt has come to the work. -/
def executes : Verdict → Bool
  | .committed | .failed _ _ => true
  | _ => false

/-- The first transaction of `_run_message`. -/
def attemptWork (o : Turn) (m : Message) (row : Outbox) (w : World ω τ) : Verdict × World ω τ :=
  let a := attempt (conditions b org o row w) m row
  let w' := afterAttempt b org o row w a.1
  (a.1, w'.withRows (setRow a.2 w'.rows))

def Report.failed (x : Report) : Report := { x with status := "failed" }

def IntakeReceipt.failed (x : IntakeReceipt) : IntakeReceipt := { x with status := "failed" }

def IntakeScan.failed (x : IntakeScan) : IntakeScan := { x with status := "failed" }

def IntakeCursor.incomplete (x : IntakeCursor) : IntakeCursor := { x with complete := false }

def markWhere {α : Type} (p : α → Bool) (mark : α → α) (rows : List α) : List α :=
  rows.map fun x => if p x then mark x else x

def applyConsequence (newId : String → String) (now : Instant) (rows : Rows ω τ) :
    Consequence → Rows ω τ
  | .reportFailed report =>
    { rows with
      reports := markWhere (fun x : Report => x.id = report && x.status ≠ "complete") Report.failed
        rows.reports }
  | .receiptFailed receipt =>
    { rows with
      intake.receipts := markWhere (fun x : IntakeReceipt => x.id = receipt) IntakeReceipt.failed
        rows.intake.receipts }
  | .scanFailed scan =>
    { rows with
      intake.scans := markWhere (fun x : IntakeScan => x.id = scan && x.status = "pending")
        IntakeScan.failed rows.intake.scans }
  | .coverageIncomplete connector =>
    { rows with
      intake.cursors := markWhere (fun x : IntakeCursor => x.connectorId = connector)
        IntakeCursor.incomplete rows.intake.cursors }
  | .connectorSuspended connector _ => suspendConnector connector rows
  | .scansFailed connector =>
    { rows with
      intake.scans := markWhere (fun x : IntakeScan => x.connectorId = connector && x.status = "pending")
        IntakeScan.failed rows.intake.scans }
  | .suspensionAudited connector _ =>
    auditSecurity org ⟨newId connector, "connector.suspended", connector⟩ now rows

/-- What the second transaction of `_run_message` looks up. -/
def lookups (now : Instant) (jitter : Fin 30) (row : Outbox) (rows : Rows ω τ) : Lookups where
  now := now
  jitter := jitter
  receiptConnector := (rows.intake.receipts.find? (·.id = row.resourceId)).map (·.connectorId)
  scanConnector := (rows.intake.scans.find? (·.id = row.resourceId)).map (·.connectorId)

/-- The second transaction of `_run_message`. -/
def recordWork (newId : String → String) (now : Instant) (jitter : Fin 30) (failure : WorkFailure)
    (row : Outbox) (rows : Rows ω τ) : Rows ω τ :=
  let a := recordFailure failure (lookups now jitter row rows) row
  a.2.foldl (applyConsequence org newId now) (setRow a.1 rows)

end Work

end LedgerGuard.Access.Deletion
