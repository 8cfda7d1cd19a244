import LedgerGuard.Core.Canonical
import LedgerGuard.Lib.Raising

/-! # Tenant requests

What a request of a signed-in user passes before a view of an organization runs:
the organization it is about, the membership or support grant that opens it, and
the role that the view may ask for. Row security limits every query to the
organization of the request.
-/

namespace LedgerGuard.Access

open Raising

inductive Role
  | owner | admin | analyst | viewer | merchant
  deriving DecidableEq, Repr

/-- `request.tenant_role`. -/
inductive TenantRole
  | member (role : Role)
  | support
  deriving DecidableEq, Repr

structure Membership where
  organizationId : String
  userId : ℕ
  role : Role
  active : Bool := true
  storeId : Option String := none

structure SupportGrant where
  organizationId : String
  supportUser : ℕ
  expiresAt : Instant
  revokedAt : Option Instant := none

structure Organization where
  id : String
  active : Bool := true

structure ResourceLocator where
  id : String
  organizationId : String

structure FindingRow where
  id : String
  organizationId : String
  storeId : String

/-- The tables of the control plane that a tenant request reads; `rest` is everything that only
the bodies of the views read. -/
structure Tables (ω : Type) where
  memberships : List Membership
  supportGrants : List SupportGrant
  organizations : List Organization
  resourceLocators : List ResourceLocator
  findings : List FindingRow
  rest : ω

structure User where
  pk : ℕ
  isStaff : Bool := false

/-- The mutations wrapped by `tenant_view` and `idempotent`. -/
inductive Mutation
  | createStore | pairingCode | verifyLink | connectorDisconnect | webhookSecret | findingAction
  | reports | policy | inviteMember | membershipChange | supportGrant | alertRoute
  | organizationDelete | organizationPolicy
  deriving DecidableEq, Repr

/-- The roles that the view passes to `require_role`. -/
def Mutation.roles : Mutation → List Role
  | .createStore | .pairingCode | .verifyLink | .connectorDisconnect | .webhookSecret | .policy
  | .alertRoute => [.owner, .admin]
  | .findingAction | .reports => [.owner, .admin, .analyst]
  | .inviteMember | .membershipChange | .supportGrant | .organizationDelete
  | .organizationPolicy => [.owner]

/-- Whether the view calls `require_recent_auth`. -/
def Mutation.recentAuth : Mutation → Bool
  | .findingAction => false
  | _ => true

structure Request where
  mutation : Mutation
  user : Option User
  organizationId : Option String := none
  storeId : Option String := none
  findingId : Option String := none
  reportId : Option String := none
  connectorId : Option String := none
  /-- The organization and the sign-in time of the session. -/
  sessionOrganization : Option String := none
  authenticatedAt : Instant := 0
  idempotencyKey : String := ""
  path : String
  body : String
  correlationId : String := ""
  /-- The clocks of the sign-in check, of the lookups and of the stored response. -/
  clock : Instant
  now : Instant
  savedAt : Instant
  /-- The identifier that a stored response gets. -/
  recordId : String

abbrev Object := List (String × Json)

structure JsonResponse where
  content : Object
  status : ℕ := 200

inductive Raised
  | problem (code : String) (status : ℕ) (detail : String)
  | http404
  | validationError
  | other

/-- `Problem` with its default detail. -/
def Raised.refused (code : String) (status : ℕ) : Raised :=
  .problem code status "The request could not be accepted."

def capitalize (s : String) : String :=
  match s.toList with
  | [] => ""
  | c :: cs => String.ofList (c.toUpper :: cs.map Char.toLower)

def problemResponse (r : Request) (code : String) (status : ℕ) (detail : String) :
    JsonResponse where
  content :=
    [("type", .str ("urn:ledgerguard:problem:" ++
        code.map fun c => if c = '_' then '-' else c.toLower)),
      ("title", .str (capitalize (code.map fun c => if c = '_' then ' ' else c))),
      ("status", .int status), ("code", .str code), ("detail", .str detail),
      ("correlation_id", .str r.correlationId)]
  status := status

/-- How a raise of a view is answered; anything else is a server error. -/
def Raised.response (r : Request) : Raised → JsonResponse
  | .problem code status detail => problemResponse r code status detail
  | .http404 => problemResponse r "NOT_FOUND" 404 "The request could not be accepted."
  | .validationError =>
    problemResponse r "VALIDATION_FAILED" 422 "The request could not be accepted."
  | .other => ⟨[], 500⟩

section Tenant

variable {ω : Type}

/-- The first of the identifiers that locate a resource. -/
def Request.resourceId (r : Request) : Option String :=
  r.storeId <|> r.findingId <|> r.reportId <|> r.connectorId

/-- The organization that the request is about. -/
def Request.organization (r : Request) (t : Tables ω) : Except Raised String := do
  let org ←
    match r.resourceId with
    | none => .ok r.organizationId
    | some resource =>
      match t.resourceLocators.find? (·.id = resource) with
      | none => .error (.refused "NOT_FOUND" 404)
      | some locator => .ok (some locator.organizationId)
  match org <|> r.sessionOrganization with
  | none => .error (.refused "ORGANIZATION_REQUIRED" 400)
  | some org => .ok org

def Tables.membership (t : Tables ω) (org : String) (user : User) : Option Membership :=
  t.memberships.find? fun m => m.organizationId = org && m.userId = user.pk && m.active

def Tables.grant (t : Tables ω) (org : String) (user : User) (now : Instant) :
    Option SupportGrant :=
  t.supportGrants.find? fun g =>
    g.organizationId = org && g.supportUser = user.pk && g.revokedAt.isNone && now < g.expiresAt

def Request.merchantStore (r : Request) (t : Tables ω) (org : String) : Option String :=
  match r.findingId with
  | none => r.storeId
  | some finding =>
    (t.findings.find? fun f => f.id = finding && f.organizationId = org).map (·.storeId)

/-- The role of an active membership, or that of a live support grant. -/
def Tables.tenantRole (t : Tables ω) (org : String) (user : User) (now : Instant) :
    Except Raised TenantRole :=
  match t.membership org user with
  | some m => .ok (.member m.role)
  | none =>
    if user.isStaff && (t.grant org user now).isSome then .ok .support
    else .error (.refused "NOT_FOUND" 404)

/-- A merchant reaches nothing but the store of the membership. -/
def Request.merchantAllowed (r : Request) (t : Tables ω) (org : String) (user : User) : Bool :=
  let store := r.merchantStore t org
  store.isSome && store = (t.membership org user).bind (·.storeId)

/-- What `tenant_view` puts on the request. -/
structure TenantContext where
  organizationId : String
  user : User
  role : TenantRole

/-- The checks of `tenant_view`. -/
def admitRequest (t : Tables ω) (r : Request) : Except Raised TenantContext := do
  let user ← r.user.elim (.error (.refused "AUTHENTICATION_REQUIRED" 401)) .ok
  let org ← r.organization t
  let role ← t.tenantRole org user r.now
  if ¬ t.organizations.any fun o => o.id = org && o.active then
    .error (.refused "ORGANIZATION_INACTIVE" 403)
  else if role = .member .merchant ∧ r.merchantAllowed t org user = false then
    .error (.refused "NOT_FOUND" 404)
  else .ok ⟨org, user, role⟩

theorem admitRequest_ok {t : Tables ω} {r : Request} {ctx : TenantContext}
    (h : admitRequest t r = .ok ctx) :
    r.user = some ctx.user ∧ r.organization t = .ok ctx.organizationId ∧
      t.tenantRole ctx.organizationId ctx.user r.now = .ok ctx.role := by
  unfold admitRequest at h
  obtain ⟨user, hu, h⟩ := bind_eq_ok.mp h
  obtain ⟨org, ho, h⟩ := bind_eq_ok.mp h
  obtain ⟨role, hr, h⟩ := bind_eq_ok.mp h
  split at h
  · cases h
  · split at h
    · cases h
    · obtain rfl := Except.ok.inj h
      refine ⟨?_, ho, hr⟩
      cases hc : r.user with
      | none =>
        rw [hc] at hu
        cases hu
      | some u =>
        rw [hc] at hu
        exact congrArg some (Except.ok.inj hu)

theorem tenantRole_member {t : Tables ω} {org : String} {user : User} {now : Instant} {role : Role}
    (h : t.tenantRole org user now = .ok (.member role)) :
    ∃ m, t.membership org user = some m ∧ m.role = role := by
  unfold Tables.tenantRole at h
  split at h
  case h_1 m hm => exact ⟨m, hm, TenantRole.member.inj (Except.ok.inj h)⟩
  case h_2 => split at h <;> cases h

/-- `require_role`. -/
def requireRole (roles : List Role) : TenantRole → Except Raised Unit
  | .member role => if role ∈ roles then .ok () else .error (.refused "FORBIDDEN" 403)
  | .support => .error (.refused "FORBIDDEN" 403)

/-- `require_recent_auth`. -/
def requireRecentAuth (r : Request) : Except Raised Unit :=
  if minutes 10 < r.clock - r.authenticatedAt then
    .error (.problem "RECENT_AUTHENTICATION_REQUIRED" 403 "Sign in again before this operation.")
  else .ok ()

theorem requireRole_ok {roles : List Role} {role : TenantRole}
    (h : requireRole roles role = .ok ()) : ∃ x ∈ roles, role = .member x := by
  cases role with
  | support => cases h
  | member x =>
    refine ⟨x, ?_, rfl⟩
    rw [requireRole] at h
    split at h
    case isTrue hx => exact hx
    case isFalse => cases h

theorem requireRecentAuth_ok {r : Request} (h : requireRecentAuth r = .ok ()) :
    r.clock - r.authenticatedAt ≤ minutes 10 := by
  unfold requireRecentAuth at h
  split at h
  · cases h
  case isFalse hc => exact not_lt.mp hc

end Tenant

end LedgerGuard.Access
