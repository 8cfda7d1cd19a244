import LedgerGuard.Access.Idempotency
import LedgerGuard.Lib.Transition
import Mathlib.Data.List.Basic

/-! # Members and support

An owner invites members, changes their roles and lets support in for a while. The
membership of an owner itself is out of reach of every request, so whoever is
admitted to an organization is its founder, or was let in by its founder.
-/

namespace LedgerGuard.Access.Members

open Raising Transition

structure Invitation where
  organizationId : String
  email : String
  role : Role
  storeId : Option String
  tokenHash : String
  expiresAt : Instant
  invitedBy : ℕ
  acceptedAt : Option Instant := none

def Invitation.membership (inv : Invitation) (user : ℕ) : Membership where
  organizationId := inv.organizationId
  userId := user
  role := inv.role
  storeId := inv.storeId

structure AlertRoute where
  organizationId : String
  email : String
  active : Bool

structure PairingLocator where
  codeHash : String
  organizationId : String

structure Rest where
  invitations : List Invitation := []
  locators : List PairingLocator := []
  alertRoutes : List AlertRoute := []

/-- The users, and the stores of the organization that a request meets. -/
structure Directory where
  email : ℕ → String
  /-- `email__iexact`. -/
  sameEmail : String → String → Bool
  /-- Active members of the staff. -/
  isStaff : ℕ → Bool
  /-- `get_object_or_404(Store, id=.., active=True)`. -/
  activeStore : Request → Option String → Except Raised String

/-- The address is absent if it is none; the token is drawn by the view. -/
structure Invite where
  email : Option String
  role : Option String
  storeId : Option String := none
  token : String

/-- The user whose membership the identifier names; the role is present and possibly no string,
and `active` is present and possibly no Boolean. -/
structure MemberChange where
  member : Option ℕ
  role : Option (Option String) := none
  active : Option (Option Bool) := none
  storeId : Option String := none

/-- A grant to revoke, by its place in the table, or the terms of a new one and its identifier. -/
inductive Support
  | revoke (grant : ℕ)
  | approve (id : String) (user : Option ℕ) (reason : Option String) (minutes : Option ℤ)

/-- `payload`, for each of the three views. -/
structure Payloads where
  invite : Request → Except Raised Invite
  change : Request → Except Raised MemberChange
  support : Request → Except Raised Support

def givenRole : String → Option Role
  | "admin" => some .admin
  | "analyst" => some .analyst
  | "viewer" => some .viewer
  | "merchant" => some .merchant
  | _ => none

section Views

variable (sha256 : String → String) (d : Directory)

def storeFor (r : Request) (role : Role) (storeId : Option String) :
    Except Raised (Option String) := do
  if role = .merchant then
    let store ← d.activeStore r storeId
    .ok (some store)
  else .ok none

/-- `invite_member`. -/
def inviteMember (p : Invite) (ctx : TenantContext) (r : Request) (t : Tables Rest) :
    Except Raised (JsonResponse × Tables Rest) := do
  let email ← p.email.elim (.error (.refused "INVALID_EMAIL" 422)) .ok
  let role ← (p.role.bind givenRole).elim (.error (.refused "INVALID_ROLE" 422)) .ok
  let storeId ← storeFor d r role p.storeId
  let tokenHash := sha256 p.token
  let expiresAt := r.now + minutes (2 * 24 * 60)
  let invitation : Invitation :=
    { organizationId := ctx.organizationId, email, role, storeId, tokenHash, expiresAt
      invitedBy := ctx.user.pk }
  -- The hash is unique among the invitations and the key of the locators.
  if t.rest.invitations.any (·.tokenHash = tokenHash) ||
      t.rest.locators.any (·.codeHash = tokenHash) then .error .other
  else
    .ok (⟨[("invitation_token", .str p.token), ("expires_at", .str (isoformat expiresAt))], 201⟩,
      { t with
        rest := { t.rest with
          invitations := t.rest.invitations ++ [invitation]
          locators := t.rest.locators ++ [⟨tokenHash, ctx.organizationId⟩] } })

def ownerRow (org : String) (user : ℕ) : Membership where
  organizationId := org
  userId := user
  role := .owner

def isMember (org : String) (user : ℕ) (m : Membership) : Bool :=
  m.organizationId = org && m.userId = user

/-- `membership_change`, for the row that was found. -/
def changedMember (p : MemberChange) (r : Request) (m : Membership) :
    Except Raised Membership := do
  if m.role = .owner then .error (.refused "OWNERSHIP_TRANSFER_REQUIRES_REVIEW" 409)
  else
    let role ← (p.role.elim (some m.role) (·.bind givenRole)).elim
      (.error (.refused "INVALID_ROLE" 422)) .ok
    let active ← (p.active.elim (some m.active) id).elim
      (.error (.refused "INVALID_BOOLEAN" 422)) .ok
    let storeId ← storeFor d r role (p.storeId <|> m.storeId)
    .ok { m with role, active, storeId }

/-- `membership_change`. Whoever leaves or becomes a merchant gets no more alerts. -/
def membershipChange (p : MemberChange) (ctx : TenantContext) (r : Request) (t : Tables Rest) :
    Except Raised (JsonResponse × Tables Rest) := do
  let user ← p.member.elim (.error .http404) .ok
  let m ← (t.memberships.find? (isMember ctx.organizationId user)).elim (.error .http404) .ok
  let m' ← changedMember d p r m
  let silenced := fun route : AlertRoute =>
    route.organizationId = ctx.organizationId && route.email = d.email user &&
      (!m'.active || m'.role = .merchant)
  .ok (⟨[("status", .str "updated")], 200⟩,
    { t with
      memberships := t.memberships.map fun x =>
        if isMember ctx.organizationId user x then m' else x
      rest := { t.rest with
        alertRoutes := t.rest.alertRoutes.map fun route =>
          if silenced route then { route with active := false } else route } })

def supportTerms : Option ℕ → Option String → Option ℤ → Option (ℕ × ℤ)
  | some user, some reason, some length =>
    if 10 ≤ reason.length ∧ reason.length ≤ 500 ∧ 1 ≤ user ∧ 1 ≤ length ∧ length ≤ 120 then
      some (user, length)
    else none
  | _, _, _ => none

/-- `support_grant`. -/
def supportGrant (p : Support) (ctx : TenantContext) (r : Request) (t : Tables Rest) :
    Except Raised (JsonResponse × Tables Rest) :=
  match p with
  | .revoke i =>
    match t.supportGrants[i]? with
    | some g =>
      if g.organizationId = ctx.organizationId then
        .ok (⟨[("status", .str "revoked")], 200⟩,
          { t with supportGrants := t.supportGrants.set i { g with revokedAt := some r.now } })
      else .error .http404
    | none => .error .http404
  | .approve id user reason length =>
    match supportTerms user reason length with
    | none => .error (.refused "SUPPORT_SCOPE_INVALID" 422)
    | some (user, length) =>
      if d.isStaff user then
        let g : SupportGrant :=
          { organizationId := ctx.organizationId, supportUser := user,
            expiresAt := r.now + minutes length }
        .ok (⟨[("id", .str id), ("expires_at", .str (isoformat g.expiresAt))], 201⟩,
          { t with supportGrants := t.supportGrants ++ [g] })
      else .error .http404

variable (p : Payloads)
  (other : TenantContext → Request → Tables Rest → Except Raised (JsonResponse × Tables Rest))

/-- The rest of a view, behind its two checks. -/
def body (ctx : TenantContext) (r : Request) (t : Tables Rest) :
    Except Raised (JsonResponse × Tables Rest) :=
  match r.mutation with
  | .inviteMember => do inviteMember sha256 d (← p.invite r) ctx r t
  | .membershipChange => do membershipChange d (← p.change r) ctx r t
  | .supportGrant => do supportGrant d (← p.support r) ctx r t
  | _ => other ctx r t

/-- `accept_invitation`, of a signed-in user. -/
def acceptInvitation (user : ℕ) (token : String) (now : Instant) (t : Tables Rest) :
    Except Raised (JsonResponse × Tables Rest) :=
  match t.rest.locators.find? (·.codeHash = sha256 token) with
  | none => .error (.refused "INVITATION_INVALID" 404)
  | some locator =>
    let isOpen := fun inv : Invitation =>
      inv.organizationId = locator.organizationId && inv.tokenHash = sha256 token &&
        d.sameEmail inv.email (d.email user) && inv.acceptedAt.isNone && now < inv.expiresAt
    match t.rest.invitations.find? isOpen with
    | none => .error (.refused "INVITATION_INVALID" 404)
    | some inv =>
      if t.memberships.any (isMember locator.organizationId user) then
        .error (.refused "ALREADY_A_MEMBER" 409)
      else
        let location :=
          if inv.role = .merchant then "/stores/" ++ inv.storeId.getD "None" ++ "/"
          else "/o/" ++ locator.organizationId ++ "/"
        .ok (⟨[("location", .str location)], 200⟩,
          { t with
            memberships := t.memberships ++ [inv.membership user]
            rest := { t.rest with
              invitations := t.rest.invitations.map fun x =>
                if isOpen x then { x with acceptedAt := some now } else x } })

/-- `create_organization` under a new identifier, past the checks of the sign-in and the key. The
name is stripped, and absent if it is no text. -/
def createOrganization (org : String) (user : ℕ) (name : Option String) (t : Tables Rest) :
    Except Raised (JsonResponse × Tables Rest) :=
  if ¬ name.any fun name => 1 ≤ name.length && name.length ≤ 100 then
    .error (.refused "VALIDATION_FAILED" 422)
  else if 50 ≤ (t.memberships.filter fun m => m.userId = user && m.active).length then
    .error (.refused "ORGANIZATION_LIMIT_REACHED" 422)
  else if org ∈ t.organizations.map (·.id) then .error .other
  else
    let route : AlertRoute := { organizationId := org, email := d.email user, active := true }
    .ok (⟨[("id", .str org), ("location", .str ("/o/" ++ org ++ "/"))], 201⟩,
      { t with
        organizations := t.organizations ++ [{ id := org }]
        memberships := t.memberships ++ [ownerRow org user]
        rest := { t.rest with
          alertRoutes :=
            if route.email = "" then t.rest.alertRoutes else t.rest.alertRoutes ++ [route] } })

end Views

section Changes

variable {sha256 : String → String} {d : Directory} {ctx : TenantContext} {r : Request}
  {t t' : Tables Rest} {answer : JsonResponse × Tables Rest}

theorem elim_ok {α : Type} {x : Option α} {e : Raised} {a : α}
    (h : x.elim (Except.error e) Except.ok = Except.ok a) : x = some a := by
  cases x with
  | none => cases h
  | some b => exact congrArg some (Except.ok.inj h)

theorem givenRole_ne {s : String} {role : Role} (h : givenRole s = some role) : role ≠ .owner := by
  unfold givenRole at h
  split at h <;> first | cases h; decide | cases h

theorem inviteMember_ok {p : Invite} (h : inviteMember sha256 d p ctx r t = .ok answer) :
    ∃ invitation : Invitation, p.email = some invitation.email ∧ invitation.role ≠ .owner ∧
      invitation.organizationId = ctx.organizationId ∧ invitation.tokenHash = sha256 p.token ∧
      answer.2.memberships = t.memberships ∧ answer.2.organizations = t.organizations ∧
      answer.2.supportGrants = t.supportGrants ∧
      answer.2.rest.invitations = t.rest.invitations ++ [invitation] := by
  obtain ⟨email, hemail, h⟩ := bind_eq_ok.mp h
  obtain ⟨role, hrole, h⟩ := bind_eq_ok.mp h
  obtain ⟨storeId, -, h⟩ := bind_eq_ok.mp h
  dsimp only at h
  split at h
  · cases h
  obtain rfl := Except.ok.inj h
  refine ⟨_, elim_ok hemail, ?_, rfl, rfl, rfl, rfl, rfl, rfl⟩
  obtain ⟨s, -, hs⟩ := Option.bind_eq_some_iff.mp (elim_ok hrole)
  exact givenRole_ne hs

theorem changedMember_ok {p : MemberChange} {m m' : Membership}
    (h : changedMember d p r m = .ok m') : m.role ≠ .owner ∧ m'.role ≠ .owner ∧
      m'.organizationId = m.organizationId ∧ m'.userId = m.userId := by
  unfold changedMember at h
  split at h
  · cases h
  rename_i hm
  obtain ⟨role, hrole, h⟩ := bind_eq_ok.mp h
  obtain ⟨active, -, h⟩ := bind_eq_ok.mp h
  obtain ⟨storeId, -, h⟩ := bind_eq_ok.mp h
  obtain rfl := Except.ok.inj h
  refine ⟨hm, ?_, rfl, rfl⟩
  have hrole := elim_ok hrole
  cases hp : p.role with
  | none =>
    rw [hp] at hrole
    obtain rfl := Option.some.inj hrole
    exact hm
  | some role =>
    rw [hp] at hrole
    obtain ⟨s, -, hs⟩ := Option.bind_eq_some_iff.mp hrole
    exact givenRole_ne hs

theorem membershipChange_ok {p : MemberChange}
    (h : membershipChange d p ctx r t = .ok answer) : ∃ user m m', m ∈ t.memberships ∧
      isMember ctx.organizationId user m = true ∧ m.role ≠ .owner ∧ m'.role ≠ .owner ∧
      m'.organizationId = m.organizationId ∧ m'.userId = m.userId ∧
      answer.2.memberships = t.memberships.map (fun x =>
        if isMember ctx.organizationId user x then m' else x) ∧
      answer.2.organizations = t.organizations ∧ answer.2.supportGrants = t.supportGrants ∧
      answer.2.rest.invitations = t.rest.invitations := by
  obtain ⟨user, -, h⟩ := bind_eq_ok.mp h
  obtain ⟨m, hfound, h⟩ := bind_eq_ok.mp h
  obtain ⟨m', hm', h⟩ := bind_eq_ok.mp h
  obtain rfl := Except.ok.inj h
  obtain ⟨hm, hm'', horg, huser⟩ := changedMember_ok hm'
  have hfound := elim_ok hfound
  exact ⟨user, m, m', List.mem_of_find?_eq_some hfound, List.find?_some hfound, hm, hm'', horg,
    huser, rfl, rfl, rfl, rfl⟩

theorem supportTerms_ok {user : Option ℕ} {reason : Option String} {length : Option ℤ} {u : ℕ}
    {n : ℤ} (h : supportTerms user reason length = some (u, n)) : user = some u ∧ n ≤ 120 := by
  unfold supportTerms at h
  split at h
  · split at h
    · rename_i hc
      obtain ⟨rfl, rfl⟩ := Prod.mk.inj (Option.some.inj h)
      exact ⟨rfl, hc.2.2.2.2⟩
    · cases h
  · cases h

theorem supportGrant_ok {p : Support} (h : supportGrant d p ctx r t = .ok answer) :
    answer.2.memberships = t.memberships ∧ answer.2.organizations = t.organizations ∧
    answer.2.rest = t.rest ∧ ∀ g ∈ answer.2.supportGrants,
      (∃ g' ∈ t.supportGrants, g.organizationId = g'.organizationId ∧
        g.supportUser = g'.supportUser ∧ g.expiresAt = g'.expiresAt) ∨
      (g.organizationId = ctx.organizationId ∧ g.expiresAt ≤ r.now + minutes 120 ∧
        ∃ id reason length, p = .approve id (some g.supportUser) reason length) := by
  unfold supportGrant at h
  split at h
  · split at h
    · rename_i i g hget
      split at h
      · obtain rfl := Except.ok.inj h
        refine ⟨rfl, rfl, rfl, fun x hx => Or.inl ?_⟩
        rcases List.mem_or_eq_of_mem_set hx with hx | rfl
        · exact ⟨x, hx, rfl, rfl, rfl⟩
        · exact ⟨g, List.mem_of_getElem? hget, rfl, rfl, rfl⟩
      · cases h
    · cases h
  · rename_i id user reason length
    split at h
    · cases h
    · rename_i user' length' hterms
      split at h
      · obtain rfl := Except.ok.inj h
        refine ⟨rfl, rfl, rfl, fun x hx => ?_⟩
        rcases List.mem_append.mp hx with hx | hx
        · exact Or.inl ⟨x, hx, rfl, rfl, rfl⟩
        · obtain rfl := List.mem_singleton.mp hx
          obtain ⟨rfl, hle⟩ := supportTerms_ok hterms
          refine Or.inr ⟨rfl, ?_, id, reason, length, rfl⟩
          exact Int.add_le_add_left (Int.mul_le_mul_of_nonneg_right hle (by decide)) _
      · cases h

theorem acceptInvitation_ok {user : ℕ} {token : String} {now : Instant}
    (h : acceptInvitation sha256 d user token now t = .ok answer) : ∃ inv ∈ t.rest.invitations,
      inv.tokenHash = sha256 token ∧ d.sameEmail inv.email (d.email user) = true ∧
      t.memberships.any (isMember inv.organizationId user) = false ∧
      answer.2.memberships = t.memberships ++ [inv.membership user] ∧
      answer.2.organizations = t.organizations ∧ answer.2.supportGrants = t.supportGrants ∧
      ∀ x ∈ answer.2.rest.invitations, ∃ y ∈ t.rest.invitations,
        x.organizationId = y.organizationId ∧ x.email = y.email ∧ x.role = y.role ∧
          x.tokenHash = y.tokenHash := by
  unfold acceptInvitation at h
  split at h
  · cases h
  rename_i locator _
  dsimp only at h
  split at h
  · cases h
  rename_i inv hfind
  split at h
  · cases h
  rename_i hnew
  obtain rfl := Except.ok.inj h
  have hopen := List.find?_some hfind
  simp only [Bool.and_eq_true, decide_eq_true_eq] at hopen
  refine ⟨inv, List.mem_of_find?_eq_some hfind, hopen.1.1.1.2, hopen.1.1.2, ?_, rfl, rfl, rfl, ?_⟩
  · rw [hopen.1.1.1.1]
    simpa using hnew
  · intro x hx
    obtain ⟨y, hy, rfl⟩ := List.mem_map.mp hx
    use y, hy
    split <;> exact ⟨rfl, rfl, rfl, rfl⟩

theorem createOrganization_ok {org : String} {user : ℕ} {name : Option String}
    (h : createOrganization d org user name t = .ok answer) :
    org ∉ t.organizations.map (·.id) ∧
      answer.2.memberships = t.memberships ++ [ownerRow org user] ∧
      answer.2.organizations = t.organizations ++ [{ id := org }] ∧
      answer.2.supportGrants = t.supportGrants ∧
      answer.2.rest.invitations = t.rest.invitations := by
  unfold createOrganization at h
  split at h
  · cases h
  split at h
  · cases h
  split at h
  · cases h
  rename_i hfresh
  obtain rfl := Except.ok.inj h
  exact ⟨hfresh, rfl, rfl, rfl, rfl⟩

theorem serve_tables {ω : Type} {crypto : Crypto}
    {body : TenantContext → Request → Tables ω → Except Raised (JsonResponse × Tables ω)}
    {db : Db ω} {answer : JsonResponse × Db ω} (h : serve sha256 crypto body r db = .ok answer) :
    answer.2.tables = db.tables ∨ ∃ ctx response, admitRequest db.tables r = .ok ctx ∧
      view body ctx r db.tables = .ok (response, answer.2.tables) := by
  obtain ⟨ctx, hctx, h⟩ := bind_eq_ok.mp h
  have hrespond : ∀ records, respond sha256 crypto body ctx r ⟨db.tables, records⟩ = .ok answer →
      ∃ response, view body ctx r db.tables = .ok (response, answer.2.tables) := by
    intro records h
    obtain ⟨⟨response, tables⟩, hview, h⟩ := bind_eq_ok.mp h
    refine ⟨response, ?_⟩
    dsimp only at h
    split at h
    · obtain ⟨stored, -, h⟩ := bind_eq_ok.mp h
      obtain rfl := Except.ok.inj h
      exact hview
    · obtain rfl := Except.ok.inj h
      exact hview
  unfold idempotent at h
  split at h
  · cases h
  split at h
  · obtain ⟨response, hview⟩ := hrespond db.records h
    exact Or.inr ⟨ctx, response, hctx, hview⟩
  split at h
  · split at h
    · cases h
    · obtain ⟨value, -, h⟩ := bind_eq_ok.mp h
      obtain rfl := Except.ok.inj h
      exact Or.inl rfl
  · obtain ⟨response, hview⟩ := hrespond _ h
    exact Or.inr ⟨ctx, response, hctx, hview⟩

end Changes

inductive Event
  | founded (org : String) (user : ℕ)
  | accepted (user : ℕ) (token : String) (now : Instant)
  | request (r : Request)

/-- What the other views leave alone. -/
def Frame
    (other : TenantContext → Request → Tables Rest → Except Raised (JsonResponse × Tables Rest)) :
    Prop :=
  ∀ ctx r t answer, other ctx r t = .ok answer → answer.2.memberships = t.memberships ∧
    answer.2.organizations.map (·.id) = t.organizations.map (·.id) ∧
    answer.2.supportGrants = t.supportGrants ∧ answer.2.rest.invitations = t.rest.invitations

section Runs

variable (sha256 : String → String) (crypto : Crypto) (d : Directory) (p : Payloads)
  (other : TenantContext → Request → Tables Rest → Except Raised (JsonResponse × Tables Rest))

inductive Step : Db Rest → Event → Db Rest → Prop

  | founded {db org user name answer} :
      createOrganization d org user name db.tables = .ok answer →
      Step db (.founded org user) { db with tables := answer.2 }

  | accepted {db user token now answer} :
      acceptInvitation sha256 d user token now db.tables = .ok answer →
      Step db (.accepted user token now) { db with tables := answer.2 }

  | request {db r} :
      Step db (.request r) (tenantView sha256 crypto (body sha256 d p other) r db).2

/-- Nobody has signed up yet. -/
def opening : Db Rest where
  tables :=
    { memberships := [], supportGrants := [], organizations := [], resourceLocators := [],
      findings := [], rest := {} }

variable (events : List Event)

def Founded (org : String) (user : ℕ) : Prop := .founded org user ∈ events

/-- The founder's request for the organization is accepted, and its view carries it out. -/
def ByFounder (mutation : Mutation) (org : String) (r : Request) : Prop :=
  ∃ before db rest answer ctx response, events = before ++ .request r :: rest ∧
    Run (Step sha256 crypto d p other) opening before db ∧
    serve sha256 crypto (body sha256 d p other) r db = .ok answer ∧
    admitRequest db.tables r = .ok ctx ∧
    view (body sha256 d p other) ctx r db.tables = .ok (response, answer.2.tables) ∧
    r.mutation = mutation ∧ ctx.organizationId = org ∧ Founded before org ctx.user.pk

/-- The user has accepted, by its token, an invitation that the founder has sent to the user's
address. -/
def Invited (org : String) (user : ℕ) : Prop :=
  ∃ before token now rest, events = before ++ .accepted user token now :: rest ∧
    ∃ r i email, ByFounder sha256 crypto d p other before .inviteMember org r ∧
      p.invite r = .ok i ∧ sha256 i.token = sha256 token ∧ i.email = some email ∧
      d.sameEmail email (d.email user) = true

/-- The founder has approved support by the user, two hours before the instant or later. -/
def Approved (org : String) (user : ℕ) (deadline : Instant) : Prop :=
  ∃ r id reason length, ByFounder sha256 crypto d p other events .supportGrant org r ∧
    p.support r = .ok (.approve id (some user) reason length) ∧ deadline ≤ r.now + minutes 120

/-- Every way into an organization goes back to its founder. -/
structure Governed (t : Tables Rest) : Prop where
  known : ∀ org user, Founded events org user → org ∈ t.organizations.map (·.id)
  single : ∀ org user user', Founded events org user → Founded events org user' → user = user'
  owner : ∀ m ∈ t.memberships, m.role = .owner → Founded events m.organizationId m.userId
  founder : ∀ org user, Founded events org user → ownerRow org user ∈ t.memberships
  unique : (t.memberships.map fun m => (m.organizationId, m.userId)).Nodup
  member : ∀ m ∈ t.memberships, m.role ≠ .owner →
    Invited sha256 crypto d p other events m.organizationId m.userId
  invitation : ∀ inv ∈ t.rest.invitations, inv.role ≠ .owner ∧ ∃ r i,
    ByFounder sha256 crypto d p other events .inviteMember inv.organizationId r ∧
      p.invite r = .ok i ∧ i.email = some inv.email ∧ inv.tokenHash = sha256 i.token
  grant : ∀ g ∈ t.supportGrants,
    Approved sha256 crypto d p other events g.organizationId g.supportUser g.expiresAt

end Runs

section Governing

variable {sha256 : String → String} {crypto : Crypto} {d : Directory} {p : Payloads}
  {other : TenantContext → Request → Tables Rest → Except Raised (JsonResponse × Tables Rest)}
  {events events' : List Event} {e : Event} {t t' : Tables Rest} {db db' : Db Rest} {r : Request}
  {ctx : TenantContext} {org : String} {user : ℕ} {answer : JsonResponse × Tables Rest}

theorem isMember_iff {m : Membership} :
    isMember org user m = true ↔ m.organizationId = org ∧ m.userId = user := by
  simp [isMember]

theorem ByFounder.append {mutation : Mutation}
    (h : ByFounder sha256 crypto d p other events mutation org r) :
    ByFounder sha256 crypto d p other (events ++ [e]) mutation org r := by
  obtain ⟨before, db, rest, answer, ctx, response, rfl, h⟩ := h
  exact ⟨before, db, rest ++ [e], answer, ctx, response, by simp, h⟩

theorem Invited.append (h : Invited sha256 crypto d p other events org user) :
    Invited sha256 crypto d p other (events ++ [e]) org user := by
  obtain ⟨before, token, now, rest, rfl, h⟩ := h
  exact ⟨before, token, now, rest ++ [e], by simp, h⟩

theorem Approved.append {deadline : Instant}
    (h : Approved sha256 crypto d p other events org user deadline) :
    Approved sha256 crypto d p other (events ++ [e]) org user deadline := by
  obtain ⟨r, id, reason, length, hr, hp, hd⟩ := h
  exact ⟨r, id, reason, length, hr.append, hp, hd⟩

theorem founded_append (he : ∀ org user, e ≠ .founded org user) :
    Founded (events ++ [e]) org user ↔ Founded events org user := by
  unfold Founded
  rw [List.mem_append, List.mem_singleton]
  exact or_iff_left fun h => he org user h.symm

theorem Invited.founded (h : Invited sha256 crypto d p other events org user) :
    ∃ founder, Founded events org founder := by
  obtain ⟨before, token, now, rest, rfl, r, i, email, hby, -⟩ := h
  obtain ⟨earlier, db, between, answer, ctx, response, rfl, -, -, -, -, -, -, hf⟩ := hby
  refine ⟨ctx.user.pk, ?_⟩
  rw [Founded, List.append_assoc]
  exact List.mem_append_left _ hf

theorem Governed.mono (h : Governed sha256 crypto d p other events t)
    (he : ∀ org user, e ≠ .founded org user) :
    Governed sha256 crypto d p other (events ++ [e]) t where
  known org user hf := h.known org user ((founded_append he).mp hf)
  single org user user' hf hf' :=
    h.single org user user' ((founded_append he).mp hf) ((founded_append he).mp hf')
  owner m hm hr := List.mem_append_left _ (h.owner m hm hr)
  founder org user hf := h.founder org user ((founded_append he).mp hf)
  unique := h.unique
  member m hm hr := (h.member m hm hr).append
  invitation := by
    intro inv hinv
    obtain ⟨hr, r, i, hby, hi⟩ := h.invitation inv hinv
    exact ⟨hr, r, i, hby.append, hi⟩
  grant g hg := (h.grant g hg).append

theorem Governed.of_same (h : Governed sha256 crypto d p other events t)
    (hm : t'.memberships = t.memberships)
    (ho : t'.organizations.map (·.id) = t.organizations.map (·.id))
    (hi : ∀ inv ∈ t'.rest.invitations, inv.role ≠ .owner ∧ ∃ r i,
      ByFounder sha256 crypto d p other events .inviteMember inv.organizationId r ∧
        p.invite r = .ok i ∧ i.email = some inv.email ∧ inv.tokenHash = sha256 i.token)
    (hg : ∀ g ∈ t'.supportGrants,
      Approved sha256 crypto d p other events g.organizationId g.supportUser g.expiresAt) :
    Governed sha256 crypto d p other events t' where
  known := by
    rw [ho]
    exact h.known
  single := h.single
  owner := by
    rw [hm]
    exact h.owner
  founder := by
    rw [hm]
    exact h.founder
  unique := by
    rw [hm]
    exact h.unique
  member := by
    rw [hm]
    exact h.member
  invitation := hi
  grant := hg

theorem membership_some {u : User} {m : Membership} (h : t.membership org u = some m) :
    m ∈ t.memberships ∧ m.organizationId = org ∧ m.userId = u.pk ∧ m.active = true := by
  have hp := List.find?_some h
  simp only [Bool.and_eq_true, decide_eq_true_eq] at hp
  exact ⟨List.mem_of_find?_eq_some h, hp.1.1, hp.1.2, hp.2⟩

theorem Governed.admitted_owner (h : Governed sha256 crypto d p other events t)
    (hctx : admitRequest t r = .ok ctx) (hrole : ctx.role = .member .owner) :
    Founded events ctx.organizationId ctx.user.pk := by
  obtain ⟨-, -, hr⟩ := admitRequest_ok hctx
  obtain ⟨m, hm, hmr⟩ := tenantRole_member (hrole ▸ hr)
  obtain ⟨hm, horg, huser, -⟩ := membership_some hm
  have hf := h.owner m hm hmr
  rwa [horg, huser] at hf

theorem Governed.founder_row (h : Governed sha256 crypto d p other events t)
    (hf : Founded events org user) {m : Membership} (hm : m ∈ t.memberships)
    (horg : m.organizationId = org) (huser : m.userId = user) : m = ownerRow org user :=
  List.inj_on_of_nodup_map h.unique hm (h.founder org user hf) (Prod.ext horg huser)

theorem Governed.founder_rows (h : Governed sha256 crypto d p other events t)
    (hf : Founded events org user) :
    t.memberships.filter (isMember org user) = [ownerRow org user] := by
  apply List.perm_singleton.mp
  apply (List.perm_ext_iff_of_nodup (h.unique.of_map.filter _) (List.nodup_singleton _)).mpr
  intro m
  rw [List.mem_filter, List.mem_singleton]
  constructor
  · rintro ⟨hm, hmem⟩
    obtain ⟨horg, huser⟩ := isMember_iff.mp hmem
    exact h.founder_row hf hm horg huser
  · rintro rfl
    exact ⟨h.founder org user hf, isMember_iff.mpr ⟨rfl, rfl⟩⟩

theorem Governed.founder_admitted (h : Governed sha256 crypto d p other events t)
    (hctx : admitRequest t r = .ok ctx) (hf : Founded events ctx.organizationId ctx.user.pk) :
    ctx.role = .member .owner := by
  obtain ⟨-, -, hrole⟩ := admitRequest_ok hctx
  unfold Tables.tenantRole at hrole
  split at hrole
  · rename_i m hm
    obtain ⟨hm, horg, huser, -⟩ := membership_some hm
    rw [← Except.ok.inj hrole, h.founder_row hf hm horg huser]
    rfl
  · rename_i hnone
    have hno := List.find?_eq_none.mp hnone _ (h.founder _ _ hf)
    simp [ownerRow] at hno

theorem Governed.admitted_member (h : Governed sha256 crypto d p other events t)
    (hctx : admitRequest t r = .ok ctx) (role : Role) (hr : ctx.role = .member role)
    (hne : role ≠ .owner) :
    Invited sha256 crypto d p other events ctx.organizationId ctx.user.pk := by
  obtain ⟨-, -, hrole⟩ := admitRequest_ok hctx
  obtain ⟨m, hm, rfl⟩ := tenantRole_member (hr ▸ hrole)
  obtain ⟨hm, horg, huser, -⟩ := membership_some hm
  have hinv := h.member m hm hne
  rwa [horg, huser] at hinv

theorem Governed.admitted_support (h : Governed sha256 crypto d p other events t)
    (hctx : admitRequest t r = .ok ctx) (hr : ctx.role = .support) : ∃ deadline, r.now < deadline ∧
      Approved sha256 crypto d p other events ctx.organizationId ctx.user.pk deadline := by
  obtain ⟨-, -, hrole⟩ := admitRequest_ok hctx
  rw [hr] at hrole
  unfold Tables.tenantRole at hrole
  split at hrole
  · cases Except.ok.inj hrole
  split at hrole
  · rename_i hg
    simp only [Bool.and_eq_true] at hg
    obtain ⟨g, hg⟩ := Option.isSome_iff_exists.mp hg.2
    have hp := List.find?_some hg
    simp only [Bool.and_eq_true, decide_eq_true_eq] at hp
    have happroved := h.grant g (List.mem_of_find?_eq_some hg)
    rw [hp.1.1.1, hp.1.1.2] at happroved
    exact ⟨g.expiresAt, hp.2, happroved⟩
  · cases hrole

theorem view_body {ω : Type}
    {body : TenantContext → Request → Tables ω → Except Raised (JsonResponse × Tables ω)}
    {t : Tables ω} {answer : JsonResponse × Tables ω} (h : view body ctx r t = .ok answer) :
    requireRole r.mutation.roles ctx.role = .ok () ∧ body ctx r t = .ok answer := by
  obtain ⟨_, hrole, h⟩ := bind_eq_ok.mp h
  refine ⟨hrole, ?_⟩
  split at h
  · obtain ⟨_, -, h⟩ := bind_eq_ok.mp h
    exact h
  · exact h

theorem Governed.byFounder {mutation : Mutation} {response : JsonResponse}
    {answer : JsonResponse × Db Rest} (h : Governed sha256 crypto d p other events db.tables)
    (hrun : Run (Step sha256 crypto d p other) opening events db)
    (hs : serve sha256 crypto (body sha256 d p other) r db = .ok answer)
    (hctx : admitRequest db.tables r = .ok ctx)
    (hview : view (body sha256 d p other) ctx r db.tables = .ok (response, answer.2.tables))
    (hm : r.mutation = mutation) (hroles : mutation.roles = [.owner]) :
    ByFounder sha256 crypto d p other (events ++ [.request r]) mutation ctx.organizationId r := by
  obtain ⟨hrole, -⟩ := view_body hview
  rw [hm, hroles] at hrole
  obtain ⟨x, hx, hrole⟩ := requireRole_ok hrole
  obtain rfl := List.mem_singleton.mp hx
  exact ⟨events, db, [], answer, ctx, response, rfl, hrun, hs, hctx, hview, hm, rfl,
    h.admitted_owner hctx hrole⟩

theorem Governed.changed (h : Governed sha256 crypto d p other events t) {m m' : Membership}
    (hm : m ∈ t.memberships) (hmem : isMember org user m = true) (hr : m.role ≠ .owner)
    (hr' : m'.role ≠ .owner)
    (horg : m'.organizationId = m.organizationId) (huser : m'.userId = m.userId)
    (hms : t'.memberships = t.memberships.map fun x => if isMember org user x then m' else x)
    (ho : t'.organizations = t.organizations) (hg : t'.supportGrants = t.supportGrants)
    (hi : t'.rest.invitations = t.rest.invitations) :
    Governed sha256 crypto d p other events t' := by
  have hkey := isMember_iff.mp hmem
  -- A user has one membership of an organization, so no other row is changed.
  have hsame : ∀ x ∈ t.memberships, isMember org user x = true → x = m := by
    intro x hx hxm
    have hxk := isMember_iff.mp hxm
    refine List.inj_on_of_nodup_map h.unique hx hm (Prod.ext ?_ ?_)
    · exact hxk.1.trans hkey.1.symm
    · exact hxk.2.trans hkey.2.symm
  have hrow : ∀ x ∈ t'.memberships, x = m' ∨ x ∈ t.memberships := by
    intro x hx
    rw [hms] at hx
    obtain ⟨y, hy, rfl⟩ := List.mem_map.mp hx
    split
    · exact Or.inl rfl
    · exact Or.inr hy
  exact {
    known := by
      rw [ho]
      exact h.known
    single := h.single
    owner := by
      intro x hx hxr
      rcases hrow x hx with rfl | hx
      · exact absurd hxr hr'
      · exact h.owner x hx hxr
    founder := by
      intro org' user' hf
      have hx := h.founder org' user' hf
      rw [hms]
      refine List.mem_map.mpr ⟨ownerRow org' user', hx, if_neg fun hx' => ?_⟩
      rw [← hsame _ hx hx'] at hr
      exact hr rfl
    unique := by
      have hkeys : (t'.memberships.map fun m => (m.organizationId, m.userId)) =
          t.memberships.map fun m => (m.organizationId, m.userId) := by
        rw [hms, List.map_map]
        apply List.map_congr_left
        intro x hx
        dsimp only [Function.comp]
        split
        · rename_i hxm
          rw [hsame x hx hxm, horg, huser]
        · rfl
      rw [hkeys]
      exact h.unique
    member := by
      intro x hx hxr
      rcases hrow x hx with rfl | hx
      · rw [horg, huser]
        exact h.member m hm hr
      · exact h.member x hx hxr
    invitation := by
      rw [hi]
      exact h.invitation
    grant := by
      rw [hg]
      exact h.grant }

theorem governed_request (hother : Frame other)
    (hrun : Run (Step sha256 crypto d p other) opening events db)
    (h : Governed sha256 crypto d p other events db.tables) :
    Governed sha256 crypto d p other (events ++ [.request r])
      (tenantView sha256 crypto (body sha256 d p other) r db).2.tables := by
  have hmono : Governed sha256 crypto d p other (events ++ [.request r]) db.tables :=
    h.mono fun _ _ h => by cases h
  unfold tenantView
  split
  case h_2 => exact hmono
  rename_i answer hs
  rcases serve_tables hs with hsame | ⟨ctx, response, hctx, hview⟩
  · rw [hsame]
    exact hmono
  obtain ⟨-, hbody⟩ := view_body hview
  unfold body at hbody
  -- The three views of this module, and the rest.
  split at hbody
  · rename_i hm
    obtain ⟨i, hi, hbody⟩ := bind_eq_ok.mp hbody
    obtain ⟨inv, hemail, hr, horg, htoken, hms, ho, hg, hi'⟩ := inviteMember_ok hbody
    have hby := h.byFounder hrun hs hctx hview hm rfl
    dsimp only at hms ho hg hi'
    apply hmono.of_same hms (congrArg _ ho) ?_ (hg ▸ hmono.grant)
    intro x hx
    rw [hi'] at hx
    rcases List.mem_append.mp hx with hx | hx
    · exact hmono.invitation x hx
    · obtain rfl := List.mem_singleton.mp hx
      exact ⟨hr, r, i, horg ▸ hby, hi, hemail, htoken⟩
  · obtain ⟨change, -, hbody⟩ := bind_eq_ok.mp hbody
    obtain ⟨user, m, m', hm, hmem, hr, hr', horg, huser, hms, ho, hg, hi⟩ :=
      membershipChange_ok hbody
    exact hmono.changed hm hmem hr hr' horg huser hms ho hg hi
  · rename_i hm
    obtain ⟨support, hsupport, hbody⟩ := bind_eq_ok.mp hbody
    obtain ⟨hms, ho, hrest, hgrants⟩ := supportGrant_ok hbody
    have hby := h.byFounder hrun hs hctx hview hm rfl
    dsimp only at hms ho hrest hgrants
    apply hmono.of_same hms (congrArg _ ho) (hrest ▸ hmono.invitation)
    intro g hg
    rcases hgrants g hg with ⟨g', hg', ho', hu', he'⟩ | ⟨ho', he', id, reason, length, hp⟩
    · rw [ho', hu', he']
      exact hmono.grant g' hg'
    · exact ⟨r, id, reason, length, ho' ▸ hby, hp ▸ hsupport, he'⟩
  · obtain ⟨hms, ho, hg, hi⟩ := hother _ _ _ _ hbody
    exact hmono.of_same hms ho (hi ▸ hmono.invitation) (hg ▸ hmono.grant)

theorem nodup_append_membership {ms : List Membership} {m : Membership}
    (h : (ms.map fun m => (m.organizationId, m.userId)).Nodup)
    (hnew : ∀ x ∈ ms, x.organizationId = m.organizationId → x.userId ≠ m.userId) :
    ((ms ++ [m]).map fun m => (m.organizationId, m.userId)).Nodup := by
  rw [List.map_append, List.nodup_append]
  refine ⟨h, by simp, fun a ha b hb => ?_⟩
  rintro rfl
  obtain ⟨x, hx, hk⟩ := List.mem_map.mp ha
  rw [List.map_singleton, List.mem_singleton] at hb
  obtain ⟨horg, huser⟩ := Prod.mk.inj (hk.trans hb)
  exact hnew x hx horg huser

theorem governed_accepted {token : String} {now : Instant}
    (h : Governed sha256 crypto d p other events t)
    (ha : acceptInvitation sha256 d user token now t = .ok answer) :
    Governed sha256 crypto d p other (events ++ [.accepted user token now]) answer.2 := by
  have hmono : Governed sha256 crypto d p other (events ++ [.accepted user token now]) t :=
    h.mono fun _ _ h => by cases h
  obtain ⟨inv, hinv, htoken, hemail, hnew, hms, ho, hg, hi⟩ := acceptInvitation_ok ha
  obtain ⟨hrole, r, i, hby, hpayload, hiemail, hitoken⟩ := h.invitation inv hinv
  exact {
    known := by
      rw [ho]
      exact hmono.known
    single := hmono.single
    owner := by
      intro m hm hr
      rw [hms] at hm
      rcases List.mem_append.mp hm with hm | hm
      · exact hmono.owner m hm hr
      · obtain rfl := List.mem_singleton.mp hm
        exact absurd hr hrole
    founder := by
      intro org user hf
      rw [hms]
      exact List.mem_append_left _ (hmono.founder org user hf)
    unique := by
      rw [hms]
      apply nodup_append_membership hmono.unique
      intro m hm horg huser
      have hnone := List.any_eq_false.mp hnew m hm
      exact hnone (isMember_iff.mpr ⟨horg, huser⟩)
    member := by
      intro m hm hr
      rw [hms] at hm
      rcases List.mem_append.mp hm with hm | hm
      · exact hmono.member m hm hr
      · obtain rfl := List.mem_singleton.mp hm
        exact ⟨events, token, now, [], rfl, r, i, inv.email, hby, hpayload,
          hitoken.symm.trans htoken, hiemail, hemail⟩
    invitation := by
      intro x hx
      obtain ⟨y, hy, horg, he, hr, htoken⟩ := hi x hx
      rw [horg, he, hr, htoken]
      exact hmono.invitation y hy
    grant := by
      rw [hg]
      exact hmono.grant }

theorem governed_founded {name : Option String} (h : Governed sha256 crypto d p other events t)
    (hc : createOrganization d org user name t = .ok answer) :
    Governed sha256 crypto d p other (events ++ [.founded org user]) answer.2 := by
  obtain ⟨hfresh, hms, ho, hg, hi⟩ := createOrganization_ok hc
  have hsub : ∀ a ∈ events, a ∈ events ++ [.founded org user] :=
    fun a ha => List.mem_append_left _ ha
  have hcases : ∀ org' user', Founded (events ++ [.founded org user]) org' user' →
      Founded events org' user' ∨ org' = org ∧ user' = user := by
    intro org' user' hf
    rcases List.mem_append.mp hf with hf | hf
    · exact Or.inl hf
    · exact Or.inr (Event.founded.inj (List.mem_singleton.mp hf))
  exact {
    known := by
      intro org' user' hf
      rw [ho, List.map_append]
      rcases hcases org' user' hf with hf | ⟨rfl, -⟩
      · exact List.mem_append_left _ (h.known org' user' hf)
      · simp
    single := by
      intro org' u v hu hv
      -- The identifier of an organization is given out once.
      rcases hcases org' u hu with hold | ⟨horg, huser⟩
      · rcases hcases org' v hv with hold' | ⟨rfl, -⟩
        · exact h.single org' u v hold hold'
        · exact absurd (h.known org' u hold) hfresh
      · rcases hcases org' v hv with hold' | ⟨-, huser'⟩
        · exact absurd (h.known org' v hold') (horg ▸ hfresh)
        · exact huser.trans huser'.symm
    owner := by
      intro m hm hr
      rw [hms] at hm
      rcases List.mem_append.mp hm with hm | hm
      · exact hsub _ (h.owner m hm hr)
      · obtain rfl := List.mem_singleton.mp hm
        exact List.mem_append_right _ (List.mem_singleton.mpr rfl)
    founder := by
      intro org' user' hf
      rw [hms]
      rcases hcases org' user' hf with hf | ⟨rfl, rfl⟩
      · exact List.mem_append_left _ (h.founder org' user' hf)
      · exact List.mem_append_right _ (List.mem_singleton.mpr rfl)
    unique := by
      rw [hms]
      apply nodup_append_membership h.unique
      intro m hm horg _
      apply hfresh
      -- Every row belongs to an organization that was founded.
      by_cases hr : m.role = .owner
      · exact h.known org _ (horg ▸ h.owner m hm hr)
      · obtain ⟨founder, hf⟩ := (h.member m hm hr).founded
        exact h.known org _ (horg ▸ hf)
    member := by
      intro m hm hr
      rw [hms] at hm
      rcases List.mem_append.mp hm with hm | hm
      · exact (h.member m hm hr).append
      · obtain rfl := List.mem_singleton.mp hm
        exact absurd rfl hr
    invitation := by
      intro inv hinv
      rw [hi] at hinv
      obtain ⟨hr, r, i, hby, hi⟩ := h.invitation inv hinv
      exact ⟨hr, r, i, hby.append, hi⟩
    grant := by
      intro g hgrant
      rw [hg] at hgrant
      exact (h.grant g hgrant).append }

theorem governed_of_run (hother : Frame other)
    (hrun : Run (Step sha256 crypto d p other) opening events db) :
    Governed sha256 crypto d p other events db.tables := by
  induction hrun with
  | nil =>
    exact {
      known := fun _ _ h => by cases h
      single := fun _ _ _ h => by cases h
      owner := fun _ h => by cases h
      founder := fun _ _ h => by cases h
      unique := List.nodup_nil
      member := fun _ h => by cases h
      invitation := fun _ h => by cases h
      grant := fun _ h => by cases h }
  | snoc hrun hstep ih =>
    cases hstep with
    | founded hc => exact governed_founded ih hc
    | accepted ha => exact governed_accepted ih ha
    | request => exact governed_request hother hrun ih

/-- An organization has one founder, whose row stays as the founding wrote it and who is the only
owner; any other member was invited by the founder and has accepted, and support was approved by
the founder for the time. -/
theorem admitted_by_founder (hother : Frame other)
    (hrun : Run (Step sha256 crypto d p other) opening events db)
    (hctx : admitRequest db.tables r = .ok ctx) :
    (∀ u v, Founded events ctx.organizationId u → Founded events ctx.organizationId v → u = v) ∧
    (∀ u, Founded events ctx.organizationId u →
      db.tables.memberships.filter (isMember ctx.organizationId u) =
        [ownerRow ctx.organizationId u]) ∧
    (ctx.role = .member .owner ↔ Founded events ctx.organizationId ctx.user.pk) ∧
    (∀ role, ctx.role = .member role → role ≠ .owner →
      Invited sha256 crypto d p other events ctx.organizationId ctx.user.pk) ∧
    (ctx.role = .support → ∃ deadline, r.now < deadline ∧
      Approved sha256 crypto d p other events ctx.organizationId ctx.user.pk deadline) := by
  have h := governed_of_run hother hrun
  exact ⟨h.single _, fun _ => h.founder_rows, ⟨h.admitted_owner hctx, h.founder_admitted hctx⟩,
    h.admitted_member hctx, h.admitted_support hctx⟩

end Governing

namespace Fixture

def organizationId : String := Access.Fixture.organizationId

def token : String := "p2ZqCwL7u0c3o1kXv9eYtRjHs5aBdGmN8fQxWzUiTsE"

def directory : Directory where
  email user := if user = 7 then "owner@shop.example" else "analyst@shop.example"
  sameEmail a b := a.toList.map Char.toLower = b.toList.map Char.toLower
  isStaff _ := false
  activeStore _ _ := .error .http404

/-- The invitation of an analyst, and nothing else. -/
def payloads : Payloads where
  invite _ := .ok { email := some "Analyst@shop.example", role := some "analyst", token }
  change _ := .error (.refused "UNKNOWN_FIELDS" 422)
  support _ := .error (.refused "UNKNOWN_FIELDS" 422)

def refuse (_ : TenantContext) (_ : Request) (_ : Tables Rest) :
    Except Raised (JsonResponse × Tables Rest) :=
  .error (.refused "VALIDATION_FAILED" 422)

def invitation : Request where
  mutation := .inviteMember
  user := some { pk := 7 }
  organizationId := some organizationId
  idempotencyKey := "invite-member-0001"
  path := "/api/v1/organizations/01890a5d-ac96-774b-bcce-b302099a8057/members/invite"
  body := "\x7b\"email\":\"Analyst@shop.example\",\"role\":\"analyst\"\x7d"
  clock := minutes 1
  now := minutes 1
  savedAt := minutes 1
  recordId := "01890a5d-ac96-774b-bcce-b302099a8059"

/-- A report for the analyst. -/
def report : Request where
  mutation := .reports
  user := some { pk := 8 }
  organizationId := some organizationId
  path := "/api/v1/organizations/01890a5d-ac96-774b-bcce-b302099a8057/reports"
  body := "\x7b\x7d"
  clock := minutes 9
  now := minutes 9
  savedAt := minutes 9
  recordId := "01890a5d-ac96-774b-bcce-b302099a8060"

/-- The tables that a view leaves; a refusal changes nothing. -/
def outcome (t : Tables Rest) (answer : Except Raised (JsonResponse × Tables Rest)) : Tables Rest :=
  (answer.toOption.map (·.2)).getD t

def founded : Tables Rest :=
  outcome opening.tables
    (createOrganization directory organizationId 7 (some "Shop") opening.tables)

def invited : Db Rest :=
  (tenantView Sha256.hexdigest Access.Fixture.crypto
    (body Sha256.hexdigest directory payloads refuse) invitation ⟨founded, []⟩).2

def joined : Db Rest where
  tables :=
    outcome invited.tables
      (acceptInvitation Sha256.hexdigest directory 8 token (minutes 5) invited.tables)
  records := invited.records

def history : List Event :=
  [.founded organizationId 7, .request invitation, .accepted 8 token (minutes 5)]

theorem outcome_ok {t : Tables Rest} {x : Except Raised (JsonResponse × Tables Rest)}
    (h : x.toOption.isSome = true) : ∃ answer, x = .ok answer ∧ outcome t x = answer.2 := by
  cases x with
  | error e => cases h
  | ok answer => exact ⟨answer, rfl, rfl⟩

theorem run_joined :
    Run (Step Sha256.hexdigest Access.Fixture.crypto directory payloads refuse) opening history
      joined := by
  obtain ⟨a, ha, hta⟩ := @outcome_ok opening.tables
    (createOrganization directory organizationId 7 (some "Shop") opening.tables)
    (by decide +kernel)
  obtain ⟨b, hb, htb⟩ := @outcome_ok invited.tables
    (acceptInvitation Sha256.hexdigest directory 8 token (minutes 5) invited.tables)
    (by decide +kernel)
  have hfounded : Run (Step Sha256.hexdigest Access.Fixture.crypto directory payloads refuse)
      opening [.founded organizationId 7] ⟨founded, []⟩ := by
    rw [founded, hta]
    exact Run.nil.snoc (.founded ha)
  rw [joined, htb]
  exact (hfounded.snoc .request).snoc (.accepted hb)

end Fixture

open Members.Fixture

/-- The analyst of the report was invited by the founder, whose row is as it was written. -/
theorem analyst_invited_by_founder :
    (∃ ctx, admitRequest joined.tables report = .ok ctx ∧ ctx.role = .member .analyst) ∧
      Invited Sha256.hexdigest Access.Fixture.crypto directory payloads refuse history
        organizationId 8 ∧
      joined.tables.memberships.filter (isMember organizationId 7) =
        [ownerRow organizationId 7] := by
  have hadmitted : (admitRequest joined.tables report).toOption.map
      (fun ctx => (ctx.organizationId, ctx.user.pk, ctx.role)) =
        some (organizationId, 8, .member .analyst) := by
    decide +kernel
  cases hctx : admitRequest joined.tables report with
  | error e =>
    rw [hctx] at hadmitted
    cases hadmitted
  | ok ctx =>
    rw [hctx] at hadmitted
    obtain ⟨horg, hrest⟩ := Prod.mk.inj (Option.some.inj hadmitted)
    obtain ⟨huser, hrole⟩ := Prod.mk.inj hrest
    have hframe : Frame refuse := by
      intro ctx r t answer h
      cases h
    obtain ⟨-, hrow, -, hinvited, -⟩ := admitted_by_founder hframe run_joined hctx
    have hmember := hinvited .analyst hrole (by decide)
    rw [horg, huser] at hmember
    rw [horg] at hrow
    exact ⟨⟨ctx, rfl, hrole⟩, hmember, hrow 7 (List.mem_cons_self ..)⟩

end LedgerGuard.Access.Members
