import LedgerGuard.Access.Tenancy
import LedgerGuard.Lib.Sha256

/-! # Replayed responses

The wrapper that stores the accepted response of a mutation and replays it for a
day. The role and the sign-in are checked by the view inside the wrapper, so a
replay skips them: it answers whoever made the first request for as long as the
membership lasts, whatever its role has become.
-/

namespace LedgerGuard.Access

open Raising

structure IdempotencyRecord where
  id : String
  organizationId : String
  principal : String
  route : String
  key : String
  requestHash : String
  response : Object
  responseStatus : ℕ
  expiresAt : Instant

structure Db (ω : Type) where
  tables : Tables ω
  records : List IdempotencyRecord := []

/-- The envelope encryption of stored secrets: value, organization, record and kind. -/
structure Crypto where
  encryptSecret : Object → String → String → String → Except Raised Json
  decryptSecret : Json → String → String → String → Except Raised Object

def isKeyChar (c : Char) : Bool :=
  ('A' ≤ c && c ≤ 'Z') || ('a' ≤ c && c ≤ 'z') || ('0' ≤ c && c ≤ '9') || c = '_' || c = '-'

/-- `[A-Za-z0-9_-]{16,128}`. -/
def validKey (key : String) : Bool :=
  16 ≤ key.toList.length && key.toList.length ≤ 128 && key.toList.all isKeyChar

section Wrapper

variable {ω : Type} (sha256 : String → String) (crypto : Crypto)
  (body : TenantContext → Request → Tables ω → Except Raised (JsonResponse × Tables ω))

def view (ctx : TenantContext) (r : Request) (t : Tables ω) :
    Except Raised (JsonResponse × Tables ω) := do
  requireRole r.mutation.roles ctx.role
  if r.mutation.recentAuth then requireRecentAuth r
  body ctx r t

def IdempotencyRecord.isFor (ctx : TenantContext) (r : Request) (e : IdempotencyRecord) : Bool :=
  e.organizationId = ctx.organizationId && e.principal = toString ctx.user.pk && e.route = r.path &&
    e.key = r.idempotencyKey

def Db.existing (db : Db ω) (ctx : TenantContext) (r : Request) : Option IdempotencyRecord :=
  db.records.find? (·.isFor ctx r)

def IdempotencyRecord.unseal (ctx : TenantContext) (e : IdempotencyRecord) :
    Except Raised Object :=
  match e.response.lookup "sealed_response" with
  | some sealed => crypto.decryptSecret sealed ctx.organizationId e.id "idempotency"
  | none => .ok e.response

def sealResponse (ctx : TenantContext) (r : Request) (result : Object) : Except Raised Object :=
  if ["pairing_code", "invitation_token"].any fun k => (result.lookup k).isSome then do
    let sealed ← crypto.encryptSecret result ctx.organizationId r.recordId "idempotency"
    .ok [("sealed_response", sealed)]
  else .ok result

def respond (ctx : TenantContext) (r : Request) (db : Db ω) :
    Except Raised (JsonResponse × Db ω) := do
  let (response, tables) ← view body ctx r db.tables
  if response.status < 400 then
    let stored ← sealResponse crypto ctx r response.content
    let record : IdempotencyRecord :=
      { id := r.recordId, organizationId := ctx.organizationId, principal := toString ctx.user.pk
        route := r.path, key := r.idempotencyKey, requestHash := sha256 r.body, response := stored
        responseStatus := response.status, expiresAt := r.savedAt + minutes (24 * 60) }
    .ok (response, ⟨tables, db.records ++ [record]⟩)
  else .ok (response, ⟨tables, db.records⟩)

/-- `idempotent`. -/
def idempotent (ctx : TenantContext) (r : Request) (db : Db ω) :
    Except Raised (JsonResponse × Db ω) :=
  if validKey r.idempotencyKey = false then .error (.refused "IDEMPOTENCY_KEY_REQUIRED" 400)
  else
    match db.existing ctx r with
    | none => respond sha256 crypto body ctx r db
    | some e =>
      if r.now < e.expiresAt then
        if e.requestHash ≠ sha256 r.body then .error (.refused "IDEMPOTENCY_KEY_CONFLICT" 409)
        else do
          let value ← e.unseal crypto ctx
          .ok (⟨value, e.responseStatus⟩, db)
      else respond sha256 crypto body ctx r { db with records := db.records.eraseP (·.isFor ctx r) }

/-- A request inside the transaction of `tenant_view`. -/
def serve (r : Request) (db : Db ω) : Except Raised (JsonResponse × Db ω) := do
  let ctx ← admitRequest db.tables r
  idempotent sha256 crypto body ctx r db

/-- `tenant_view`: a raise rolls the transaction back and becomes a response. -/
def tenantView (r : Request) (db : Db ω) : JsonResponse × Db ω :=
  match serve sha256 crypto body r db with
  | .ok answer => answer
  | .error e => (e.response r, db)

/-- Requests, and changes of memberships, grants and whatever else between them. -/
inductive Event (ω : Type)
  | request (r : Request)
  | change (tables : Tables ω)

def Event.apply (db : Db ω) : Event ω → Db ω
  | .request r => (tenantView sha256 crypto body r db).2
  | .change tables => { db with tables }

/-- The requests of a history, each with the database that it meets. -/
def requests (db : Db ω) : List (Event ω) → List (Db ω × Request)
  | [] => []
  | .request r :: h => (db, r) :: requests (Event.apply sha256 crypto body db (.request r)) h
  | .change tables :: h => requests { db with tables } h

/-- The request is answered with success. -/
def Succeeds (db : Db ω) (r : Request) : Prop :=
  ∃ response db', serve sha256 crypto body r db = .ok (response, db') ∧ response.status < 400

/-- The membership has a role that the view requires, and the sign-in is recent where the view
demands it. -/
def Permitted (t : Tables ω) (r : Request) : Prop :=
  ∃ user org m, r.user = some user ∧ r.organization t = .ok org ∧ t.membership org user = some m ∧
    m.role ∈ r.mutation.roles ∧
    (r.mutation.recentAuth = true → r.clock - r.authenticatedAt ≤ minutes 10)

instance (db : Db ω) (r : Request) : Decidable (Succeeds sha256 crypto body db r) :=
  decidable_of_iff ((serve sha256 crypto body r db).toOption.any (·.1.status < 400)) <| by
    rw [Succeeds]
    cases serve sha256 crypto body r db with
    | error e => simp [Except.toOption]
    | ok answer => simp [Except.toOption, Prod.ext_iff]

instance (t : Tables ω) (r : Request) : Decidable (Permitted t r) :=
  decidable_of_iff (∃ user ∈ r.user, ∃ org ∈ (r.organization t).toOption,
      ∃ m ∈ t.membership org user, m.role ∈ r.mutation.roles ∧
        (r.mutation.recentAuth = true → r.clock - r.authenticatedAt ≤ minutes 10)) <| by
    rw [Permitted]
    cases r.organization t <;> simp [Except.toOption]

/-- An unexpired response to this user, path, key and body is stored and can be opened. -/
def Stored (db : Db ω) (r : Request) : Prop :=
  ∃ ctx e, admitRequest db.tables r = .ok ctx ∧ validKey r.idempotencyKey = true ∧
    db.existing ctx r = some e ∧ r.now < e.expiresAt ∧ e.requestHash = sha256 r.body ∧
    ∃ value, e.unseal crypto ctx = .ok value

end Wrapper

section Checks

variable {ω : Type} {sha256 : String → String} {crypto : Crypto}
  {body : TenantContext → Request → Tables ω → Except Raised (JsonResponse × Tables ω)}
  {t : Tables ω} {db db' : Db ω} {r : Request} {ctx : TenantContext}

theorem view_permitted {answer : JsonResponse × Tables ω} (hctx : admitRequest t r = .ok ctx)
    (h : view body ctx r t = .ok answer) : Permitted t r := by
  obtain ⟨hu, ho, hr⟩ := admitRequest_ok hctx
  obtain ⟨_, hrole, h⟩ := bind_eq_ok.mp h
  obtain ⟨x, hx, hm⟩ := requireRole_ok hrole
  obtain ⟨m, hmem, rfl⟩ := tenantRole_member (hm ▸ hr)
  refine ⟨ctx.user, ctx.organizationId, m, hu, ho, hmem, hx, fun hrec => ?_⟩
  rw [if_pos hrec] at h
  obtain ⟨_, ha, -⟩ := bind_eq_ok.mp h
  exact requireRecentAuth_ok ha

theorem respond_permitted {answer : JsonResponse × Db ω}
    (h : respond sha256 crypto body ctx r db = .ok answer) (hctx : admitRequest db.tables r = .ok ctx) :
    Permitted db.tables r := by
  obtain ⟨_, hv, -⟩ := bind_eq_ok.mp h
  exact view_permitted hctx hv

theorem succeeds_cases (h : Succeeds sha256 crypto body db r) :
    Permitted db.tables r ∨ Stored sha256 crypto db r := by
  obtain ⟨response, db', hs, -⟩ := h
  obtain ⟨ctx, hctx, hs⟩ := bind_eq_ok.mp hs
  unfold idempotent at hs
  split at hs
  · cases hs
  case isFalse hk =>
    split at hs
    · exact Or.inl (respond_permitted hs hctx)
    case h_2 e he =>
      split at hs
      case isTrue hlive =>
        split at hs
        · cases hs
        case isFalse hh =>
          obtain ⟨value, hv, -⟩ := bind_eq_ok.mp hs
          exact Or.inr ⟨ctx, e, hctx, by simpa using hk, he, hlive, not_not.mp hh, value, hv⟩
      case isFalse =>
        have hp := respond_permitted hs
        exact Or.inl (hp hctx)

theorem accepted_of_stored (hok : ∀ e ∈ db.records, e.responseStatus < 400)
    (h : Stored sha256 crypto db r) : Succeeds sha256 crypto body db r := by
  obtain ⟨ctx, e, hctx, hk, he, hlive, hh, value, hv⟩ := h
  refine ⟨⟨value, e.responseStatus⟩, db, ?_, hok e (List.mem_of_find?_eq_some he)⟩
  refine bind_eq_ok.mpr ⟨ctx, hctx, ?_⟩
  unfold idempotent
  rw [if_neg (by simpa using hk), he]
  simp only [if_pos hlive, hh, ne_eq, not_true_eq_false, if_false]
  exact bind_eq_ok.mpr ⟨value, hv, rfl⟩

theorem respond_records {answer : JsonResponse × Db ω}
    (hok : ∀ e ∈ db.records, e.responseStatus < 400)
    (h : respond sha256 crypto body ctx r db = .ok answer) :
    ∀ e ∈ answer.2.records, e.responseStatus < 400 := by
  obtain ⟨⟨response, tables⟩, -, h⟩ := bind_eq_ok.mp h
  dsimp only at h
  split at h
  case isTrue hst =>
    obtain ⟨stored, -, h⟩ := bind_eq_ok.mp h
    obtain rfl := Except.ok.inj h
    intro e he
    rcases List.mem_append.mp he with he | he
    · exact hok e he
    · obtain rfl := List.mem_singleton.mp he
      exact hst
  case isFalse =>
    obtain rfl := Except.ok.inj h
    exact hok

theorem tenantView_records (hok : ∀ e ∈ db.records, e.responseStatus < 400) :
    ∀ e ∈ (tenantView sha256 crypto body r db).2.records, e.responseStatus < 400 := by
  unfold tenantView
  split
  case h_2 => exact hok
  case h_1 answer hs =>
    obtain ⟨ctx, -, hs⟩ := bind_eq_ok.mp hs
    unfold idempotent at hs
    split at hs
    · cases hs
    · split at hs
      · exact respond_records hok hs
      · split at hs
        · split at hs
          · cases hs
          · obtain ⟨value, -, hs⟩ := bind_eq_ok.mp hs
            obtain rfl := Except.ok.inj hs
            exact hok
        · exact respond_records (fun e he => hok e (List.mem_of_mem_eraseP he)) hs

theorem requests_records {h : List (Event ω)} (hok : ∀ e ∈ db.records, e.responseStatus < 400)
    {x : Db ω × Request} (hx : x ∈ requests sha256 crypto body db h) :
    ∀ e ∈ x.1.records, e.responseStatus < 400 := by
  induction h generalizing db with
  | nil => cases hx
  | cons a h ih =>
    cases a with
    | change tables => exact @ih { db with tables } hok hx
    | request r =>
      rcases List.mem_cons.mp hx with rfl | hx
      · exact hok
      · exact ih (tenantView_records hok) hx

/-- In a history of requests and changes of memberships, every success goes to somebody whom the
view permits at that time exactly if every request that finds a stored response comes from
somebody like that. -/
theorem successes_permitted_iff (t : Tables ω) (h : List (Event ω)) :
    (∀ x ∈ requests sha256 crypto body ⟨t, []⟩ h,
      Succeeds sha256 crypto body x.1 x.2 → Permitted x.1.tables x.2) ↔
    ∀ x ∈ requests sha256 crypto body ⟨t, []⟩ h,
      Stored sha256 crypto x.1 x.2 → Permitted x.1.tables x.2 := by
  constructor
  · intro hp x hx hs
    exact hp x hx (accepted_of_stored (requests_records (by simp) hx) hs)
  · intro hs x hx ha
    rcases succeeds_cases ha with hp | hst
    · exact hp
    · exact hs x hx hst

end Checks

namespace Fixture

def organizationId : String := "01890a5d-ac96-774b-bcce-b302099a8057"

def admin : User := { pk := 7 }

/-- An organization with one member. -/
def tables (role : Role) : Tables Unit where
  memberships := [{ organizationId, userId := 7, role }]
  supportGrants := []
  organizations := [{ id := organizationId }]
  resourceLocators := []
  findings := []
  rest := ()

/-- The creation of a store, once in the first minute and once in the fifth. -/
def creation (recordId : String) (later : ℤ) : Request where
  mutation := .createStore
  user := some admin
  organizationId := some organizationId
  idempotencyKey := "create-store-0001"
  path := "/api/v1/organizations/01890a5d-ac96-774b-bcce-b302099a8057/stores"
  body := "\x7b\"name\":\"Shop\",\"hostname\":\"shop.example\",\"mode\":\"test\"\x7d"
  clock := minutes later
  now := minutes later
  savedAt := minutes later
  recordId

/-- The rest of `create_store` for a name that is free. -/
def createStore (_ : TenantContext) (_ : Request) (t : Tables Unit) :
    Except Raised (JsonResponse × Tables Unit) :=
  let store := "01890a5d-ac96-774b-bcce-b302099a8058"
  .ok (⟨[("id", .str store), ("location", .str ("/stores/" ++ store ++ "/")),
      ("lock_version", .int 0)], 201⟩,
    { t with resourceLocators := t.resourceLocators ++ [⟨store, organizationId⟩] })

/-- Secrets sealed by their context. -/
def crypto : Crypto where
  encryptSecret value org record kind := .ok (.arr [.obj value, .str org, .str record, .str kind])
  decryptSecret sealed org record kind :=
    match sealed with
    | .arr [.obj value, .str org', .str record', .str kind'] =>
      if org = org' ∧ record = record' ∧ kind = kind' then .ok value
      else .error (.refused "CREDENTIAL_UNAVAILABLE" 503)
    | _ => .error (.refused "CREDENTIAL_UNAVAILABLE" 503)

/-- An administrator creates a store, becomes a viewer and repeats the request. -/
def demotion : List (Event Unit) :=
  [.request (creation "01890a5d-ac96-774b-bcce-b302099a8059" 1), .change (tables .viewer),
    .request (creation "01890a5d-ac96-774b-bcce-b302099a8060" 5)]

end Fixture

open Fixture

/-- The viewer gets the stored response of the administrator that it was. -/
theorem viewer_gets_stored_response :
    ¬ ∀ x ∈ requests Sha256.hexdigest crypto createStore ⟨tables .admin, []⟩ demotion,
      Succeeds Sha256.hexdigest crypto createStore x.1 x.2 → Permitted x.1.tables x.2 := by
  decide +kernel

end LedgerGuard.Access
