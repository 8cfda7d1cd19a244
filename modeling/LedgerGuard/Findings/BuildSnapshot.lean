import LedgerGuard.Core.Engine
import LedgerGuard.Ingestion.Batch
import LedgerGuard.Lib.Raising

/-! # From the tables to a snapshot

`build_snapshot` reads the rows of a store's two connectors and passes them to the
constructors of the core, which check what they are given. A row that one of them
refuses makes the whole run raise.
-/

namespace LedgerGuard

open Ordered Ingestion Raising

/-- The policy columns of a store, in the bounds that the settings endpoint keeps. -/
structure Settings where
  policyVersion : ℕ := 1
  instantGraceMinutes : ℕ := 10
  asyncGraceMinutes : ℕ := 30
  refundGraceMinutes : ℕ := 60
  freshnessMinutes : ℕ := 15
  disabledRules : List RuleCode := []
  shadowRules : Bool := false
  instantGrace_mem : 5 ≤ instantGraceMinutes ∧ instantGraceMinutes ≤ 60 := by decide
  asyncGrace_mem : 10 ≤ asyncGraceMinutes ∧ asyncGraceMinutes ≤ 120 := by decide
  refundGrace_mem : 30 ≤ refundGraceMinutes ∧ refundGraceMinutes ≤ 120 := by decide
  freshness_mem : 5 ≤ freshnessMinutes ∧ freshnessMinutes ≤ 30 := by decide

theorem minutes_mem {n low high : ℕ} (h : low ≤ n ∧ n ≤ high) :
    minutes low ≤ minutes n ∧ minutes n ≤ minutes high := by
  constructor
  · exact Int.mul_le_mul_of_nonneg_right (Int.ofNat_le.mpr h.1) (by decide)
  · exact Int.mul_le_mul_of_nonneg_right (Int.ofNat_le.mpr h.2) (by decide)

def Settings.policy (c : Settings) : Policy where
  version := c.policyVersion
  instantGrace := minutes c.instantGraceMinutes
  asyncGrace := minutes c.asyncGraceMinutes
  refundGrace := minutes c.refundGraceMinutes
  freshness := minutes c.freshnessMinutes
  disabledRules := c.disabledRules
  shadow := c.shadowRules
  instantGrace_mem := minutes_mem c.instantGrace_mem
  asyncGrace_mem := minutes_mem c.asyncGrace_mem
  refundGrace_mem := minutes_mem c.refundGrace_mem
  freshness_mem := minutes_mem c.freshness_mem

structure StoreRow where
  organizationId : String
  id : String
  mode : Mode
  settings : Settings := {}

/-- The rows of an installation that a run reads. -/
structure Connector where
  accountId : String := ""
  active : Bool := true
  clockOffsetSeconds : ℤ := 0
  cursors : Table Cursor.objectClass := .empty
  projections : Table Projection.key := .empty

inductive LinkStatus | unverified | verified | conflict
  deriving DecidableEq, Repr

/-- A store's link to a Stripe account. -/
structure StoreLink where
  stripe : Connector
  status : LinkStatus

def PaymentStatus.parse (text : String) : Option PaymentStatus :=
  [.requiresPaymentMethod, .requiresConfirmation, .requiresAction, .processing, .requiresCapture,
    .canceled, .succeeded].find? (·.render = text)

def OrderStatus.parse (text : String) : Option OrderStatus :=
  [.pending, .processing, .onHold, .completed, .cancelled, .refunded, .failed, .checkoutDraft,
    .trash].find? (·.render = text)

def RefundStatus.parse (text : String) : Option RefundStatus :=
  [.pending, .requiresAction, .succeeded, .failed, .canceled, .recorded].find? (·.render = text)

/-- `compatible`, for amounts that the constructors of a payment or an order compare. -/
def incompatible : String := "Amounts on one source object must use the same currency"

section Rows

variable (observationId : Observation → String) (mode : Mode)

def childrenOf (rows : List Projection) (kind : Kind) (parentId : String) : List String :=
  (rows.filter fun row => row.kind = kind && row.parentId = parentId).map (·.sourceId)

def buildPayment (accountId : String) (rows : List Projection) (p : Projection) :
    Except String Payment := do
  let amount ← Money.make p.amountMinor p.currency p.exponent
  let received ← Money.make p.receivedMinor p.currency p.exponent
  if hc : amount.currency = received.currency ∧ amount.exponent = received.exponent then
    match PaymentStatus.parse p.status with
    | none => .error "Unsupported payment mode or status"
    | some status =>
      if hid : startsWith "pi_" p.sourceId = true ∧ startsWith "acct_" accountId = true then
        return {
          id := p.sourceId
          accountId, mode, status, amount, received
          createdAt := p.createdAtSource
          changedAt := p.revision
          succeededAt := p.succeededAt
          method := p.method
          captureMethod := p.captureMethod
          chargeIds := sortedSet id (childrenOf rows .charge p.sourceId ++
            if p.chargeId = "" then [] else [p.chargeId])
          sessionIds := sortedSet id (childrenOf rows .session p.sourceId)
          storeHint := p.storeHint
          orderHint := p.orderHint
          observationId := observationId p.observation
          compatible := hc
          id_prefix := hid.1
          account_prefix := hid.2 }
      else .error "PaymentIntent and account identities are required"
  else .error incompatible

def buildOrder (storeId : String) (o : Projection) : Except String Order := do
  let amount ← Money.make o.amountMinor o.currency o.exponent
  let refunded ← Money.make o.refundedMinor o.currency o.exponent
  if hc : amount.currency = refunded.currency ∧ amount.exponent = refunded.exponent then
    match OrderStatus.parse o.status with
    | none => .error "Unsupported order mode or status"
    | some status =>
      if hid : numericIdentity o.sourceId = true then
        return {
          id := o.sourceId
          storeId, mode, status, amount, refunded
          createdAt := o.createdAtSource
          changedAt := o.revision
          paidAt := o.paidAt
          paymentMethod := o.method
          transactionId := o.transactionId
          paymentIntentId := o.piId
          chargeId := o.chargeId
          sessionId := o.sessionId
          observationId := observationId o.observation
          compatible := hc
          id_numeric := hid }
      else .error "Numeric Woo order identity required"
  else .error incompatible

def buildRefund (r : Projection) : Except String Refund := do
  let source := if r.kind = .stripeRefund then RefundSource.stripe else .woo
  let amount ← Money.make r.amountMinor r.currency r.exponent
  match RefundStatus.parse r.status with
  | none => .error "Unsupported refund source or status"
  | some status =>
    if hs : source.allows status = true then
      return {
        id := r.sourceId
        source
        parentId := r.parentId
        amount, status
        changedAt := r.revision
        observationId := observationId r.observation
        status_allowed := hs }
    else .error "Unsupported refund source or status"

end Rows

def Connector.coverage (c : Connector) : List Coverage :=
  c.cursors.rows.filterMap fun cursor => do
    let coveredFrom ← cursor.coveredFrom
    let coveredThrough ← cursor.coveredThrough
    let observedAt ← cursor.observedAt
    return {
      source := cursor.objectClass.render
      coveredFrom, coveredThrough, observedAt
      complete := cursor.complete && c.active
      clockOffsetSeconds := c.clockOffsetSeconds }

/-- The refund is in the list of its order, as far as the order is stored. -/
def inInventory (wooRows : List Projection) (r : Projection) : Bool :=
  (wooRows.find? fun o => o.kind = .order && o.sourceId = r.parentId).any fun o =>
    r.sourceId ∈ o.observation.data.refundIds.getD []

def isRefundRow (wooRows : List Projection) (r : Projection) : Bool :=
  r.kind = .stripeRefund || (r.kind = .wooRefund && inInventory wooRows r)

/-- Order numbers that several stores use, from the store and number of each order. -/
def ambiguousHints (orders : List (String × String)) : List String :=
  ((orders.map Prod.snd).dedup).filter fun id =>
    1 < ((orders.filter (·.2 = id)).map Prod.fst).dedup.length

/-- The link of the store to an account, its active shop, and the orders of all stores that are
linked to the account. -/
structure Sources where
  link : Option StoreLink
  woo : Option Connector
  linkedOrders : List (String × String) := []

def Sources.stripe (c : Sources) : Option Connector := c.link.map (·.stripe)

def Sources.stripeRows (c : Sources) : List Projection := c.stripe.elim [] (·.projections.rows)

def Sources.wooRows (c : Sources) : List Projection := c.woo.elim [] (·.projections.rows)

def Sources.accountId (c : Sources) : String := c.stripe.elim "" (·.accountId)

def buildSnapshot (observationId : Observation → String) (store : StoreRow) (c : Sources)
    (now : Instant) : Except String Snapshot := do
  let payments ← (c.stripeRows.filter (·.kind = .payment)).mapM
    (buildPayment observationId store.mode c.accountId c.stripeRows)
  let orders ← (c.wooRows.filter (·.kind = .order)).mapM (buildOrder observationId store.mode store.id)
  let refunds ← ((c.stripeRows ++ c.wooRows).filter (isRefundRow c.wooRows)).mapM
    (buildRefund observationId)
  return {
    organizationId := store.organizationId
    storeId := store.id
    accountId := c.accountId
    mode := store.mode
    now
    windowFrom := now - minutes (30 * 24 * 60)
    payments, orders, refunds
    coverage := c.woo.elim [] Connector.coverage ++ c.stripe.elim [] Connector.coverage
    linkVerified := c.link.any (·.status = .verified)
    linkConflict := c.link.any (·.status = .conflict)
    ambiguousOrderHints := if c.stripe.isSome then ambiguousHints c.linkedOrders else []
    policy := store.settings.policy }

end LedgerGuard
