import LedgerGuard.Core.Money

/-! # Inputs and outputs of reconciliation

The immutable records shared by hosted reconciliation and the audit command.
What a constructor of the source checks is a field of the type here, so that a
snapshot can only be assembled from valid facts. Timestamps are aware and stand
for an instant in UTC, counted in microseconds.
-/

namespace LedgerGuard

/-- Microseconds since the Unix epoch, in UTC. -/
abbrev Instant := ℤ

/-- A `timedelta` in microseconds. -/
abbrev Duration := ℤ

abbrev seconds (n : ℤ) : Duration := n * 1000000

abbrev minutes (n : ℤ) : Duration := n * 60000000

def startsWith (p text : String) : Bool := p.toList.isPrefixOf text.toList

inductive Mode | test | live
  deriving DecidableEq, Repr

inductive PaymentStatus
  | requiresPaymentMethod | requiresConfirmation | requiresAction | processing
  | requiresCapture | canceled | succeeded
  deriving DecidableEq, Repr

inductive OrderStatus
  | pending | processing | onHold | completed | cancelled | refunded | failed
  | checkoutDraft | trash
  deriving DecidableEq, Repr

inductive RefundSource | stripe | woo
  deriving DecidableEq, Repr

inductive RefundStatus | pending | requiresAction | succeeded | failed | canceled | recorded
  deriving DecidableEq, Repr

/-- The rules PI-001 to PI-010. -/
inductive RuleCode
  | pi001 | pi002 | pi003 | pi004 | pi005 | pi006 | pi007 | pi008 | pi009 | pi010
  deriving DecidableEq, Repr

inductive Severity | high | critical
  deriving DecidableEq, Repr

def Mode.render : Mode → String
  | .test => "test"
  | .live => "live"

def PaymentStatus.render : PaymentStatus → String
  | .requiresPaymentMethod => "requires_payment_method"
  | .requiresConfirmation => "requires_confirmation"
  | .requiresAction => "requires_action"
  | .processing => "processing"
  | .requiresCapture => "requires_capture"
  | .canceled => "canceled"
  | .succeeded => "succeeded"

def OrderStatus.render : OrderStatus → String
  | .pending => "pending"
  | .processing => "processing"
  | .onHold => "on-hold"
  | .completed => "completed"
  | .cancelled => "cancelled"
  | .refunded => "refunded"
  | .failed => "failed"
  | .checkoutDraft => "checkout-draft"
  | .trash => "trash"

def RefundSource.render : RefundSource → String
  | .stripe => "stripe"
  | .woo => "woo"

def RefundStatus.render : RefundStatus → String
  | .pending => "pending"
  | .requiresAction => "requires_action"
  | .succeeded => "succeeded"
  | .failed => "failed"
  | .canceled => "canceled"
  | .recorded => "recorded"

def RuleCode.render : RuleCode → String
  | .pi001 => "PI-001"
  | .pi002 => "PI-002"
  | .pi003 => "PI-003"
  | .pi004 => "PI-004"
  | .pi005 => "PI-005"
  | .pi006 => "PI-006"
  | .pi007 => "PI-007"
  | .pi008 => "PI-008"
  | .pi009 => "PI-009"
  | .pi010 => "PI-010"

/-- `RULE_CODES`, in their numeric order. -/
def ruleCodes : List RuleCode :=
  [.pi001, .pi002, .pi003, .pi004, .pi005, .pi006, .pi007, .pi008, .pi009, .pi010]

theorem mem_ruleCodes (r : RuleCode) : r ∈ ruleCodes := by cases r <;> decide

/-- A Stripe PaymentIntent, the unit of one payment attempt. -/
structure Payment where
  id : String
  accountId : String
  mode : Mode
  status : PaymentStatus
  amount : Money
  received : Money
  createdAt : Instant
  changedAt : Instant
  succeededAt : Option Instant := none
  method : String := "card"
  captureMethod : String := "automatic"
  chargeIds : List String := []
  sessionIds : List String := []
  storeHint : String := ""
  orderHint : String := ""
  observationId : String := ""
  compatible : amount.currency = received.currency ∧ amount.exponent = received.exponent
  id_prefix : startsWith "pi_" id = true
  account_prefix : startsWith "acct_" accountId = true
  deriving DecidableEq

/-- Every name under which an order may refer to the payment. -/
def Payment.aliases (p : Payment) : List String := p.id :: (p.chargeIds ++ p.sessionIds)

def numericIdentity (id : String) : Bool :=
  match id.toList with
  | [] => false
  | c :: rest => isDigit c && c ≠ '0' && rest.all isDigit

structure Order where
  id : String
  storeId : String
  mode : Mode
  status : OrderStatus
  amount : Money
  refunded : Money
  createdAt : Instant
  changedAt : Instant
  paidAt : Option Instant := none
  paymentMethod : String := "stripe"
  transactionId : String := ""
  paymentIntentId : String := ""
  chargeId : String := ""
  sessionId : String := ""
  observationId : String := ""
  compatible : amount.currency = refunded.currency ∧ amount.exponent = refunded.exponent
  id_numeric : numericIdentity id = true
  deriving DecidableEq

/-- Stripe refunds carry a provider status; Woo refunds are only ever recorded. -/
def RefundSource.allows : RefundSource → RefundStatus → Bool
  | .stripe, s => s ≠ .recorded
  | .woo, s => s = .recorded

structure Refund where
  id : String
  source : RefundSource
  parentId : String
  amount : Money
  status : RefundStatus
  changedAt : Instant
  observationId : String := ""
  status_allowed : source.allows status = true
  deriving DecidableEq

/-- The interval over which one source has been read completely. -/
structure Coverage where
  source : String
  coveredFrom : Instant
  coveredThrough : Instant
  observedAt : Instant
  complete : Bool := true
  clockOffsetSeconds : ℤ := 0
  deriving DecidableEq

def Coverage.fresh (c : Coverage) (now start : Instant) (limit : Duration) : Bool :=
  c.complete
    && (c.coveredFrom ≤ start && start ≤ c.coveredThrough && c.coveredThrough ≤ now)
    && (0 ≤ now - c.coveredThrough && now - c.coveredThrough ≤ limit)
    && (0 ≤ now - c.observedAt && now - c.observedAt ≤ limit)
    && |c.clockOffsetSeconds| ≤ 300

/-- Grace periods and switches of one store, each inside its supported bounds. -/
structure Policy where
  version : ℕ := 1
  instantGrace : Duration := minutes 10
  asyncGrace : Duration := minutes 30
  refundGrace : Duration := minutes 60
  freshness : Duration := minutes 15
  disabledRules : List RuleCode := []
  shadow : Bool := false
  instantGrace_mem : minutes 5 ≤ instantGrace ∧ instantGrace ≤ minutes 60 := by decide
  asyncGrace_mem : minutes 10 ≤ asyncGrace ∧ asyncGrace ≤ minutes 120 := by decide
  refundGrace_mem : minutes 30 ≤ refundGrace ∧ refundGrace ≤ minutes 120 := by decide
  freshness_mem : minutes 5 ≤ freshness ∧ freshness ≤ minutes 30 := by decide
  deriving DecidableEq

/-- Everything one evaluation reads. -/
structure Snapshot where
  organizationId : String
  storeId : String
  accountId : String
  mode : Mode
  now : Instant
  windowFrom : Instant
  payments : List Payment
  orders : List Order
  refunds : List Refund
  coverage : List Coverage
  linkVerified : Bool := true
  linkConflict : Bool := false
  ambiguousOrderHints : List String := []
  policy : Policy := {}
  deriving DecidableEq

/-- What a finding is about; the source writes these as prefixed strings. -/
inductive Identity
  | store (id : String)
  | order (id : String)
  | payment (id : String)
  deriving DecidableEq, Repr

def Identity.render : Identity → String
  | .store id => "store:" ++ id
  | .order id => "order:" ++ id
  | .payment id => "payment:" ++ id

theorem Identity.render_injective : Function.Injective Identity.render := by
  intro a b h
  have ht := congrArg String.toList h
  cases a <;> cases b <;> simp only [Identity.render, String.toList_append] at ht
  case store.store a b => rw [String.toList_injective (List.append_cancel_left ht)]
  case order.order a b => rw [String.toList_injective (List.append_cancel_left ht)]
  case payment.payment a b => rw [String.toList_injective (List.append_cancel_left ht)]
  all_goals simpa using congrArg List.head? ht

/-- The identity names an order or a payment rather than the store. -/
def Identity.isFact : Identity → Bool
  | .store _ => false
  | _ => true

inductive Warning
  | linkUnverified
  | historyOutsideCoverage (identity : Identity)
  | refundCurrencyConflict (orderId : String)
  | refundExceedsPayment (orderId : String)
  | wooRefundProjectionInconsistent (orderId : String)
  | unattributedPayment (paymentId : String)
  deriving DecidableEq, Repr

def Warning.render : Warning → String
  | .linkUnverified => "link_unverified"
  | .historyOutsideCoverage i => "history_outside_coverage:" ++ i.render
  | .refundCurrencyConflict id => "refund_currency_conflict:" ++ id
  | .refundExceedsPayment id => "refund_exceeds_payment:" ++ id
  | .wooRefundProjectionInconsistent id => "woo_refund_projection_inconsistent:" ++ id
  | .unattributedPayment id => "unattributed_payment:" ++ id

end LedgerGuard
