import LedgerGuard.Core.Evidence
import LedgerGuard.Lib.Grouping
import LedgerGuard.Lib.Sweep

/-! # Deterministic matching and PI-001 to PI-010

The evaluator, pass by pass: validation, the freshness and link gates, the
matching of orders to payments, payments claimed by several orders, the rules on
each order, and the payments no order claims. There is no I/O and no implicit
clock.
-/

namespace LedgerGuard

open Ordered Grouping Sweep

def paidStatuses : List OrderStatus := [.processing, .completed]

def unpaidStatuses : List OrderStatus := [.pending, .failed, .cancelled, .onHold]

def instantMethods : List String := ["card", "card_present", "link", "cashapp", "paypal"]

def requiredSources : List String :=
  ["stripe_payments", "stripe_refunds", "woo_orders", "woo_refunds"]

namespace Snapshot

variable (s : Snapshot)

def validate : Except String Unit :=
  if s.now < s.windowFrom then .error "An explicit UTC evaluation window is required"
  else if ¬ (s.payments.map (·.id)).Nodup ∨ ¬ (s.orders.map (·.id)).Nodup then
    .error "Duplicate source identities in snapshot"
  else if s.payments.any (fun p => p.accountId ≠ s.accountId || p.mode ≠ s.mode) then
    .error "Payment namespace mismatch"
  else if s.orders.any (fun o => o.storeId ≠ s.storeId || o.mode ≠ s.mode) then
    .error "Order namespace mismatch"
  else if ¬ (s.coverage.map (·.source)).Nodup then .error "Duplicate coverage source"
  else if ¬ (s.refunds.map (fun r => (r.source, r.id))).Nodup then
    .error "Duplicate refund identity"
  else .ok ()

def rules : List RuleCode := ruleCodes.filter (· ∉ s.policy.disabledRules)

def coverageBySource (source : String) : Option Coverage :=
  s.coverage.find? (·.source = source)

/-- The required sources that are missing or not fresh. -/
def stale : List String :=
  requiredSources.filter fun k =>
    match s.coverageBySource k with
    | none => true
    | some c => !c.fresh s.now s.windowFrom s.policy.freshness

/-- The shared boundary: the earliest end of coverage among the required sources. -/
def through : Instant :=
  ((requiredSources.filterMap s.coverageBySource).map (·.coveredThrough)).min?.getD s.now

end Snapshot

def grace (p : Payment) (s : Snapshot) : Duration :=
  if p.method ∈ instantMethods then s.policy.instantGrace else s.policy.asyncGrace

/-- `(p.succeeded_at or p.changed_at) + _grace(p, s)`. -/
def paymentEligible (s : Snapshot) (p : Payment) : Instant :=
  p.succeededAt.getD p.changedAt + grace p s

def severity : RuleCode → Severity
  | .pi006 | .pi007 | .pi008 | .pi009 => .high
  | _ => .critical

variable (sha256 : String → String)

/-- The finding key of a rule about a set of identities. -/
def findingKey (s : Snapshot) (rule : RuleCode) (identities : List Identity) : String :=
  sha256 (canonical (.arr [.str s.organizationId, .str s.storeId, .str s.mode.render,
    .str rule.render, .strings (identities.map Identity.render)]))

def emit (s : Snapshot) (rule : RuleCode) (ids : List Identity) (risk : Option Money)
    (confidence : ℕ) (eligible : Instant) (facts : Facts) : List Proposal :=
  if rule ∉ s.rules then []
  else
    let identities := sortedSet Identity.render ids
    [{ key := findingKey sha256 s rule identities
       rule, severity := severity rule, identities, risk, confidence
       eligibleAt := eligible
       ready := eligible ≤ s.now
       evidence :=
        { policyVersion := s.policy.version
          coverage := sortBy Coverage.source s.coverage
          facts } }]

def Order.isStripe (o : Order) : Bool :=
  o.paymentMethod = "stripe" || startsWith "stripe_" o.paymentMethod

/-- The distinct nonempty reference fields of an order. -/
def Order.references (o : Order) : List String :=
  sortedSet (fun ref => ref)
    ([o.transactionId, o.paymentIntentId, o.chargeId, o.sessionId].filter (· ≠ ""))

namespace Snapshot

variable (s : Snapshot)

def aliasTargets (ref : String) : List Payment := s.payments.filter (fun p => ref ∈ p.aliases)

/-- The payments whose metadata names an order of this store. -/
def hintsByOrder (orderId : String) : List Payment :=
  s.payments.filter fun p =>
    p.orderHint ≠ "" && (p.storeHint = "" || p.storeHint = s.storeId) && p.orderHint = orderId

/-- The payments that some reference of the order resolves to. -/
def resolved (o : Order) : List Payment :=
  s.payments.filter fun p => o.references.any (· ∈ p.aliases)

def unknown (o : Order) : List String := o.references.filter (fun ref => s.aliasTargets ref = [])

/-- The references of the order disagree, resolve nowhere or contradict payment metadata. -/
def conflict (o : Order) : Bool :=
  1 < (s.resolved o).length || s.unknown o ≠ []
    || (o.id ∈ s.ambiguousOrderHints && s.hintsByOrder o.id ≠ [])
    || (s.resolved o).any fun p =>
      (p.storeHint ≠ "" && p.storeHint ≠ s.storeId) || (p.orderHint ≠ "" && p.orderHint ≠ o.id)

/-- The payments matched to an unconflicted order, by reference or by hint. -/
def candidates (o : Order) : List Payment :=
  s.resolved o ++ (s.hintsByOrder o.id).filter (· ∉ s.resolved o)

def matchConfidence (o : Order) : ℕ :=
  if o.references ≠ [] then if o.references.any (startsWith "pi_") then 100 else 95
  else if s.candidates o ≠ [] then
    if (s.candidates o).all (fun p => p.storeHint = s.storeId) then 90 else 80
  else 0

/-- The matched group of an unconflicted order. -/
def group (o : Order) : List Payment := sortBy Payment.id (s.candidates o)

/-- `sorted(s.orders, key=lambda x: x.id)`. -/
def sortedOrders : List Order := sortBy Order.id s.orders

end Snapshot

/-- The locals that the matching pass fills. -/
structure Matching where
  out : Output := 0
  /-- `matched` and `confidence`, which always have the same keys. -/
  matched : List (String × List Payment × ℕ) := []
  /-- The orders that claim each payment. -/
  claimed : List (String × List String) := []

def conflictOutput (s : Snapshot) (o : Order) : Output :=
  let ids := Identity.order o.id :: (s.resolved o).map (Identity.payment ·.id)
  { blocked := ids
    proposals := emit sha256 s .pi010 ids (some o.amount) 100 s.now
      { reason := some "conflicting_or_unresolved_exact_identifiers"
        order := some o
        references := some o.references
        unresolved := some (s.unknown o) } }

def matchOrder (s : Snapshot) (m : Matching) (o : Order) : Matching :=
  if o.isStripe = false then m
  else if s.conflict o then { m with out := m.out + conflictOutput sha256 s o }
  else
    { m with
      matched := m.matched ++ [(o.id, s.group o, s.matchConfidence o)]
      claimed := (s.group o).foldl (fun claimed p => push claimed p.id o.id) m.claimed }

def matching (s : Snapshot) : Matching := s.sortedOrders.foldl (matchOrder sha256 s) {}

def claimOutput (s : Snapshot) (pid : String) (orderIds : List String) : Output :=
  if 1 < orderIds.length then
    let ids := Identity.payment pid :: orderIds.map Identity.order
    { blocked := ids
      proposals := emit sha256 s .pi010 ids
        ((s.payments.find? (·.id = pid)).map (·.received)) 100 s.now
        { reason := some "payment_claimed_by_multiple_orders"
          paymentId := some pid
          orderIds := some (sortBy id orderIds) } }
  else 0

/-- Block every payment that several orders claim, together with those orders. -/
def claims (s : Snapshot) (m : Matching) : Output :=
  m.out + ((sortBy Prod.fst m.claimed).map fun kv => claimOutput sha256 s kv.1 kv.2).sum

def groupIdentities (o : Order) (group : List Payment) : List Identity :=
  .order o.id :: group.map (Identity.payment ·.id)

/-- The window, conflict and boundary guards; `none` lets the order through to the rules. -/
def hold (s : Snapshot) (blocked : List Identity) (o : Order) (group : List Payment) :
    Option Output :=
  if Identity.order o.id ∈ blocked then some 0
  else if o.createdAt < s.windowFrom then
    some { blocked := groupIdentities o group
           warnings := [.historyOutsideCoverage (.order o.id)] }
  else if (groupIdentities o group).any (· ∈ blocked) then
    some { blocked := groupIdentities o group }
  else if s.through < o.changedAt ∨ group.any (fun p => s.through < p.changedAt) then
    some { blocked := groupIdentities o group }
  else none

def succeeded (group : List Payment) : List Payment := group.filter (·.status = .succeeded)

/-- The refunds that return the whole of a payment, with their grace passed. -/
def isCompensated (s : Snapshot) (p : Payment) : Bool :=
  let refunds := s.refunds.filter fun r =>
    r.source = .stripe && r.parentId = p.id && r.status = .succeeded
  refunds ≠ [] && 0 < p.received.minor
    && refunds.all (fun r =>
      r.amount.currency = p.received.currency && r.amount.exponent = p.received.exponent)
    && (refunds.map (·.amount.minor)).sum = p.received.minor
    && refunds.all (fun r => r.changedAt + s.policy.refundGrace ≤ min s.now s.through)

def compensated (s : Snapshot) (group : List Payment) : List String :=
  ((succeeded group).filter (isCompensated s)).map (·.id)

/-- Exactly one succeeded payment is retained and every other one was returned. -/
def correctedDuplicate (s : Snapshot) (group : List Payment) : Bool :=
  1 < (succeeded group).length &&
    (succeeded group).length - (compensated s group).length = 1

def orderFacts (s : Snapshot) (o : Order) (group : List Payment) : Facts :=
  { order := some o
    payments := some group
    compensatedDuplicatePaymentIds := some
      (if correctedDuplicate s group then sortedSet id (compensated s group) else []) }

def duplicateRule (s : Snapshot) (o : Order) (group : List Payment) (confidence : ℕ) :
    List Proposal :=
  if 1 < (succeeded group).length ∧ correctedDuplicate s group = false then
    emit sha256 s .pi004 (groupIdentities o group) (some o.amount) confidence
      (((succeeded group).map (paymentEligible s)).max?.getD s.now) (orderFacts s o group)
  else []

/-- Similar payments are suggestions in the evidence, never a match. -/
def similarPayments (s : Snapshot) (o : Order) : List String :=
  sortBy id ((s.payments.filter fun p =>
    p.amount = o.amount && |p.createdAt - o.createdAt| ≤ seconds 600).map (·.id))

def missingRule (s : Snapshot) (o : Order) (group : List Payment) (confidence : ℕ) :
    List Proposal :=
  if succeeded group = [] ∧ o.status ∈ paidStatuses then
    emit sha256 s .pi003 [.order o.id] (some o.amount) confidence
      (o.paidAt.getD o.changedAt + s.policy.instantGrace)
      { orderFacts s o group with
        candidatePaymentIds := some (similarPayments s o)
        candidateConfidence := some (if similarPayments s o ≠ [] then 40 else 0) }
  else []

def pairRules (s : Snapshot) (o : Order) (group : List Payment) (confidence : ℕ) (p : Payment) :
    List Proposal :=
  let pair := [Identity.order o.id, Identity.payment p.id]
  (if o.status ∈ unpaidStatuses then
    emit sha256 s .pi001 pair (some p.received) confidence (paymentEligible s p)
      (orderFacts s o group)
  else []) ++
  (if p.received ≠ o.amount then
    emit sha256 s .pi005 pair (some p.received) confidence (paymentEligible s p)
      (orderFacts s o group)
  else [])

/-- PI-004, PI-003, and PI-001 and PI-005 for each succeeded payment. -/
def paymentRules (s : Snapshot) (o : Order) (group : List Payment) (confidence : ℕ) :
    List Proposal :=
  duplicateRule sha256 s o group confidence ++ missingRule sha256 s o group confidence ++
    (succeeded group).flatMap (pairRules sha256 s o group confidence)

def stripeRefunds (s : Snapshot) (group : List Payment) : List Refund :=
  sortBy Refund.id (s.refunds.filter fun r =>
    r.source = .stripe && r.parentId ∈ group.map (·.id) && r.status = .succeeded
      && !(correctedDuplicate s group && r.parentId ∈ compensated s group))

def wooRefunds (s : Snapshot) (o : Order) : List Refund :=
  sortBy Refund.id (s.refunds.filter fun r => r.source = .woo && r.parentId = o.id)

/-- `max` of a nonempty Python list. -/
def latest (t : Instant) (ts : List Instant) : Instant := ts.foldl max t

def refundFacts (s : Snapshot) (o : Order) (group : List Payment) : Facts :=
  { orderFacts s o group with
    stripeRefunds := some (stripeRefunds s group)
    wooRefunds := some (wooRefunds s o)
    stripeRefundedMinor := some ((stripeRefunds s group).map (·.amount.minor)).sum
    wooRefundedMinor := some o.refunded.minor
    manualStatusPossible := some (o.status = .refunded) }

/-- Compare the refund totals of both ledgers once they are known to be comparable. -/
def refundTotals (s : Snapshot) (o : Order) (group : List Payment) (confidence : ℕ) :
    Except String Output := do
  let sr := ((stripeRefunds s group).map (·.amount.minor)).sum
  let wr := o.refunded.minor
  let refundTime := latest
    (if wr ≠ 0 ∨ o.status = .refunded then o.changedAt else s.windowFrom)
    ((stripeRefunds s group ++ wooRefunds s o).map (·.changedAt))
  let eligible := refundTime + s.policy.refundGrace
  let risk ← Money.make |(sr : ℤ) - wr| o.amount.currency o.amount.exponent
  let propose (rule : RuleCode) (risk : Money) : List Proposal :=
    emit sha256 s rule [.order o.id] (some risk) confidence eligible (refundFacts s o group)
  .ok
    { proposals :=
        if sr ≠ 0 ∧ wr = 0 then propose .pi006 risk
        else if (wr ≠ 0 ∨ o.status = .refunded) ∧ sr = 0 then
          propose .pi007 (if wr ≠ 0 then risk else o.amount)
        else if sr ≠ wr then propose .pi008 risk
        else [] }

/-- The refund stage leaves early when the refunds of the two ledgers cannot be compared. -/
def refundRules (s : Snapshot) (o : Order) (group : List Payment) (confidence : ℕ) :
    Except String Output :=
  let stripe := stripeRefunds s group
  let woo := wooRefunds s o
  let wr := o.refunded.minor
  if (stripe ++ woo).any (fun r => s.through < r.changedAt) then
    .ok { blocked := [.order o.id] }
  else if (stripe ++ woo).any (fun r =>
      r.amount.currency ≠ o.amount.currency || r.amount.exponent ≠ o.amount.exponent) then
    .ok { warnings := [.refundCurrencyConflict o.id]
          proposals := emit sha256 s .pi008 [.order o.id] (some o.refunded) confidence
            (latest o.changedAt ((stripe ++ woo).map (·.changedAt)) + s.policy.refundGrace)
            { orderFacts s o group with reason := some "refund_currency_conflict" } }
  else if o.amount.minor < wr ∨ (succeeded group).any (fun p =>
      p.received.minor <
        ((stripe.filter (·.parentId = p.id)).map (·.amount.minor)).sum) then
    .ok { warnings := [.refundExceedsPayment o.id], blocked := [.order o.id] }
  else if woo ≠ [] ∧ (woo.map (·.amount.minor)).sum ≠ wr then
    .ok { warnings := [.wooRefundProjectionInconsistent o.id], blocked := [.order o.id] }
  else refundTotals sha256 s o group confidence

def applyRules (s : Snapshot) (o : Order) (group : List Payment) (confidence : ℕ) :
    Except String Output := do
  let refund ← refundRules sha256 s o group confidence
  .ok ({ proposals := paymentRules sha256 s o group confidence } + refund)

/-- One round of the loop over the orders; it reads what earlier rounds blocked. -/
def evaluateOrder (s : Snapshot) (m : Matching) (out : Output) (o : Order) :
    Except String Output :=
  match m.matched.lookup o.id with
  | none => .ok 0
  | some (group, confidence) =>
    match hold s out.blocked o group with
    | some held => .ok held
    | none => applyRules sha256 s o group confidence

def settlePayment (s : Snapshot) (m : Matching) (out : Output) (p : Payment) : Output :=
  if p.id ∈ keys m.claimed ∨ Identity.payment p.id ∈ out.blocked ∨ p.status ≠ .succeeded then 0
  else if s.through < p.changedAt ∨ p.createdAt < s.windowFrom then
    { blocked := [.payment p.id] }
  else if p.storeHint = s.storeId then
    { proposals := emit sha256 s .pi002 [.payment p.id] (some p.received) 90 (paymentEligible s p)
        { payment := some p, confirmedStoreId := some s.storeId } }
  else { warnings := [.unattributedPayment p.id] }

def reconcileFacts (s : Snapshot) : Except String Output := do
  let m := matching sha256 s
  let out ← sweep (evaluateOrder sha256 s m) (claims sha256 s m) s.sortedOrders
  sweep (fun out p => .ok (settlePayment sha256 s m out p)) out (sortBy Payment.id s.payments)

def evaluate (s : Snapshot) : Except String Evaluation := do
  s.validate
  let digest := sha256 (canonical s.orderedInput)
  if s.stale ≠ [] then
    .ok { proposals := emit sha256 s .pi009 [.store s.storeId] none 100 s.now
            { staleSources := some s.stale }
          evaluatedRules := s.rules.filter (· = .pi009)
          blockedIdentities := [], warnings := [], inputDigest := digest }
  else if s.linkVerified = false ∨ s.linkConflict then
    .ok { proposals :=
            if s.linkConflict then
              emit sha256 s .pi010 [.store s.storeId] none 100 s.now
                { reason := some "store_account_link_conflict" }
            else []
          evaluatedRules := s.rules.filter (fun r => r = .pi009 ∨ r = .pi010)
          blockedIdentities := [], warnings := [.linkUnverified], inputDigest := digest }
  else
    let out ← reconcileFacts sha256 s
    .ok { proposals := sortBy Proposal.key out.proposals
          evaluatedRules := s.rules
          blockedIdentities := sortedSet Identity.render out.blocked
          warnings := sortedSet Warning.render out.warnings
          inputDigest := digest }

end LedgerGuard
