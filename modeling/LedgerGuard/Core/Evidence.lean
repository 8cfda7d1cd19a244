import LedgerGuard.Core.Canonical
import LedgerGuard.Lib.Sweep

/-! # Proposals and their evidence

A proposal carries the facts that justify it. The source keeps them as a
dictionary with different keys for each rule; here every key is an optional
field, and the stored evidence is the canonical encoding of those present.
-/

namespace LedgerGuard

/-- The rule-specific part of an evidence dictionary. -/
structure Facts where
  staleSources : Option (List String) := none
  reason : Option String := none
  order : Option Order := none
  references : Option (List String) := none
  unresolved : Option (List String) := none
  paymentId : Option String := none
  orderIds : Option (List String) := none
  payments : Option (List Payment) := none
  compensatedDuplicatePaymentIds : Option (List String) := none
  candidatePaymentIds : Option (List String) := none
  candidateConfidence : Option ℕ := none
  stripeRefunds : Option (List Refund) := none
  wooRefunds : Option (List Refund) := none
  stripeRefundedMinor : Option ℕ := none
  wooRefundedMinor : Option ℕ := none
  manualStatusPossible : Option Bool := none
  payment : Option Payment := none
  confirmedStoreId : Option String := none
  deriving DecidableEq

def Facts.toFields (f : Facts) : List (String × Json) :=
  [("stale_sources", f.staleSources.map .strings), ("reason", f.reason.map .str),
    ("order", f.order.map Order.toJson), ("references", f.references.map .strings),
    ("unresolved", f.unresolved.map .strings), ("payment_id", f.paymentId.map .str),
    ("order_ids", f.orderIds.map .strings),
    ("payments", f.payments.map fun ps => .arr (ps.map Payment.toJson)),
    ("compensated_duplicate_payment_ids", f.compensatedDuplicatePaymentIds.map .strings),
    ("candidate_payment_ids", f.candidatePaymentIds.map .strings),
    ("candidate_confidence", f.candidateConfidence.map fun n => .int n),
    ("stripe_refunds", f.stripeRefunds.map fun rs => .arr (rs.map Refund.toJson)),
    ("woo_refunds", f.wooRefunds.map fun rs => .arr (rs.map Refund.toJson)),
    ("stripe_refunded_minor", f.stripeRefundedMinor.map fun n => .int n),
    ("woo_refunded_minor", f.wooRefundedMinor.map fun n => .int n),
    ("manual_status_possible", f.manualStatusPossible.map .bool),
    ("payment", f.payment.map Payment.toJson),
    ("confirmed_store_id", f.confirmedStoreId.map .str)].filterMap
    fun kv => kv.2.map fun j => (kv.1, j)

/-- An evidence dictionary: the versions and coverage of the run, then the facts. -/
structure Evidence where
  policyVersion : ℕ
  coverage : List Coverage
  facts : Facts
  deriving DecidableEq

def Evidence.toJson (e : Evidence) : Json :=
  .obj ([("schema_version", .str "1.0"), ("rule_version", .str "1.0.0"),
    ("match_version", .str "1.0.0"), ("policy_version", .int e.policyVersion),
    ("coverage", .arr (e.coverage.map Coverage.toJson))] ++ e.facts.toFields)

/-- The evidence that makes a finding change: all of it but the coverage. -/
def Evidence.substantive (e : Evidence) : Json :=
  .obj ([("schema_version", .str "1.0"), ("rule_version", .str "1.0.0"),
    ("match_version", .str "1.0.0"), ("policy_version", .int e.policyVersion)] ++ e.facts.toFields)

structure Proposal where
  key : String
  rule : RuleCode
  severity : Severity
  identities : List Identity
  risk : Option Money
  confidence : ℕ
  eligibleAt : Instant
  ready : Bool
  evidence : Evidence
  ruleVersion : String := "1.0.0"
  deriving DecidableEq

def Proposal.evidenceJson (p : Proposal) : String := canonical p.evidence.toJson

structure Evaluation where
  proposals : List Proposal
  evaluatedRules : List RuleCode
  blockedIdentities : List Identity
  warnings : List Warning
  inputDigest : String
  deriving DecidableEq

/-- What the passes of an evaluation have emitted so far. -/
@[ext] structure Output where
  proposals : List Proposal := []
  blocked : List Identity := []
  warnings : List Warning := []
  deriving DecidableEq

namespace Output

instance : Zero Output := ⟨{}⟩

instance : Add Output :=
  ⟨fun a b => ⟨a.proposals ++ b.proposals, a.blocked ++ b.blocked, a.warnings ++ b.warnings⟩⟩

@[simp] theorem proposals_zero : (0 : Output).proposals = [] := rfl
@[simp] theorem blocked_zero : (0 : Output).blocked = [] := rfl
@[simp] theorem warnings_zero : (0 : Output).warnings = [] := rfl

@[simp] theorem proposals_add (a b : Output) :
    (a + b).proposals = a.proposals ++ b.proposals := rfl

@[simp] theorem blocked_add (a b : Output) : (a + b).blocked = a.blocked ++ b.blocked := rfl

@[simp] theorem warnings_add (a b : Output) : (a + b).warnings = a.warnings ++ b.warnings := rfl

instance : AddMonoid Output where
  add_assoc a b c := by ext1 <;> simp [List.append_assoc]
  zero_add a := by ext1 <;> simp
  add_zero a := by ext1 <;> simp
  nsmul := nsmulRec

def proposalsField : Sweep.Field Output Proposal := ⟨Output.proposals, rfl, fun _ _ => rfl⟩

def blockedField : Sweep.Field Output Identity := ⟨Output.blocked, rfl, fun _ _ => rfl⟩

def warningsField : Sweep.Field Output Warning := ⟨Output.warnings, rfl, fun _ _ => rfl⟩

end Output

end LedgerGuard
