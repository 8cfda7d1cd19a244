import LedgerGuard.Core.Domain

/-! # The store of the test suite

One payment of 129.95 EUR, one order that refers to it, and coverage of the
four sources up to a minute ago.
-/

namespace LedgerGuard

/-- 2026-09-05T12:00:00Z. -/
def noon : Instant := 1788609600000000

namespace Fixture

def now : Instant := noon

def old : Instant := now - minutes 180

def eur (minor : ℕ) (h : minor ≤ maxMinor := by decide) : Money := ⟨minor, "EUR", 2, h, by decide⟩

theorem price_le : 12995 ≤ maxMinor := by decide

theorem small_le : 500 ≤ maxMinor := by decide

theorem second_prefix : startsWith "pi_" "pi_two" = true := by decide

theorem stripe_succeeded : RefundSource.stripe.allows .succeeded = true := rfl

def payment : Payment where
  id := "pi_one"
  accountId := "acct_one"
  mode := .test
  status := .succeeded
  amount := eur 12995 price_le
  received := eur 12995 price_le
  createdAt := old
  changedAt := old
  succeededAt := some old
  storeHint := "store_one"
  orderHint := "1"
  compatible := ⟨rfl, rfl⟩
  id_prefix := by decide
  account_prefix := by decide

def order : Order where
  id := "1"
  storeId := "store_one"
  mode := .test
  status := .processing
  amount := eur 12995 price_le
  refunded := eur 0
  createdAt := old
  changedAt := old
  paidAt := some old
  transactionId := "pi_one"
  compatible := ⟨rfl, rfl⟩
  id_numeric := by decide

def coverage (source : String) : Coverage where
  source := source
  coveredFrom := now - minutes 50400
  coveredThrough := now - minutes 1
  observedAt := now

def snapshot : Snapshot where
  organizationId := "org_one"
  storeId := "store_one"
  accountId := "acct_one"
  mode := .test
  now := now
  windowFrom := now - minutes 43200
  payments := [payment]
  orders := [order]
  refunds := []
  coverage := ["stripe_payments", "stripe_refunds", "woo_orders", "woo_refunds"].map coverage

end Fixture

end LedgerGuard
