import LedgerGuard.Ingestion.Batch
import Mathlib.Data.List.DropRight

/-! # The allowlisted extraction

`LedgerGuard_Extractor::order` turns one WooCommerce order and its refunds into
wire records. What the shop's own objects answer is the input; an order that is
out of scope gives no record, and a value that cannot be sent exactly raises.
-/

namespace LedgerGuard.Plugin

open Ingestion

/-- A PHP value of which only strings and integers are read. -/
inductive Mixed
  | text (s : String)
  | int (n : ℤ)
  | other
  deriving DecidableEq

structure WcRefund where
  id : ℕ
  dateCreated : Option ℤ
  dateModified : Option ℤ := none
  amount : Mixed
  currency : String
  deriving DecidableEq

/-- An order as WooCommerce answers for it; dates are seconds since the epoch. -/
structure WcOrder where
  id : ℕ
  isRefund : Bool := false
  /-- One of the three checks of the subscriptions extension holds. -/
  subscription : Bool := false
  paymentMethod : String
  dateCreated : Option ℤ
  dateModified : Option ℤ := none
  datePaid : Option ℤ := none
  dateCompleted : Option ℤ := none
  stripeIntentId : Mixed := .other
  stripeCheckoutSessionId : Mixed := .other
  transactionId : String := ""
  refunds : List WcRefund := []
  total : Mixed
  currency : String
  status : String
  deriving DecidableEq

/-- `gmdate` with the format of the wire. -/
def gmdate (time : ℤ) : String :=
  let second := (time % 86400).toNat
  let (year, month, day) := civilDate (time / 86400)
  padZero 4 year.toNat ++ "-" ++ padZero 2 month.toNat ++ "-" ++ padZero 2 day.toNat ++ "T" ++
    padZero 2 (second / 3600) ++ ":" ++ padZero 2 (second / 60 % 60) ++ ":" ++
    padZero 2 (second % 60) ++ "Z"

def isWordChar (c : Char) : Bool :=
  isDigit c || ('a' ≤ c && c ≤ 'z') || ('A' ≤ c && c ≤ 'Z') || c = '_'

def exactPattern (pre : String) (value : String) : Bool :=
  let rest := value.toList.drop pre.length
  pre.toList.isPrefixOf value.toList && rest ≠ [] && rest.length ≤ 240 && rest.all isWordChar

def exactId (value : Mixed) (pre : String) : String :=
  match value with
  | .text s => if exactPattern pre s then s else ""
  | _ => ""

def stripeMethod (method : String) : Bool :=
  let rest := method.toList.drop 6
  "stripe".toList.isPrefixOf method.toList &&
    (rest = [] || (rest.head? = some '_' && rest.tail ≠ [] &&
      rest.tail.all fun c => isDigit c || ('a' ≤ c && c ≤ 'z') || c = '_'))

/-- An exact decimal text without trailing zeros. -/
def decimal (value : Mixed) : Except String String :=
  let text := match value with
    | .text s => some s
    | .int n => some (toString n)
    | .other => none
  match text with
  | none => .error "AMOUNT_FORMAT_UNSUPPORTED"
  | some text =>
    if unsignedDecimal text.toList = false then .error "AMOUNT_FORMAT_UNSUPPORTED"
    else if '.' ∈ text.toList then
      .ok (String.ofList ((text.toList.rdropWhile (· = '0')).rdropWhile (· = '.')))
    else .ok text

def phpIntMax : ℕ := 2 ^ 63 - 1

/-- The total of the refunds at a fixed scale of three digits. -/
def sumRefunds (refunds : List WcRefund) : Except String String := do
  let sum ← refunds.foldlM (fun sum refund => do
    let text ← decimal refund.amount
    let (whole, fraction) := partitionPoint text.toList
    if 3 < fraction.length ∨ 12 < whole.length then .error "REFUND_PRECISION_UNSUPPORTED"
    else
      let minor := digitsValue whole * 1000 + digitsValue (ljustZero 3 fraction)
      if phpIntMax - minor < sum then .error "REFUND_TOTAL_OVERFLOW" else return sum + minor) 0
  decimal (.text (toString (sum / 1000) ++ "." ++ padZero 3 (sum % 1000)))

def strtoupper (s : String) : String :=
  String.ofList (s.toList.map fun c =>
    if 'a' ≤ c ∧ c ≤ 'z' then Char.ofNat (c.toNat - 32) else c)

def refundRecord (order : ℕ) (refund : WcRefund) : Except String WooRecord := do
  match refund.dateCreated with
  | none => .error "REFUND_TIMESTAMP_MISSING"
  | some created =>
    return .refund {
      sourceId := toString refund.id
      parentId := toString order
      revision := gmdate (refund.dateModified.getD created)
      createdAt := gmdate created
      amount := ← decimal refund.amount
      currency := strtoupper refund.currency }

def nonempty (s : String) : Option String := if s = "" then none else some s

/-- The records of one order: itself, then its refunds. -/
def order (answer : Option WcOrder) : Except String (List WooRecord) := do
  match answer with
  | none => return []
  | some order =>
    if order.isRefund ∨ stripeMethod order.paymentMethod = false ∨ order.subscription then
      return []
    else
      match order.dateCreated with
      | none => .error "ORDER_TIMESTAMP_MISSING"
      | some created =>
        let intent := exactId order.stripeIntentId "pi_"
        let session := exactId order.stripeCheckoutSessionId "cs_"
        let transaction := if exactPattern "pi_" order.transactionId ||
          exactPattern "ch_" order.transactionId || exactPattern "cs_" order.transactionId then
            order.transactionId else ""
        let totalRefunded ← sumRefunds order.refunds
        let amount ← decimal order.total
        let refunds ← order.refunds.mapM (refundRecord order.id)
        return .order {
          sourceId := toString order.id
          revision := gmdate (order.dateModified.getD created)
          createdAt := gmdate created
          status := order.status
          amount
          totalRefunded
          refundIds := order.refunds.map fun refund => toString refund.id
          currency := strtoupper order.currency
          paymentMethod := order.paymentMethod
          transactionId := transaction
          stripeIds := {
            paymentIntent := nonempty intent
            checkoutSession := nonempty session
            charge := if "ch_".toList.isPrefixOf transaction.toList then some transaction else none }
          paidAt := order.datePaid.map gmdate
          completedAt := some (order.dateCompleted.map gmdate) } :: refunds

end LedgerGuard.Plugin
