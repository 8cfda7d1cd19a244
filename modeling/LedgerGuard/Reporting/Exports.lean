import LedgerGuard.Core.MoneyText
import LedgerGuard.Findings.Service
import LedgerGuard.Lib.CsvText
import LedgerGuard.Lib.Markup

/-! # Reports of findings

The rows of a report as spreadsheet text with inert cells, and as a document
with escaped text. A row is a dictionary of values that are texts, integers or
missing.
-/

namespace LedgerGuard.Reporting

inductive Value
  | none
  | text (s : String)
  | int (n : ℤ)
  deriving DecidableEq

/-- `str(value)`. -/
def Value.str : Value → String
  | .none => "None"
  | .text s => s
  | .int n => toString n

abbrev Row := List (String × Value)

inductive Rejection
  | keyError (key : Value)
  | valueError (message : String)
  | csvError (error : CsvText.Error)
  deriving DecidableEq

/-- `row.get(key, "")`. -/
def Row.getD (row : Row) (key : String) : Value := (row.lookup key).getD (.text "")

/-- `row[key]`. -/
def Row.get (row : Row) (key : String) : Except Rejection Value :=
  (row.lookup key).elim (.error (.keyError (.text key))) .ok

def playbooks : List (String × String × String) :=
  [("PI-001", "Stripe payment succeeded; Woo order remains unpaid",
      "Check the exact payment and Woo transaction IDs. Inspect gateway and Action Scheduler " ++
      "failures. Search for a second order before correcting fulfilment in the source system."),
    ("PI-002", "Stripe payment has no confirmed Woo order",
      "Search Woo admin for the PaymentIntent and Charge IDs. Confirm store attribution, " ++
      "archive/trash filters and gateway logs. Do not create an order or refund until duplicate " ++
      "fulfilment has been ruled out."),
    ("PI-003", "Woo order is paid without a succeeded Stripe attempt",
      "Check all attempts and manual-capture state in Stripe. Confirm that another gateway or " ++
      "an offline payment was not used. Review fulfilment before taking action in Woo."),
    ("PI-004", "Multiple successful payments match one order",
      "Verify each distinct PaymentIntent. Charges belonging to the same PaymentIntent are one " ++
      "attempt. Check authorised split payments and prior refunds before deciding on remediation."),
    ("PI-005", "Payment amount or currency differs from the order",
      "Compare the original transaction currency, captured amount and Woo total. Review partial " ++
      "captures, currency conversion extensions and manually edited totals."),
    ("PI-006", "Stripe refund is missing from Woo",
      "Confirm that the Stripe refund succeeded. Inspect Woo refund records and job failures. " ++
      "Avoid issuing a second refund while synchronising the records."),
    ("PI-007", "Woo refund has no succeeded Stripe refund",
      "Woo can show a manual refund without money movement. Review refund IDs, status and the " ++
      "operator history in each source before issuing any new refund."),
    ("PI-008", "Refund totals or currencies disagree",
      "Compare all succeeded Stripe refunds with Woo refund records. Exclude pending and failed " ++
      "Stripe refunds. Verify partial refunds individually."),
    ("PI-009", "Connector coverage is stale or incomplete",
      "Check connector authorization, plugin job failures, clock drift and scan progress. " ++
      "Restore contiguous coverage before interpreting payment mismatches."),
    ("PI-010", "Exact identifiers conflict or cannot be verified",
      "Check the linked Stripe account and live/test mode. Compare the Woo transaction, " ++
      "PaymentIntent, Charge and Session IDs. Correct the explicit link; do not guess another " ++
      "account.")]

/-- `text.lstrip()`. -/
def lstrip (text : List Char) : List Char := text.dropWhile isSpace

def formulaStarts : List Char := ['=', '+', '-', '@']

/-- A spreadsheet takes the text for a formula, or splits it. -/
def dangerous (text : List Char) : Bool :=
  (lstrip text).head?.any (· ∈ formulaStarts) || text.head?.any (· ∈ ['\t', '\r', '\n'])

def Value.cellText : Value → String
  | .none => ""
  | value => value.str

def safeCell (value : Value) : String :=
  let text := value.cellText
  if dangerous text.toList then "'" ++ text else text

def columns : List String :=
  ["finding_key", "rule", "severity", "state", "store", "mode", "amount_minor", "currency",
   "exponent", "confidence", "first_seen", "last_seen", "identities", "next_step"]

def Row.cell (row : Row) (column : String) : String := safeCell (row.getD column)

/-- What is written for a row. -/
def Row.fields (row : Row) : List (List Char) := columns.map fun column => (row.cell column).toList

def csvText (rows : List Row) : List Char :=
  CsvText.write (columns.map String.toList :: rows.map Row.fields)

def byteOrderMark : Char := '\ufeff'

/-- The characters of the file, which is UTF-8 text behind a byte order mark. -/
def csvReport (rows : List Row) : List Char := byteOrderMark :: csvText rows

/-- `Money(row["amount_minor"], row["currency"], row["exponent"])`. -/
def money (minor currency exponent : Value) : Except Rejection Money :=
  match minor, currency, exponent with
  | .int minor, .text currency, .int (.ofNat exponent) =>
    (Money.make minor currency exponent).mapError .valueError
  | .int minor, _, _ =>
    if 0 ≤ minor ∧ minor ≤ maxMinor then .error (.valueError "Unsupported currency or exponent")
    else .error (.valueError "Amount must be a nonnegative int64")
  | _, _, _ => .error (.valueError "Amount must be a nonnegative int64")

def Row.risk (row : Row) : Except Rejection String :=
  if (row.lookup "amount_minor").getD .none = .none then .ok "—"
  else do
    let currency ← row.get "currency"
    let amount ← money (← row.get "amount_minor") currency (← row.get "exponent")
    .ok (currency.str ++ " " ++ amount.decimal)

section

variable (titled : String → String)

/-- What a document shows of a row; `titled` is `str.title`. -/
def displayFields (row : Row) : Except Rejection (List (String × String)) := do
  let risk ← row.risk
  .ok [("State", titled (row.getD "state").str),
    ("Severity", titled (row.getD "severity").str),
    ("Store", (row.getD "store").str),
    ("Mode", titled (row.getD "mode").str),
    ("Amount at risk", risk),
    ("Source identities", (row.getD "identities").str),
    ("Match confidence", (row.getD "confidence").str ++ " / 100"),
    ("First observed (UTC)", (row.getD "first_seen").str),
    ("Last observed (UTC)", (row.getD "last_seen").str)]

/-- `html.escape` -/
def escape (text : String) : String := String.ofList (Markup.escape text.toList)

/-- `PLAYBOOKS[rule]`, for a rule that is a key of the table. -/
def rulePlaybook (rule : Value) : Except Rejection (String × String × String) :=
  (playbooks.find? fun entry => rule = .text entry.1).elim (.error (.keyError rule)) .ok

def htmlSection (row : Row) : Except Rejection String := do
  let (rule, label, step) ← rulePlaybook (← row.get "rule")
  let details := (← displayFields titled row).map fun (k, v) =>
    "<dt>" ++ escape k ++ "</dt><dd>" ++ escape v ++ "</dd>"
  .ok ("<section><h2>" ++ rule ++ ": " ++ escape label ++ "</h2><dl>" ++ String.join details ++
    "</dl><h3>Diagnostic steps</h3><p>" ++ escape step ++ "</p></section>")

def noMismatch : String := "No eligible mismatch was found in the supplied coverage window."

def readOnly : String :=
  "Read-only reconciliation. Financial actions require verification in the source systems."

def bodyStyle : String :=
  "body\x7bfont:16px/1.5 system-ui;max-width:900px;margin:40px auto;padding:0 24px;color:#142431\x7d"

def sectionStyle : String :=
  "section\x7bborder-top:1px solid #bbc6cc;padding:20px 0;break-inside:avoid\x7d"

def textStyle : String :=
  "dt\x7bfont-weight:600\x7ddd\x7bmargin:0 0 8px;overflow-wrap:anywhere\x7dh1\x7bfont-size:32px\x7d"

def printStyle : String := "@media print\x7bbody\x7bmargin:0\x7d\x7d"

def style : String := bodyStyle ++ sectionStyle ++ textStyle ++ printStyle

def csp : String := "default-src 'none'; style-src 'unsafe-inline'"

def htmlReport (rows : List Row) (title : String) : Except Rejection String := do
  let sections ← rows.mapM (htmlSection titled)
  let content := if String.join sections = "" then "<p>" ++ noMismatch ++ "</p>"
    else String.join sections
  .ok ("<!doctype html><html lang=\"en\"><meta charset=\"utf-8\">" ++
    "<meta name=\"viewport\" content=\"width=device-width\">" ++
    "<meta http-equiv=\"Content-Security-Policy\" content=\"" ++ csp ++ "\"><title>" ++
    escape title ++ "</title><style>" ++ style ++ "</style><body><h1>" ++ escape title ++
    "</h1><p>" ++ readOnly ++ "</p>" ++ content ++ "</body></html>")

end

/-- A finding of a store with a formula for a name and markup among its identities. -/
def hostileRow : Row :=
  [("finding_key", .text "fixture"), ("rule", .text "PI-001"), ("severity", .text "critical"),
    ("state", .text "open"), ("store", .text "=HYPERLINK(\"https://example.com\")"),
    ("mode", .text "test"), ("amount_minor", .int 12995), ("currency", .text "EUR"),
    ("exponent", .int 2), ("confidence", .int 100), ("first_seen", .text "2026-09-05T12:00:00Z"),
    ("last_seen", .text "2026-09-05T12:00:00Z"),
    ("identities", .text "<script>alert(1)</script>"), ("next_step", .text "Check <source>")]

end LedgerGuard.Reporting
