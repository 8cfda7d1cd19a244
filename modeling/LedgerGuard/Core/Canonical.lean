import LedgerGuard.Core.Domain
import LedgerGuard.Lib.Ordered

/-! # Canonical JSON

The one encoding behind finding keys, digests and stored evidence: JSON with
sorted keys, no spaces and ASCII escapes. Datetimes are written in ISO format
and durations as Python prints a `timedelta`.
-/

namespace LedgerGuard

open Ordered

inductive Json
  | null
  | bool (b : Bool)
  | int (n : ℤ)
  | str (s : String)
  | arr (elems : List Json)
  | obj (fields : List (String × Json))

theorem toList_toString (n : ℕ) : (toString n).toList = Nat.toDigits 10 n := Nat.toList_repr

theorem toString_injective : Function.Injective fun n : ℕ => toString n := by
  intro m n h
  have hd := congrArg String.toList h
  simp only [toList_toString] at hd
  rw [← Nat.ofDigitChars_ten_toDigits (n := m), hd, Nat.ofDigitChars_ten_toDigits]

def padZero (width n : ℕ) : String :=
  let digits := toString n
  String.ofList (List.replicate (width - digits.length) '0') ++ digits

def hexDigit (n : ℕ) : Char := "0123456789abcdef".toList.getD n '0'

def unicodeEscape (n : ℕ) : String :=
  "\\u" ++ String.ofList [hexDigit (n / 4096 % 16), hexDigit (n / 256 % 16), hexDigit (n / 16 % 16),
    hexDigit (n % 16)]

/-- One character of a JSON string, with a surrogate pair outside the basic plane. -/
def escapeChar (c : Char) : String :=
  if c = '"' then "\\\""
  else if c = '\\' then "\\\\"
  else if c = '\n' then "\\n"
  else if c = '\r' then "\\r"
  else if c = '\t' then "\\t"
  else if c.toNat = 12 then "\\f"
  else if c.toNat = 8 then "\\b"
  else if 32 ≤ c.toNat ∧ c.toNat ≤ 126 then c.toString
  else if c.toNat < 65536 then unicodeEscape c.toNat
  else unicodeEscape (55296 + (c.toNat - 65536) / 1024) ++
    unicodeEscape (56320 + (c.toNat - 65536) % 1024)

def quote (s : String) : String := "\"" ++ String.join (s.toList.map escapeChar) ++ "\""

def joinWith (sep : String) : List String → String
  | [] => ""
  | [x] => x
  | x :: xs => x ++ sep ++ joinWith sep xs

mutual

/-- `json.dumps` with sorted keys and the separators `,` and `:`. -/
def canonical : Json → String
  | .null => "null"
  | .bool b => if b then "true" else "false"
  | .int n => toString n
  | .str s => quote s
  | .arr elems => "[" ++ joinWith "," (canonicalElems elems) ++ "]"
  | .obj fields =>
    "\x7b" ++ joinWith "," ((sortBy Prod.fst (canonicalFields fields)).map
      (fun kv => quote kv.1 ++ ":" ++ kv.2)) ++ "\x7d"

def canonicalElems : List Json → List String
  | [] => []
  | j :: js => canonical j :: canonicalElems js

def canonicalFields : List (String × Json) → List (String × String)
  | [] => []
  | (k, j) :: fs => (k, canonical j) :: canonicalFields fs

end

/-- Year, month and day of a day number counted from the epoch. -/
def civilDate (days : ℤ) : ℤ × ℤ × ℤ :=
  let z := days + 719468
  let era := z / 146097
  let doe := z % 146097
  let yoe := (doe - doe / 1460 + doe / 36524 - doe / 146096) / 365
  let doy := doe - (365 * yoe + yoe / 4 - yoe / 100)
  let mp := (5 * doy + 2) / 153
  let month := if mp < 10 then mp + 3 else mp - 9
  let year := yoe + era * 400 + if month ≤ 2 then 1 else 0
  (year, month, doy - (153 * mp + 2) / 5 + 1)

def fraction (micros : ℕ) : String := if micros = 0 then "" else "." ++ padZero 6 micros

/-- `datetime.isoformat` of an aware datetime in UTC. -/
def isoformat (t : Instant) : String :=
  let micros := (t % 1000000).toNat
  let second := (t / 1000000 % 86400).toNat
  let (year, month, day) := civilDate (t / 86400000000)
  padZero 4 year.toNat ++ "-" ++ padZero 2 month.toNat ++ "-" ++ padZero 2 day.toNat ++ "T" ++
    padZero 2 (second / 3600) ++ ":" ++ padZero 2 (second / 60 % 60) ++ ":" ++
    padZero 2 (second % 60) ++ fraction micros ++ "+00:00"

/-- `str` of a `timedelta`. -/
def durationString (d : Duration) : String :=
  let micros := (d % 1000000).toNat
  let second := (d / 1000000 % 86400).toNat
  let days := d / 86400000000
  (if days = 0 then "" else toString days ++ (if |days| = 1 then " day, " else " days, ")) ++
    toString (second / 3600) ++ ":" ++ padZero 2 (second / 60 % 60) ++ ":" ++
    padZero 2 (second % 60) ++ fraction micros

namespace Json

def strings (xs : List String) : Json := .arr (xs.map .str)

def time (t : Instant) : Json := .str (isoformat t)

def time? (t : Option Instant) : Json := t.elim .null time

end Json

def Money.toJson (m : Money) : Json :=
  .obj [("minor", .int m.minor), ("currency", .str m.currency), ("exponent", .int m.exponent)]

def Payment.toJson (p : Payment) : Json :=
  .obj [("id", .str p.id), ("account_id", .str p.accountId), ("mode", .str p.mode.render),
    ("status", .str p.status.render), ("amount", p.amount.toJson),
    ("received", p.received.toJson), ("created_at", .time p.createdAt),
    ("changed_at", .time p.changedAt), ("succeeded_at", .time? p.succeededAt),
    ("method", .str p.method), ("capture_method", .str p.captureMethod),
    ("charge_ids", .strings p.chargeIds), ("session_ids", .strings p.sessionIds),
    ("store_hint", .str p.storeHint), ("order_hint", .str p.orderHint),
    ("observation_id", .str p.observationId)]

def Order.toJson (o : Order) : Json :=
  .obj [("id", .str o.id), ("store_id", .str o.storeId), ("mode", .str o.mode.render),
    ("status", .str o.status.render), ("amount", o.amount.toJson),
    ("refunded", o.refunded.toJson), ("created_at", .time o.createdAt),
    ("changed_at", .time o.changedAt), ("paid_at", .time? o.paidAt),
    ("payment_method", .str o.paymentMethod), ("transaction_id", .str o.transactionId),
    ("payment_intent_id", .str o.paymentIntentId), ("charge_id", .str o.chargeId),
    ("session_id", .str o.sessionId), ("observation_id", .str o.observationId)]

def Refund.toJson (r : Refund) : Json :=
  .obj [("id", .str r.id), ("source", .str r.source.render), ("parent_id", .str r.parentId),
    ("amount", r.amount.toJson), ("status", .str r.status.render),
    ("changed_at", .time r.changedAt), ("observation_id", .str r.observationId)]

def Coverage.toJson (c : Coverage) : Json :=
  .obj [("source", .str c.source), ("covered_from", .time c.coveredFrom),
    ("covered_through", .time c.coveredThrough), ("observed_at", .time c.observedAt),
    ("complete", .bool c.complete), ("clock_offset_seconds", .int c.clockOffsetSeconds)]

def Policy.toJson (p : Policy) : Json :=
  .obj [("version", .int p.version), ("instant_grace", .str (durationString p.instantGrace)),
    ("async_grace", .str (durationString p.asyncGrace)),
    ("refund_grace", .str (durationString p.refundGrace)),
    ("freshness", .str (durationString p.freshness)),
    ("disabled_rules", .strings (p.disabledRules.map RuleCode.render)),
    ("shadow", .bool p.shadow)]

/-- The snapshot with its four collections sorted by their own encoding. -/
def Snapshot.orderedInput (s : Snapshot) : Json :=
  .obj [("organization_id", .str s.organizationId), ("store_id", .str s.storeId),
    ("account_id", .str s.accountId), ("mode", .str s.mode.render), ("now", .time s.now),
    ("window_from", .time s.windowFrom),
    ("payments", .arr (sortBy canonical (s.payments.map Payment.toJson))),
    ("orders", .arr (sortBy canonical (s.orders.map Order.toJson))),
    ("refunds", .arr (sortBy canonical (s.refunds.map Refund.toJson))),
    ("coverage", .arr (sortBy canonical (s.coverage.map Coverage.toJson))),
    ("link_verified", .bool s.linkVerified), ("link_conflict", .bool s.linkConflict),
    ("ambiguous_order_hints", .strings s.ambiguousOrderHints), ("policy", s.policy.toJson)]

example : canonical (.obj [("b", .time 1788609600000000), ("a", .arr [.null, .int (-2)])]) =
    "\x7b\"a\":[null,-2],\"b\":\"2026-09-05T12:00:00+00:00\"\x7d" := by decide

end LedgerGuard
