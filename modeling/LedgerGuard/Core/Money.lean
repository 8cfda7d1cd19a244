import Mathlib.Algebra.Order.Ring.Int
import Mathlib.Data.String.Basic

/-! # Transaction-currency amounts

An amount is a nonnegative int64 number of minor units together with a
supported currency and the exponent the currency table assigns to it. The
source checks both when a value is built, so here they are fields of the type.
-/

namespace LedgerGuard

def twoDigitCurrencies : List String :=
  ["AED", "AFN", "ALL", "AMD", "ANG", "AOA", "ARS", "AUD", "AWG", "AZN", "BAM", "BBD", "BDT",
   "BGN", "BMD", "BND", "BOB", "BRL", "BSD", "BWP", "BYN", "BZD", "CAD", "CDF", "CHF", "CNY",
   "COP", "CRC", "CVE", "CZK", "DKK", "DOP", "DZD", "EGP", "ETB", "EUR", "FJD", "FKP", "GBP",
   "GEL", "GIP", "GMD", "GTQ", "GYD", "HKD", "HNL", "HTG", "HUF", "IDR", "ILS", "INR", "JMD",
   "KES", "KGS", "KHR", "KYD", "KZT", "LAK", "LBP", "LKR", "LRD", "LSL", "MAD", "MDL", "MGA",
   "MKD", "MMK", "MNT", "MOP", "MUR", "MVR", "MWK", "MXN", "MYR", "MZN", "NAD", "NGN", "NIO",
   "NOK", "NPR", "NZD", "PAB", "PEN", "PGK", "PHP", "PKR", "PLN", "QAR", "RON", "RSD", "RUB",
   "SAR", "SBD", "SCR", "SEK", "SGD", "SHP", "SLE", "SOS", "SRD", "STN", "SZL", "THB", "TJS",
   "TOP", "TRY", "TTD", "TWD", "TZS", "UAH", "USD", "UYU", "UZS", "WST", "XCD", "YER", "ZAR",
   "ZMW"]

def zeroDigitCurrencies : List String :=
  ["BIF", "CLP", "DJF", "GNF", "JPY", "KMF", "KRW", "PYG", "RWF", "VND", "VUV", "XAF", "XOF",
   "XPF", "ISK", "UGX"]

def threeDigitCurrencies : List String := ["BHD", "JOD", "KWD", "OMR", "TND"]

/-- The currency table: the number of fraction digits of each supported currency. -/
def exponents (currency : String) : Option ℕ :=
  if currency ∈ threeDigitCurrencies then some 3
  else if currency ∈ zeroDigitCurrencies then some 0
  else if currency ∈ twoDigitCurrencies then some 2
  else none

def maxMinor : ℕ := 2 ^ 63 - 1

/-- A nonnegative int64 amount in the minor unit of a supported currency. -/
structure Money where
  minor : ℕ
  currency : String
  exponent : ℕ
  minor_le : minor ≤ maxMinor
  exponent_eq : exponents currency = some exponent
  deriving DecidableEq

/-- The checked constructor: the range is tested before the currency. -/
def Money.make (minor : ℤ) (currency : String) (exponent : ℕ) : Except String Money :=
  if hm : 0 ≤ minor ∧ minor ≤ maxMinor then
    if he : exponents currency = some exponent then
      .ok ⟨minor.toNat, currency, exponent, by omega, he⟩
    else .error "Unsupported currency or exponent"
  else .error "Amount must be a nonnegative int64"

theorem Money.make_ok {minor : ℤ} {currency : String} {exponent : ℕ} {m : Money}
    (h : Money.make minor currency exponent = .ok m) :
    (m.minor : ℤ) = minor ∧ m.currency = currency ∧ m.exponent = exponent := by
  unfold Money.make at h
  split_ifs at h with hm he
  obtain rfl := Except.ok.inj h
  exact ⟨Int.toNat_of_nonneg hm.1, rfl, rfl⟩

def isDigit (c : Char) : Bool := '0' ≤ c && c ≤ '9'

/-- The value of a digit string; Python's `int` on text already matched by `[0-9]*`. -/
def digitsValue (cs : List Char) : ℕ :=
  cs.foldl (fun n c => 10 * n + (c.toNat - '0'.toNat)) 0

/-- Text before and after the first point, as `str.partition` splits it. -/
def partitionPoint (cs : List Char) : List Char × List Char :=
  (cs.takeWhile (· ≠ '.'), (cs.dropWhile (· ≠ '.')).tail)

/-- The pattern `(?:0|[1-9][0-9]*)(?:\.[0-9]+)?`, matched in full. -/
def unsignedDecimal (cs : List Char) : Bool :=
  let (whole, fraction) := partitionPoint cs
  (match whole with
    | [] => false
    | ['0'] => true
    | c :: rest => isDigit c && c ≠ '0' && rest.all isDigit) &&
  (if '.' ∈ cs then fraction ≠ [] && fraction.all isDigit else true)

def ljustZero (n : ℕ) (cs : List Char) : List Char := cs ++ List.replicate (n - cs.length) '0'

/-- Parse the unsigned decimal amount of a WooCommerce record. -/
def parseWoo (value currency : String) : Except String Money :=
  if 24 < value.length ∨ unsignedDecimal value.toList = false then
    .error "Expected an unsigned decimal string"
  else match exponents currency with
    | none => .error "Unsupported currency"
    | some exponent =>
      let (whole, fraction) := partitionPoint value.toList
      if exponent < fraction.length then .error "Excess currency precision"
      else
        Money.make (digitsValue whole * 10 ^ exponent + digitsValue (ljustZero exponent fraction))
          currency exponent

example : (parseWoo "129.95" "EUR").toOption.map Money.minor = some 12995 := by decide

end LedgerGuard
