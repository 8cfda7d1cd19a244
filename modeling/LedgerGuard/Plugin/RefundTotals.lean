import LedgerGuard.Plugin.Amounts

/-! # The total of the refunds

The plugin adds refunds at a scale of three digits and the server parses the total
at the scale of its currency. Both count the same number of minor units, and every
integer on the way is one of PHP's.
-/

namespace LedgerGuard.Plugin

open Raising

/-- What stops a run: an exception, or an integer that PHP would replace by a float. -/
inductive Stop
  | raised (message : String)
  | float
  deriving DecidableEq

def phpInt (n : ℤ) : Except Stop ℤ :=
  if -2 ^ 63 ≤ n ∧ n ≤ phpIntMax then .ok n else .error .float

/-- One round of the loop of `sumRefunds`, with each of its integers checked. -/
def addRefundInts (sum : ℤ) (refund : WcRefund) : Except Stop ℤ := do
  let text ← (decimal refund.amount).mapError .raised
  let (whole, fraction) := partitionPoint text.toList
  if 3 < fraction.length ∨ 12 < whole.length then .error (.raised "REFUND_PRECISION_UNSUPPORTED")
  else
    let units ← phpInt (digitsValue whole)
    let scaled ← phpInt (units * 1000)
    let digits ← phpInt (digitsValue (ljustZero 3 fraction))
    let minor ← phpInt (scaled + digits)
    let room ← phpInt (phpIntMax - minor)
    if room < sum then .error (.raised "REFUND_TOTAL_OVERFLOW") else phpInt (sum + minor)

/-- `sumRefunds` with each of its integers checked; both divisions truncate. -/
def sumRefundsInts (refunds : List WcRefund) : Except Stop String := do
  let sum ← refunds.foldlM addRefundInts 0
  let whole ← phpInt (sum.tdiv 1000)
  let rest ← phpInt (sum.tmod 1000)
  (decimal (.text (toString whole ++ "." ++ padZero 3 rest.toNat))).mapError .raised

theorem phpInt_natCast {n : ℕ} (h : n ≤ phpIntMax) : phpInt n = .ok (n : ℤ) := by
  have hn : (-2 ^ 63 : ℤ) ≤ n ∧ (n : ℤ) ≤ phpIntMax := by
    constructor
    · have : (0 : ℤ) ≤ n := Int.natCast_nonneg n
      omega
    · exact_mod_cast h
  rw [phpInt, if_pos hn]

theorem addRefundInts_eq {sum : ℕ} (hsum : sum ≤ phpIntMax) (refund : WcRefund) :
    addRefundInts sum refund =
      ((addRefund sum refund).mapError Stop.raised).map (fun n : ℕ => (n : ℤ)) := by
  unfold addRefundInts addRefund
  cases htext : decimal refund.amount with
  | error e => rfl
  | ok text =>
    have hlt := @minor_lt text.toList (decimal_spec htext).1
    have hmax : 10 ^ 15 ≤ phpIntMax := by decide
    simp only [Except.mapError, bind, Except.bind]
    split
    · rfl
    case isFalse hshort =>
      have hminor := hlt (by omega) (by omega)
      generalize digitsValue (partitionPoint text.toList).1 = units at hminor ⊢
      generalize digitsValue (ljustZero 3 (partitionPoint text.toList).2) = digits at hminor ⊢
      have hunits : phpInt (units : ℤ) = .ok (units : ℤ) := phpInt_natCast (by omega)
      have hscaled : phpInt ((units : ℤ) * 1000) = .ok ((units * 1000 : ℕ) : ℤ) :=
        mod_cast phpInt_natCast (n := units * 1000) (by omega)
      have hdigits : phpInt (digits : ℤ) = .ok (digits : ℤ) := phpInt_natCast (by omega)
      have hsumminor : phpInt (((units * 1000 : ℕ) : ℤ) + digits) =
          .ok ((units * 1000 + digits : ℕ) : ℤ) :=
        mod_cast phpInt_natCast (n := units * 1000 + digits) (by omega)
      have hroom : phpInt (phpIntMax - ((units * 1000 + digits : ℕ) : ℤ)) =
          .ok ((phpIntMax - (units * 1000 + digits) : ℕ) : ℤ) := by
        rw [← phpInt_natCast (by omega), Int.ofNat_sub (by omega)]
      simp only [hunits, hscaled, hdigits, hsumminor, hroom]
      by_cases hover : phpIntMax - (units * 1000 + digits) < sum
      · have hover' : ((phpIntMax - (units * 1000 + digits) : ℕ) : ℤ) < sum := by
          exact_mod_cast hover
        rw [if_pos hover, if_pos hover']
        rfl
      · have hover' : ¬ ((phpIntMax - (units * 1000 + digits) : ℕ) : ℤ) < sum := by
          exact_mod_cast hover
        rw [if_neg hover, if_neg hover']
        exact mod_cast phpInt_natCast (n := sum + (units * 1000 + digits)) (by omega)

theorem foldlM_addRefundInts_eq {sum : ℕ} (hsum : sum ≤ phpIntMax) (refunds : List WcRefund) :
    refunds.foldlM addRefundInts (sum : ℤ) =
      ((refunds.foldlM addRefund sum).mapError Stop.raised).map (fun n : ℕ => (n : ℤ)) := by
  induction refunds generalizing sum with
  | nil => rfl
  | cons refund refunds ih =>
    rw [List.foldlM_cons, List.foldlM_cons, addRefundInts_eq hsum]
    cases hnext : addRefund sum refund with
    | error e => rfl
    | ok next => exact ih (addRefund_ok hnext hsum).1

theorem sumRefundsInts_eq (refunds : List WcRefund) :
    sumRefundsInts refunds = (sumRefunds refunds).mapError Stop.raised := by
  have hzero : 0 ≤ phpIntMax := Nat.zero_le _
  rw [sumRefundsInts, sumRefunds_eq, show (0 : ℤ) = ((0 : ℕ) : ℤ) from rfl,
    foldlM_addRefundInts_eq hzero]
  cases hsum : refunds.foldlM addRefund 0 with
  | error e => rfl
  | ok sum =>
    have hmax := (sum_ok hsum hzero).1
    have hwhole : phpInt ((sum : ℤ).tdiv 1000) = .ok ((sum / 1000 : ℕ) : ℤ) :=
      phpInt_natCast (n := sum / 1000) (by omega)
    have hrest : phpInt ((sum : ℤ).tmod 1000) = .ok ((sum % 1000 : ℕ) : ℤ) :=
      phpInt_natCast (n := sum % 1000) (by omega)
    simp only [Except.mapError, Except.map, bind, Except.bind, hwhole, hrest, Int.toNat_natCast]
    rfl

theorem exists_numeral {value : Mixed} {text : String} (h : decimal value = .ok text) :
    ∃ a : Decimal, a.text = text.toList :=
  unsignedDecimal_iff_text.mp (decimal_spec h).1

theorem addRefund_minorUnits {refund : WcRefund} {sum sum' : ℕ}
    (h : addRefund sum refund = .ok sum') : ∃ (text : String) (a : Decimal),
      decimal refund.amount = .ok text ∧ a.text = text.toList ∧ sum' = sum + minorUnits a 3 := by
  obtain ⟨text, htext, h⟩ := bind_eq_ok.mp h
  obtain ⟨a, ha⟩ := exists_numeral htext
  use text, a, htext, ha
  dsimp only at h
  rw [← ha, partitionPoint_text, digitsValue_toDigits] at h
  split at h
  · cases h
  · split at h
    · cases h
    · exact (Except.ok.inj h).symm

theorem minorUnits_mul {a : Decimal} {e k : ℕ} (h : a.fraction.length ≤ e) :
    minorUnits a (e + k) = minorUnits a e * 10 ^ k := by
  have hk : (minorUnits a (e + k) : ℚ) = minorUnits a e * 10 ^ k := by
    rw [minorUnits_eq h, minorUnits_eq (by omega), pow_add]
    ring
  exact_mod_cast hk

theorem decimal_total (sum : ℕ) : ∃ a : Decimal,
    decimal (.text (toString (sum / 1000) ++ "." ++ padZero 3 (sum % 1000))) =
      .ok (String.ofList a.trim.text) ∧ a.fraction.length = 3 ∧ minorUnits a 3 = sum ∧
      Nat.ofDigitChars 10 (a.fraction.map Decimal.digit) 0 = sum % 1000 := by
  obtain ⟨ds, hds⟩ := Decimal.exists_digits (@isDigit_padZero 3 (sum % 1000))
  have hlen : ds.length = 3 := by
    have := @length_padZero 3 (sum % 1000) (Nat.mod_lt _ (by decide)) (by decide)
    rwa [hds, List.length_map] at this
  have hvalue : Nat.ofDigitChars 10 (ds.map Decimal.digit) 0 = sum % 1000 := by
    rw [← hds]
    exact digitsValue_padZero 3 (sum % 1000)
  have hshown : (toString (sum / 1000) ++ "." ++ padZero 3 (sum % 1000)).toList =
      Nat.toDigits 10 (sum / 1000) ++ '.' :: ds.map Decimal.digit := by
    simp [hds]
  refine ⟨⟨sum / 1000, ds⟩, ?_, hlen, ?_, hvalue⟩
  · have hne : ds ≠ [] := by
      rintro rfl
      cases hlen
    have hd : unsignedDecimal (Nat.toDigits 10 (sum / 1000) ++ '.' :: ds.map Decimal.digit) =
        true := unsignedDecimal_iff_text.mpr ⟨⟨sum / 1000, ds⟩, by simp [Decimal.text, hne]⟩
    have hp : '.' ∈ Nat.toDigits 10 (sum / 1000) ++ '.' :: ds.map Decimal.digit := by simp
    rw [← Decimal.text_trim]
    simp only [decimal, hshown, hd, if_pos hp, Bool.true_eq_false, if_false]
  · have hpad : ljustZero 3 (ds.map Decimal.digit) = ds.map Decimal.digit := by
      simp [ljustZero, hlen]
    rw [minorUnits, hpad]
    simp only [digitsValue, ← Nat.ofDigitChars_eq_foldl, hvalue]
    exact Nat.div_add_mod' _ _

section Agreement

variable {currency : String} {e : ℕ} (he : exponents currency = some e)
include he

theorem parseWoo_fits {text : String} {a : Decimal} (ha : a.text = text.toList)
    (hlen : text.toList.length ≤ 24) (hf : a.fraction.length ≤ e)
    (hle : minorUnits a 3 ≤ phpIntMax) : ∃ m, parseWoo text currency = .ok m ∧
      minorUnits a 3 = m.minor * 10 ^ (3 - e) := by
  have hscale : minorUnits a 3 = minorUnits a e * 10 ^ (3 - e) := by
    rw [← minorUnits_mul hf, Nat.add_sub_cancel' (exponents_le he)]
  have hmax : minorUnits a e ≤ maxMinor := by
    have := Nat.le_mul_of_pos_right (minorUnits a e) (show 0 < 10 ^ (3 - e) by positivity)
    exact (this.trans hscale.ge).trans hle
  obtain ⟨m, hm⟩ := (Money.make_ok_iff he).mpr hmax
  have hminor : m.minor = minorUnits a e := by exact_mod_cast (Money.make_ok hm).1
  use m
  rw [hminor]
  exact ⟨(parseWoo_ok_iff he).mpr ⟨a, ha, String.length_toList ▸ hlen, hf, hm⟩, hscale⟩

theorem sum_parsed {refunds : List WcRefund} {sum sum' : ℕ}
    (h : refunds.foldlM addRefund sum = .ok sum') (hsum : sum ≤ phpIntMax)
    (hshort : ∀ refund ∈ refunds, ∀ text, decimal refund.amount = .ok text →
      (partitionPoint text.toList).2.length ≤ e) :
    ∃ amounts, refunds.mapM (fun refund => (decimal refund.amount).bind (parseWoo · currency)) =
      .ok amounts ∧ sum' = sum + (amounts.map Money.minor).sum * 10 ^ (3 - e) := by
  induction refunds generalizing sum with
  | nil =>
    obtain rfl := Except.ok.inj h
    exact ⟨[], rfl, by simp⟩
  | cons refund refunds ih =>
    obtain ⟨next, hnext, h⟩ := bind_eq_ok.mp h
    obtain ⟨hmax, htextlen⟩ := addRefund_ok hnext hsum
    obtain ⟨hrefund, hrefunds⟩ := List.forall_mem_cons.mp hshort
    obtain ⟨text, a, htext, ha, hadd⟩ := addRefund_minorUnits hnext
    have hf : a.fraction.length ≤ e := by
      have := hrefund text htext
      rwa [← ha, partitionPoint_text, List.length_map] at this
    have hlen : text.toList.length ≤ 24 := (htextlen text htext).trans (by decide)
    obtain ⟨m, hm, hminor⟩ := parseWoo_fits he ha hlen hf (by omega)
    obtain ⟨amounts, hamounts, hrest⟩ := ih h hmax hrefunds
    use m :: amounts
    constructor
    · rw [List.mapM_cons, hamounts, htext]
      exact congrArg (fun x => x >>= fun m => Except.ok (m :: amounts)) hm
    · rw [List.map_cons, List.sum_cons, hrest, hadd, hminor, Nat.add_mul, Nat.add_assoc]

/-- The server parses the total of the refunds to the sum of what it parses the refunds to,
and PHP computes it on integers alone. -/
theorem refund_totals_agree {refunds : List WcRefund}
    (hshort : ∀ refund ∈ refunds, ∃ text, decimal refund.amount = .ok text ∧
      (partitionPoint text.toList).1.length ≤ 12 ∧ (partitionPoint text.toList).2.length ≤ e) :
    sumRefundsInts refunds = (sumRefunds refunds).mapError Stop.raised ∧
      ∀ total, sumRefunds refunds = .ok total → ∃ amounts m,
        refunds.mapM (fun refund => (decimal refund.amount).bind (parseWoo · currency)) =
          .ok amounts ∧
        parseWoo total currency = .ok m ∧ m.minor = (amounts.map Money.minor).sum := by
  use sumRefundsInts_eq refunds
  intro total htotal
  have htext := (sumRefunds_ok htotal).1
  have hlen : total.toList.length ≤ 24 := of_decide_eq_true (Bool.and_eq_true_iff.mp htext).1
  rw [sumRefunds_eq] at htotal
  obtain ⟨sum, hsum, htotal⟩ := bind_eq_ok.mp htotal
  have hprecise : ∀ refund ∈ refunds, ∀ text, decimal refund.amount = .ok text →
      (partitionPoint text.toList).2.length ≤ e := by
    intro refund hr text htext
    obtain ⟨text', htext', -, hf⟩ := hshort refund hr
    exact Except.ok.inj (htext'.symm.trans htext) ▸ hf
  obtain ⟨amounts, hamounts, hparsed⟩ := sum_parsed he hsum (Nat.zero_le _) hprecise
  obtain ⟨a, ha, hthree, hminor, hdigits⟩ := decimal_total sum
  have htrim : a.trim.text = total.toList := by
    rw [← Except.ok.inj (ha.symm.trans htotal), String.toList_ofList]
  have hf : a.trim.fraction.length ≤ e := by
    apply Decimal.length_trim
    rw [hthree, hdigits, hparsed, Nat.zero_add]
    refine (Nat.dvd_mod_iff ?_).mpr (Nat.dvd_mul_left _ _)
    exact pow_dvd_pow 10 (Nat.sub_le 3 e)
  have hsame : minorUnits a.trim 3 = sum := by
    have hl : a.trim.fraction.length ≤ 3 := hf.trans (exponents_le he)
    have hq : (minorUnits a.trim 3 : ℚ) = minorUnits a 3 := by
      rw [minorUnits_eq hl, minorUnits_eq hthree.le, Decimal.value_trim]
    rw [← hminor]
    exact_mod_cast hq
  have hmax : minorUnits a.trim 3 ≤ phpIntMax := hsame ▸ (sum_ok hsum (Nat.zero_le _)).1
  obtain ⟨m, hm, hscale⟩ := parseWoo_fits he htrim hlen hf hmax
  refine ⟨amounts, m, hamounts, hm, ?_⟩
  rw [hsame, hparsed, Nat.zero_add] at hscale
  exact (Nat.eq_of_mul_eq_mul_right (by positivity) hscale).symm

end Agreement

/-- Refunds of 0.100 and 12.005 dinars. -/
def dinarRefunds : List WcRefund :=
  [{ id := 1, amount := .text "0.100", currency := "KWD", dateCreated := none },
    { id := 2, amount := .text "12.005", currency := "KWD", dateCreated := none }]

example : sumRefunds dinarRefunds = .ok "12.105" := by decide

theorem refund_totals_agree_dinars :
    sumRefundsInts dinarRefunds = (sumRefunds dinarRefunds).mapError Stop.raised ∧
      ∀ total, sumRefunds dinarRefunds = .ok total → ∃ amounts m,
        dinarRefunds.mapM (fun refund => (decimal refund.amount).bind (parseWoo · "KWD")) =
          .ok amounts ∧
        parseWoo total "KWD" = .ok m ∧ m.minor = (amounts.map Money.minor).sum := by
  have hshort : ∀ refund ∈ dinarRefunds, ∃ text, decimal refund.amount = .ok text ∧
      (partitionPoint text.toList).1.length ≤ 12 ∧ (partitionPoint text.toList).2.length ≤ 3 := by
    rw [dinarRefunds, List.forall_mem_cons, List.forall_mem_singleton]
    exact ⟨⟨"0.1", by decide, by decide, by decide⟩, "12.005", by decide, by decide, by decide⟩
  exact refund_totals_agree (e := 3) (by decide) hshort

end LedgerGuard.Plugin
