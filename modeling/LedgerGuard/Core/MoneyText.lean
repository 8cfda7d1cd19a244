import LedgerGuard.Core.Canonical
import LedgerGuard.Core.Money
import LedgerGuard.Lib.Decimal
import Mathlib.Data.List.TakeWhile
import Mathlib.Tactic.Linarith

/-! # Parsing and printing amounts

The amounts that WooCommerce text denotes are the values of decimal numerals, and
the text an amount prints as is read back as that amount. Stripe's integers are
read back in any letter case of the currency.
-/

namespace LedgerGuard

def Money.decimal (m : Money) : String :=
  if m.exponent = 0 then toString m.minor
  else toString (m.minor / 10 ^ m.exponent) ++ "." ++
    padZero m.exponent (m.minor % 10 ^ m.exponent)

/-- The upper case of one character, where it is ASCII text; no other character, and no other
upper case, is in a currency code. -/
def upperChar (c : Char) : List Char :=
  if 'a' ≤ c ∧ c ≤ 'z' then [Char.ofNat (c.toNat - 32)]
  else if c = 'ı' then ['I']
  else if c = 'ſ' then ['S']
  else if c = 'ß' then ['S', 'S']
  else if c = 'ﬀ' then ['F', 'F']
  else if c = 'ﬁ' then ['F', 'I']
  else if c = 'ﬂ' then ['F', 'L']
  else if c = 'ﬃ' then ['F', 'F', 'I']
  else if c = 'ﬄ' then ['F', 'F', 'L']
  else if c = 'ﬅ' ∨ c = 'ﬆ' then ['S', 'T']
  else [c]

def upper (s : String) : String := String.ofList (s.toList.flatMap upperChar)

/-- Read a Stripe amount, which counts hundredths for two currencies without minor units. -/
def parseStripe (value : Json) (currency : String) : Except String Money :=
  let currency := upper currency
  -- a currency outside the table is refused at every exponent
  let money := fun minor => Money.make minor currency ((exponents currency).getD 0)
  match value with
  | .int value =>
    if currency ∈ ["ISK", "UGX"] then
      if value % 100 ≠ 0 then .error "Invalid legacy Stripe currency representation"
      else money (value / 100)
    else money value
  | _ => .error "Stripe amount must be an integer"

/-- The integer Stripe writes for an amount. -/
def Money.stripe (m : Money) : ℤ := if m.currency ∈ ["ISK", "UGX"] then m.minor * 100 else m.minor

theorem Money.make_minor (m : Money) : Money.make m.minor m.currency m.exponent = .ok m := by
  have hm : (0 : ℤ) ≤ m.minor ∧ (m.minor : ℤ) ≤ maxMinor :=
    ⟨Int.natCast_nonneg _, by exact_mod_cast m.minor_le⟩
  rw [Money.make, dif_pos hm, dif_pos m.exponent_eq]
  rfl

theorem exponents_le {currency : String} {e : ℕ} (h : exponents currency = some e) : e ≤ 3 := by
  unfold exponents at h
  split_ifs at h <;> cases h <;> decide

theorem point_not_digit : isDigit '.' = false := by decide

theorem ne_point {c : Char} (h : isDigit c = true) : c ≠ '.' := by
  rintro rfl
  rw [point_not_digit] at h
  cases h

theorem point_not_mem {cs : List Char} (h : ∀ c ∈ cs, isDigit c = true) : '.' ∉ cs :=
  fun hm => ne_point (h _ hm) rfl

theorem partitionPoint_append {whole fraction : List Char} (h : '.' ∉ whole) :
    partitionPoint (whole ++ '.' :: fraction) = (whole, fraction) := by
  have hall : ∀ c ∈ whole, decide (c ≠ '.') = true :=
    fun c hc => decide_eq_true fun he => h (he ▸ hc)
  rw [partitionPoint, List.takeWhile_append_of_pos hall, List.dropWhile_append_of_pos hall,
    List.takeWhile_cons_of_neg (by simp), List.dropWhile_cons_of_neg (by simp), List.append_nil,
    List.tail_cons]

theorem partitionPoint_of_not_mem {cs : List Char} (h : '.' ∉ cs) :
    partitionPoint cs = (cs, []) := by
  have hall : ∀ c ∈ cs, decide (c ≠ '.') = true :=
    fun c hc => decide_eq_true fun he => h (he ▸ hc)
  rw [partitionPoint, List.takeWhile_eq_self_iff.mpr hall, List.dropWhile_eq_nil_iff.mpr hall,
    List.tail_nil]

/-- The whole part of the pattern: digits, the first of them a zero only if it is alone. -/
def wholePart : List Char → Bool
  | [] => false
  | ['0'] => true
  | c :: rest => isDigit c && c ≠ '0' && rest.all isDigit

theorem wholePart_iff {cs : List Char} :
    wholePart cs = true ↔ ∃ n, cs = Nat.toDigits 10 n := by
  constructor
  · intro h
    unfold wholePart at h
    split at h
    · cases h
    · exact ⟨0, rfl⟩
    · simp only [Bool.and_eq_true, decide_eq_true_eq, List.all_eq_true] at h
      obtain ⟨⟨hc, hne⟩, hrest⟩ := h
      apply Decimal.exists_whole (by simp)
      · exact List.forall_mem_cons.mpr ⟨hc, hrest⟩
      · exact Or.inr (by simpa using hne)
  · rintro ⟨n, rfl⟩
    have hdigits : ∀ c ∈ Nat.toDigits 10 n, isDigit c = true := fun c => Decimal.isDigit_toDigits
    have hhead := Decimal.head_toDigits n
    unfold wholePart
    split
    case h_1 h => exact absurd h Nat.toDigits_ne_nil
    case h_2 => rfl
    case h_3 c rest hne h =>
      rw [h] at hdigits hhead
      obtain ⟨hc, hrest⟩ := List.forall_mem_cons.mp hdigits
      have hzero : c ≠ '0' := by
        rintro rfl
        have hn := hhead.mp rfl
        subst hn
        simp only [Nat.toDigits_zero, List.cons.injEq] at h
        exact hne rfl h.2.symm
      simp only [hc, hzero, List.all_eq_true.mpr hrest, ne_eq, not_false_eq_true, decide_true,
        Bool.and_self]

theorem wholePart_digits {cs : List Char} (h : wholePart cs = true) :
    cs ≠ [] ∧ ∀ c ∈ cs, isDigit c = true := by
  obtain ⟨n, rfl⟩ := wholePart_iff.mp h
  exact ⟨Nat.toDigits_ne_nil, fun c => Decimal.isDigit_toDigits⟩

theorem unsignedDecimal_eq (cs : List Char) : unsignedDecimal cs =
    (wholePart (partitionPoint cs).1 && (if '.' ∈ cs then (partitionPoint cs).2 ≠ [] &&
      (partitionPoint cs).2.all isDigit else true)) := rfl

theorem unsignedDecimal_iff {cs : List Char} : unsignedDecimal cs = true ↔
    ∃ whole, wholePart whole = true ∧ (cs = whole ∨ ∃ fraction, cs = whole ++ '.' :: fraction ∧
      fraction ≠ [] ∧ ∀ c ∈ fraction, isDigit c = true) := by
  by_cases hp : '.' ∈ cs
  · obtain ⟨whole, fraction, rfl, hw⟩ := List.eq_append_cons_of_mem hp
    simp only [unsignedDecimal_eq, partitionPoint_append hw, if_pos hp, Bool.and_eq_true,
      decide_eq_true_eq, List.all_eq_true]
    constructor
    · rintro ⟨hwhole, hf⟩
      exact ⟨whole, hwhole, Or.inr ⟨fraction, rfl, hf⟩⟩
    · rintro ⟨whole', hwhole, rfl | ⟨fraction', he, hf⟩⟩
      · exact absurd hp (point_not_mem (wholePart_digits hwhole).2)
      · have hparts := congrArg partitionPoint he
        rw [partitionPoint_append hw,
          partitionPoint_append (point_not_mem (wholePart_digits hwhole).2)] at hparts
        obtain ⟨rfl, rfl⟩ := Prod.mk.inj hparts
        exact ⟨hwhole, hf⟩
  · simp only [unsignedDecimal_eq, partitionPoint_of_not_mem hp, if_neg hp, Bool.and_true]
    constructor
    · intro h
      exact ⟨cs, h, Or.inl rfl⟩
    · rintro ⟨whole, hwhole, rfl | ⟨fraction, rfl, -⟩⟩
      · exact hwhole
      · exact absurd (by simp) hp

theorem unsignedDecimal_iff_text {cs : List Char} :
    unsignedDecimal cs = true ↔ ∃ a : Decimal, a.text = cs := by
  rw [unsignedDecimal_iff]
  constructor
  · rintro ⟨whole, hwhole, rfl | ⟨fraction, rfl, hne, hf⟩⟩
    · obtain ⟨n, rfl⟩ := wholePart_iff.mp hwhole
      exact ⟨⟨n, []⟩, by simp [Decimal.text]⟩
    · obtain ⟨n, rfl⟩ := wholePart_iff.mp hwhole
      obtain ⟨ds, rfl⟩ := Decimal.exists_digits hf
      use ⟨n, ds⟩
      have hds : ds ≠ [] := by simpa using hne
      rw [Decimal.text, if_neg hds]
  · rintro ⟨⟨n, ds⟩, rfl⟩
    refine ⟨Nat.toDigits 10 n, wholePart_iff.mpr ⟨n, rfl⟩, ?_⟩
    by_cases hds : ds = []
    · exact Or.inl (by simp [Decimal.text, hds])
    · refine Or.inr ⟨ds.map Decimal.digit, ?_, by simpa using hds, ?_⟩
      · rw [Decimal.text, if_neg hds]
      · exact List.forall_mem_map.mpr fun d _ => Decimal.isDigit_digit d

theorem partitionPoint_text (a : Decimal) : partitionPoint a.text =
    (Nat.toDigits 10 a.whole, a.fraction.map Decimal.digit) := by
  have hw : '.' ∉ Nat.toDigits 10 a.whole := point_not_mem fun c => Decimal.isDigit_toDigits
  by_cases hds : a.fraction = []
  · simp [Decimal.text, hds, partitionPoint_of_not_mem hw]
  · simp [Decimal.text, hds, partitionPoint_append hw]

/-- The minor units that a numeral denotes, once its fraction is padded. -/
def minorUnits (a : Decimal) (e : ℕ) : ℕ :=
  a.whole * 10 ^ e + digitsValue (ljustZero e (a.fraction.map Decimal.digit))

theorem minorUnits_eq {a : Decimal} {e : ℕ} (h : a.fraction.length ≤ e) :
    (minorUnits a e : ℚ) = a.value * 10 ^ e := by
  rw [Decimal.value_mul a h, minorUnits, ljustZero, List.length_map]
  rfl

theorem digitsValue_toDigits (n : ℕ) : digitsValue (Nat.toDigits 10 n) = n :=
  Nat.ofDigitChars_ten_toDigits

theorem parseWoo_text {s currency : String} {a : Decimal} {e : ℕ} (hs : a.text = s.toList)
    (he : exponents currency = some e) : parseWoo s currency =
      if 24 < s.length then .error "Expected an unsigned decimal string"
      else if e < a.fraction.length then .error "Excess currency precision"
      else Money.make (minorUnits a e) currency e := by
  have hd : unsignedDecimal s.toList = true := unsignedDecimal_iff_text.mpr ⟨a, hs⟩
  have hp : partitionPoint s.toList = _ := hs ▸ partitionPoint_text a
  simp only [parseWoo, hd, he, hp, reduceCtorEq, or_false, List.length_map, digitsValue_toDigits,
    minorUnits, Nat.cast_add, Nat.cast_mul, Nat.cast_pow, Nat.cast_ofNat]

theorem parseWoo_ok_iff {s currency : String} {e : ℕ} (he : exponents currency = some e)
    {m : Money} : parseWoo s currency = .ok m ↔
      ∃ a : Decimal, a.text = s.toList ∧ s.length ≤ 24 ∧ a.fraction.length ≤ e ∧
        Money.make (minorUnits a e) currency e = .ok m := by
  constructor
  · intro h
    have hd : unsignedDecimal s.toList = true := by
      unfold parseWoo at h
      split at h
      · cases h
      case isFalse hn => simpa using (not_or.mp hn).2
    obtain ⟨a, hs⟩ := unsignedDecimal_iff_text.mp hd
    rw [parseWoo_text hs he] at h
    split_ifs at h with hlen hprec
    exact ⟨a, hs, Nat.le_of_not_lt hlen, Nat.le_of_not_lt hprec, h⟩
  · rintro ⟨a, hs, hlen, hprec, hm⟩
    rw [parseWoo_text hs he, if_neg (by omega), if_neg (by omega), hm]

theorem Money.make_ok_iff {minor : ℕ} {currency : String} {e : ℕ}
    (he : exponents currency = some e) :
    (∃ m, Money.make minor currency e = .ok m) ↔ minor ≤ maxMinor := by
  constructor
  · rintro ⟨m, hm⟩
    have := (Money.make_ok hm).1
    have := m.minor_le
    omega
  · intro h
    exact ⟨⟨minor, currency, e, h, he⟩, Money.make_minor ⟨minor, currency, e, h, he⟩⟩

theorem isDigit_padZero {width n : ℕ} : ∀ c ∈ (padZero width n).toList, isDigit c = true := by
  intro c hc
  rw [padZero, String.toList_append, String.toList_ofList, toList_toString] at hc
  rcases List.mem_append.mp hc with hc | hc
  · rw [List.eq_of_mem_replicate hc]
    decide
  · exact Decimal.isDigit_toDigits hc

theorem digitsValue_padZero (width n : ℕ) : digitsValue (padZero width n).toList = n := by
  rw [padZero, String.toList_append, String.toList_ofList, toList_toString, digitsValue]
  exact (Nat.ofDigitChars_append _).trans (by
    rw [Nat.ofDigitChars_replicate_zero, Nat.mul_zero, Nat.ofDigitChars_ten_toDigits])

theorem length_padZero {width n : ℕ} (h : n < 10 ^ width) (hw : 0 < width) :
    (padZero width n).toList.length = width := by
  have hlen : (toString n).toList.length ≤ width := by
    rw [toList_toString, Nat.length_toDigits_le_iff (by decide) hw]
    exact h
  rw [padZero, String.toList_append, String.toList_ofList, List.length_append,
    List.length_replicate, String.length_toList] at *
  omega

theorem Money.exists_text (m : Money) : ∃ a : Decimal, a.text = m.decimal.toList ∧
    a.fraction.length = m.exponent ∧ a.whole ≤ m.minor ∧ minorUnits a m.exponent = m.minor := by
  by_cases he : m.exponent = 0
  · use ⟨m.minor, []⟩
    simp [Money.decimal, he, Decimal.text, minorUnits, digitsValue, ljustZero]
  · have hmod : m.minor % 10 ^ m.exponent < 10 ^ m.exponent := Nat.mod_lt _ (by positivity)
    have hlen := length_padZero hmod (Nat.pos_of_ne_zero he)
    obtain ⟨ds, hds⟩ := Decimal.exists_digits (@isDigit_padZero m.exponent
      (m.minor % 10 ^ m.exponent))
    have hl : ds.length = m.exponent := by rw [← hlen, hds, List.length_map]
    have hne : ds ≠ [] := by
      rintro rfl
      exact he hl.symm
    refine ⟨⟨m.minor / 10 ^ m.exponent, ds⟩, ?_, hl, Nat.div_le_self _ _, ?_⟩
    · simp [Money.decimal, he, Decimal.text, hne, hds]
    · have hpad : ljustZero m.exponent (ds.map Decimal.digit) = ds.map Decimal.digit := by
        simp [ljustZero, hl]
      rw [minorUnits, hpad, ← hds, digitsValue_padZero]
      exact Nat.div_add_mod' _ _

theorem Money.length_decimal (m : Money) : m.decimal.length ≤ 24 := by
  obtain ⟨a, ha, hf, hw, -⟩ := m.exists_text
  have htext := a.length_text
  have hdigits : (Nat.toDigits 10 a.whole).length ≤ 19 := by
    rw [Nat.length_toDigits_le_iff (by decide) (by decide)]
    have := m.minor_le
    have : maxMinor < 10 ^ 19 := by decide
    omega
  have := exponents_le m.exponent_eq
  rw [← String.length_toList, ← ha]
  omega

theorem parseWoo_decimal (m : Money) : parseWoo m.decimal m.currency = .ok m := by
  obtain ⟨a, ha, hf, -, hm⟩ := m.exists_text
  rw [parseWoo_ok_iff m.exponent_eq]
  exact ⟨a, ha, m.length_decimal, hf.le, hm ▸ m.make_minor⟩

/-- One text is the other with some of its letters in lower case. -/
def AnyCase (s code : String) : Prop :=
  List.Forall₂ (fun letter capital => letter = capital ∨ letter = capital.toLower) s.toList
    code.toList

theorem capital_of_exponents {code : String} {e : ℕ} (h : exponents code = some e) :
    ∀ c ∈ code.toList, 'A' ≤ c ∧ c ≤ 'Z' := by
  let capital : String → Bool := fun code => code.toList.all fun c => 'A' ≤ c && c ≤ 'Z'
  have hcode : capital code = true := by
    unfold exponents at h
    split_ifs at h with h₃ h₀ h₂
    · have htable : threeDigitCurrencies.all capital = true := by decide +kernel
      exact List.all_eq_true.mp htable _ h₃
    · have htable : zeroDigitCurrencies.all capital = true := by decide +kernel
      exact List.all_eq_true.mp htable _ h₀
    · have htable : twoDigitCurrencies.all capital = true := by decide +kernel
      exact List.all_eq_true.mp htable _ h₂
  simpa only [capital, List.all_eq_true, Bool.and_eq_true, decide_eq_true_eq] using hcode

theorem upperChar_capital {c : Char} (h : 'A' ≤ c ∧ c ≤ 'Z') :
    upperChar c = [c] ∧ upperChar c.toLower = [c] := by
  have hall : ∀ k < 26, upperChar (Char.ofNat (65 + k)) = [Char.ofNat (65 + k)] ∧
      upperChar (Char.ofNat (65 + k)).toLower = [Char.ofNat (65 + k)] := by decide
  have h₀ : 65 ≤ c.toNat := h.1
  have h₁ : c.toNat ≤ 90 := h.2
  have hc := hall (c.toNat - 65) (by omega)
  rwa [Nat.add_sub_cancel' h₀, Char.ofNat_toNat] at hc

theorem upper_of_anyCase {s code : String} {e : ℕ} (he : exponents code = some e)
    (h : AnyCase s code) : upper s = code := by
  have hcapital := capital_of_exponents he
  have hflat : s.toList.flatMap upperChar = code.toList := by
    unfold AnyCase at h
    generalize s.toList = letters at h
    generalize code.toList = capitals at h hcapital
    induction h with
    | nil => rfl
    | cons hc _ ih =>
      obtain ⟨h₁, h₂⟩ := upperChar_capital (hcapital _ List.mem_cons_self)
      rw [List.flatMap_cons, ih fun c hc => hcapital c (List.mem_cons_of_mem _ hc)]
      rcases hc with rfl | rfl
      · rw [h₁]
        rfl
      · rw [h₂]
        rfl
  rw [upper, hflat, String.ofList_toList]

theorem parseStripe_stripe {m : Money} {currency : String} (h : AnyCase currency m.currency) :
    parseStripe (.int m.stripe) currency = .ok m := by
  have hmake : Money.make m.minor m.currency ((exponents m.currency).getD 0) = .ok m := by
    rw [m.exponent_eq]
    exact m.make_minor
  simp only [parseStripe, upper_of_anyCase m.exponent_eq h, Money.stripe]
  by_cases hlegacy : m.currency ∈ ["ISK", "UGX"]
  · have hdiv : (m.minor * 100 : ℤ) / 100 = m.minor := by omega
    have hmod : ¬ (m.minor * 100 : ℤ) % 100 ≠ 0 := by omega
    simp only [if_pos hlegacy, if_neg hmod, hdiv, hmake]
  · simp only [if_neg hlegacy, hmake]

/-- Parsing is exact on the decimals of the table's currencies, and inverts printing and
Stripe's integers on every amount. -/
theorem money_text_exact :
    (∀ (s currency : String) (e : ℕ), exponents currency = some e →
      ((∃ m, parseWoo s currency = .ok m) ↔ ∃ a : Decimal, a.text = s.toList ∧ s.length ≤ 24 ∧
        a.fraction.length ≤ e ∧ a.value * 10 ^ e ≤ 2 ^ 63 - 1) ∧
      ∀ m a, parseWoo s currency = .ok m → Decimal.text a = s.toList →
        (m.minor : ℚ) = a.value * 10 ^ e ∧ m.currency = currency ∧ m.exponent = e) ∧
    (∀ m : Money, parseWoo m.decimal m.currency = .ok m) ∧
    ∀ (m : Money) (currency : String), AnyCase currency m.currency →
      parseStripe (.int m.stripe) currency = .ok m := by
  refine ⟨fun s currency e he => ⟨?_, ?_⟩, parseWoo_decimal, fun m c => parseStripe_stripe⟩
  · have hmax : ∀ a : Decimal, a.fraction.length ≤ e →
        (minorUnits a e ≤ maxMinor ↔ a.value * 10 ^ e ≤ 2 ^ 63 - 1) := by
      intro a ha
      rw [← minorUnits_eq ha, maxMinor, ← Nat.cast_le (α := ℚ)]
      norm_num
    simp only [parseWoo_ok_iff he]
    constructor
    · rintro ⟨m, a, hs, hlen, hprec, hm⟩
      exact ⟨a, hs, hlen, hprec, (hmax a hprec).mp ((Money.make_ok_iff he).mp ⟨m, hm⟩)⟩
    · rintro ⟨a, hs, hlen, hprec, hle⟩
      obtain ⟨m, hm⟩ := (Money.make_ok_iff he).mpr ((hmax a hprec).mpr hle)
      exact ⟨m, a, hs, hlen, hprec, hm⟩
  · intro m a hm hs
    rw [parseWoo_text hs he] at hm
    split_ifs at hm with hlen hprec
    obtain ⟨hminor, hcurrency, hexponent⟩ := Money.make_ok hm
    rw [← minorUnits_eq (Nat.le_of_not_lt hprec)]
    exact ⟨by exact_mod_cast hminor, hcurrency, hexponent⟩

end LedgerGuard
