import LedgerGuard.Core.MoneyText
import LedgerGuard.Plugin.Extractor
import LedgerGuard.Ingestion.WireSchema
import LedgerGuard.Lib.Raising

/-! # Numbers and amounts on the wire

The numbers that the extractor prints are in the language of the schema if they are
positive and short. The amounts it accepts are in it up to their length; the total
of the refunds always is.
-/

namespace LedgerGuard.Plugin

open Ingestion Raising

theorem numericPattern_iff {cs : List Char} : numericPattern cs = true ↔
    cs ≠ [] ∧ cs.head? ≠ some '0' ∧ ∀ c ∈ cs, isDigit c = true := by
  cases cs with
  | nil => simp [numericPattern]
  | cons c cs =>
    simp only [numericPattern, Bool.and_eq_true, decide_eq_true_eq, List.all_eq_true, ne_eq,
      reduceCtorEq, not_false_eq_true, List.head?_cons, Option.some.injEq, List.forall_mem_cons,
      true_and]
    tauto

theorem not_isDigit_newline : isDigit '\n' = false := by decide

theorem text_toString_iff {n : ℕ} :
    text 20 numericPattern (toString n) = true ↔ 0 < n ∧ n < 10 ^ 20 := by
  have hlast : (toString n).toList.getLast? ≠ some '\n' := by
    rw [toList_toString]
    intro hl
    have : isDigit '\n' = true := Decimal.isDigit_toDigits (List.mem_of_getLast? hl)
    rw [not_isDigit_newline] at this
    cases this
  have hlen : (toString n).toList.length ≤ 20 ↔ n < 10 ^ 20 := by
    rw [toList_toString, Nat.length_toDigits_le_iff (by decide) (by decide)]
  have hnum : numericPattern (toString n).toList = true ↔ 0 < n := by
    rw [numericPattern_iff, toList_toString]
    simp only [ne_eq, Decimal.head_toDigits]
    constructor
    · rintro ⟨-, hne, -⟩
      omega
    · intro hn
      exact ⟨Nat.toDigits_ne_nil, by omega, fun c => Decimal.isDigit_toDigits⟩
  constructor
  · intro h
    exact ⟨hnum.mp (pattern_of_text h hlast),
      hlen.mp (of_decide_eq_true (Bool.and_eq_true_iff.mp h).1)⟩
  · rintro ⟨h₀, h₁⟩
    exact text_of_pattern (hlen.mpr h₁) (hnum.mpr h₀)

def trimmed (cs : List Char) : List Char :=
  (cs.rdropWhile (· = '0')).rdropWhile (· = '.')

theorem length_trimmed (cs : List Char) : (trimmed cs).length ≤ cs.length :=
  ((List.rdropWhile_prefix _ _).trans (List.rdropWhile_prefix _ _)).length_le

/-- A point and digits after a whole part lose their zeros from the right, and a point that
is left over. -/
theorem trimmed_fraction {whole fraction : List Char} (hwhole : wholePart whole = true)
    (hdigits : ∀ c ∈ fraction, isDigit c = true) :
    unsignedDecimal (trimmed (whole ++ '.' :: fraction)) = true ∧
      ∃ zeros, (∀ c ∈ zeros, c = '0') ∧
        (whole ++ '.' :: fraction = trimmed (whole ++ '.' :: fraction) ++ '.' :: zeros ∨
          '.' ∈ trimmed (whole ++ '.' :: fraction) ∧
            whole ++ '.' :: fraction = trimmed (whole ++ '.' :: fraction) ++ zeros) := by
  induction fraction using List.reverseRecOn with
  | nil =>
    have hself : whole.rdropWhile (· = '.') = whole := by
      rw [List.rdropWhile_eq_self_iff]
      intro hne
      simpa using ne_point ((wholePart_digits hwhole).2 _ (List.getLast_mem hne))
    rw [trimmed, List.rdropWhile_concat_neg _ _ _ (by decide),
      List.rdropWhile_concat_pos _ _ _ (by decide), hself]
    exact ⟨unsignedDecimal_iff.mpr ⟨whole, hwhole, Or.inl rfl⟩, [], nofun, Or.inl rfl⟩
  | append_singleton fraction c ih =>
    have hassoc : whole ++ '.' :: (fraction ++ [c]) = (whole ++ '.' :: fraction) ++ [c] := by simp
    rw [hassoc]
    by_cases hc : c = '0'
    · have hstep : trimmed (whole ++ '.' :: fraction ++ [c]) =
          trimmed (whole ++ '.' :: fraction) := by
        rw [trimmed, List.rdropWhile_concat_pos _ _ _ (by simpa using hc), trimmed]
      rw [hstep]
      obtain ⟨hd, zeros, hz, hkept⟩ := ih fun c hm => hdigits c (List.mem_append_left _ hm)
      have hz' : ∀ d ∈ zeros ++ [c], d = '0' := by
        intro d hm
        rcases List.mem_append.mp hm with hm | hm
        · exact hz d hm
        · exact (List.mem_singleton.mp hm).trans hc
      refine ⟨hd, zeros ++ [c], hz', hkept.imp ?_ ?_⟩
      · intro he
        have hc := congrArg (· ++ [c]) he
        simpa only [List.append_assoc, List.cons_append] using hc
      · rintro ⟨hp, he⟩
        have hc := congrArg (· ++ [c]) he
        exact ⟨hp, by simpa only [List.append_assoc, List.cons_append] using hc⟩
    · have hne : c ≠ '.' := ne_point (hdigits c (by simp))
      rw [trimmed, List.rdropWhile_concat_neg _ _ _ (by simpa using hc),
        List.rdropWhile_concat_neg _ _ _ (by simpa using hne)]
      exact ⟨unsignedDecimal_iff.mpr ⟨whole, hwhole, Or.inr ⟨_, hassoc.symm, by simp, hdigits⟩⟩,
        [], nofun, Or.inr ⟨by simp, by simp⟩⟩

/-- The text that an amount is read from. -/
def Mixed.shown : Mixed → List Char
  | .text s => s.toList
  | .int n => (toString n).toList
  | .other => []

theorem decimal_shown {value : Mixed} {a : String} (h : decimal value = .ok a) :
    unsignedDecimal value.shown = true ∧
      a.toList = if '.' ∈ value.shown then trimmed value.shown else value.shown := by
  have htext : ∀ s : String, decimal (.text s) = .ok a → unsignedDecimal s.toList = true ∧
      a.toList = if '.' ∈ s.toList then trimmed s.toList else s.toList := by
    intro s hs
    unfold decimal at hs
    dsimp only at hs
    split at hs
    · cases hs
    case isFalse hd =>
      refine ⟨by simpa using hd, ?_⟩
      split at hs
      case isTrue hp =>
        obtain rfl := Except.ok.inj hs
        rw [if_pos hp, String.toList_ofList, trimmed]
      case isFalse hp =>
        obtain rfl := Except.ok.inj hs
        rw [if_neg hp]
  cases value with
  | text s => exact htext s h
  | int n => exact htext (toString n) h
  | other => cases h

theorem length_decimal {value : Mixed} {a : String} (h : decimal value = .ok a) :
    a.toList.length ≤ value.shown.length := by
  rw [(decimal_shown h).2]
  split
  · exact length_trimmed _
  · exact le_rfl

theorem decimal_spec {value : Mixed} {a : String} (h : decimal value = .ok a) :
    unsignedDecimal a.toList = true ∧ ∃ zeros, (∀ c ∈ zeros, c = '0') ∧
      (value.shown = a.toList ∨ value.shown = a.toList ++ '.' :: zeros ∨
        '.' ∈ a.toList ∧ value.shown = a.toList ++ zeros) := by
  obtain ⟨hd, ha⟩ := decimal_shown h
  split at ha
  case isFalse => exact ⟨ha ▸ hd, [], nofun, Or.inl ha.symm⟩
  case isTrue hp =>
    obtain ⟨whole, hwhole, hs | ⟨fraction, hs, -, hdigits⟩⟩ := unsignedDecimal_iff.mp hd
    · exact absurd (hs ▸ hp) (point_not_mem (wholePart_digits hwhole).2)
    · obtain ⟨hkept, zeros, hz, he⟩ := trimmed_fraction hwhole hdigits
      rw [← hs, ← ha] at hkept he
      exact ⟨hkept, zeros, hz, Or.inr he⟩

theorem text_decimal_iff {value : Mixed} {a : String} (h : decimal value = .ok a) :
    text 24 unsignedDecimal a = true ↔ a.toList.length ≤ 24 :=
  ⟨fun ht => of_decide_eq_true (Bool.and_eq_true_iff.mp ht).1,
    fun hl => text_of_pattern hl (decimal_spec h).1⟩

/-- Without zeros at the end of a fraction, the amount has at most 24 characters. -/
def Mixed.Short (value : Mixed) : Prop :=
  ∃ kept zeros, kept.length ≤ 24 ∧ (∀ c ∈ zeros, c = '0') ∧
    (value.shown = kept ∨ value.shown = kept ++ '.' :: zeros ∨
      '.' ∈ kept ∧ value.shown = kept ++ zeros)

theorem rdropWhile_append_pos {p : Char → Bool} {kept dropped : List Char}
    (h : ∀ c ∈ dropped, p c = true) : (kept ++ dropped).rdropWhile p = kept.rdropWhile p := by
  induction dropped using List.reverseRecOn with
  | nil => rw [List.append_nil]
  | append_singleton dropped c ih =>
    rw [← List.append_assoc, List.rdropWhile_concat_pos _ _ _ (h c (by simp))]
    exact ih fun c hc => h c (List.mem_append_left _ hc)

theorem decimal_short_iff {value : Mixed} {a : String} (h : decimal value = .ok a) :
    a.toList.length ≤ 24 ↔ value.Short := by
  constructor
  · intro hl
    obtain ⟨-, zeros, hz, hs⟩ := decimal_spec h
    exact ⟨_, zeros, hl, hz, hs⟩
  · rintro ⟨kept, zeros, hl, hz, hs⟩
    have hz' : ∀ c ∈ zeros, decide (c = '0') = true := fun c hc => decide_eq_true (hz c hc)
    obtain ⟨-, ha⟩ := decimal_shown h
    refine le_trans ?_ hl
    rw [ha]
    split
    case isFalse hp =>
      rcases hs with hs | hs | ⟨hk, hs⟩
      · rw [hs]
      · rw [hs] at hp
        exact absurd (by simp) hp
      · rw [hs] at hp
        exact absurd (List.mem_append_left _ hk) hp
    case isTrue =>
      rcases hs with hs | hs | ⟨-, hs⟩
      · rw [hs]
        exact length_trimmed kept
      · rw [hs, List.append_cons, trimmed, rdropWhile_append_pos hz',
          List.rdropWhile_concat_neg _ _ _ (by decide), List.rdropWhile_concat_pos _ _ _ (by decide)]
        exact (List.rdropWhile_prefix _ _).length_le
      · rw [hs, trimmed, rdropWhile_append_pos hz']
        exact length_trimmed kept

theorem digit_value {c : Char} (h : isDigit c = true) : c.toNat - '0'.toNat ≤ 9 := by
  have hle := of_decide_eq_true (Bool.and_eq_true_iff.mp h).2
  have : c.toNat ≤ '9'.toNat := hle
  simp only [show '9'.toNat = 57 from rfl, show '0'.toNat = 48 from rfl] at this ⊢
  omega

theorem foldl_digits_lt {cs : List Char} (h : ∀ c ∈ cs, isDigit c = true) (n : ℕ) :
    cs.foldl (fun n c => 10 * n + (c.toNat - '0'.toNat)) n < (n + 1) * 10 ^ cs.length := by
  induction cs generalizing n with
  | nil => simp
  | cons c cs ih =>
    have hc := digit_value (h c List.mem_cons_self)
    rw [List.foldl_cons, List.length_cons]
    refine (ih (fun d hd => h d (List.mem_cons_of_mem _ hd)) _).trans_le ?_
    rw [pow_succ', ← Nat.mul_assoc]
    exact Nat.mul_le_mul_right _ (by omega)

theorem digitsValue_lt {cs : List Char} (h : ∀ c ∈ cs, isDigit c = true) :
    digitsValue cs < 10 ^ cs.length := by
  simpa [digitsValue] using foldl_digits_lt h 0

theorem partition_digits {cs : List Char} (h : unsignedDecimal cs = true) :
    (∀ c ∈ (partitionPoint cs).1, isDigit c = true) ∧
      ∀ c ∈ (partitionPoint cs).2, isDigit c = true := by
  obtain ⟨whole, hwhole, rfl | ⟨fraction, rfl, -, hf⟩⟩ := unsignedDecimal_iff.mp h
  · rw [partitionPoint_of_not_mem (point_not_mem (wholePart_digits hwhole).2)]
    exact ⟨(wholePart_digits hwhole).2, nofun⟩
  · rw [partitionPoint_append (point_not_mem (wholePart_digits hwhole).2)]
    exact ⟨(wholePart_digits hwhole).2, hf⟩

theorem length_partitionPoint (cs : List Char) :
    cs.length ≤ (partitionPoint cs).1.length + (partitionPoint cs).2.length + 1 := by
  have hsum := congrArg List.length (List.takeWhile_append_dropWhile (p := (· ≠ '.')) (l := cs))
  rw [List.length_append] at hsum
  simp only [partitionPoint, List.length_tail]
  omega

theorem minor_lt {text : List Char} (h : unsignedDecimal text = true)
    (hw : (partitionPoint text).1.length ≤ 12) (hf : (partitionPoint text).2.length ≤ 3) :
    digitsValue (partitionPoint text).1 * 1000 +
      digitsValue (ljustZero 3 (partitionPoint text).2) < 10 ^ 15 := by
  obtain ⟨hwd, hfd⟩ := partition_digits h
  have hwhole := (digitsValue_lt hwd).trans_le (Nat.pow_le_pow_right (by decide) hw)
  have hzeros : ∀ c ∈ ljustZero 3 (partitionPoint text).2, isDigit c = true := by
    intro c hc
    rcases List.mem_append.mp hc with hc | hc
    · exact hfd c hc
    · rw [List.eq_of_mem_replicate hc]
      decide
  have hlen : (ljustZero 3 (partitionPoint text).2).length = 3 := by
    rw [ljustZero, List.length_append, List.length_replicate]
    omega
  have hfraction := digitsValue_lt hzeros
  rw [hlen] at hfraction
  omega

/-- One round of the loop of `sumRefunds`. -/
def addRefund (sum : ℕ) (refund : WcRefund) : Except String ℕ := do
  let text ← decimal refund.amount
  let (whole, fraction) := partitionPoint text.toList
  if 3 < fraction.length ∨ 12 < whole.length then .error "REFUND_PRECISION_UNSUPPORTED"
  else
    let minor := digitsValue whole * 1000 + digitsValue (ljustZero 3 fraction)
    if phpIntMax - minor < sum then .error "REFUND_TOTAL_OVERFLOW" else return sum + minor

theorem sumRefunds_eq (refunds : List WcRefund) : sumRefunds refunds =
    (refunds.foldlM addRefund 0).bind fun sum =>
      decimal (.text (toString (sum / 1000) ++ "." ++ padZero 3 (sum % 1000))) := rfl

theorem addRefund_ok {refund : WcRefund} {sum sum' : ℕ} (h : addRefund sum refund = .ok sum')
    (hsum : sum ≤ phpIntMax) : sum' ≤ phpIntMax ∧
      ∀ a, decimal refund.amount = .ok a → a.toList.length ≤ 16 := by
  obtain ⟨text, htext, h⟩ := bind_eq_ok.mp h
  dsimp only at h
  split at h
  · cases h
  case isFalse hshort =>
    split at h
    · cases h
    case isFalse hover =>
      obtain rfl := Except.ok.inj h
      have hminor := minor_lt (decimal_spec htext).1 (by omega) (by omega)
      have hmax : 10 ^ 15 ≤ phpIntMax := by decide
      refine ⟨by omega, ?_⟩
      intro a ha
      obtain rfl := Except.ok.inj (htext.symm.trans ha)
      have := length_partitionPoint text.toList
      omega

theorem sum_ok {refunds : List WcRefund} {sum sum' : ℕ}
    (h : refunds.foldlM addRefund sum = .ok sum') (hsum : sum ≤ phpIntMax) : sum' ≤ phpIntMax ∧
      ∀ refund ∈ refunds, ∀ a, decimal refund.amount = .ok a → a.toList.length ≤ 16 := by
  induction refunds generalizing sum with
  | nil =>
    obtain rfl := Except.ok.inj h
    exact ⟨hsum, nofun⟩
  | cons refund refunds ih =>
    obtain ⟨next, hnext, h⟩ := bind_eq_ok.mp h
    obtain ⟨hnextsum, hshort⟩ := addRefund_ok hnext hsum
    obtain ⟨hmax, hall⟩ := ih h hnextsum
    exact ⟨hmax, List.forall_mem_cons.mpr ⟨hshort, hall⟩⟩

theorem sumRefunds_ok {refunds : List WcRefund} {total : String}
    (h : sumRefunds refunds = .ok total) : text 24 unsignedDecimal total = true ∧
      ∀ refund ∈ refunds, ∀ a, decimal refund.amount = .ok a → a.toList.length ≤ 16 := by
  rw [sumRefunds_eq] at h
  obtain ⟨sum, hsum, htotal⟩ := bind_eq_ok.mp h
  obtain ⟨hmax, hshort⟩ := sum_ok hsum (Nat.zero_le _)
  refine ⟨(text_decimal_iff htotal).mpr ((length_decimal htotal).trans ?_), hshort⟩
  have hwhole : (toString (sum / 1000)).toList.length ≤ 16 := by
    rw [toList_toString, Nat.length_toDigits_le_iff (by decide) (by decide)]
    have : phpIntMax < 10 ^ 19 := by decide
    omega
  have hmod : sum % 1000 < 10 ^ 3 := Nat.mod_lt _ (by decide)
  have hfraction := length_padZero hmod (by decide)
  simp only [Mixed.shown, String.toList_append, List.length_append, hfraction,
    show ".".toList.length = 1 from rfl]
  omega

end LedgerGuard.Plugin
