import Mathlib.Data.List.DropRight
import Mathlib.Data.List.Induction
import Mathlib.Algebra.Field.Rat
import Mathlib.Tactic.FieldSimp
import Mathlib.Tactic.IntervalCases
import Mathlib.Tactic.Ring

/-! # Decimal numerals

A whole number without leading zeros and the digits of a fraction, with its text
and its value. A text is of this form if its parts before and after the point are;
the value at a scale is the number that its digits denote after padding.
-/

/-- A decimal numeral: the whole number, and the digits after the point. -/
structure Decimal where
  whole : ℕ
  fraction : List (Fin 10)

namespace Decimal

variable {cs : List Char} {ds : List (Fin 10)} {n e : ℕ}

def digit (d : Fin 10) : Char := Nat.digitChar d

def text (a : Decimal) : List Char :=
  Nat.toDigits 10 a.whole ++ if a.fraction = [] then [] else '.' :: a.fraction.map digit

/-- The number `0.d₁d₂…`. -/
def fractionValue : List (Fin 10) → ℚ
  | [] => 0
  | d :: ds => (d + fractionValue ds) / 10

def value (a : Decimal) : ℚ := a.whole + fractionValue a.fraction

theorem isDigit_digit (d : Fin 10) : (digit d).isDigit = true := by
  simp only [digit, Nat.isDigit_digitChar, d.isLt, decide_true]

theorem isDigit_toDigits {c : Char} (h : c ∈ Nat.toDigits 10 n) : c.isDigit = true :=
  Nat.isDigit_of_mem_toDigits (by decide) (by decide) h

theorem exists_digit {c : Char} (h : c.isDigit = true) : ∃ d, c = digit d := by
  simp only [Char.isDigit, Bool.and_eq_true, decide_eq_true_eq] at h
  have h₀ : 48 ≤ c.toNat := h.1
  have h₁ : c.toNat ≤ 57 := h.2
  have hall : ∀ k < 10, Char.ofNat (48 + k) = Nat.digitChar k := by decide
  use ⟨c.toNat - 48, by omega⟩
  rw [digit, ← hall _ (by omega), Nat.add_sub_cancel' h₀, Char.ofNat_toNat]

theorem exists_digits (h : ∀ c ∈ cs, c.isDigit = true) :
    ∃ ds : List (Fin 10), cs = ds.map digit := by
  induction cs with
  | nil => exact ⟨[], rfl⟩
  | cons c cs ih =>
    obtain ⟨d, rfl⟩ := exists_digit (h c List.mem_cons_self)
    obtain ⟨ds, rfl⟩ := ih fun b hb => h b (List.mem_cons_of_mem _ hb)
    exact ⟨d :: ds, rfl⟩

theorem head_toDigits (n : ℕ) : (Nat.toDigits 10 n).head? = some '0' ↔ n = 0 := by
  induction n using Nat.strongRecOn with
  | ind n ih =>
    rcases Nat.lt_or_ge n 10 with hn | hn
    · rw [Nat.toDigits_of_lt_base hn]
      interval_cases n <;> decide
    · rw [Nat.toDigits_of_base_le (by decide) hn, List.head?_append_of_ne_nil _ Nat.toDigits_ne_nil,
        ih (n / 10) (by omega)]
      omega

theorem exists_whole (hne : cs ≠ []) (hdigits : ∀ c ∈ cs, c.isDigit = true)
    (hhead : cs = ['0'] ∨ cs.head? ≠ some '0') : ∃ n, cs = Nat.toDigits 10 n := by
  induction cs using List.reverseRecOn with
  | nil => exact absurd rfl hne
  | append_singleton cs c ih =>
    obtain ⟨d, rfl⟩ := exists_digit (hdigits c (by simp))
    rcases List.eq_nil_or_concat cs with rfl | hcs
    · exact ⟨d, (Nat.toDigits_of_lt_base d.isLt).symm⟩
    · have hne' : cs ≠ [] := by
        rintro rfl
        simp at hcs
      have hhead' : cs.head? ≠ some '0' := by
        rcases hhead with h | h
        · have := congrArg List.length h
          have := List.length_pos_of_ne_nil hne'
          simp only [List.length_append, List.length_singleton] at *
          omega
        · simpa only [List.head?_append_of_ne_nil _ hne'] using h
      obtain ⟨n, rfl⟩ := ih hne' (fun c hc => hdigits c (by simp [hc])) (Or.inr hhead')
      have hn : 0 < n := by
        have := (head_toDigits n).not.mp hhead'
        omega
      use 10 * n + d
      rw [← Nat.toDigits_append_toDigits (by decide) hn d.isLt, Nat.toDigits_of_lt_base d.isLt]
      rfl

theorem length_text (a : Decimal) :
    a.text.length ≤ (Nat.toDigits 10 a.whole).length + a.fraction.length + 1 := by
  rw [text, List.length_append]
  split <;> simp <;> omega

theorem ofDigitChars_cons (d : Fin 10) (cs : List Char) :
    Nat.ofDigitChars 10 (digit d :: cs) 0 = d * 10 ^ cs.length + Nat.ofDigitChars 10 cs 0 := by
  rw [digit, Nat.ofDigitChars_cons_digitChar_of_lt_ten d.isLt,
    Nat.ofDigitChars_eq_ofDigitChars_zero]
  ring

theorem fractionValue_mul (h : ds.length ≤ e) : fractionValue ds * 10 ^ e =
    Nat.ofDigitChars 10 (ds.map digit ++ List.replicate (e - ds.length) '0') 0 := by
  induction ds generalizing e with
  | nil => simp [fractionValue, Nat.ofDigitChars_replicate_zero]
  | cons d ds ih =>
    obtain ⟨e, rfl⟩ : ∃ k, e = k + 1 := ⟨e - 1, by simp at h; omega⟩
    simp only [List.length_cons, Nat.add_le_add_iff_right] at h
    have hlen : (ds.map digit ++ List.replicate (e - ds.length) '0').length = e := by
      simp only [List.length_append, List.length_map, List.length_replicate]
      omega
    simp only [List.map_cons, List.cons_append, List.length_cons, Nat.add_sub_add_right,
      ofDigitChars_cons, hlen, Nat.cast_add, Nat.cast_mul, Nat.cast_pow, Nat.cast_ofNat, ← ih h,
      fractionValue]
    ring

theorem value_mul (a : Decimal) (h : a.fraction.length ≤ e) : a.value * 10 ^ e =
    (a.whole * 10 ^ e + Nat.ofDigitChars 10
      (a.fraction.map digit ++ List.replicate (e - a.fraction.length) '0') 0 : ℕ) := by
  rw [value, add_mul, fractionValue_mul h]
  push_cast
  rfl

def trim (a : Decimal) : Decimal := ⟨a.whole, a.fraction.rdropWhile (· = 0)⟩

theorem fractionValue_trim (ds : List (Fin 10)) :
    fractionValue (ds.rdropWhile (· = 0)) = fractionValue ds := by
  have hzero : ∀ ds, fractionValue (ds ++ [0]) = fractionValue ds := by
    intro ds
    induction ds with
    | nil => simp [fractionValue]
    | cons d ds ih => simp [fractionValue, ih]
  induction ds using List.reverseRecOn with
  | nil => rfl
  | append_singleton ds d ih =>
    by_cases hd : d = 0
    · subst hd
      rw [List.rdropWhile_concat_pos _ _ _ (by simp), ih, hzero]
    · rw [List.rdropWhile_concat_neg _ _ _ (by simpa using hd)]

theorem value_trim (a : Decimal) : a.trim.value = a.value := by
  rw [value, value, trim, fractionValue_trim]

theorem length_trim (h : 10 ^ (ds.length - e) ∣ Nat.ofDigitChars 10 (ds.map digit) 0) :
    (ds.rdropWhile (· = 0)).length ≤ e := by
  induction ds using List.reverseRecOn with
  | nil => simp
  | append_singleton ds d ih =>
    have hlast : Nat.ofDigitChars 10 ((ds ++ [d]).map digit) 0 =
        10 * Nat.ofDigitChars 10 (ds.map digit) 0 + d := by
      rw [List.map_append, Nat.ofDigitChars_append, List.map_singleton, digit,
        Nat.ofDigitChars_cons_digitChar_of_lt_ten d.isLt, Nat.ofDigitChars_nil]
    rw [hlast, List.length_append, List.length_singleton] at h
    by_cases hle : ds.length + 1 ≤ e
    · have := (List.rdropWhile_prefix (fun d => decide (d = 0)) (ds ++ [d])).length_le
      rw [List.length_append, List.length_singleton] at this
      omega
    · have hpow : 10 ^ (ds.length + 1 - e) = 10 * 10 ^ (ds.length - e) := by
        rw [← pow_succ', Nat.succ_sub (by omega)]
      rw [hpow] at h
      have hd : (d : ℕ) = 0 := by
        have hten := (Nat.dvd_add_right (Nat.dvd_mul_right 10 _)).mp (dvd_of_mul_right_dvd h)
        have := d.isLt
        omega
      rw [hd, Nat.add_zero] at h
      rw [List.rdropWhile_concat_pos _ _ _ (by simpa using Fin.ext hd)]
      exact ih (Nat.dvd_of_mul_dvd_mul_left (by decide) h)

theorem text_trim (n : ℕ) (ds : List (Fin 10)) :
    ((Nat.toDigits 10 n ++ '.' :: ds.map digit).rdropWhile (· = '0')).rdropWhile (· = '.') =
      (trim ⟨n, ds⟩).text := by
  induction ds using List.reverseRecOn with
  | nil =>
    have hlast : (Nat.toDigits 10 n).rdropWhile (· = '.') = Nat.toDigits 10 n := by
      rw [List.rdropWhile_eq_self_iff]
      intro hne hp
      have hdigit := isDigit_toDigits (List.getLast_mem hne)
      rw [of_decide_eq_true hp] at hdigit
      cases hdigit
    rw [List.map_nil, List.rdropWhile_concat_neg _ _ _ (by decide),
      List.rdropWhile_concat_pos _ _ _ (by decide), hlast]
    simp [trim, text]
  | append_singleton ds d ih =>
    rw [List.map_append, List.map_singleton, ← List.cons_append, ← List.append_assoc]
    by_cases hd : d = 0
    · subst hd
      rw [List.rdropWhile_concat_pos _ _ _ (by decide), ih, trim, trim,
        List.rdropWhile_concat_pos _ _ _ (by simp)]
    · have hzero : digit d ≠ '0' := by
        rw [digit, ne_eq, Nat.digitChar_eq_zero]
        exact fun h => hd (Fin.ext h)
      have hpoint : digit d ≠ '.' := by
        intro hp
        have hdigit := isDigit_digit d
        rw [hp] at hdigit
        cases hdigit
      rw [List.rdropWhile_concat_neg _ _ _ (by simpa using hzero),
        List.rdropWhile_concat_neg _ _ _ (by simpa using hpoint), trim,
        List.rdropWhile_concat_neg _ _ _ (by simpa using hd)]
      simp [text]

end Decimal
