import Mathlib.Data.Int.Log
import Mathlib.Data.Rat.Floor
import Mathlib.Tactic.Linarith
import Mathlib.Tactic.Ring

/-! # Rounding to binary64

The nearest number with a significand of 53 bits, ties to even, over the rationals.
Exponents are not bounded, so this is the result of an operation that neither
overflows nor underflows.
-/

namespace Binary64

variable {x : ℚ} {k : ℤ}

def roundEven (x : ℚ) : ℤ :=
  if x - ⌊x⌋ < 1 / 2 then ⌊x⌋
  else if 1 / 2 < x - ⌊x⌋ then ⌊x⌋ + 1
  else if ⌊x⌋ % 2 = 0 then ⌊x⌋ else ⌊x⌋ + 1

def lastBit (x : ℚ) : ℤ := Int.log 2 |x| - 52

def ulp (x : ℚ) : ℚ := 2 ^ lastBit x

def nearest (x : ℚ) : ℚ := roundEven (x / ulp x) * ulp x

theorem roundEven_le (h : x ≤ k) : roundEven x ≤ k := by
  have hf : ⌊x⌋ ≤ k := by exact_mod_cast (Int.floor_le x).trans h
  rcases hf.lt_or_eq with hlt | heq
  · unfold roundEven
    split_ifs <;> omega
  · have hx : x - ⌊x⌋ < 1 / 2 := by
      have : (⌊x⌋ : ℚ) = k := by exact_mod_cast heq
      linarith
    rw [roundEven, if_pos hx, heq]

theorem le_roundEven (h : k ≤ x) : k ≤ roundEven x := by
  have hf : k ≤ ⌊x⌋ := Int.le_floor.mpr h
  unfold roundEven
  split_ifs <;> omega

theorem abs_roundEven_sub_le : |(roundEven x : ℚ) - x| ≤ 1 / 2 := by
  have h₁ := Int.floor_le x
  have h₂ := Int.lt_floor_add_one x
  unfold roundEven
  rw [abs_le]
  split_ifs <;> push_cast <;> constructor <;> linarith

theorem ulp_pos : 0 < ulp x := zpow_pos (by norm_num) _

theorem nearest_le_mul (h : x ≤ k * ulp x) : nearest x ≤ k * ulp x := by
  have hk : x / ulp x ≤ k := (div_le_iff₀ ulp_pos).mpr h
  have hr : (roundEven (x / ulp x) : ℚ) ≤ k := by exact_mod_cast roundEven_le hk
  exact mul_le_mul_of_nonneg_right hr ulp_pos.le

theorem mul_le_nearest (h : k * ulp x ≤ x) : k * ulp x ≤ nearest x := by
  have hk : k ≤ x / ulp x := (le_div_iff₀ ulp_pos).mpr h
  have hr : (k : ℚ) ≤ roundEven (x / ulp x) := by exact_mod_cast le_roundEven hk
  exact mul_le_mul_of_nonneg_right hr ulp_pos.le

theorem abs_nearest_sub_le : |nearest x - x| ≤ ulp x / 2 := by
  have h := abs_roundEven_sub_le (x := x / ulp x)
  have hx : nearest x - x = (roundEven (x / ulp x) - x / ulp x) * ulp x := by
    rw [nearest, sub_mul, div_mul_cancel₀ x ulp_pos.ne']
  rw [hx, abs_mul, abs_of_pos ulp_pos]
  calc |(roundEven (x / ulp x) : ℚ) - x / ulp x| * ulp x ≤ 1 / 2 * ulp x :=
        mul_le_mul_of_nonneg_right h ulp_pos.le
    _ = ulp x / 2 := by ring

theorem eq_mul_ulp (h : lastBit x ≤ 0) (k : ℤ) : ∃ m : ℤ, (k : ℚ) = m * ulp x := by
  obtain ⟨n, hn⟩ := Int.eq_ofNat_of_zero_le (neg_nonneg.mpr h)
  refine ⟨k * 2 ^ n, ?_⟩
  have hu : ulp x = (2 ^ n)⁻¹ := by
    rw [ulp, show lastBit x = -(n : ℤ) by omega, zpow_neg, zpow_natCast]
  rw [hu]
  push_cast
  rw [mul_assoc, mul_inv_cancel₀ (by positivity), mul_one]

theorem pow_log_eq (x : ℚ) : (2 : ℚ) ^ Int.log 2 |x| = ((2 ^ 52 : ℤ) : ℚ) * ulp x := by
  have hsplit : (2 : ℚ) ^ Int.log 2 |x| = 2 ^ (52 : ℤ) * 2 ^ lastBit x := by
    rw [← zpow_add₀ (by norm_num), lastBit]
    congr 1
    omega
  rw [hsplit, ulp]
  norm_num

theorem pow_log_le (hx : x ≠ 0) : (2 : ℚ) ^ Int.log 2 |x| ≤ |x| := by
  have h := Int.zpow_log_le_self (b := 2) (r := |x|) (by norm_num) (abs_pos.mpr hx)
  exact_mod_cast h

theorem large_of_lastBit (h : 0 < lastBit x) :
    x ≠ 0 ∧ (2 : ℚ) ^ 53 ≤ ((2 ^ 52 : ℤ) : ℚ) * ulp x ∧ ((2 ^ 52 : ℤ) : ℚ) * ulp x ≤ |x| := by
  have hlog : 53 ≤ Int.log 2 |x| := by
    unfold lastBit at h
    omega
  have hx : x ≠ 0 := by
    rintro rfl
    simp at hlog
  rw [← pow_log_eq]
  refine ⟨hx, ?_, pow_log_le hx⟩
  exact_mod_cast zpow_le_zpow_right₀ (show (1 : ℚ) ≤ 2 by norm_num) hlog

theorem nearest_le_int (hk : |k| ≤ 2 ^ 53) (h : x ≤ k) : nearest x ≤ k := by
  have hk' : -(2 : ℚ) ^ 53 ≤ k ∧ (k : ℚ) ≤ 2 ^ 53 := by exact_mod_cast abs_le.mp hk
  rcases le_or_gt (lastBit x) 0 with hl | hl
  · obtain ⟨m, hm⟩ := eq_mul_ulp hl k
    rw [hm] at h ⊢
    exact nearest_le_mul h
  · obtain ⟨-, hlow, hhigh⟩ := large_of_lastBit hl
    rcases le_total 0 x with hx | hx
    · rw [abs_of_nonneg hx] at hhigh
      have := nearest_le_mul (x := x) (k := 2 ^ 52) (by linarith)
      linarith
    · rw [abs_of_nonpos hx] at hhigh
      have := nearest_le_mul (x := x) (k := -2 ^ 52) (by push_cast at hhigh ⊢; linarith)
      push_cast at this hlow
      linarith

theorem int_le_nearest (hk : |k| ≤ 2 ^ 53) (h : k ≤ x) : k ≤ nearest x := by
  have hk' : -(2 : ℚ) ^ 53 ≤ k ∧ (k : ℚ) ≤ 2 ^ 53 := by exact_mod_cast abs_le.mp hk
  rcases le_or_gt (lastBit x) 0 with hl | hl
  · obtain ⟨m, hm⟩ := eq_mul_ulp hl k
    rw [hm] at h ⊢
    exact mul_le_nearest h
  · obtain ⟨-, hlow, hhigh⟩ := large_of_lastBit hl
    rcases le_total 0 x with hx | hx
    · rw [abs_of_nonneg hx] at hhigh
      have := mul_le_nearest (x := x) (k := 2 ^ 52) (by linarith)
      linarith
    · rw [abs_of_nonpos hx] at hhigh
      push_cast at hlow hhigh
      have := mul_le_nearest (x := x) (k := -2 ^ 52) (by push_cast; linarith)
      push_cast at this
      linarith

theorem nearest_int (hk : |k| ≤ 2 ^ 53) : nearest k = k :=
  le_antisymm (nearest_le_int hk le_rfl) (int_le_nearest hk le_rfl)

theorem abs_nearest_sub_le_of_lt {n : ℕ} (hn : 1 ≤ n) (h : |x| < 2 ^ n) :
    |nearest x - x| ≤ 2 ^ ((n : ℤ) - 54) := by
  have hlast : lastBit x ≤ n - 53 := by
    unfold lastBit
    by_cases hx : x = 0
    · rw [hx]
      simp
      omega
    · have hlog : Int.log 2 |x| < n :=
        (Int.lt_zpow_iff_log_lt (by norm_num) (abs_pos.mpr hx)).mp (by exact_mod_cast h)
      omega
  calc |nearest x - x| ≤ ulp x / 2 := abs_nearest_sub_le
    _ ≤ 2 ^ ((n : ℤ) - 53) / 2 := by
      have hle : ulp x ≤ 2 ^ ((n : ℤ) - 53) := zpow_le_zpow_right₀ (by norm_num) hlast
      linarith
    _ = 2 ^ ((n : ℤ) - 54) := by
      rw [show (n : ℤ) - 53 = (n - 54) + 1 by ring, zpow_add_one₀ (by norm_num)]
      ring

end Binary64
