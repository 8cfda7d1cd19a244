import LedgerGuard.Core.DateRange
import LedgerGuard.Core.Decoding

/-! # Times in texts

The ISO text of a datetime is a row of numbers with a mark after each of them, so the
numbers can be read off, and the date among them tells the day. The graces of a policy
are shorter than a day and are written as the clock of a datetime is.
-/

namespace LedgerGuard

open SelfDelimiting

def NonDigit (c : Char) : Prop := c.isDigit = false

section Numbers

variable {width m n : ℕ} {c : Char} {r r' : List Char}

theorem padZero_free (h : c ∈ (padZero width n).toList) : ¬ NonDigit c := by
  have hd : c.isDigit = true := by
    rw [padZero, String.toList_append, String.toList_ofList, List.mem_append] at h
    rcases h with h | h
    · rw [(List.mem_replicate.mp h).2]
      decide
    · rw [toList_toString] at h
      exact Nat.isDigit_of_mem_toDigits (by decide) (by decide) h
  simp [NonDigit, hd]

theorem padZero_injective : Function.Injective (padZero width) := by
  have hvalue : ∀ n, Nat.ofDigitChars 10 (padZero width n).toList 0 = n := by
    intro n
    rw [padZero, String.toList_append, String.toList_ofList, toList_toString,
      Nat.ofDigitChars_append, Nat.ofDigitChars_replicate_zero, Nat.mul_zero,
      Nat.ofDigitChars_ten_toDigits]
  intro m n h
  rw [← hvalue m, h, hvalue]

theorem padZero_cut (h : (padZero width m).toList ++ r = (padZero width n).toList ++ r')
    (hr : Stops NonDigit r) (hr' : Stops NonDigit r') : m = n ∧ r = r' := by
  obtain ⟨hw, ht⟩ := unambiguous_of_free (fun _ => padZero_free) (fun _ => padZero_free)
    r r' hr hr' h
  exact ⟨padZero_injective (String.toList_injective hw), ht⟩

theorem padZero_cut_cons
    (h : (padZero width m).toList ++ c :: r = (padZero width n).toList ++ c :: r')
    (hc : NonDigit c) : m = n ∧ r = r' := by
  obtain ⟨hn, ht⟩ := padZero_cut h (stops_cons hc) (stops_cons hc)
  exact ⟨hn, (List.cons.inj ht).2⟩

theorem fraction_stops {micros : ℕ} (hr : Stops NonDigit r) :
    Stops NonDigit ((fraction micros).toList ++ r) := by
  unfold fraction
  split
  · exact hr
  · rw [String.toList_append]
    exact stops_cons rfl

theorem fraction_injective : Function.Injective fraction := by
  intro m n h
  have hne : ∀ s : String, "." ++ s ≠ "" := by
    intro s hs
    simpa using congrArg String.length hs
  unfold fraction at h
  split at h <;> split at h
  · omega
  · exact absurd h.symm (hne _)
  · exact absurd h (hne _)
  · have hl := congrArg String.toList h
    rw [String.toList_append, String.toList_append] at hl
    exact padZero_injective (String.toList_injective (List.append_cancel_left hl))

/-- Minutes, seconds and microseconds, and what follows them. -/
def clockText (second micros : ℕ) (rest : List Char) : List Char :=
  ':' :: ((padZero 2 (second / 60 % 60)).toList ++
    ':' :: ((padZero 2 (second % 60)).toList ++ ((fraction micros).toList ++ rest)))

theorem clockText_inj {u v : ℕ} (h : clockText m u r = clockText n v r) (hr : Stops NonDigit r) :
    m / 60 % 60 = n / 60 % 60 ∧ m % 60 = n % 60 ∧ u = v := by
  unfold clockText at h
  obtain ⟨hminute, h⟩ := padZero_cut_cons (List.cons.inj h).2 rfl
  obtain ⟨hsecond, h⟩ := padZero_cut h (fraction_stops hr) (fraction_stops hr)
  exact ⟨hminute, hsecond,
    fraction_injective (String.toList_injective (List.append_cancel_right h))⟩

theorem eq_of_clock {a b : ℤ} (hd : a / 86400000000 = b / 86400000000)
    (hh : (a / 1000000 % 86400).toNat / 3600 = (b / 1000000 % 86400).toNat / 3600)
    (hm : (a / 1000000 % 86400).toNat / 60 % 60 = (b / 1000000 % 86400).toNat / 60 % 60)
    (hs : (a / 1000000 % 86400).toNat % 60 = (b / 1000000 % 86400).toNat % 60)
    (hu : (a % 1000000).toNat = (b % 1000000).toNat) : a = b := by
  omega

end Numbers

theorem dayOfYear_mem {d y : ℤ} (h₀ : 0 ≤ d) (h₁ : d < 146097)
    (hy : y = (d - d / 1460 + d / 36524 - d / 146096) / 365) :
    (0 ≤ y ∧ y ≤ 399) ∧ 0 ≤ d - (365 * y + y / 4 - y / 100) ∧
      d - (365 * y + y / 4 - y / 100) ≤ 365 := by
  by_cases hlast : d = 146096
  · subst hlast
    subst hy
    decide
  · -- the century `c`, the four years `q` of it and the day `u` of these
    obtain ⟨c, hc⟩ : ∃ c, c = d / 36524 := ⟨_, rfl⟩
    obtain ⟨q, hq⟩ : ∃ q, q = (d - 36524 * c) / 1461 := ⟨_, rfl⟩
    obtain ⟨u, hu⟩ : ∃ u, u = d - 36524 * c - 1461 * q := ⟨_, rfl⟩
    obtain ⟨e, he⟩ : ∃ e, e = (24 * c + q + u) / 1460 := ⟨_, rfl⟩
    have hd : d = 36524 * c + 1461 * q + u := by omega
    have hcentury : 0 ≤ c ∧ c ≤ 3 := by omega
    have hfour : 0 ≤ q ∧ q ≤ 24 := by omega
    have hday : 0 ≤ u ∧ u ≤ 1460 := by omega
    have hleap : d / 1460 = 25 * c + q + e := by omega
    have hdays : d - d / 1460 + d / 36524 - d / 146096 =
        (u - e) + 365 * (100 * c + 4 * q) := by omega
    rw [hdays, Int.add_mul_ediv_left _ _ (by decide)] at hy
    clear hdays hleap h₀ h₁ hlast hc hq hu
    subst hd
    have hlate : 0 ≤ e ∧ e ≤ 1 := by omega
    have hyear : 0 ≤ (u - e) / 365 ∧ (u - e) / 365 ≤ 3 := by omega
    have h4 : y / 4 = 25 * c + q := by omega
    have h100 : y / 100 = c := by omega
    rw [h4, h100, hy]
    omega

theorem civilDate_injective : Function.Injective civilDate := by
  intro a b h
  simp only [civilDate, Prod.mk.injEq] at h
  obtain ⟨hy, hm, hd⟩ := h
  have ha := @dayOfYear_mem ((a + 719468) % 146097) _ (by omega) (by omega) rfl
  have hb := @dayOfYear_mem ((b + 719468) % 146097) _ (by omega) (by omega) rfl
  generalize ((a + 719468) % 146097 - (a + 719468) % 146097 / 1460 +
    (a + 719468) % 146097 / 36524 - (a + 719468) % 146097 / 146096) / 365 = ya at *
  generalize ((b + 719468) % 146097 - (b + 719468) % 146097 / 1460 +
    (b + 719468) % 146097 / 36524 - (b + 719468) % 146097 / 146096) / 365 = yb at *
  generalize hda : (a + 719468) % 146097 - (365 * ya + ya / 4 - ya / 100) = da at *
  generalize hdb : (b + 719468) % 146097 - (365 * yb + yb / 4 - yb / 100) = db at *
  -- the month first, then the year, and the day of the month last
  have hmonth : (5 * da + 2) / 153 = (5 * db + 2) / 153 := by
    split at hm <;> split at hm <;> omega
  rw [hm] at hy
  obtain ⟨rfl, hera⟩ : ya = yb ∧ (a + 719468) / 146097 = (b + 719468) / 146097 := by omega
  rw [hmonth] at hd
  omega

theorem civilDate_nonneg {days : ℤ} (h : -719162 ≤ days) : 0 ≤ (civilDate days).1 ∧
    0 ≤ (civilDate days).2.1 ∧ 0 ≤ (civilDate days).2.2 := by
  simp only [civilDate]
  have hyear := @dayOfYear_mem ((days + 719468) % 146097) _ (by omega) (by omega) rfl
  generalize ((days + 719468) % 146097 - (days + 719468) % 146097 / 1460 +
    (days + 719468) % 146097 / 36524 - (days + 719468) % 146097 / 146096) / 365 = y at *
  generalize hd : (days + 719468) % 146097 - (365 * y + y / 4 - y / 100) = d at *
  have hera : 0 ≤ (days + 719468) / 146097 := by omega
  refine ⟨?_, ?_, ?_⟩
  · split <;> omega
  · split <;> omega
  · omega

/-- The instants that Python can hold. -/
def IsDatetime (t : Instant) : Prop := datetimeMin ≤ t ∧ t ≤ datetimeMax

instance (t : Instant) : Decidable (IsDatetime t) := inferInstanceAs (Decidable (_ ∧ _))

section Texts

variable {a b : Instant}

theorem isoformat_toList (t : Instant) : (isoformat t).toList =
    (padZero 4 (civilDate (t / 86400000000)).1.toNat).toList ++
      '-' :: ((padZero 2 (civilDate (t / 86400000000)).2.1.toNat).toList ++
      '-' :: ((padZero 2 (civilDate (t / 86400000000)).2.2.toNat).toList ++
      'T' :: ((padZero 2 ((t / 1000000 % 86400).toNat / 3600)).toList ++
      clockText (t / 1000000 % 86400).toNat (t % 1000000).toNat "+00:00".toList))) := by
  have hdash : "-".toList = ['-'] := rfl
  have htime : "T".toList = ['T'] := rfl
  have hcolon : ":".toList = [':'] := rfl
  simp only [isoformat, clockText, String.toList_append, List.append_assoc, hdash, htime, hcolon,
    List.cons_append, List.nil_append]

theorem isoformat_inj (ha : IsDatetime a) (hb : IsDatetime b) (h : isoformat a = isoformat b) :
    a = b := by
  have hday : ∀ {t : ℤ}, -62135596800000000 ≤ t → -719162 ≤ t / 86400000000 := by omega
  have hl := congrArg String.toList h
  rw [isoformat_toList, isoformat_toList] at hl
  obtain ⟨hy, hl⟩ := padZero_cut_cons hl rfl
  obtain ⟨hm, hl⟩ := padZero_cut_cons hl rfl
  obtain ⟨hd, hl⟩ := padZero_cut_cons hl rfl
  obtain ⟨hhour, hl⟩ := padZero_cut hl (stops_cons rfl) (stops_cons rfl)
  obtain ⟨hminute, hsecond, hmicros⟩ := clockText_inj hl (stops_cons rfl)
  obtain ⟨hya, hma, hda⟩ := civilDate_nonneg (hday ha.1)
  obtain ⟨hyb, hmb, hdb⟩ := civilDate_nonneg (hday hb.1)
  refine eq_of_clock (civilDate_injective (Prod.ext ?_ (Prod.ext ?_ ?_))) hhour hminute hsecond
    hmicros <;> omega

theorem durationString_toList {d : Duration} (h₀ : 0 ≤ d) (h : d < 86400000000) :
    (durationString d).toList = (padZero 0 ((d / 1000000 % 86400).toNat / 3600)).toList ++
      clockText (d / 1000000 % 86400).toNat (d % 1000000).toNat [] := by
  have hcolon : ":".toList = [':'] := rfl
  have hempty : "".toList = [] := rfl
  have hdays : d / 86400000000 = 0 := Int.ediv_eq_zero_of_lt h₀ h
  have hpad : ∀ n, (padZero 0 n).toList = (toString n).toList := by
    intro n
    rw [padZero, String.toList_append, String.toList_ofList, Nat.zero_sub]
    rfl
  simp only [durationString, clockText, hdays, if_true, hpad, String.toList_append,
    List.append_assoc, hcolon, hempty, List.cons_append, List.nil_append, List.append_nil]

theorem durationString_inj (ha : 0 ≤ a ∧ a < 86400000000) (hb : 0 ≤ b ∧ b < 86400000000)
    (h : durationString a = durationString b) : a = b := by
  have hl := congrArg String.toList h
  rw [durationString_toList ha.1 ha.2, durationString_toList hb.1 hb.2] at hl
  obtain ⟨hhour, hl⟩ := padZero_cut hl (stops_cons rfl) (stops_cons rfl)
  obtain ⟨hminute, hsecond, hmicros⟩ := clockText_inj hl nofun
  refine eq_of_clock ?_ hhour hminute hsecond hmicros
  rw [Int.ediv_eq_zero_of_lt ha.1 ha.2, Int.ediv_eq_zero_of_lt hb.1 hb.2]

end Texts

end LedgerGuard
