import LedgerGuard.Core.MoneyText
import LedgerGuard.Core.TimeText
import LedgerGuard.Ingestion.Timestamp
import LedgerGuard.Plugin.Amounts

/-! # Timestamps are read back

Every instant that Python can hold is read back from the timestamp it is written
as. The calendar of the reader is the inverse of that of the writer, and the
date and the clock are cut off the text at fixed places.
-/

namespace LedgerGuard.Ingestion

/-- The year has a day of February more than 365 days only if the next year is a leap year; the day
`d` and the year `y` are of an era of 400 years that starts in March. -/
theorem dayOfYear_leap {d y : ℤ} (h₀ : 0 ≤ d) (h₁ : d < 146097)
    (hy : y = (d - d / 1460 + d / 36524 - d / 146096) / 365)
    (hlast : d - (365 * y + y / 4 - y / 100) = 365) :
    (y + 1) % 4 = 0 ∧ ((y + 1) % 100 ≠ 0 ∨ (y + 1) % 400 = 0) := by
  by_cases hera : d = 146096
  · subst hera
    subst hy
    decide
  · -- the century `c`, the four years `q` of it and the day `u` of these
    obtain ⟨c, hc⟩ : ∃ c, c = d / 36524 := ⟨_, rfl⟩
    obtain ⟨q, hq⟩ : ∃ q, q = (d - 36524 * c) / 1461 := ⟨_, rfl⟩
    obtain ⟨u, hu⟩ : ∃ u, u = d - 36524 * c - 1461 * q := ⟨_, rfl⟩
    obtain ⟨e, he⟩ : ∃ e, e = (24 * c + q + u) / 1460 := ⟨_, rfl⟩
    have hd : d = 36524 * c + 1461 * q + u := by omega
    have hcentury : 0 ≤ c ∧ c ≤ 3 := by omega
    have hfour : 0 ≤ q ∧ q ≤ 24 := by omega
    have hday : 0 ≤ u ∧ u ≤ 1460 := by omega
    have hfull : q = 24 → u ≤ 1459 := by omega
    have hleap : d / 1460 = 25 * c + q + e := by omega
    have hdays : d - d / 1460 + d / 36524 - d / 146096 =
        (u - e) + 365 * (100 * c + 4 * q) := by omega
    rw [hdays, Int.add_mul_ediv_left _ _ (by decide)] at hy
    clear hdays hleap h₀ h₁ hera hc hq hu
    subst hd
    have hlate : 0 ≤ e ∧ e ≤ 1 := by omega
    have hyear : 0 ≤ (u - e) / 365 ∧ (u - e) / 365 ≤ 3 := by omega
    have h4 : y / 4 = 25 * c + q := by omega
    have h100 : y / 100 = c := by omega
    rw [h4, h100] at hlast
    have hu : u = 1460 := by omega
    have hy' : y = 100 * c + 4 * q + 3 := by omega
    have hq : q ≤ 23 := by omega
    clear hlast h4 h100 hyear hlate he hday hfull hy
    subst hy'
    refine ⟨by omega, Or.inl ?_⟩
    omega

/-- What the writer makes of a day: the era, the year in it, the month counted from March and the
day of the month. -/
theorem civilDate_spec (days : ℤ) : ∃ era y m u : ℤ,
    days + 719468 = era * 146097 + (365 * y + y / 4 - y / 100) + u ∧ (0 ≤ y ∧ y ≤ 399) ∧
      (0 ≤ u ∧ u ≤ 365) ∧ m = (5 * u + 2) / 153 ∧
      (u = 365 → (y + 1) % 4 = 0 ∧ ((y + 1) % 100 ≠ 0 ∨ (y + 1) % 400 = 0)) ∧
      civilDate days = (y + era * 400 + if 10 ≤ m then 1 else 0,
        if m < 10 then m + 3 else m - 9, u - (153 * m + 2) / 5 + 1) := by
  have hyear := @dayOfYear_mem ((days + 719468) % 146097) _ (by omega) (by omega) rfl
  have hleap := @dayOfYear_leap ((days + 719468) % 146097) _ (by omega) (by omega) rfl
  simp only [civilDate]
  generalize ((days + 719468) % 146097 - (days + 719468) % 146097 / 1460 +
    (days + 719468) % 146097 / 36524 - (days + 719468) % 146097 / 146096) / 365 = y at *
  generalize hu : (days + 719468) % 146097 - (365 * y + y / 4 - y / 100) = u at *
  refine ⟨(days + 719468) / 146097, y, (5 * u + 2) / 153, u, by omega, hyear.1, hyear.2, rfl, hleap,
    ?_⟩
  have hm : 0 ≤ (5 * u + 2) / 153 ∧ (5 * u + 2) / 153 ≤ 11 := by omega
  have hiff : (if (5 * u + 2) / 153 < 10 then (5 * u + 2) / 153 + 3 else (5 * u + 2) / 153 - 9) ≤ 2 ↔
      10 ≤ (5 * u + 2) / 153 := by split <;> omega
  simp only [hiff]

theorem isLeap_iff {year : ℕ} : isLeap year = true ↔
    (year : ℤ) % 4 = 0 ∧ ((year : ℤ) % 100 ≠ 0 ∨ (year : ℤ) % 400 = 0) := by
  simp only [isLeap, Bool.and_eq_true, Bool.or_eq_true, decide_eq_true_eq]
  omega

theorem calendarDate_civilDate {days : ℤ} (h₀ : -719162 ≤ days) (h₁ : days ≤ 2932896) :
    calendarDate (civilDate days).1.toNat (civilDate days).2.1.toNat (civilDate days).2.2.toNat =
      some days := by
  obtain ⟨era, y, m, u, hdays, hy, hu, hm, hleap, hdate⟩ := civilDate_spec days
  have hera : 0 ≤ era ∧ era ≤ 24 := by omega
  have hmonth : 0 ≤ m ∧ m ≤ 11 := by omega
  rw [hdate]
  dsimp only
  obtain ⟨year, hyear⟩ : ∃ year : ℕ, (year : ℤ) = y + era * 400 + if 10 ≤ m then 1 else 0 :=
    ⟨_, Int.toNat_of_nonneg (by split <;> omega)⟩
  obtain ⟨month, hmon⟩ : ∃ month : ℕ, (month : ℤ) = if m < 10 then m + 3 else m - 9 :=
    ⟨_, Int.toNat_of_nonneg (by split <;> omega)⟩
  obtain ⟨day, hday⟩ : ∃ day : ℕ, (day : ℤ) = u - (153 * m + 2) / 5 + 1 :=
    ⟨_, Int.toNat_of_nonneg (by omega)⟩
  rw [← hyear, ← hmon, ← hday, Int.toNat_natCast, Int.toNat_natCast, Int.toNat_natCast]
  have hlength : day ≤ daysInMonth year month := by
    have hfeb : m = 11 → isLeap year = false → u ≤ 364 := by
      intro hm hn
      by_contra hlast
      have hl := hleap (by omega)
      rw [Bool.eq_false_iff, ne_eq, isLeap_iff] at hn
      rw [if_pos (by omega)] at hyear
      omega
    unfold daysInMonth
    split
    · rename_i h2
      split
      · omega
      · rename_i hn
        have hle := hfeb (by split at hmon <;> omega) (Bool.eq_false_iff.mpr hn)
        omega
    · rename_i h2
      simp only [List.mem_cons, List.not_mem_nil, or_false]
      split at hmon <;> split <;> omega
  have hvalid : (1 ≤ year ∧ year ≤ 9999) ∧ 1 ≤ month ∧ month ≤ 12 ∧ 1 ≤ day := by
    refine ⟨?_, by split at hmon <;> omega, by split at hmon <;> omega, by omega⟩
    split at hyear <;> omega
  have hcivil : civilDays year month day = days := by
    have hlate : month ≤ 2 ↔ 10 ≤ m := by split at hmon <;> omega
    have hy' : (if month ≤ 2 then (year : ℤ) - 1 else year) = y + era * 400 := by
      simp only [hlate]
      split at hyear <;> rename_i h
      · rw [if_pos h]
        omega
      · rw [if_neg h]
        omega
    have hm' : (if month ≤ 2 then (month : ℤ) + 9 else month - 3) = m := by
      simp only [hlate]
      split at hmon <;> rename_i h
      · rw [if_neg (by omega)]
        omega
      · rw [if_pos (by omega)]
        omega
    have hera' : (y + era * 400) / 400 = era := by omega
    have hyoe : (y + era * 400) % 400 = y := by omega
    simp only [civilDays, hy', hm', hera', hyoe]
    omega
  unfold calendarDate
  obtain ⟨⟨hfirst, hlast⟩, hjan, hdec, hone⟩ := hvalid
  rw [if_pos ⟨hfirst, hlast, hjan, hdec, hone, hlength⟩, hcivil]

variable {width n : ℕ} {rest : List Char}

theorem takeDigits_padZero (h : n < 10 ^ width) (hw : 0 < width) (rest : List Char) :
    takeDigits width ((padZero width n).toList ++ rest) = some (n, rest) := by
  have hl : (padZero width n).toList.length = width := length_padZero h hw
  unfold takeDigits
  rw [List.take_left' hl, List.drop_left' hl, if_pos ⟨hl, List.all_eq_true.mpr isDigit_padZero⟩,
    digitsValue_padZero]

theorem padZero_cons (width n : ℕ) : ∃ c cs, (padZero width n).toList = c :: cs ∧
    isDigit c = true := by
  cases hp : (padZero width n).toList with
  | nil =>
    have hl := congrArg List.length hp
    rw [padZero, String.toList_append, String.toList_ofList, toList_toString, List.length_append,
      List.length_replicate, List.length_nil] at hl
    have hpos := Nat.length_toDigits_pos (b := 10) (n := n)
    omega
  | cons c cs => exact ⟨c, cs, rfl, isDigit_padZero c (hp ▸ List.mem_cons_self)⟩

/-- The date of a day, as `isoformat` writes it. -/
def dateText (year month day : ℕ) : List Char :=
  (padZero 4 year).toList ++ '-' :: ((padZero 2 month).toList ++ '-' :: (padZero 2 day).toList)

theorem isoDate_dateText {year month day : ℕ} (hy : year < 10000) (hm : month < 100)
    (hd : day < 100) : isoDate (dateText year month day) = calendarDate year month day := by
  obtain ⟨c, cs, hc, hdigit⟩ := padZero_cons 2 month
  have hw : c ≠ 'W' := by
    rintro rfl
    cases hdigit
  have hmonth := takeDigits_padZero (show month < 10 ^ 2 from hm) (by decide)
    ('-' :: (padZero 2 day).toList)
  have hday := takeDigits_padZero (show day < 10 ^ 2 from hd) (by decide) []
  rw [List.append_nil] at hday
  unfold isoDate dateText
  rw [takeDigits_padZero hy (by decide)]
  simp only [Option.bind_eq_bind, Option.bind_some, List.head?_cons, decide_true, skip, if_true]
  rw [hc] at hmonth ⊢
  split
  · rename_i heq
    exact absurd (List.cons.inj heq).1 hw
  · rw [hmonth]
    simp only [Option.bind_some, if_true, hday]

theorem isoFraction_fraction {micros : ℕ} (h : micros < 1000000) :
    isoFraction (fraction micros).toList = some micros := by
  unfold fraction
  split
  · rename_i hz
    rw [hz]
    rfl
  · have hl : (padZero 6 micros).toList.length = 6 := length_padZero h (by decide)
    have hne : (padZero 6 micros).toList ≠ [] := by
      intro hn
      rw [hn] at hl
      cases hl
    have htext : ("." ++ padZero 6 micros).toList = '.' :: (padZero 6 micros).toList := by
      rw [String.toList_append]
      rfl
    rw [htext, isoFraction, if_pos ⟨Or.inl rfl, hne, List.all_eq_true.mpr isDigit_padZero⟩,
      List.take_of_length_le hl.le, ljustZero, hl, Nat.sub_self, List.replicate_zero,
      List.append_nil, digitsValue_padZero]

theorem isoTime_clock {hour second micros : ℕ} (hh : hour < 24) (hu : micros < 1000000) :
    isoTime ((padZero 2 hour).toList ++ clockText second micros []) =
      some (((hour * 60 + second / 60 % 60) * 60 + second % 60) * 1000000 + micros) := by
  unfold isoTime clockText
  rw [takeDigits_padZero (by omega) (by decide)]
  simp only [Option.bind_eq_bind, Option.bind_some, List.head?_cons, decide_true, skip, if_true]
  rw [if_neg (by omega), if_neg (List.cons_ne_nil _ _),
    takeDigits_padZero (by omega) (by decide)]
  simp only [Option.bind_some, if_true]
  rw [if_neg (by omega), if_neg (List.cons_ne_nil _ _),
    takeDigits_padZero (by omega) (by decide)]
  simp only [Option.bind_some]
  rw [if_neg (by omega), List.append_nil, isoFraction_fraction hu]
  rfl

theorem length_dateText {year month day : ℕ} (hy : year < 10000) (hm : month < 100)
    (hd : day < 100) : (dateText year month day).length = 10 := by
  have hy' : (padZero 4 year).toList.length = 4 := length_padZero hy (by decide)
  have hm' : (padZero 2 month).toList.length = 2 := length_padZero hm (by decide)
  have hd' : (padZero 2 day).toList.length = 2 := length_padZero hd (by decide)
  rw [dateText, List.length_append, List.length_cons, List.length_append, List.length_cons, hy', hm',
    hd']

theorem dateLength_dateText {year month day : ℕ} (hy : year < 10000) (hm : month < 100)
    (hd : day < 100) (rest : List Char) : dateLength (dateText year month day ++ rest) = 10 := by
  have hl := length_dateText hy hm hd
  have hy' : (padZero 4 year).toList.length = 4 := length_padZero hy (by decide)
  obtain ⟨c, cs, hc, hdigit⟩ := padZero_cons 2 month
  have hdash : (dateText year month day ++ rest)[4]? = some '-' := by
    rw [List.getElem?_append_left (by omega), dateText, List.getElem?_append_right (by omega), hy']
    rfl
  have hmonth : (dateText year month day ++ rest)[5]? = some c := by
    rw [List.getElem?_append_left (by omega), dateText, List.getElem?_append_right (by omega), hy', hc]
    rfl
  have hw : c ≠ 'W' := by
    rintro rfl
    cases hdigit
  unfold dateLength
  rw [if_neg (by rw [List.length_append]; omega), if_pos hdash, hmonth,
    if_neg fun h => hw (Option.some.inj h.1)]

theorem mem_clock {hour second micros : ℕ} :
    ∀ c ∈ (padZero 2 hour).toList ++ clockText second micros [],
      isDigit c = true ∨ c = ':' ∨ c = '.' := by
  have hpad : ∀ {width n : ℕ}, ∀ c ∈ (padZero width n).toList, isDigit c = true ∨ c = ':' ∨ c = '.' :=
    fun c hc => Or.inl (isDigit_padZero c hc)
  intro c hc
  simp only [clockText, List.mem_append, List.mem_cons, List.not_mem_nil, or_false] at hc
  rcases hc with hc | rfl | hc | rfl | hc | hc
  · exact hpad c hc
  · exact Or.inr (Or.inl rfl)
  · exact hpad c hc
  · exact Or.inr (Or.inl rfl)
  · exact hpad c hc
  · unfold fraction at hc
    split at hc
    · cases hc
    · rw [String.toList_append, List.mem_append] at hc
      rcases hc with hc | hc
      · exact Or.inr (Or.inr (List.mem_singleton.mp hc))
      · exact hpad c hc

theorem mem_dateText {year month day : ℕ} :
    ∀ c ∈ dateText year month day, isDigit c = true ∨ c = '-' := by
  intro c hc
  simp only [dateText, List.mem_append, List.mem_cons] at hc
  rcases hc with hc | rfl | hc | rfl | hc
  · exact Or.inl (isDigit_padZero c hc)
  · exact Or.inr rfl
  · exact Or.inl (isDigit_padZero c hc)
  · exact Or.inr rfl
  · exact Or.inl (isDigit_padZero c hc)

def wallText (t : Instant) : List Char :=
  dateText (civilDate (t / 86400000000)).1.toNat (civilDate (t / 86400000000)).2.1.toNat
      (civilDate (t / 86400000000)).2.2.toNat ++
    'T' :: ((padZero 2 ((t / 1000000 % 86400).toNat / 3600)).toList ++
      clockText (t / 1000000 % 86400).toNat (t % 1000000).toNat [])

theorem isoformat_wallText (t : Instant) :
    (isoformat t).toList = wallText t ++ "+00:00".toList := by
  rw [isoformat_toList]
  simp [wallText, dateText, clockText]

theorem wallText_plain {t : Instant} {c : Char} (hc : c ∈ wallText t) : c ≠ '+' ∧ c ≠ 'Z' := by
  have hdigit : ∀ {d : Char}, isDigit d = true → d ≠ '+' ∧ d ≠ 'Z' := by
    rintro d hd
    constructor
    · rintro rfl
      cases hd
    · rintro rfl
      cases hd
  rcases List.mem_append.mp hc with hc | hc
  · rcases mem_dateText c hc with hd | rfl
    · exact hdigit hd
    · decide
  · rcases List.mem_cons.mp hc with rfl | hc
    · decide
    · rcases mem_clock c hc with hd | rfl | rfl
      · exact hdigit hd
      · decide
      · decide

theorem replaceText_append {old new rest : List Char} {cs : List Char} {c : Char}
    (ho : old.head? = some c) (hc : c ∉ cs) :
    replaceText old new (cs ++ rest) 0 = cs ++ replaceText old new rest 0 := by
  induction cs with
  | nil => rfl
  | cons d cs ih =>
    have hp : old.isPrefixOf (d :: (cs ++ rest)) = false := by
      cases old with
      | nil => cases ho
      | cons o old =>
        obtain rfl := Option.some.inj ho
        have hne : o ≠ d := fun h => hc (h ▸ List.mem_cons_self)
        simp [List.isPrefixOf, hne]
    rw [List.cons_append, replaceText, if_neg (by rw [hp]; decide),
      ih fun h => hc (List.mem_cons_of_mem _ h)]
    rfl

theorem utc_wallText (t : Instant) : (utc t).toList = wallText t ++ ['Z'] := by
  unfold utc
  rw [String.toList_ofList, isoformat_wallText,
    replaceText_append (c := '+') rfl fun h => (wallText_plain h).1 rfl]
  rfl

theorem clock_sum (t : ℤ) : t / 86400000000 * 86400000000 +
    (((((t / 1000000 % 86400).toNat / 3600 * 60 + (t / 1000000 % 86400).toNat / 60 % 60) * 60 +
      (t / 1000000 % 86400).toNat % 60) * 1000000 + (t % 1000000).toNat : ℕ) : ℤ) = t := by
  omega

theorem fromisoformat_wallText {t : Instant} (ht : IsDatetime t) :
    fromisoformat (wallText t ++ "+00:00".toList) = some t := by
  obtain ⟨hmin, hmax⟩ := ht
  unfold datetimeMin at hmin
  unfold datetimeMax at hmax
  have hday : ∀ {a : ℤ}, -62135596800000000 ≤ a → a ≤ 253402300799999999 →
      -719162 ≤ a / 86400000000 ∧ a / 86400000000 ≤ 2932896 := by omega
  obtain ⟨h₀, h₁⟩ := hday hmin hmax
  have hdate := calendarDate_civilDate h₀ h₁
  have hvalid := hdate
  unfold calendarDate at hvalid
  split at hvalid
  swap
  · cases hvalid
  rename_i hv
  have hy : (civilDate (t / 86400000000)).1.toNat < 10000 := by omega
  have hm : (civilDate (t / 86400000000)).2.1.toNat < 100 := by omega
  have hd : (civilDate (t / 86400000000)).2.2.toNat < 100 := by
    have hle := hv.2.2.2.2.2
    unfold daysInMonth at hle
    split at hle <;> split at hle <;> omega
  have hl := length_dateText hy hm hd
  unfold wallText fromisoformat
  generalize hclock : (padZero 2 ((t / 1000000 % 86400).toNat / 3600)).toList ++
    clockText (t / 1000000 % 86400).toNat (t % 1000000).toNat [] = clock
  have hplain : ∀ c ∈ clock, decide (c ≠ '+' ∧ c ≠ '-') = true := by
    rw [← hclock]
    intro c hc
    rcases mem_clock c hc with hdigit | rfl | rfl
    · refine decide_eq_true ⟨?_, ?_⟩
      · rintro rfl
        cases hdigit
      · rintro rfl
        cases hdigit
    · decide
    · decide
  have htime : isoTime clock = some ((((t / 1000000 % 86400).toNat / 3600 * 60 +
      (t / 1000000 % 86400).toNat / 60 % 60) * 60 + (t / 1000000 % 86400).toNat % 60) * 1000000 +
      (t % 1000000).toNat) := by
    rw [← hclock]
    exact isoTime_clock (by omega) (by omega)
  have hzone : isoTime "00:00".toList = some 0 := by decide +kernel
  rw [List.append_assoc, dateLength_dateText hy hm hd, List.take_left' hl, List.drop_left' hl,
    isoDate_dateText hy hm hd, hdate, List.cons_append]
  simp only [Option.bind_eq_bind, Option.bind_some]
  have htake : (clock ++ "+00:00".toList).takeWhile (fun c => decide (c ≠ '+' ∧ c ≠ '-')) = clock := by
    rw [List.takeWhile_append_of_pos hplain]
    exact List.append_nil _
  have hdrop : (clock ++ "+00:00".toList).dropWhile (fun c => decide (c ≠ '+' ∧ c ≠ '-')) =
      '+' :: "00:00".toList := by
    rw [List.dropWhile_append_of_pos hplain]
    rfl
  rw [htake, hdrop, htime]
  simp only [Option.bind_some, hzone]
  rw [if_neg (by decide)]
  exact congrArg some ((sub_zero _).trans (clock_sum t))

theorem timestamp_wallText {t : Instant} (ht : IsDatetime t) : timestamp (utc t) = some t := by
  unfold timestamp
  rw [utc_wallText, if_pos (by simp), List.flatMap_append]
  have hplain : (wallText t).flatMap (fun c => if c = 'Z' then "+00:00".toList else [c]) =
      wallText t := by
    rw [List.flatMap_congr (g := fun c => [c]) fun c hc => if_neg (wallText_plain hc).2]
    exact List.flatMap_singleton' _
  rw [hplain]
  exact fromisoformat_wallText ht

theorem civilDays_range {year month day : ℕ} (hy : 1 ≤ year ∧ year ≤ 9999)
    (hm : 1 ≤ month ∧ month ≤ 12) (hd : 1 ≤ day ∧ day ≤ 31) :
    -719162 ≤ civilDays year month day ∧ civilDays year month day ≤ 2932896 := by
  unfold civilDays
  dsimp only
  generalize hyear : (if month ≤ 2 then (year : ℤ) - 1 else year) = y
  generalize hmonth : (if month ≤ 2 then (month : ℤ) + 9 else month - 3) = m
  have hlate : (month ≤ 2 ∧ 10 ≤ m ∧ m ≤ 11 ∧ 0 ≤ y ∧ y ≤ 9998) ∨
      (2 < month ∧ 0 ≤ m ∧ m ≤ 9 ∧ 1 ≤ y ∧ y ≤ 9999) := by
    split at hyear <;> split at hmonth <;> omega
  have hsum : y / 400 * 146097 + (y % 400 * 365 + y % 400 / 4 - y % 400 / 100) =
      365 * y + y / 4 - y / 100 + y / 400 := by omega
  have hlast : y = 9999 ∨ y ≤ 9998 := by omega
  rcases hlast with rfl | hlast
  · omega
  · omega

theorem calendarDate_range {year month day : ℕ} {days : ℤ}
    (h : calendarDate year month day = some days) : -719162 ≤ days ∧ days ≤ 2932896 := by
  unfold calendarDate at h
  split at h
  · rename_i hv
    obtain ⟨hfirst, hlast, hjan, hdec, hone, hlength⟩ := hv
    obtain rfl := Option.some.inj h
    refine civilDays_range ⟨hfirst, hlast⟩ ⟨hjan, hdec⟩ ⟨hone, hlength.trans ?_⟩
    unfold daysInMonth
    split <;> split <;> omega
  · cases h

theorem weekDate_range {year week day : ℕ} {days : ℤ} (h : weekDate year week day = some days) :
    -719162 ≤ days ∧ days ≤ 2932896 := by
  obtain ⟨hv, hdays⟩ := Option.ite_none_right_eq_some.mp h
  obtain ⟨-, -, -, -, -, hfirst, hlast⟩ := hv
  obtain rfl := Option.some.inj hdays
  have hmin : civilDays 1 1 1 = -719162 := by decide
  have hmax : civilDays 9999 12 31 = 2932896 := by decide
  exact ⟨hmin ▸ hfirst, hmax ▸ hlast⟩

theorem isoDate_range {cs : List Char} {days : ℤ} (h : isoDate cs = some days) :
    -719162 ≤ days ∧ days ≤ 2932896 := by
  unfold isoDate at h
  obtain ⟨⟨year, cs⟩, -, h⟩ := Option.bind_eq_some_iff.mp h
  obtain ⟨cs, -, h⟩ := Option.bind_eq_some_iff.mp h
  split at h
  · obtain ⟨⟨week, cs⟩, -, h⟩ := Option.bind_eq_some_iff.mp h
    dsimp only at h
    split at h
    · exact weekDate_range h
    · obtain ⟨⟨day, cs⟩, -, h⟩ := Option.bind_eq_some_iff.mp h
      exact weekDate_range h
  · obtain ⟨⟨month, cs⟩, -, h⟩ := Option.bind_eq_some_iff.mp h
    obtain ⟨⟨day, cs⟩, -, h⟩ := Option.bind_eq_some_iff.mp h
    exact calendarDate_range h

/-- The text has no sign, so that it is not one of an offset. -/
def Unsigned (cs : List Char) : Prop := ∀ c ∈ cs, c ≠ '+' ∧ c ≠ '-'

theorem unsigned_digits {cs : List Char} (h : cs.all isDigit = true) : Unsigned cs := by
  intro c hc
  have hd := List.all_eq_true.mp h c hc
  constructor
  · rintro rfl
    cases hd
  · rintro rfl
    cases hd

theorem unsigned_append {cs ds : List Char} (hc : Unsigned cs) (hd : Unsigned ds) :
    Unsigned (cs ++ ds) := fun c hm => (List.mem_append.mp hm).elim (hc c) (hd c)

theorem unsigned_takeDigits {cs ds : List Char} {v : ℕ} (h : takeDigits n cs = some (v, ds))
    (hd : Unsigned ds) : Unsigned cs := by
  unfold takeDigits at h
  split at h
  · rename_i ht
    obtain ⟨-, rfl⟩ := Prod.mk.inj (Option.some.inj h)
    rw [← List.take_append_drop n cs]
    exact unsigned_append (unsigned_digits ht.2) hd
  · cases h

theorem unsigned_skip {separated : Bool} {cs ds : List Char} (h : skip separated ':' cs = some ds)
    (hd : Unsigned ds) : Unsigned cs := by
  unfold skip at h
  split at h
  · split at h
    · split at h
      · rename_i hsep
        obtain rfl := Option.some.inj h
        subst hsep
        intro c hm
        rcases List.mem_cons.mp hm with rfl | hm
        · decide
        · exact hd c hm
      · cases h
    · cases h
  · obtain rfl := Option.some.inj h
    exact hd

theorem isoFraction_range {cs : List Char} {micros : ℕ} (h : isoFraction cs = some micros) :
    micros < 1000000 ∧ Unsigned cs := by
  unfold isoFraction at h
  split at h
  · obtain rfl := Option.some.inj h
    exact ⟨by decide, fun c hm => absurd hm List.not_mem_nil⟩
  · split at h
    · rename_i c cs hv
      obtain ⟨hsep, -, hdigits⟩ := hv
      obtain rfl := Option.some.inj h
      constructor
      · have hl : (ljustZero 6 (cs.take 6)).length = 6 := by
          rw [ljustZero, List.length_append, List.length_replicate, List.length_take]
          omega
        have hpadded : ∀ d ∈ ljustZero 6 (cs.take 6), isDigit d = true := by
          intro d hm
          rcases List.mem_append.mp hm with hm | hm
          · exact List.all_eq_true.mp hdigits d (List.mem_of_mem_take hm)
          · rw [List.eq_of_mem_replicate hm]
            decide
        have hlt := Plugin.digitsValue_lt hpadded
        rw [hl] at hlt
        exact hlt
      · intro d hm
        rcases List.mem_cons.mp hm with rfl | hm
        · rcases hsep with rfl | rfl <;> decide
        · exact unsigned_digits hdigits d hm
    · cases h

theorem isoTime_range {cs : List Char} {time : ℕ} (h : isoTime cs = some time) :
    time < 86400000000 ∧ Unsigned cs := by
  unfold isoTime at h
  obtain ⟨⟨hour, cs₁⟩, hhour, h⟩ := Option.bind_eq_some_iff.mp h
  dsimp only at h
  split at h
  · cases h
  split at h
  · rename_i hle hnil
    obtain rfl := Option.some.inj h
    refine ⟨by omega, unsigned_takeDigits hhour fun c hm => ?_⟩
    rw [hnil] at hm
    cases hm
  obtain ⟨⟨minute, cs₂⟩, hminute, h⟩ := Option.bind_eq_some_iff.mp h
  obtain ⟨ds₁, hskip₁, hminute⟩ := Option.bind_eq_some_iff.mp hminute
  have hback₁ : Unsigned cs₂ → Unsigned cs :=
    fun hu => unsigned_takeDigits hhour (unsigned_skip hskip₁ (unsigned_takeDigits hminute hu))
  dsimp only at h
  split at h
  · cases h
  split at h
  · rename_i hle hnil
    obtain rfl := Option.some.inj h
    refine ⟨by omega, hback₁ fun c hm => ?_⟩
    rw [hnil] at hm
    cases hm
  obtain ⟨⟨second, cs₃⟩, hsecond, h⟩ := Option.bind_eq_some_iff.mp h
  obtain ⟨ds₂, hskip₂, hsecond⟩ := Option.bind_eq_some_iff.mp hsecond
  dsimp only at h
  split at h
  · cases h
  obtain ⟨micros, hmicros, h⟩ := Option.bind_eq_some_iff.mp h
  obtain rfl := Option.some.inj h
  obtain ⟨hlt, hu⟩ := isoFraction_range hmicros
  exact ⟨by omega, hback₁ (unsigned_skip hskip₂ (unsigned_takeDigits hsecond hu))⟩

theorem last_sign {cs ds u v : List Char} {c d : Char} (h : cs ++ c :: u = ds ++ d :: v)
    (hc : c = '+' ∨ c = '-') (hd : d = '+' ∨ d = '-') (hu : Unsigned u) (hv : Unsigned v) :
    u = v := by
  have hnot : ∀ {x : Char} {w : List Char}, (x = '+' ∨ x = '-') → Unsigned w → x ∉ w := by
    intro x w hx hw hm
    exact hx.elim (hw x hm).1 (hw x hm).2
  rcases List.append_eq_append_iff.mp h with ⟨a, -, ha⟩ | ⟨a, -, ha⟩
  · cases a with
    | nil => exact (List.cons.inj ha).2
    | cons x a =>
      refine absurd ?_ (hnot hd hu)
      rw [(List.cons.inj ha).2]
      exact List.mem_append_right _ List.mem_cons_self
  · cases a with
    | nil => exact (List.cons.inj ha).2.symm
    | cons x a =>
      refine absurd ?_ (hnot hc hv)
      rw [(List.cons.inj ha).2]
      exact List.mem_append_right _ List.mem_cons_self

theorem offset_zero {cs rest offset : List Char} {sign : Char} {o : ℕ}
    (hs : rest <:+ cs ++ "+00:00".toList)
    (hd : rest.dropWhile (fun c => decide (c ≠ '+' ∧ c ≠ '-')) = sign :: offset)
    (ho : isoTime offset = some o) : o = 0 := by
  have hsign : sign = '+' ∨ sign = '-' := by
    have hn := List.head?_dropWhile_not (fun c => decide (c ≠ '+' ∧ c ≠ '-')) rest
    rw [hd] at hn
    simp only [List.head?_cons, decide_eq_false_iff_not] at hn
    tauto
  have hrest : rest = rest.takeWhile (fun c => decide (c ≠ '+' ∧ c ≠ '-')) ++ sign :: offset := by
    rw [← hd, List.takeWhile_append_dropWhile]
  have hzone : Unsigned "00:00".toList := by
    intro c hc
    have hall : ∀ c ∈ "00:00".toList, c ≠ '+' ∧ c ≠ '-' := by simp
    exact hall c hc
  obtain ⟨front, hfront⟩ := hs
  rw [hrest, ← List.append_assoc] at hfront
  have hu := (isoTime_range ho).2
  have hoffset : offset = "00:00".toList :=
    last_sign hfront hsign (Or.inl rfl) hu hzone
  rw [hoffset] at ho
  have hz : isoTime "00:00".toList = some 0 := by decide +kernel
  exact Option.some.inj (ho.symm.trans hz)

theorem fromisoformat_range {cs : List Char} {t : Instant}
    (h : fromisoformat (cs ++ "+00:00".toList) = some t) : IsDatetime t := by
  have hrange : ∀ {days : ℤ} {time : ℕ}, -719162 ≤ days ∧ days ≤ 2932896 → time < 86400000000 →
      -62135596800000000 ≤ days * 86400000000 + time ∧
        days * 86400000000 + time ≤ 253402300799999999 := by
    intro days time hd ht
    constructor <;> omega
  unfold fromisoformat at h
  obtain ⟨days, hdays, h⟩ := Option.bind_eq_some_iff.mp h
  have hd := isoDate_range hdays
  split at h
  · obtain rfl := Option.some.inj h
    have hday := hrange hd (Nat.zero_lt_succ 86399999999)
    rw [Nat.cast_zero, add_zero] at hday
    exact hday
  · rename_i c rest hrest
    obtain ⟨time, htime, h⟩ := Option.bind_eq_some_iff.mp h
    have ht := (isoTime_range htime).1
    dsimp only at h
    split at h
    · obtain rfl := Option.some.inj h
      exact hrange hd ht
    · rename_i sign offset hoffset
      obtain ⟨o, ho, h⟩ := Option.bind_eq_some_iff.mp h
      have hsuffix : rest <:+ cs ++ "+00:00".toList :=
        (List.suffix_cons c rest).trans (hrest ▸ List.drop_suffix _ _)
      obtain rfl := offset_zero hsuffix hoffset ho
      have hwall := hrange hd ht
      split at h
      · obtain rfl := Option.some.inj h
        rw [← add_zero (days * 86400000000 + (time : ℤ))] at hwall
        exact hwall
      · obtain rfl := Option.some.inj h
        rw [← sub_zero (days * 86400000000 + (time : ℤ))] at hwall
        exact hwall

/-- The timestamps on the wire are the instants that Python can hold, and each of these is read back
from the timestamp it is written as. -/
theorem exists_timestamp (t : Instant) :
    ((∃ value, timestamp value = some t) ↔ IsDatetime t) ∧
      (IsDatetime t → timestamp (utc t) = some t) := by
  refine ⟨⟨?_, fun ht => ⟨utc t, timestamp_wallText ht⟩⟩, timestamp_wallText⟩
  rintro ⟨value, h⟩
  unfold timestamp at h
  split at h
  · rename_i hlast
    obtain ⟨init, hinit⟩ := List.getLast?_eq_some_iff.mp hlast
    rw [hinit, List.flatMap_append] at h
    exact fromisoformat_range h
  · cases h

end LedgerGuard.Ingestion
