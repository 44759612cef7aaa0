import Orangutan.Core.Time

/-!
# Dates and days

A date is a place in an era of 400 years that begin in March: a year of the era and a day of that
year. Both conversions are read off this place.
-/

namespace Orangutan.Core

set_option autoImplicit false

/-- The day of the era on which a year begins. -/
def yearStart (y : Nat) : Nat := 365 * y + y / 4 - y / 100

/-- The last year of an era has a leap day of its own. -/
def yearEnd (y : Nat) : Nat := if y = 399 then 146097 else yearStart (y + 1)

/-- The year of a day of the era. -/
def yearOf (dayOfEra : Nat) : Nat :=
  (dayOfEra - dayOfEra / 1460 + dayOfEra / 36524 - dayOfEra / 146096) / 365

theorem yearOf_cast (n : Nat) :
    ((n : Int) - (n : Int) / 1460 + (n : Int) / 36524 - (n : Int) / 146096) / 365 =
      (yearOf n : Int) := by
  unfold yearOf
  omega

theorem yearStart_cast (y n : Nat) :
    ((yearStart y + n : Nat) : Int) - (365 * (y : Int) + (y : Int) / 4 - (y : Int) / 100) =
      (n : Int) := by
  unfold yearStart
  omega

theorem yearOf_succ (n : Nat) : yearOf n ≤ yearOf (n + 1) := by
  unfold yearOf
  exact Nat.div_le_div_right (by omega)

theorem yearOf_mono : Monotone yearOf := monotone_nat_of_le_succ yearOf_succ

theorem yearOf_ends : ∀ y < 400, yearOf (yearStart y) = y ∧ yearOf (yearEnd y - 1) = y := by
  decide +kernel

/-- The leap day comes at the end of the year, in the next year of the calendar. -/
def leapAfter (y : Nat) : Bool := (y + 1) % 4 = 0 && ((y + 1) % 100 ≠ 0 || (y + 1) % 400 = 0)

theorem isLeap_era (era : Int) (y : Nat) : isLeap (y + era * 400 + 1) = leapAfter y := by
  unfold isLeap leapAfter
  have h4 : ((y : Int) + era * 400 + 1) % 4 = 0 ↔ (y + 1) % 4 = 0 := by omega
  have h100 : ((y : Int) + era * 400 + 1) % 100 = 0 ↔ (y + 1) % 100 = 0 := by omega
  have h400 : ((y : Int) + era * 400 + 1) % 400 = 0 ↔ (y + 1) % 400 = 0 := by omega
  simp only [h4, h100, h400, ne_eq, decide_not]

theorem yearEnd_eq : ∀ y < 400, yearEnd y = yearStart y + (if leapAfter y then 366 else 365) := by
  decide +kernel

theorem yearOf_eq {y n : Nat} (hy : y < 400) (hlow : yearStart y ≤ n) (hhigh : n < yearEnd y) :
    yearOf n = y := by
  obtain ⟨hstart, hend⟩ := yearOf_ends y hy
  refine le_antisymm ?_ ?_
  · rw [← hend]
    exact yearOf_mono (Nat.le_sub_one_of_lt hhigh)
  · rw [← hstart]
    exact yearOf_mono hlow

/-- The years tile the era. -/
theorem exists_year {n : Nat} (hn : n < 146097) : ∃ y < 400, yearStart y ≤ n ∧ n < yearEnd y := by
  have hbelow : ∀ y, n < yearStart y → ∃ k < y, yearStart k ≤ n ∧ n < yearStart (k + 1) := by
    intro y
    induction y with
    | zero => exact fun h => absurd h (Nat.not_lt_zero n)
    | succ y ih =>
      intro h
      by_cases hy : n < yearStart y
      · obtain ⟨k, hk, hrange⟩ := ih hy
        exact ⟨k, Nat.lt_succ_of_lt hk, hrange⟩
      · exact ⟨y, Nat.lt_succ_self y, Nat.not_lt.mp hy, h⟩
  by_cases hlast : n < yearStart 399
  · obtain ⟨k, hk, hlow, hhigh⟩ := hbelow 399 hlast
    have hend : yearEnd k = yearStart (k + 1) := if_neg (by omega)
    exact ⟨k, by omega, hlow, hend ▸ hhigh⟩
  · exact ⟨399, by decide, Nat.not_lt.mp hlast, hn⟩

/-- The month of a day of the year, from March on. -/
def shiftedMonth (doy : Nat) : Nat := (5 * doy + 2) / 153

def monthOf (doy : Nat) : Nat :=
  if shiftedMonth doy < 10 then shiftedMonth doy + 3 else shiftedMonth doy - 9

def dayOf (doy : Nat) : Nat := doy - (153 * shiftedMonth doy + 2) / 5 + 1

theorem shiftedMonth_cast (doy : Nat) :
    (5 * (doy : Int) + 2) / 153 = (shiftedMonth doy : Int) := by
  unfold shiftedMonth
  omega

theorem monthOf_cast (doy : Nat) :
    (if (shiftedMonth doy : Int) < 10 then (shiftedMonth doy : Int) + 3
      else (shiftedMonth doy : Int) - 9).toNat = monthOf doy := by
  unfold monthOf
  split <;> split <;> omega

theorem dayOf_cast (doy : Nat) :
    ((doy : Int) - (153 * (shiftedMonth doy : Int) + 2) / 5 + 1).toNat = dayOf doy := by
  unfold dayOf shiftedMonth
  omega

/-- The day of the year of a day in a month. -/
def dayOfYear (month day : Nat) : Nat :=
    (153 * (if month > 2 then month - 3 else month + 9) + 2) / 5 + day - 1

/-- The days of a month in a leap year. -/
def longestMonth (month : Nat) : Nat :=
  if month = 2 then 29 else if month = 4 ∨ month = 6 ∨ month = 9 ∨ month = 11 then 30 else 31

theorem dayOfYear_of : ∀ doy < 366, dayOfYear (monthOf doy) (dayOf doy) = doy := by decide +kernel

theorem date_of : ∀ doy < 366, 1 ≤ monthOf doy ∧ monthOf doy ≤ 12 ∧ 1 ≤ dayOf doy ∧
    dayOf doy ≤ (if monthOf doy = 2 then (if doy = 365 then 29 else 28)
      else if monthOf doy = 4 ∨ monthOf doy = 6 ∨ monthOf doy = 9 ∨ monthOf doy = 11 then 30
        else 31) := by
  decide +kernel

/-- A date of a leap year is found again, and only the leap day is the 366th. -/
def readsBack (month day : Nat) : Bool :=
  let doy := dayOfYear month day
  doy < 366 && monthOf doy == month && dayOf doy == day && (doy != 365 || month == 2 && day == 29)

theorem readsBack_table : ∀ month < 13, ∀ day < 32,
    (0 < month && 0 < day && day ≤ longestMonth month) = true →
    readsBack month day = true := by
  decide +kernel

theorem of_dayOfYear (month day : Nat) (hmonth : 1 ≤ month ∧ month ≤ 12)
    (hday : 1 ≤ day ∧ day ≤ longestMonth month) :
    dayOfYear month day < 366 ∧ monthOf (dayOfYear month day) = month ∧
      dayOf (dayOfYear month day) = day ∧
      (dayOfYear month day = 365 → month = 2 ∧ day = 29) := by
  have hlongest : longestMonth month ≤ 31 := by
    unfold longestMonth
    split_ifs <;> omega
  have htest : (0 < month && 0 < day && day ≤ longestMonth month) = true := by
    simp only [Bool.and_eq_true, decide_eq_true_eq]
    exact ⟨⟨hmonth.1, hday.1⟩, hday.2⟩
  have hback := readsBack_table month (by omega) day (by omega) htest
  simp only [readsBack, Bool.and_eq_true, Bool.or_eq_true, decide_eq_true_eq, beq_iff_eq,
    bne_iff_ne, ne_eq] at hback
  obtain ⟨⟨⟨hlt, hmonthOf⟩, hdayOf⟩, hlast⟩ := hback
  exact ⟨hlt, hmonthOf, hdayOf, fun h => hlast.resolve_left fun hne => hne h⟩

/-- A day: its era, the year of the era and the day of that year. -/
structure EraDay where
  era : Int
  year : Nat
  day : Nat
  year_lt : year < 400
  day_lt : yearStart year + day < yearEnd year

namespace EraDay

theorem day_lt_366 (e : EraDay) : e.day < 366 := by
  have hlt := e.day_lt
  rw [yearEnd_eq e.year e.year_lt] at hlt
  split at hlt <;> omega

theorem dayOfEra_lt (e : EraDay) : yearStart e.year + e.day < 146097 := by
  have hend : ∀ y < 400, yearEnd y ≤ 146097 := by decide +kernel
  exact lt_of_lt_of_le e.day_lt (hend e.year e.year_lt)

/-- Days from 1970. -/
def days (e : EraDay) : Int := e.era * 146097 + (yearStart e.year + e.day : Nat) - 719468

def date (e : EraDay) : YearMonthDay :=
  { year := if monthOf e.day ≤ 2 then e.year + e.era * 400 + 1 else e.year + e.era * 400
    month := monthOf e.day
    day := dayOf e.day }

theorem days_era (e : EraDay) :
    (e.days + 719468) / 146097 = e.era ∧
      (e.days + 719468) % 146097 = ((yearStart e.year + e.day : Nat) : Int) := by
  have hlt := e.dayOfEra_lt
  unfold days
  generalize yearStart e.year + e.day = n at hlt ⊢
  omega

theorem civilFromDays_days (e : EraDay) : civilFromDays e.days = e.date := by
  have hyear := yearOf_eq e.year_lt (Nat.le_add_right _ e.day) e.day_lt
  obtain ⟨hera, hdoe⟩ := e.days_era
  unfold civilFromDays date
  dsimp only
  rw [hera, hdoe, yearOf_cast, hyear, yearStart_cast, shiftedMonth_cast, monthOf_cast, dayOf_cast]

theorem daysFromCivil_of {year : Int} {month day y doy : Nat} {era : Int} (hy : y < 400)
    (hyear : (if month ≤ 2 then year - 1 else year) = y + era * 400)
    (hday : (153 * ((if month > 2 then month - 3 else month + 9 : Nat) : Int) + 2) / 5 +
      (day : Int) - 1 = doy) :
    daysFromCivil year month day = era * 146097 + (yearStart y + doy : Nat) - 719468 := by
  have hera : ((y : Int) + era * 400) / 400 = era := by omega
  have hyoe : ((y : Int) + era * 400) % 400 = y := by omega
  unfold daysFromCivil
  dsimp only
  rw [hyear, hera, hyoe, hday]
  unfold yearStart
  omega

theorem daysFromCivil_date (e : EraDay) :
    daysFromCivil e.date.year e.date.month e.date.day = e.days := by
  have hdoy := dayOfYear_of e.day e.day_lt_366
  have hrange := date_of e.day e.day_lt_366
  refine daysFromCivil_of e.year_lt ?_ ?_
  · change (if monthOf e.day ≤ 2 then e.date.year - 1 else e.date.year) = _
    unfold date
    dsimp only
    split
    · omega
    · rfl
  · change (153 * ((if monthOf e.day > 2 then monthOf e.day - 3 else monthOf e.day + 9 : Nat) :
      Int) + 2) / 5 +
      (dayOf e.day : Int) - 1 = e.day
    unfold dayOfYear at hdoy
    omega

theorem isLeap_date (e : EraDay) (hmonth : monthOf e.day ≤ 2) :
    isLeap e.date.year = leapAfter e.year := by
  have hyear : e.date.year = e.year + e.era * 400 + 1 := if_pos hmonth
  rw [hyear, isLeap_era]

theorem date_ok (e : EraDay) : e.date.ok = true := by
  obtain ⟨hmonth1, hmonth2, hday1, hday2⟩ := date_of e.day e.day_lt_366
  have hlast : dayOf e.day ≤ lastDayOfMonth e.date.year (monthOf e.day) := by
    unfold lastDayOfMonth
    by_cases hfeb : monthOf e.day = 2
    · rw [if_pos hfeb] at hday2 ⊢
      rw [e.isLeap_date (by omega)]
      have hlt := e.day_lt
      rw [yearEnd_eq e.year e.year_lt] at hlt
      split at hday2
      · next h365 =>
        rw [h365] at hlt
        split at hlt
        · next hleap => rwa [if_pos hleap]
        · omega
      · split <;> omega
    · rw [if_neg hfeb] at hday2 ⊢
      exact hday2
  unfold YearMonthDay.ok
  simp only [Bool.and_eq_true, decide_eq_true_eq]
  exact ⟨⟨⟨hmonth1, hmonth2⟩, hday1⟩, hlast⟩

end EraDay

theorem exists_eraDay (d : Int) : ∃ e : EraDay, e.days = d := by
  obtain ⟨n, hn⟩ : ∃ n : Nat, (n : Int) = (d + 719468) % 146097 :=
    ⟨((d + 719468) % 146097).toNat, Int.toNat_of_nonneg (Int.emod_nonneg _ (by decide))⟩
  obtain ⟨y, hy, hlow, hhigh⟩ := exists_year (n := n) (by omega)
  have hday : yearStart y + (n - yearStart y) = n := Nat.add_sub_cancel' hlow
  refine ⟨⟨(d + 719468) / 146097, y, n - yearStart y, hy, hday.symm ▸ hhigh⟩, ?_⟩
  unfold EraDay.days
  dsimp only
  rw [hday]
  omega

theorem exists_eraDay_date {ymd : YearMonthDay} (h : ymd.ok = true) :
    ∃ e : EraDay, e.date = ymd := by
  obtain ⟨year, month, day⟩ := ymd
  unfold YearMonthDay.ok at h
  simp only [Bool.and_eq_true, decide_eq_true_eq] at h
  obtain ⟨⟨⟨hmonth1, hmonth2⟩, hday1⟩, hday2⟩ := h
  have hshort : day ≤ longestMonth month := by
    unfold lastDayOfMonth at hday2
    unfold longestMonth
    split at hday2
    · next hfeb =>
      rw [if_pos hfeb]
      split at hday2 <;> omega
    · next hfeb =>
      rw [if_neg hfeb]
      exact hday2
  obtain ⟨hdoy, hmonthOf, hdayOf, hlast⟩ :=
    of_dayOfYear month day ⟨hmonth1, hmonth2⟩ ⟨hday1, hshort⟩
  obtain ⟨y, hy⟩ : ∃ y : Int, y = if month ≤ 2 then year - 1 else year := ⟨_, rfl⟩
  obtain ⟨n, hn⟩ : ∃ n : Nat, (n : Int) = y % 400 :=
    ⟨(y % 400).toNat, Int.toNat_of_nonneg (Int.emod_nonneg _ (by decide))⟩
  have hn400 : n < 400 := by omega
  have hwithin : yearStart n + dayOfYear month day < yearEnd n := by
    rw [yearEnd_eq n hn400]
    split
    · omega
    · next hleap =>
      -- the 366th day is a leap day of the calendar year
      have hne : dayOfYear month day ≠ 365 := by
        intro h365
        obtain ⟨rfl, rfl⟩ := hlast h365
        rw [if_pos (by decide)] at hy
        refine hleap ?_
        unfold lastDayOfMonth at hday2
        rw [if_pos rfl] at hday2
        split at hday2
        · next hyear =>
          unfold isLeap at hyear
          unfold leapAfter
          simp only [Bool.and_eq_true, Bool.or_eq_true, decide_eq_true_eq] at hyear ⊢
          omega
        · omega
      omega
  refine ⟨⟨y / 400, n, dayOfYear month day, hn400, hwithin⟩, ?_⟩
  unfold EraDay.date
  dsimp only
  rw [hmonthOf, hdayOf]
  congr 1
  split at hy <;> split <;> omega

theorem daysFromCivil_civilFromDays (d : Int) :
    daysFromCivil (civilFromDays d).year (civilFromDays d).month (civilFromDays d).day = d := by
  obtain ⟨e, rfl⟩ := exists_eraDay d
  rw [e.civilFromDays_days, e.daysFromCivil_date]

theorem civilFromDays_daysFromCivil {ymd : YearMonthDay} (h : ymd.ok = true) :
    civilFromDays (daysFromCivil ymd.year ymd.month ymd.day) = ymd := by
  obtain ⟨e, rfl⟩ := exists_eraDay_date h
  rw [e.daysFromCivil_date, e.civilFromDays_days]

theorem civilFromDays_ok (d : Int) : (civilFromDays d).ok = true := by
  obtain ⟨e, rfl⟩ := exists_eraDay d
  rw [e.civilFromDays_days]
  exact e.date_ok

end Orangutan.Core
