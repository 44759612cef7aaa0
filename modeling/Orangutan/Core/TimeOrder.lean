import Orangutan.Core.Timestamps

/-!
# The order of times and of their texts

The texts of two times compare byte by byte as the times compare in milliseconds, so a database that
knows only texts orders them rightly.
-/

namespace Orangutan.Core

set_option autoImplicit false

theorem append_lt_append {s s' t t' : Bytes} (h : s.length = s'.length) :
    s ++ t < s' ++ t' ↔ s < s' ∨ s = s' ∧ t < t' := by
  induction s generalizing s' with
  | nil =>
    obtain rfl := List.length_eq_zero_iff.mp h.symm
    simp
  | cons b s ih =>
    cases s' with
    | nil => cases h
    | cons c s' =>
      have hlength : s.length = s'.length := Nat.succ.inj h
      rw [List.cons_append, List.cons_append, List.cons_lt_cons_iff, List.cons_lt_cons_iff,
        ih hlength]
      simp only [List.cons.injEq]
      tauto

theorem digit_lt_digit {m n : Nat} (hm : m < 10) (hn : n < 10) :
    UInt8.ofNat (0x30 + m) < UInt8.ofNat (0x30 + n) ↔ m < n := by
  rw [UInt8.lt_iff_toNat_lt, UInt8.toNat_ofNat', UInt8.toNat_ofNat']
  omega

theorem fixedWidth_lt {width m n : Nat} (hm : m < 10 ^ width) (hn : n < 10 ^ width) :
    fixedWidth width m < fixedWidth width n ↔ m < n := by
  induction width generalizing m n with
  | zero =>
    have hsame : m = n := by omega
    subst hsame
    simp [fixedWidth]
  | succ width ih =>
    have hm' : m / 10 < 10 ^ width := by omega
    have hn' : n / 10 < 10 ^ width := by omega
    have hsame : fixedWidth width (m / 10) = fixedWidth width (n / 10) ↔ m / 10 = n / 10 :=
      ⟨CivilTime.fixedWidth_injective hm' hn', congrArg _⟩
    rw [fixedWidth, fixedWidth, append_lt_append (by rw [fixedWidth_length, fixedWidth_length]),
      ih hm' hn', hsame, List.cons_lt_cons_iff,
      digit_lt_digit (Nat.mod_lt _ (by decide)) (Nat.mod_lt _ (by decide))]
    simp only [List.lt_irrefl, and_false, or_false]
    omega

/-- A field of a text, and what follows behind a separator. -/
theorem field_lt {width m n : Nat} {separator : UInt8} {t t' : Bytes} (hm : m < 10 ^ width)
    (hn : n < 10 ^ width) :
    fixedWidth width m ++ separator :: t < fixedWidth width n ++ separator :: t' ↔ m < n ∨ m = n ∧
      t < t' := by
  have hsame : fixedWidth width m = fixedWidth width n ↔ m = n :=
    ⟨CivilTime.fixedWidth_injective hm hn, congrArg _⟩
  rw [append_lt_append (by rw [fixedWidth_length, fixedWidth_length]), fixedWidth_lt hm hn, hsame,
    List.cons_lt_cons_iff]
  simp

/-- The day before the first of a month, by the number of the month. -/
def monthStart (index : Nat) : Int := daysFromCivil (index / 12 : Nat) (index % 12 + 1) 0

/-- The day before the first of March of a year. -/
def marchStart (y : Int) : Int :=
  y / 400 * 146097 + (y % 400 * 365 + y % 400 / 4 - y % 400 / 100) - 719469

theorem marchStart_era (era : Int) {y : Nat} (hy : y < 400) :
    marchStart (y + era * 400) = era * 146097 + yearStart y - 719469 := by
  have hera : ((y : Int) + era * 400) / 400 = era := by omega
  have hrest : ((y : Int) + era * 400) % 400 = y := by omega
  rw [marchStart, hera, hrest, yearStart]
  omega

theorem marchStart_pred (year : Int) :
    marchStart year = marchStart (year - 1) + 365 + (if isLeap year then 1 else 0) := by
  obtain ⟨era, y, hy, rfl⟩ : ∃ (era : Int) (y : Nat), y < 400 ∧ year = y + era * 400 + 1 :=
    ⟨(year - 1) / 400, ((year - 1) % 400).toNat, by omega, by omega⟩
  have hend : marchStart (y + era * 400 + 1) = era * 146097 + yearEnd y - 719469 := by
    by_cases hlast : y = 399
    · have hnext : ((y : Int) + era * 400 + 1) = ((0 : Nat) : Int) + (era + 1) * 400 := by omega
      rw [hnext, marchStart_era _ (by decide), yearEnd, if_pos hlast, yearStart]
      omega
    · have hnext : ((y : Int) + era * 400 + 1) = ((y + 1 : Nat) : Int) + era * 400 := by omega
      rw [hnext, marchStart_era _ (by omega), yearEnd, if_neg hlast]
  rw [hend, isLeap_era, add_sub_cancel_right, marchStart_era _ hy, yearEnd_eq y hy]
  clear hend
  split <;> omega

theorem daysFromCivil_march (year : Int) (month day : Nat) :
    daysFromCivil year month day = marchStart (if month ≤ 2 then year - 1 else year) +
      ((153 * (if month > 2 then month - 3 else month + 9) + 2) / 5 : Nat) + day := by
  simp only [daysFromCivil, marchStart]
  push_cast
  ring

theorem monthStart_succ (index : Nat) :
    monthStart (index + 1) = monthStart index + lastDayOfMonth (index / 12 : Nat)
      (index % 12 + 1) := by
  obtain ⟨year, month, hmonth, rfl⟩ : ∃ year month, month < 12 ∧ index = 12 * year + month :=
    ⟨index / 12, index % 12, Nat.mod_lt _ (by decide), by omega⟩
  have hyear : (12 * year + month) / 12 = year := by omega
  have hrest : (12 * year + month) % 12 = month := by omega
  rw [monthStart, monthStart, hyear, hrest]
  by_cases hlast : month = 11
  · subst hlast
    have hnext : (12 * year + 11 + 1) / 12 = year + 1 := by omega
    have hfirst : (12 * year + 11 + 1) % 12 = 0 := by omega
    rw [hnext, hfirst, daysFromCivil_march, daysFromCivil_march]
    simp [lastDayOfMonth]
    omega
  · have hsame : (12 * year + month + 1) / 12 = year := by omega
    have hnext : (12 * year + month + 1) % 12 = month + 1 := by omega
    rw [hsame, hnext, daysFromCivil_march, daysFromCivil_march]
    by_cases hfeb : month = 1
    · -- the year of the calendar that begins in March changes behind February
      subst hfeb
      simp [lastDayOfMonth, marchStart_pred year]
      split <;> omega
    · clear hyear hrest hsame hnext
      interval_cases month <;> simp [lastDayOfMonth] at hfeb ⊢ <;> omega

theorem monthStart_mono : Monotone monthStart :=
  monotone_nat_of_le_succ fun index => by rw [monthStart_succ]; omega

theorem daysFromCivil_add (year : Int) (month day : Nat) :
    daysFromCivil year month day = daysFromCivil year month 0 + day := by
  simp only [daysFromCivil]
  omega

namespace CivilTime

def monthIndex (c : CivilTime) : Nat := 12 * c.year + (c.month - 1)

theorem days_eq (c : CivilTime) :
    daysFromCivil c.year c.month c.day = monthStart c.monthIndex + c.day := by
  obtain ⟨hlow, hhigh⟩ := c.month_range
  have hyear : c.monthIndex / 12 = c.year := by unfold monthIndex; omega
  have hmonth : c.monthIndex % 12 + 1 = c.month := by unfold monthIndex; omega
  rw [daysFromCivil_add, monthStart, hyear, hmonth]

theorem day_le (c : CivilTime) : 1 ≤ c.day ∧ c.day ≤ lastDayOfMonth c.year c.month := by
  have h := c.date
  simp only [YearMonthDay.ok, Bool.and_eq_true, decide_eq_true_eq] at h
  exact ⟨h.1.2, h.2⟩

/-- A day of an earlier month is an earlier day. -/
theorem days_lt {c d : CivilTime} (h : c.monthIndex < d.monthIndex) :
    daysFromCivil c.year c.month c.day < daysFromCivil d.year d.month d.day := by
  have hnext : monthStart (c.monthIndex + 1) ≤ monthStart d.monthIndex := monthStart_mono h
  obtain ⟨hlow, hhigh⟩ := c.month_range
  have hyear : c.monthIndex / 12 = c.year := by unfold monthIndex; omega
  have hmonth : c.monthIndex % 12 + 1 = c.month := by unfold monthIndex; omega
  rw [monthStart_succ, hyear, hmonth] at hnext
  have hc := c.day_le.2
  have hd := d.day_le.1
  rw [c.days_eq, d.days_eq]
  omega

theorem milliseconds_lt {c d : CivilTime} (h : c.text < d.text) :
    c.milliseconds < d.milliseconds := by
  have hcmonth := c.month_range
  have hdmonth := d.month_range
  have hcday := c.day_range
  have hdday := d.day_range
  have hctime := c.timeOfDay_lt
  have hdtime := d.timeOfDay_lt
  have hch := c.hour_lt
  have hdh := d.hour_lt
  have hcm := c.minute_lt
  have hdm := d.minute_lt
  have hcs := c.second_lt
  have hds := d.second_lt
  have hcf := c.millisecond_lt
  have hdf := d.millisecond_lt
  rw [c.milliseconds_eq, d.milliseconds_eq]
  unfold text isoText isoShape at h
  rw [field_lt c.year_lt d.year_lt, field_lt (by omega) (by omega), field_lt (by omega) (by omega),
    field_lt (by omega) (by omega), field_lt (by omega) (by omega), field_lt (by omega) (by omega),
    append_lt_append (by rw [fixedWidth_length, fixedWidth_length]),
      fixedWidth_lt (by omega) (by omega)] at h
  simp only [List.lt_irrefl, and_false, or_false] at h
  by_cases hmonth : c.monthIndex < d.monthIndex
  · have hdays := days_lt hmonth
    omega
  · have hsame : c.monthIndex = d.monthIndex := by
      unfold monthIndex at hmonth ⊢
      omega
    have hcdays := c.days_eq
    have hddays := d.days_eq
    rw [hsame] at hcdays
    unfold timeOfDay at hctime hdtime ⊢
    unfold monthIndex at hsame
    omega

end CivilTime

/-- Texts of times are in the order of the times, to the millisecond. -/
theorem formatIso8601Utc_lt (a b : TimePoint) :
    formatIso8601Utc a < formatIso8601Utc b ↔ a.milliseconds < b.milliseconds := by
  obtain ⟨c, hc, hcm⟩ := exists_civilTime a
  obtain ⟨d, hd, hdm⟩ := exists_civilTime b
  rw [hc, hd, ← hcm, ← hdm]
  refine ⟨CivilTime.milliseconds_lt, fun h => ?_⟩
  by_contra hnot
  by_cases hgt : d.text < c.text
  · exact absurd (CivilTime.milliseconds_lt hgt) (lt_asymm h)
  · have heq : c.text = d.text := List.le_antisymm (List.not_lt.mp hgt) (List.not_lt.mp hnot)
    rw [CivilTime.text_injective heq] at h
    exact absurd h (lt_irrefl _)

/-- What a time is when its text is read. -/
def TimePoint.persisted (t : TimePoint) : TimePoint := ⟨Int64.ofInt (t.milliseconds * 1000000)⟩

theorem parse_formatIso8601Utc (t : TimePoint) :
    parseIso8601Utc (formatIso8601Utc t) = .ok t.persisted := by
  obtain ⟨c, htext, hms⟩ := exists_civilTime t
  rw [htext, c.parse_text, TimePoint.persisted, ← hms]
  exact congrArg Except.ok (congrArg TimePoint.mk c.instant_nanoseconds)

theorem milliseconds_le {a b : TimePoint} (h : a.nanoseconds ≤ b.nanoseconds) :
    a.milliseconds ≤ b.milliseconds :=
  Int.ediv_le_ediv (by decide) (Int64.le_iff_toInt_le.mp h)

end Orangutan.Core
