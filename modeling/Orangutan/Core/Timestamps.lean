import Orangutan.Core.Calendar

/-!
# Timestamps there and back

A text spells a date and a time of day; a time is written as the date and time of its millisecond.
Between the two stands the 64-bit clock of nanoseconds, which ends in the year 2262.
-/

namespace Orangutan.Core

set_option autoImplicit false

/-- The clock can hold the millisecond. -/
def InClock (milliseconds : Int) : Prop :=
  -2 ^ 63 ≤ milliseconds * 1000000 ∧ milliseconds * 1000000 < 2 ^ 63

/-- What the clock makes of a number of nanoseconds. -/
theorem toInt_ofInt (n : Int) : (Int64.ofInt n).toInt = n.bmod 18446744073709551616 :=
    Int64.toInt_ofInt

theorem toInt_ofInt_iff (m : Int) : (Int64.ofInt (m * 1000000)).toInt = m * 1000000 ↔
    InClock m := by
  rw [toInt_ofInt]
  unfold InClock Int.bmod
  dsimp only
  constructor
  · intro h
    split at h <;> omega
  · rintro ⟨hlow, hhigh⟩
    split <;> omega

namespace CivilTime

/-- The milliseconds from 1970 that the text spells. -/
def milliseconds (c : CivilTime) : Int :=
  daysFromCivil c.year c.month c.day * 86400000 + c.hour * 3600000 + c.minute * 60000 + c.second *
    1000 + c.millisecond

theorem instant_nanoseconds (c : CivilTime) :
    c.instant.nanoseconds = Int64.ofInt (c.milliseconds * 1000000) := rfl

theorem instant_iff (c : CivilTime) : c.instant.nanoseconds.toInt = c.milliseconds * 1000000 ↔
    InClock c.milliseconds := by
  rw [c.instant_nanoseconds]
  exact toInt_ofInt_iff c.milliseconds

/-- The parts of the day, as milliseconds. -/
def timeOfDay (c : CivilTime) : Nat :=
    c.hour * 3600000 + c.minute * 60000 + c.second * 1000 + c.millisecond

theorem timeOfDay_lt (c : CivilTime) : c.timeOfDay < 86400000 := by
  have hhour := c.hour_lt
  have hminute := c.minute_lt
  have hsecond := c.second_lt
  have hmillisecond := c.millisecond_lt
  unfold timeOfDay
  omega

theorem milliseconds_eq (c : CivilTime) :
    c.milliseconds = daysFromCivil c.year c.month c.day * 86400000 + c.timeOfDay := by
  unfold milliseconds timeOfDay
  omega

theorem eq_of_fields {c d : CivilTime} (hyear : c.year = d.year) (hmonth : c.month = d.month)
    (hday : c.day = d.day) (hhour : c.hour = d.hour) (hminute : c.minute = d.minute)
    (hsecond : c.second = d.second) (hmillisecond : c.millisecond = d.millisecond) : c = d := by
  cases c
  cases d
  congr

/-- No two dates and times of day are the same millisecond. -/
theorem milliseconds_injective {c d : CivilTime} (h : c.milliseconds = d.milliseconds) : c = d := by
  have hc := c.timeOfDay_lt
  have hd := d.timeOfDay_lt
  rw [c.milliseconds_eq, d.milliseconds_eq] at h
  have hdays : daysFromCivil c.year c.month c.day = daysFromCivil d.year d.month d.day := by omega
  have htod : c.timeOfDay = d.timeOfDay := by omega
  have hdate := civilFromDays_daysFromCivil c.date
  rw [hdays, civilFromDays_daysFromCivil d.date] at hdate
  injection hdate with hyear hmonth hday
  have hcminute := c.minute_lt
  have hdminute := d.minute_lt
  have hcsecond := c.second_lt
  have hdsecond := d.second_lt
  have hcmillisecond := c.millisecond_lt
  have hdmillisecond := d.millisecond_lt
  unfold timeOfDay at htod
  exact eq_of_fields (Int.ofNat_inj.mp hyear.symm) hmonth.symm hday.symm (by omega) (by omega)
    (by omega) (by omega)

theorem fixedWidth_injective {width m n : Nat} (hm : m < 10 ^ width) (hn : n < 10 ^ width)
    (h : fixedWidth width m = fixedWidth width n) : m = n := by
  have hleft : parseFixedWidth (fixedWidth width m) = m := parse_field rfl hm
  have hright : parseFixedWidth (fixedWidth width n) = n := parse_field rfl hn
  rw [← hleft, ← hright, h]

theorem text_injective {c d : CivilTime} (h : c.text = d.text) : c = d := by
  have hc := c.shape
  have hd := d.shape
  rw [h] at hc
  obtain ⟨hcm1, hcm2⟩ := c.month_range
  obtain ⟨hdm1, hdm2⟩ := d.month_range
  obtain ⟨hcd1, hcd2⟩ := c.day_range
  obtain ⟨hdd1, hdd2⟩ := d.day_range
  have hch := c.hour_lt
  have hdh := d.hour_lt
  have hcmin := c.minute_lt
  have hdmin := d.minute_lt
  have hcs := c.second_lt
  have hds := d.second_lt
  refine eq_of_fields ?_ ?_ ?_ ?_ ?_ ?_ ?_
  · exact fixedWidth_injective c.year_lt d.year_lt (hc.year.symm.trans hd.year)
  · exact fixedWidth_injective (by omega) (by omega) (hc.month.symm.trans hd.month)
  · exact fixedWidth_injective (by omega) (by omega) (hc.day.symm.trans hd.day)
  · exact fixedWidth_injective (by omega) (by omega) (hc.hour.symm.trans hd.hour)
  · exact fixedWidth_injective (by omega) (by omega) (hc.minute.symm.trans hd.minute)
  · exact fixedWidth_injective (by omega) (by omega) (hc.second.symm.trans hd.second)
  · exact fixedWidth_injective c.millisecond_lt d.millisecond_lt
      (hc.millisecond.symm.trans hd.millisecond)

end CivilTime

/-- The years of the clock have four digits. -/
theorem year_range {d : Int} (hlow : -106752 ≤ d) (hhigh : d ≤ 106752) :
    0 ≤ (civilFromDays d).year ∧ (civilFromDays d).year ≤ 9999 := by
  obtain ⟨e, rfl⟩ := exists_eraDay d
  have hlt := e.dayOfEra_lt
  have hyear := e.year_lt
  rw [e.civilFromDays_days]
  unfold EraDay.days at hlow hhigh
  unfold EraDay.date
  dsimp only
  split <;> omega

theorem milliseconds_range (t : TimePoint) : -9223372036855 ≤ t.milliseconds ∧
    t.milliseconds ≤ 9223372036854 := by
  have hlow := Int64.le_toInt t.nanoseconds
  have hhigh := Int64.toInt_lt t.nanoseconds
  unfold TimePoint.milliseconds
  omega

/-- The date and time of day of a time's millisecond. -/
theorem exists_civilTime (t : TimePoint) : ∃ c : CivilTime, formatIso8601Utc t = c.text ∧
    c.milliseconds = t.milliseconds := by
  obtain ⟨hlow, hhigh⟩ := milliseconds_range t
  generalize hm : t.milliseconds = m at hlow hhigh
  obtain ⟨hyear0, hyear9999⟩ := year_range (d := m / 86400000) (by omega) (by omega)
  obtain ⟨tod, htod⟩ : ∃ n : Nat, (n : Int) = m % 86400000 :=
    ⟨(m % 86400000).toNat, Int.toNat_of_nonneg (Int.emod_nonneg _ (by decide))⟩
  have htodNat : (m % 86400000).toNat = tod := by rw [← htod, Int.toNat_natCast]
  have hok := civilFromDays_ok (m / 86400000)
  have hdays := daysFromCivil_civilFromDays (m / 86400000)
  generalize hymd : civilFromDays (m / 86400000) = ymd at hyear0 hyear9999 hok hdays
  have hcast : ((ymd.year.toNat : Nat) : Int) = ymd.year := Int.toNat_of_nonneg hyear0
  refine ⟨{ year := ymd.year.toNat
            month := ymd.month
            day := ymd.day
            hour := tod / 3600000
            minute := tod / 60000 % 60
            second := tod / 1000 % 60
            millisecond := tod % 1000
            year_lt := by omega
            date := by rw [hcast]; exact hok
            hour_lt := by omega
            minute_lt := by omega
            second_lt := by omega
            millisecond_lt := by omega }, ?_, ?_⟩
  · unfold formatIso8601Utc
    rw [hm]
    dsimp only
    rw [hymd, htodNat, if_neg (not_lt.mpr hyear0), if_neg (not_lt.mpr hyear9999)]
    rfl
  · unfold CivilTime.milliseconds
    dsimp only
    rw [hcast, hdays]
    omega

/-- Reading a written time gives its millisecond, if the clock holds the beginning of it. -/
theorem parse_format_iff (t : TimePoint) :
    (∃ t', parseIso8601Utc (formatIso8601Utc t) = .ok t' ∧
      t'.nanoseconds.toInt = t.milliseconds * 1000000) ↔
      InClock t.milliseconds := by
  obtain ⟨c, htext, hms⟩ := exists_civilTime t
  rw [htext, c.parse_text, ← hms, ← c.instant_iff]
  constructor
  · rintro ⟨t', ht', h⟩
    cases ht'
    exact h
  · exact fun h => ⟨c.instant, rfl, h⟩

/-- The written form of a civil time's instant is its text, if the clock holds the instant. -/
theorem format_instant_iff (c : CivilTime) : formatIso8601Utc c.instant = c.text ↔
    InClock c.milliseconds := by
  obtain ⟨d, htext, hms⟩ := exists_civilTime c.instant
  rw [htext]
  constructor
  · intro h
    obtain rfl := CivilTime.text_injective h
    -- the two differ by less than a millisecond, and by a multiple of 2^64
    unfold TimePoint.milliseconds at hms
    rw [d.instant_nanoseconds, toInt_ofInt] at hms
    unfold InClock
    unfold Int.bmod at hms
    dsimp only at hms
    split at hms <;> omega
  · intro h
    have hnanoseconds := c.instant_iff.mpr h
    unfold TimePoint.milliseconds at hms
    rw [hnanoseconds, Int.mul_ediv_cancel _ (by decide)] at hms
    rw [CivilTime.milliseconds_injective hms]

theorem allDigits_concat {s : Bytes} {c : UInt8} (h : allDigits (s ++ [c]) = true) :
    allDigits s = true ∧ 0x30 ≤ c.toNat ∧ c.toNat ≤ 0x39 := by
  rw [allDigits_append, Bool.and_eq_true] at h
  obtain ⟨hs, hc⟩ := h
  simp only [allDigits, List.all_cons, List.all_nil, Bool.and_true, Bool.and_eq_true,
    decide_eq_true_eq, UInt8.le_iff_toNat_le] at hc
  exact ⟨hs, hc.1, hc.2⟩

theorem parseFixedWidth_concat (s : Bytes) (c : UInt8) :
    parseFixedWidth (s ++ [c]) = parseFixedWidth s * 10 + (c.toNat - 0x30) := List.foldl_concat ..

theorem parseFixedWidth_lt {s : Bytes} (h : allDigits s = true) :
    parseFixedWidth s < 10 ^ s.length := by
  induction s using List.reverseRecOn with
  | nil => exact Nat.one_pos
  | append_singleton s c ih =>
    obtain ⟨hs, hlow, hhigh⟩ := allDigits_concat h
    have hlt := ih hs
    rw [parseFixedWidth_concat, List.length_append, List.length_singleton, Nat.pow_succ]
    omega

/-- A field is the writing of its number. -/
theorem fixedWidth_parseFixedWidth {s : Bytes} (h : allDigits s = true) :
    fixedWidth s.length (parseFixedWidth s) = s := by
  induction s using List.reverseRecOn with
  | nil => rfl
  | append_singleton s c ih =>
    obtain ⟨hs, hlow, hhigh⟩ := allDigits_concat h
    have hquotient : (parseFixedWidth s * 10 + (c.toNat - 0x30)) / 10 = parseFixedWidth s := by
      omega
    have hdigit : UInt8.ofNat (0x30 + (parseFixedWidth s * 10 + (c.toNat - 0x30)) % 10) = c := by
      have hsame : 0x30 + (parseFixedWidth s * 10 + (c.toNat - 0x30)) % 10 = c.toNat := by omega
      rw [hsame, UInt8.ofNat_toNat]
    rw [parseFixedWidth_concat, List.length_append, List.length_singleton, fixedWidth, hquotient,
      hdigit, ih hs]

/-- Zeros after a field are a power of ten. -/
theorem fixedWidth_scaled (width zeros n : Nat) :
    fixedWidth (width + zeros) (n * 10 ^ zeros) = fixedWidth width n ++
      List.replicate zeros 0x30 := by
  induction zeros with
  | zero => rw [Nat.add_zero, Nat.pow_zero, Nat.mul_one, List.replicate_zero, List.append_nil]
  | succ zeros ih =>
    have hquotient : n * (10 ^ zeros * 10) / 10 = n * 10 ^ zeros := by
      rw [← Nat.mul_assoc, Nat.mul_div_cancel _ (by decide)]
    have hremainder : n * (10 ^ zeros * 10) % 10 = 0 := by
      rw [← Nat.mul_assoc, Nat.mul_mod_left]
    rw [← Nat.add_assoc, fixedWidth, Nat.pow_succ, hquotient, hremainder, ih, List.append_assoc,
      List.replicate_succ']
    rfl

theorem slice_field {s : Bytes} {pos len : Nat} {c : UInt8} (h : s[pos + len]? = some c)
    (rest : Nat) :
    slice s pos (len + (rest + 1)) = slice s pos len ++ c :: slice s (pos + len + 1) rest := by
  obtain ⟨hlt, hget⟩ := List.getElem?_eq_some_iff.mp h
  unfold slice
  rw [List.take_add, List.drop_drop, List.drop_eq_getElem_cons hlt, hget, List.take_succ_cons]

theorem slice_length {s : Bytes} {pos len : Nat} (h : pos + len ≤ s.length) :
    (slice s pos len).length = len := by
  unfold slice
  rw [List.length_take, List.length_drop]
  omega

/-- The text with the digits of its fraction padded to three. -/
def padded (s : Bytes) : Bytes :=
  let frac := slice s 20 (s.length - 21)
  s.take 19 ++ 0x2E :: (frac ++ List.replicate (3 - frac.length) 0x30 ++ [0x5A])

/-- What a text must be to be read. -/
structure Accepted (s : Bytes) (millisecond : Nat) : Prop where
  length : s.length = 20 ∨ s.length = 22 ∨ s.length = 23 ∨ s.length = 24
  separators : s[4]? = some 0x2D ∧ s[7]? = some 0x2D ∧ s[10]? = some 0x54 ∧ s[13]? = some 0x3A ∧
    s[16]? = some 0x3A
  year : allDigits (slice s 0 4) = true
  month : allDigits (slice s 5 2) = true
  day : allDigits (slice s 8 2) = true
  hour : allDigits (slice s 11 2) = true
  minute : allDigits (slice s 14 2) = true
  second : allDigits (slice s 17 2) = true
  fraction : parseFraction s = .ok millisecond
  hour_le : parseFixedWidth (slice s 11 2) ≤ 23
  minute_le : parseFixedWidth (slice s 14 2) ≤ 59
  second_le : parseFixedWidth (slice s 17 2) ≤ 59
  date : (⟨parseFixedWidth (slice s 0 4), parseFixedWidth (slice s 5 2),
    parseFixedWidth (slice s 8 2)⟩ : YearMonthDay).ok = true

/-- A check that did not refuse. -/
theorem of_guard {p : Prop} [Decidable p] {e : Error} {rest : Result TimePoint} {t : TimePoint}
    (h : (if p then .error e else rest) = .ok t) : ¬ p ∧ rest = .ok t := by
  by_cases hp : p
  · rw [if_pos hp] at h
    cases h
  · exact ⟨hp, by rwa [if_neg hp] at h⟩

theorem accepted_of_parse {s : Bytes} {t : TimePoint} (h : parseIso8601Utc s = .ok t) :
    ∃ millisecond, Accepted s millisecond ∧
      t = timeOfParts ⟨parseFixedWidth (slice s 0 4), parseFixedWidth (slice s 5 2),
        parseFixedWidth (slice s 8 2)⟩
        (parseFixedWidth (slice s 11 2)) (parseFixedWidth (slice s 14 2))
          (parseFixedWidth (slice s 17 2)) millisecond := by
  unfold parseIso8601Utc at h
  obtain ⟨-, h⟩ := of_guard h
  obtain ⟨hlength, h⟩ := of_guard h
  obtain ⟨hseparators, h⟩ := of_guard h
  obtain ⟨hfields, h⟩ := of_guard h
  cases hfraction : parseFraction s with
  | error e =>
    rw [hfraction] at h
    cases h
  | ok millisecond =>
    rw [hfraction, ok_bind] at h
    obtain ⟨-, h⟩ := of_guard h
    obtain ⟨-, h⟩ := of_guard h
    obtain ⟨hhour, h⟩ := of_guard h
    obtain ⟨hminute, h⟩ := of_guard h
    obtain ⟨hsecond, h⟩ := of_guard h
    dsimp only at h
    by_cases hok : (⟨parseFixedWidth (slice s 0 4), parseFixedWidth (slice s 5 2),
        parseFixedWidth (slice s 8 2)⟩ : YearMonthDay).ok = true
    · rw [if_pos hok] at h
      cases h
      simp only [List.all_cons, List.all_nil, Bool.and_true, Bool.not_eq_true', Bool.not_eq_false,
        Bool.and_eq_true] at hfields
      obtain ⟨hyear, hmonth, hday, hhourDigits, hminuteDigits, hsecondDigits⟩ := hfields
      push Not at hseparators hlength
      obtain ⟨h4, h7, h10, h13, h16, -⟩ := hseparators
      exact ⟨millisecond,
        { length := by
            by_contra hno
            push Not at hno
            exact hno.2.2.2 (hlength hno.1 hno.2.1 hno.2.2.1)
          separators := ⟨h4, h7, h10, h13, h16⟩
          year := hyear
          month := hmonth
          day := hday
          hour := hhourDigits
          minute := hminuteDigits
          second := hsecondDigits
          fraction := hfraction
          hour_le := Nat.not_lt.mp hhour
          minute_le := Nat.not_lt.mp hminute
          second_le := Nat.not_lt.mp hsecond
          date := hok }, rfl⟩
    · rw [if_neg hok] at h
      cases h

namespace Accepted

variable {s : Bytes} {millisecond : Nat}

theorem length_ge (h : Accepted s millisecond) : 20 ≤ s.length := by
  have := h.length
  omega

theorem head (h : Accepted s millisecond) :
    s.take 19 = slice s 0 4 ++ 0x2D ::
      (slice s 5 2 ++ 0x2D :: (slice s 8 2 ++ 0x54 :: (slice s 11 2 ++ 0x3A ::
      (slice s 14 2 ++ 0x3A :: slice s 17 2)))) := by
  obtain ⟨h4, h7, h10, h13, h16⟩ := h.separators
  change slice s 0 (4 + (14 + 1)) = _
  rw [slice_field h4]
  congr 2
  change slice s 5 (2 + (11 + 1)) = _
  rw [slice_field h7]
  congr 2
  change slice s 8 (2 + (8 + 1)) = _
  rw [slice_field h10]
  congr 2
  change slice s 11 (2 + (5 + 1)) = _
  rw [slice_field h13]
  congr 2
  change slice s 14 (2 + (2 + 1)) = _
  rw [slice_field h16]

/-- The fraction is a number of milliseconds, written without its last zeros. -/
theorem fraction_text (h : Accepted s millisecond) :
    millisecond < 1000 ∧ fixedWidth 3 millisecond =
      slice s 20 (s.length - 21) ++
        List.replicate (3 - (slice s 20 (s.length - 21)).length) 0x30 := by
  have hfraction := h.fraction
  have hlength := h.length
  unfold parseFraction at hfraction
  split at hfraction
  · cases hfraction
    have hempty : slice s 20 (s.length - 21) = [] :=
      List.length_eq_zero_iff.mp (by rw [slice, List.length_take]; omega)
    rw [hempty]
    exact ⟨by decide, by decide⟩
  · split at hfraction
    · cases hfraction
    dsimp only at hfraction
    split at hfraction
    · rename_i hdigits
      have hfrac : (slice s 20 (s.length - 21)).length = s.length - 21 := slice_length (by omega)
      have hlt := parseFixedWidth_lt hdigits
      have hwritten := fixedWidth_parseFixedWidth hdigits
      have hscaled := fixedWidth_scaled (s.length - 21) (3 - (s.length - 21))
        (parseFixedWidth (slice s 20 (s.length - 21)))
      rw [hfrac] at hlt hwritten ⊢
      rw [hwritten] at hscaled
      cases hfraction
      obtain h | h | h : s.length - 21 = 1 ∨ s.length - 21 = 2 ∨ s.length - 21 = 3 := by omega
      all_goals
        rw [h] at hscaled hlt ⊢
        refine ⟨?_, hscaled⟩
        norm_num at hlt ⊢
        omega
    · cases hfraction

/-- The date and time of day that an accepted text spells. -/
theorem exists_civilTime (h : Accepted s millisecond) :
    ∃ c : CivilTime, padded s = c.text ∧
      c.instant = timeOfParts ⟨parseFixedWidth (slice s 0 4), parseFixedWidth (slice s 5 2),
        parseFixedWidth (slice s 8 2)⟩
        (parseFixedWidth (slice s 11 2)) (parseFixedWidth (slice s 14 2))
          (parseFixedWidth (slice s 17 2)) millisecond := by
  obtain ⟨hmillisecond, hfraction⟩ := h.fraction_text
  have hlength := h.length_ge
  have hfield : ∀ {pos len : Nat}, pos + len ≤ 20 → allDigits (slice s pos len) = true →
      fixedWidth len (parseFixedWidth (slice s pos len)) = slice s pos len := by
    intro pos len hin hdigits
    have hwritten := fixedWidth_parseFixedWidth hdigits
    rwa [slice_length (hin.trans hlength)] at hwritten
  have hyear := parseFixedWidth_lt h.year
  rw [slice_length (by omega)] at hyear
  refine ⟨{ year := parseFixedWidth (slice s 0 4)
            month := parseFixedWidth (slice s 5 2)
            day := parseFixedWidth (slice s 8 2)
            hour := parseFixedWidth (slice s 11 2)
            minute := parseFixedWidth (slice s 14 2)
            second := parseFixedWidth (slice s 17 2)
            millisecond
            year_lt := hyear
            date := h.date
            hour_lt := Nat.lt_succ_of_le h.hour_le
            minute_lt := Nat.lt_succ_of_le h.minute_le
            second_lt := Nat.lt_succ_of_le h.second_le
            millisecond_lt := hmillisecond }, ?_, rfl⟩
  unfold padded CivilTime.text isoText isoShape
  dsimp only
  rw [h.head, hfield (by decide) h.year, hfield (by decide) h.month, hfield (by decide) h.day,
    hfield (by decide) h.hour, hfield (by decide) h.minute, hfield (by decide) h.second, hfraction]
  simp only [List.append_assoc, List.cons_append]

end Accepted

/-- A time that is read is the instant of the date and time of day that the text spells. -/
theorem parse_civilTime {s : Bytes} {t : TimePoint} (h : parseIso8601Utc s = .ok t) :
    ∃ c : CivilTime, padded s = c.text ∧ t = c.instant := by
  obtain ⟨millisecond, haccepted, rfl⟩ := accepted_of_parse h
  obtain ⟨c, htext, hinstant⟩ := haccepted.exists_civilTime
  exact ⟨c, htext, hinstant.symm⟩

/-- Times and texts go over into each other while the clock holds the millisecond: a time at its
written form, a text at the instant that it spells. -/
theorem timestamps_round_trip (t : TimePoint) (s : Bytes) :
    ((∃ t', parseIso8601Utc (formatIso8601Utc t) = .ok t' ∧
      t'.nanoseconds.toInt = t.milliseconds * 1000000) ↔
      InClock t.milliseconds) ∧
    (∀ read, parseIso8601Utc s = .ok read → ∃ c : CivilTime, padded s = c.text ∧
      (read.nanoseconds.toInt = c.milliseconds * 1000000 ↔ InClock c.milliseconds) ∧
      (formatIso8601Utc read = padded s ↔ InClock c.milliseconds)) := by
  refine ⟨parse_format_iff t, fun read h => ?_⟩
  obtain ⟨c, htext, rfl⟩ := parse_civilTime h
  exact ⟨c, htext, c.instant_iff, htext ▸ format_instant_iff c⟩

/-- A tenth of a second is padded to milliseconds. -/
theorem timestamps_round_trip_tenth : ∃ c : CivilTime,
    padded (text "2026-01-02T03:04:05.6Z") = c.text ∧
    ((⟨1767323045600000000⟩ : TimePoint).nanoseconds.toInt = c.milliseconds * 1000000 ↔
      InClock c.milliseconds) ∧
    (formatIso8601Utc ⟨1767323045600000000⟩ = padded (text "2026-01-02T03:04:05.6Z") ↔
      InClock c.milliseconds) :=
  (timestamps_round_trip ⟨0⟩ _).2 _ (by decide +kernel)

/-- The year 2300 is read as a time of 1715, and the first nanoseconds of the clock are written as a
text that is read as its last. -/
theorem timestamps_wrap :
    parseIso8601Utc (text "2300-01-01T00:00:00Z") = .ok ⟨-8032952073709551616⟩ ∧
    formatIso8601Utc ⟨-8032952073709551616⟩ = text "1715-06-13T00:25:26.290Z" ∧
    ¬ (∀ s t, parseIso8601Utc s = .ok t → formatIso8601Utc t = padded s) ∧
    parseIso8601Utc (formatIso8601Utc ⟨-9223372036854775808⟩) = .ok ⟨9223372036854551616⟩ := by
  have hbytes : text "2300-01-01T00:00:00Z" = [50, 51, 48, 48, 45, 48, 49, 45, 48, 49, 84, 48, 48,
      58, 48, 48, 58, 48, 48, 90] := by decide +kernel
  have hread : parseIso8601Utc (text "2300-01-01T00:00:00Z") = .ok ⟨-8032952073709551616⟩ := by
    rw [hbytes]
    decide +kernel
  have hwritten : formatIso8601Utc ⟨-8032952073709551616⟩ = text "1715-06-13T00:25:26.290Z" := by
    decide +kernel
  refine ⟨hread, hwritten, fun hall => ?_, by decide +kernel⟩
  have hsame := hall _ _ hread
  rw [hwritten, hbytes] at hsame
  exact absurd hsame (by decide +kernel)

end Orangutan.Core
