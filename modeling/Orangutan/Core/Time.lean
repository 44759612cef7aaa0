import Orangutan.Core.Json

/-!
# Times and their texts

An absolute time counts nanoseconds from 1970 in 64 bits. Rows and records hold its text in
UTC, cut to milliseconds.
-/

namespace Orangutan.Core

set_option autoImplicit false

/-- `core::Time`. -/
structure TimePoint where
  nanoseconds : Int64
  deriving DecidableEq, Repr

/-- The days from 1970-01-01 to a date, by eras of 400 years that begin in March. -/
def daysFromCivil (year : Int) (month day : Nat) : Int :=
  let y := if month ≤ 2 then year - 1 else year
  let era := y / 400
  let yearOfEra := y % 400
  let dayOfYear : Int := (153 * (if month > 2 then month - 3 else month + 9) + 2) / 5 + day - 1
  let dayOfEra := yearOfEra * 365 + yearOfEra / 4 - yearOfEra / 100 + dayOfYear
  era * 146097 + dayOfEra - 719468

structure YearMonthDay where
  year : Int
  month : Nat
  day : Nat
  deriving DecidableEq

def civilFromDays (days : Int) : YearMonthDay :=
  let z := days + 719468
  let era := z / 146097
  let dayOfEra := z % 146097
  let yearOfEra := (dayOfEra - dayOfEra / 1460 + dayOfEra / 36524 - dayOfEra / 146096) / 365
  let dayOfYear := dayOfEra - (365 * yearOfEra + yearOfEra / 4 - yearOfEra / 100)
  let shifted := (5 * dayOfYear + 2) / 153
  let day := (dayOfYear - (153 * shifted + 2) / 5 + 1).toNat
  let month := (if shifted < 10 then shifted + 3 else shifted - 9).toNat
  let year := yearOfEra + era * 400
  { year := if month ≤ 2 then year + 1 else year, month, day }

def isLeap (year : Int) : Bool := year % 4 = 0 && (year % 100 ≠ 0 || year % 400 = 0)

def lastDayOfMonth (year : Int) (month : Nat) : Nat :=
  if month = 2 then (if isLeap year then 29 else 28)
  else if month = 4 ∨ month = 6 ∨ month = 9 ∨ month = 11 then 30
  else 31

/-- `year_month_day::ok`. -/
def YearMonthDay.ok (ymd : YearMonthDay) : Bool :=
  1 ≤ ymd.month && ymd.month ≤ 12 && 1 ≤ ymd.day && ymd.day ≤ lastDayOfMonth ymd.year ymd.month

/-- A number of so many digits at most, with leading zeros. -/
def fixedWidth : Nat → Nat → Bytes
  | 0, _ => []
  | width + 1, n => fixedWidth width (n / 10) ++ [UInt8.ofNat (0x30 + n % 10)]

/-- `YYYY-MM-DDTHH:MM:SS.fffZ`. -/
def isoShape (year month day hour minute second millisecond : Bytes) : Bytes :=
  year ++ 0x2D :: (month ++ 0x2D ::
    (day ++ 0x54 :: (hour ++ 0x3A :: (minute ++ 0x3A :: (second ++ 0x2E ::
    (millisecond ++ [0x5A]))))))

def isoText (year month day hour minute second millisecond : Nat) : Bytes :=
  isoShape (fixedWidth 4 year) (fixedWidth 2 month) (fixedWidth 2 day) (fixedWidth 2 hour)
    (fixedWidth 2 minute)
    (fixedWidth 2 second) (fixedWidth 3 millisecond)

/-- Milliseconds from 1970, rounded down. -/
def TimePoint.milliseconds (t : TimePoint) : Int := t.nanoseconds.toInt / 1000000

def formatIso8601Utc (t : TimePoint) : Bytes :=
  let ymd := civilFromDays (t.milliseconds / 86400000)
  let timeOfDay := (t.milliseconds % 86400000).toNat
  let year := if ymd.year < 0 then 0 else if ymd.year > 9999 then 9999 else ymd.year
  isoText year.toNat ymd.month ymd.day (timeOfDay / 3600000) (timeOfDay / 60000 % 60)
    (timeOfDay / 1000 % 60)
    (timeOfDay % 1000)

def allDigits (s : Bytes) : Bool := s.all fun c => 0x30 ≤ c && c ≤ 0x39

def parseFixedWidth (s : Bytes) : Nat := s.foldl (fun value c => value * 10 + (c.toNat - 0x30)) 0

/-- `substr` of a text. -/
def slice (s : Bytes) (pos len : Nat) : Bytes := (s.drop pos).take len

def parseError (message : String) (input : Bytes) : Error :=
    (Error.parsing message).note "input" input

/-- The digits after the point, as milliseconds. -/
def parseFraction (input : Bytes) : Result Nat :=
  if input.length ≤ 20 then .ok 0
  else if input[19]? ≠ some 0x2E
    then .error (parseError "iso8601: missing fractional separator" input)
  else
    let frac := slice input 20 (input.length - 21)
    if allDigits frac then .ok (parseFixedWidth frac * [0, 100, 10, 1].getD (input.length - 21) 0)
    else .error (parseError "iso8601: non-digit fraction" input)

/-- A date in the year 2262 or later leaves the range of the result. -/
def timeOfParts (ymd : YearMonthDay) (hour minute second millisecond : Nat) : TimePoint :=
  let milliseconds : Int :=
    daysFromCivil ymd.year ymd.month ymd.day * 86400000 + hour * 3600000 + minute * 60000 +
    second * 1000 + millisecond
  ⟨Int64.ofInt (milliseconds * 1000000)⟩

def parseIso8601Utc (input : Bytes) : Result TimePoint :=
  if input = [] then .error (.invalidArgument "empty iso8601 timestamp")
  else if input.length ≠ 20 ∧ input.length ≠ 22 ∧ input.length ≠ 23 ∧ input.length ≠ 24 then
    .error ((parseError "iso8601: unexpected length" input).note "length" (decimal input.length))
  else if input[4]? ≠ some 0x2D ∨ input[7]? ≠ some 0x2D ∨ input[10]? ≠ some 0x54 ∨
    input[13]? ≠ some 0x3A ∨
      input[16]? ≠ some 0x3A ∨ input.getLast? ≠ some 0x5A then
    .error (parseError "iso8601: bad separators" input)
  else if !([(0, 4), (5, 2), (8, 2), (11, 2), (14, 2), (17, 2)].all fun field =>
      allDigits (slice input field.1 field.2)) then
    .error (parseError "iso8601: non-digit field" input)
  else do
    let millisecond ← parseFraction input
    let year := parseFixedWidth (slice input 0 4)
    let month := parseFixedWidth (slice input 5 2)
    let day := parseFixedWidth (slice input 8 2)
    let hour := parseFixedWidth (slice input 11 2)
    let minute := parseFixedWidth (slice input 14 2)
    let second := parseFixedWidth (slice input 17 2)
    if month < 1 ∨ 12 < month then
      .error ((parseError "iso8601: month out of range" input).note "month" (decimal month))
    else if day < 1 ∨ 31 < day then
      .error ((parseError "iso8601: day out of range" input).note "day" (decimal day))
    else if 23 < hour then
      .error ((parseError "iso8601: hour out of range" input).note "hour" (decimal hour))
    else if 59 < minute then
      .error ((parseError "iso8601: minute out of range" input).note "minute" (decimal minute))
    else if 59 < second then
      .error ((parseError "iso8601: second out of range" input).note "second" (decimal second))
    else
      let ymd : YearMonthDay := { year, month, day }
      if ymd.ok then .ok (timeOfParts ymd hour minute second millisecond)
      else .error (parseError "iso8601: invalid calendar date" input)

theorem fixedWidth_length (width n : Nat) : (fixedWidth width n).length = width := by
  induction width generalizing n with
  | zero => rfl
  | succ width ih => rw [fixedWidth, List.length_append, ih, List.length_singleton]

theorem digit_toNat (n : Nat) : (UInt8.ofNat (0x30 + n % 10)).toNat = 0x30 + n % 10 := by
  rw [UInt8.toNat_ofNat']
  have := Nat.mod_lt n (by omega : 0 < 10)
  omega

theorem allDigits_append (s t : Bytes) : allDigits (s ++ t) = (allDigits s && allDigits t) :=
    List.all_append

theorem allDigits_fixedWidth (width n : Nat) : allDigits (fixedWidth width n) = true := by
  induction width generalizing n with
  | zero => rfl
  | succ width ih =>
    have hdigit := digit_toNat n
    have hlow : (0x30 : UInt8) ≤ UInt8.ofNat (0x30 + n % 10) := by
      rw [UInt8.le_iff_toNat_le, hdigit]
      exact Nat.le_add_right _ _
    have hhigh : UInt8.ofNat (0x30 + n % 10) ≤ 0x39 := by
      rw [UInt8.le_iff_toNat_le, hdigit]
      show 0x30 + n % 10 ≤ 0x39
      omega
    rw [fixedWidth, allDigits_append, ih, Bool.true_and]
    rw [allDigits, List.all_cons, List.all_nil, Bool.and_true, Bool.and_eq_true, decide_eq_true_eq,
      decide_eq_true_eq]
    exact ⟨hlow, hhigh⟩

theorem parseFixedWidth_fixedWidth (width n : Nat) :
    parseFixedWidth (fixedWidth width n) = n % 10 ^ width := by
  induction width generalizing n with
  | zero => rw [Nat.pow_zero, Nat.mod_one]; rfl
  | succ width ih =>
    have hsplit : parseFixedWidth (fixedWidth width (n / 10) ++ [UInt8.ofNat (0x30 + n % 10)]) =
        parseFixedWidth (fixedWidth width (n / 10)) * 10 +
          ((UInt8.ofNat (0x30 + n % 10)).toNat - 0x30) :=
      List.foldl_concat ..
    rw [fixedWidth, hsplit, ih, digit_toNat, Nat.pow_succ, Nat.mul_comm (10 ^ width) 10,
      Nat.mod_mul]
    omega

/-- What the reader of a text takes out of it. -/
structure HasShape (input year month day hour minute second millisecond : Bytes) : Prop where
  length : input.length = 24
  separators : input[4]? = some 0x2D ∧ input[7]? = some 0x2D ∧ input[10]? = some 0x54 ∧
    input[13]? = some 0x3A ∧
    input[16]? = some 0x3A ∧ input[19]? = some 0x2E ∧ input.getLast? = some 0x5A
  year : slice input 0 4 = year
  month : slice input 5 2 = month
  day : slice input 8 2 = day
  hour : slice input 11 2 = hour
  minute : slice input 14 2 = minute
  second : slice input 17 2 = second
  millisecond : slice input 20 3 = millisecond

theorem hasShape {year month day hour minute second millisecond : Bytes} (hyear : year.length = 4)
    (hmonth : month.length = 2) (hday : day.length = 2) (hhour : hour.length = 2)
      (hminute : minute.length = 2)
    (hsecond : second.length = 2) (hmillisecond : millisecond.length = 3) :
    HasShape (isoShape year month day hour minute second millisecond) year month day hour
      minute second
      millisecond := by
  obtain ⟨_, _, _, _, rfl⟩ := List.length_eq_four.mp hyear
  obtain ⟨_, _, rfl⟩ := List.length_eq_two.mp hmonth
  obtain ⟨_, _, rfl⟩ := List.length_eq_two.mp hday
  obtain ⟨_, _, rfl⟩ := List.length_eq_two.mp hhour
  obtain ⟨_, _, rfl⟩ := List.length_eq_two.mp hminute
  obtain ⟨_, _, rfl⟩ := List.length_eq_two.mp hsecond
  obtain ⟨_, _, _, rfl⟩ := List.length_eq_three.mp hmillisecond
  exact ⟨rfl, ⟨rfl, rfl, rfl, rfl, rfl, rfl, rfl⟩, rfl, rfl, rfl, rfl, rfl, rfl, rfl⟩

theorem isoText_shape (year month day hour minute second millisecond : Nat) :
    HasShape (isoText year month day hour minute second millisecond) (fixedWidth 4 year)
      (fixedWidth 2 month)
      (fixedWidth 2 day) (fixedWidth 2 hour) (fixedWidth 2 minute) (fixedWidth 2 second)
      (fixedWidth 3 millisecond) :=
  hasShape (fixedWidth_length ..) (fixedWidth_length ..) (fixedWidth_length ..)
    (fixedWidth_length ..)
    (fixedWidth_length ..) (fixedWidth_length ..) (fixedWidth_length ..)

/-- A date and time of day that the text can hold. -/
structure CivilTime where
  year : Nat
  month : Nat
  day : Nat
  hour : Nat
  minute : Nat
  second : Nat
  millisecond : Nat
  year_lt : year < 10000
  date : (⟨year, month, day⟩ : YearMonthDay).ok = true
  hour_lt : hour < 24
  minute_lt : minute < 60
  second_lt : second < 60
  millisecond_lt : millisecond < 1000

namespace CivilTime

def text (c : CivilTime) : Bytes :=
    isoText c.year c.month c.day c.hour c.minute c.second c.millisecond

def instant (c : CivilTime) : TimePoint :=
  timeOfParts ⟨c.year, c.month, c.day⟩ c.hour c.minute c.second c.millisecond

theorem month_range (c : CivilTime) : 1 ≤ c.month ∧ c.month ≤ 12 := by
  have h := c.date
  simp only [YearMonthDay.ok, Bool.and_eq_true, decide_eq_true_eq] at h
  exact h.1.1

theorem lastDayOfMonth_le (year : Int) (month : Nat) : lastDayOfMonth year month ≤ 31 := by
  unfold lastDayOfMonth
  split_ifs <;> omega

theorem day_range (c : CivilTime) : 1 ≤ c.day ∧ c.day ≤ 31 := by
  have h := c.date
  simp only [YearMonthDay.ok, Bool.and_eq_true, decide_eq_true_eq] at h
  exact ⟨h.1.2, h.2.trans (lastDayOfMonth_le _ _)⟩

theorem shape (c : CivilTime) :
    HasShape c.text (fixedWidth 4 c.year) (fixedWidth 2 c.month) (fixedWidth 2 c.day)
    (fixedWidth 2 c.hour) (fixedWidth 2 c.minute) (fixedWidth 2 c.second)
    (fixedWidth 3 c.millisecond) :=
  isoText_shape ..

theorem parseFraction_text (c : CivilTime) : parseFraction c.text = .ok c.millisecond := by
  have hlt := c.millisecond_lt
  have hdot : c.text[19]? = some 0x2E := c.shape.separators.2.2.2.2.2.1
  have hvalue : parseFixedWidth (fixedWidth 3 c.millisecond) * 1 = c.millisecond := by
    rw [parseFixedWidth_fixedWidth]
    omega
  rw [parseFraction, c.shape.length, if_neg (by omega), if_neg (fun h => h hdot),
    c.shape.millisecond, if_pos (allDigits_fixedWidth _ _)]
  exact congrArg Except.ok hvalue

/-- A field within its width is read as the number. -/
theorem parse_field {width n : Nat} {s : Bytes} (h : s = fixedWidth width n) (hn : n < 10 ^ width) :
    parseFixedWidth s = n := by
  rw [h, parseFixedWidth_fixedWidth, Nat.mod_eq_of_lt hn]

/-- The text of a time is read as that time. -/
theorem parse_text (c : CivilTime) : parseIso8601Utc c.text = .ok c.instant := by
  have hshape := c.shape
  obtain ⟨hmonth1, hmonth2⟩ := c.month_range
  obtain ⟨hday1, hday2⟩ := c.day_range
  have hyear := parse_field hshape.year c.year_lt
  have hmonth := parse_field hshape.month (by omega)
  have hday := parse_field hshape.day (by omega)
  have hhour := parse_field hshape.hour (by have := c.hour_lt; omega)
  have hminute := parse_field hshape.minute (by have := c.minute_lt; omega)
  have hsecond := parse_field hshape.second (by have := c.second_lt; omega)
  have hfields : ([(0, 4), (5, 2), (8, 2), (11, 2), (14, 2), (17, 2)].all fun field =>
      allDigits (slice c.text field.1 field.2)) = true := by
    simp only [List.all_cons, List.all_nil, hshape.year, hshape.month, hshape.day, hshape.hour,
      hshape.minute, hshape.second, allDigits_fixedWidth, Bool.and_self]
  have hne : c.text ≠ [] := by
    intro h
    have hlength := hshape.length
    rw [h] at hlength
    cases hlength
  have hseparators : ¬ (c.text[4]? ≠ some 0x2D ∨ c.text[7]? ≠ some 0x2D ∨ c.text[10]? ≠ some 0x54 ∨
      c.text[13]? ≠ some 0x3A ∨ c.text[16]? ≠ some 0x3A ∨ c.text.getLast? ≠ some 0x5A) := by
    obtain ⟨h4, h7, h10, h13, h16, -, hlast⟩ := hshape.separators
    simp only [h4, h7, h10, h13, h16, hlast, ne_eq, not_true_eq_false, or_self, not_false_eq_true]
  rw [parseIso8601Utc, if_neg hne, hshape.length, if_neg (by omega), if_neg hseparators, hfields,
    if_neg (by decide), c.parseFraction_text, ok_bind]
  simp only [hyear, hmonth, hday, hhour, hminute, hsecond]
  have hhour_lt := c.hour_lt
  have hminute_lt := c.minute_lt
  have hsecond_lt := c.second_lt
  rw [if_neg (by omega), if_neg (by omega), if_neg (by omega), if_neg (by omega), if_neg (by omega),
    if_pos c.date]
  rfl

end CivilTime

end Orangutan.Core
