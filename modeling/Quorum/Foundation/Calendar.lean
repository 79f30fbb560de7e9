import Mathlib

/-!
# Dates

A date is a number of milliseconds since 1 January 1970, which the Gregorian calendar turns into a
year, a month, a day and a time of day. The functions follow the definitions of the language: the
first day of a year by counting leap years, the year of a day by an estimate that is off by one at
most, the month by the lengths of the months. The calendar date and the time of day give the
number back.
-/

namespace Foundation

/-! ## Years -/

/-- Number of the first day of a year. -/
def dayFromYear (y : ℤ) : ℤ :=
  365 * (y - 1970) + (y - 1969) / 4 - (y - 1901) / 100 + (y - 1601) / 400

/-- Whether a year has a 29 February. -/
def isLeapYear (y : ℤ) : Bool := decide (y % 4 = 0 ∧ (y % 100 ≠ 0 ∨ y % 400 = 0))

/-- The lengths of the months of a year. -/
def monthLengths (y : ℤ) : List ℕ :=
  [31, if isLeapYear y then 29 else 28, 31, 30, 31, 30, 31, 31, 30, 31, 30, 31]

/-- The year of a day. -/
def yearFromDay (d : ℤ) : ℤ :=
  let y := 400 * d / 146097 + 1970
  if d < dayFromYear y then y - 1 else if dayFromYear (y + 1) ≤ d then y + 1 else y

/-- The months of a year have 365 days, or 366 in a leap year. -/
theorem sum_monthLengths (y : ℤ) :
    (monthLengths y).sum = if isLeapYear y then 366 else 365 := by
  cases h : isLeapYear y <;> simp [monthLengths, h]

/-- The years follow one another without a gap. -/
theorem dayFromYear_succ (y : ℤ) : dayFromYear (y + 1) = dayFromYear y + (monthLengths y).sum := by
  rw [sum_monthLengths]
  by_cases h : isLeapYear y = true
  · rw [if_pos h]
    simp only [isLeapYear, decide_eq_true_eq] at h
    unfold dayFromYear
    omega
  · rw [if_neg h]
    simp only [isLeapYear, decide_eq_true_eq] at h
    unfold dayFromYear
    omega

/-- A day lies in its year. -/
theorem yearFromDay_spec (d : ℤ) :
    dayFromYear (yearFromDay d) ≤ d ∧ d < dayFromYear (yearFromDay d + 1) := by
  simp only [yearFromDay]
  by_cases hearly : d < dayFromYear (400 * d / 146097 + 1970)
  · rw [if_pos hearly, sub_add_cancel]
    refine ⟨?_, hearly⟩
    unfold dayFromYear
    omega
  · rw [if_neg hearly]
    by_cases hlate : dayFromYear (400 * d / 146097 + 1970 + 1) ≤ d
    · rw [if_pos hlate]
      refine ⟨hlate, ?_⟩
      unfold dayFromYear
      omega
    · rw [if_neg hlate]
      omega

/-! ## Days -/

/-- The part of a whole in which a position lies, and the place of the position in it. -/
def locate : List ℕ → ℕ → ℕ × ℕ
  | [], n => (0, n)
  | length :: lengths, n =>
    if n < length then (0, n)
    else
      let within := locate lengths (n - length)
      (within.1 + 1, within.2)

/-- The parts before the one found and the place in it make up the position. -/
theorem locate_spec {lengths : List ℕ} {n : ℕ} (h : n < lengths.sum) :
    (locate lengths n).1 < lengths.length ∧
      (locate lengths n).2 < lengths.getD (locate lengths n).1 0 ∧
      (lengths.take (locate lengths n).1).sum + (locate lengths n).2 = n := by
  induction lengths generalizing n with
  | nil => contradiction
  | cons length lengths ih =>
    rw [List.sum_cons] at h
    by_cases hn : n < length
    · simp [locate, hn]
    · obtain ⟨hpart, hplace, hsum⟩ := ih (n := n - length) (by omega)
      simp only [locate, if_neg hn, List.length_cons, List.getD_cons_succ, List.take_succ_cons,
        List.sum_cons]
      exact ⟨by omega, hplace, by omega⟩

/-- A day of the calendar. Months count from 0, days from 1. -/
structure CalendarDate where
  year : ℤ
  month : ℕ
  day : ℕ
  deriving DecidableEq

/-- The date of a day. -/
def dateFromDay (d : ℤ) : CalendarDate :=
  let y := yearFromDay d
  let within := locate (monthLengths y) (d - dayFromYear y).toNat
  ⟨y, within.1, within.2 + 1⟩

/-- The number of the day of a date. -/
def makeDay (date : CalendarDate) : ℤ :=
  dayFromYear date.year + ((monthLengths date.year).take date.month).sum + date.day - 1

/-- A date that is in the calendar. -/
structure CalendarDate.Valid (date : CalendarDate) : Prop where
  month : date.month < 12
  first : 1 ≤ date.day
  last : date.day ≤ (monthLengths date.year).getD date.month 0

/-- No month has more than 31 days. -/
theorem CalendarDate.Valid.day_le {date : CalendarDate} (h : date.Valid) : date.day ≤ 31 := by
  have hlengths : ∀ length ∈ monthLengths date.year, length ≤ 31 := by
    intro length hlength
    simp only [monthLengths, List.mem_cons, List.not_mem_nil, or_false] at hlength
    split at hlength <;> omega
  have hmonth : date.month < (monthLengths date.year).length := h.month
  have hlast := h.last
  rw [List.getD_eq_getElem?_getD, List.getElem?_eq_getElem hmonth, Option.getD_some] at hlast
  exact hlast.trans (hlengths _ (List.getElem_mem hmonth))

/-- The day in its year is within the months of the year. -/
theorem dayInYear_lt (d : ℤ) :
    (d - dayFromYear (yearFromDay d)).toNat < (monthLengths (yearFromDay d)).sum := by
  have hspec := yearFromDay_spec d
  rw [dayFromYear_succ] at hspec
  omega

/-- Every day has a valid date. -/
theorem dateFromDay_valid (d : ℤ) : (dateFromDay d).Valid := by
  obtain ⟨hmonth, hday, -⟩ := locate_spec (dayInYear_lt d)
  exact ⟨hmonth, Nat.le_add_left 1 _, hday⟩

/-- A day is the day of its date. -/
theorem makeDay_dateFromDay (d : ℤ) : makeDay (dateFromDay d) = d := by
  obtain ⟨-, -, hsum⟩ := locate_spec (dayInYear_lt d)
  have hspec := yearFromDay_spec d
  simp only [makeDay, dateFromDay]
  omega

/-! ## Times -/

/-- A date with a time of day. -/
structure DateFields extends CalendarDate where
  hours : ℕ
  minutes : ℕ
  seconds : ℕ
  milliseconds : ℕ
  deriving DecidableEq

/-- Date and time of day of a time value. -/
def fieldsOf (t : ℤ) : DateFields :=
  let r := (t % 86400000).toNat
  ⟨dateFromDay (t / 86400000), r / 3600000, r / 60000 % 60, r / 1000 % 60, r % 1000⟩

/-- The time value of a date with a time of day. -/
def makeTime (fields : DateFields) : ℤ :=
  makeDay fields.toCalendarDate * 86400000 +
    (fields.hours * 3600000 + fields.minutes * 60000 + fields.seconds * 1000 +
      fields.milliseconds : ℕ)

/-- A date in the calendar with a time on the clock. -/
structure DateFields.Valid (fields : DateFields) : Prop extends fields.toCalendarDate.Valid where
  hours : fields.hours < 24
  minutes : fields.minutes < 60
  seconds : fields.seconds < 60
  milliseconds : fields.milliseconds < 1000

/-- Every time has valid fields. -/
theorem fieldsOf_valid (t : ℤ) : (fieldsOf t).Valid where
  toValid := dateFromDay_valid _
  hours := by
    simp only [fieldsOf]
    omega
  minutes := Nat.mod_lt _ (by decide)
  seconds := Nat.mod_lt _ (by decide)
  milliseconds := Nat.mod_lt _ (by decide)

/-- A time value is the one of its date and time of day. -/
theorem makeTime_fieldsOf (t : ℤ) : makeTime (fieldsOf t) = t := by
  simp only [makeTime, fieldsOf, makeDay_dateFromDay]
  omega

end Foundation
