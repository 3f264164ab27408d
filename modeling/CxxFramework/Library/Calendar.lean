import Mathlib.Data.Fin.Basic
import Mathlib.Tactic.IntervalCases

/-!
# The Gregorian calendar

Dates of the proleptic Gregorian calendar, and the days counted from 1 January 1970.

## Main definitions

* `dayNumber` — the day of a date.
* `ofDayNumber` — the date of a day.
-/

namespace CxxFramework.Calendar

/-- A day of a month of a year. Days that the month does not have are counted on. -/
structure Date where
  year : Int
  month : Fin 12
  day : Int
deriving DecidableEq, Repr

def isLeapYear (year : Int) : Bool := year % 4 = 0 && (year % 100 ≠ 0 || year % 400 = 0)

/-- The days from 1 January of the year 1 to 1 January of a year. -/
def daysBeforeYear (year : Int) : Int :=
  365 * (year - 1) + (year - 1) / 4 - (year - 1) / 100 + (year - 1) / 400

instance neZero_months : NeZero 12 := ⟨by decide⟩

/-- The days of a year before the first one of a month. -/
def daysBeforeMonth (leap : Bool) (month : Fin 12) : Int :=
  [0, 31, 59, 90, 120, 151, 181, 212, 243, 273, 304, 334].get month +
    if leap && 2 ≤ month then 1 else 0

/-- The days from 1 January of the year 1 to 1 January 1970. -/
def epoch : Int := 719162

/-- The days from 1 January 1970 to a date. -/
def dayNumber (date : Date) : Int :=
  daysBeforeYear date.year + daysBeforeMonth (isLeapYear date.year) date.month +
    (date.day - 1) - epoch

/-- The years in front of a day of the year 1 or later, and the days since the last of them.
Of four centuries, and of four years, only the last one can be longer by a day. -/
def splitYear (days : Int) : Int × Int :=
  let ofEra := days % 146097
  let century := min (ofEra / 36524) 3
  let ofCentury := ofEra - 36524 * century
  let ofLeap := ofCentury % 1461
  let single := min (ofLeap / 365) 3
  (400 * (days / 146097) + 100 * century + 4 * (ofCentury / 1461) + single,
    ofLeap - 365 * single)

/-- The last month that starts on a day of the year or in front of it. -/
def monthOf (leap : Bool) (yday : Int) : Fin 12 :=
  ((List.finRange 12).reverse.find? fun month => daysBeforeMonth leap month ≤ yday).getD 0

/-- The date of a day counted from 1 January 1970. -/
def ofDayNumber (number : Int) : Date :=
  let split := splitYear (number + epoch)
  let year := split.1 + 1
  let month := monthOf (isLeapYear year) split.2
  { year, month, day := split.2 - daysBeforeMonth (isLeapYear year) month + 1 }

/-! ## Years -/

/-- A day in eras of 400 years, centuries, spans of four years, single years and days. -/
structure Split (days era century leap single rest : Int) : Prop where
  sum : days = 146097 * era + 36524 * century + 1461 * leap + 365 * single + rest
  century_range : 0 ≤ century ∧ century ≤ 3
  leap_range : 0 ≤ leap ∧ leap ≤ 24
  single_range : 0 ≤ single ∧ single ≤ 3
  rest_range : 0 ≤ rest ∧ rest ≤ 365
  /-- Only a leap year has a day with the number 365. -/
  last : rest = 365 → single = 3 ∧ (leap < 24 ∨ century = 3)

theorem exists_split (days : Int) : ∃ era century leap single rest,
    Split days era century leap single rest ∧
      splitYear days = (400 * era + 100 * century + 4 * leap + single, rest) := by
  refine ⟨_, _, _, _, _, ⟨?_, ?_, ?_, ?_, ?_, ?_⟩, rfl⟩
  all_goals omega

variable {days era century leap single rest : Int}

theorem Split.year_div (h : Split days era century leap single rest) :
    (400 * era + 100 * century + 4 * leap + single) / 4 = 100 * era + 25 * century + leap ∧
      (400 * era + 100 * century + 4 * leap + single) / 100 = 4 * era + century ∧
      (400 * era + 100 * century + 4 * leap + single) / 400 = era := by
  obtain ⟨-, hcentury, hleap, hsingle, -, -⟩ := h
  omega

/-- The last of four years is a leap year, unless it ends a century that does not end an era. -/
theorem Split.isLeapYear_iff (h : Split days era century leap single rest) :
    isLeapYear (400 * era + 100 * century + 4 * leap + single + 1) = true ↔
      single = 3 ∧ (leap < 24 ∨ century = 3) := by
  obtain ⟨-, hcentury, hleap, hsingle, -, -⟩ := h
  simp only [isLeapYear, Bool.and_eq_true, Bool.or_eq_true, decide_eq_true_eq]
  omega

/-- The years and the days of a split are those of the day that is split. -/
theorem daysBeforeYear_splitYear (days : Int) :
    daysBeforeYear ((splitYear days).1 + 1) + (splitYear days).2 = days := by
  obtain ⟨era, century, leap, single, rest, h, hsplit⟩ := exists_split days
  obtain ⟨hfour, hcentury, hera⟩ := h.year_div
  have hsum := h.sum
  simp only [hsplit, daysBeforeYear, add_sub_cancel_right, hfour, hcentury, hera]
  omega

/-- The day of the year is inside the year. -/
theorem splitYear_range (days : Int) : 0 ≤ (splitYear days).2 ∧
    (splitYear days).2 < 365 + if isLeapYear ((splitYear days).1 + 1) then 1 else 0 := by
  obtain ⟨era, century, leap, single, rest, h, hsplit⟩ := exists_split days
  have hrange := h.rest_range
  have hleap := h.isLeapYear_iff
  rw [hsplit]
  refine ⟨hrange.1, ?_⟩
  by_cases hlast : rest = 365
  · rw [if_pos (hleap.mpr (h.last hlast))]
    omega
  · split <;> omega

/-- The next year starts after the days of a year. -/
theorem daysBeforeYear_succ (year : Int) : daysBeforeYear (year + 1) =
    daysBeforeYear year + 365 + if isLeapYear year then 1 else 0 := by
  simp only [daysBeforeYear, isLeapYear, Bool.and_eq_true, Bool.or_eq_true, decide_eq_true_eq]
  split <;> omega

theorem daysBeforeYear_mono {a b : Int} (h : a ≤ b) : daysBeforeYear a ≤ daysBeforeYear b := by
  simp only [daysBeforeYear]
  omega

/-! ## Months -/

theorem daysBeforeMonth_zero (leap : Bool) : daysBeforeMonth leap 0 = 0 := by
  cases leap <;> rfl

theorem daysBeforeMonth_last (leap : Bool) :
    daysBeforeMonth leap 11 + 31 = 365 + if leap then 1 else 0 := by
  cases leap <;> rfl

/-- A month has at most 31 days. -/
theorem daysBeforeMonth_succ (leap : Bool) {m : Nat} (h : m + 1 < 12) :
    daysBeforeMonth leap ⟨m + 1, h⟩ ≤ daysBeforeMonth leap ⟨m, Nat.lt_of_succ_lt h⟩ + 31 := by
  have hall : ∀ leap : Bool, ∀ m : Fin 11,
      daysBeforeMonth leap m.succ ≤ daysBeforeMonth leap m.castSucc + 31 := by
    decide
  exact hall leap ⟨m, by omega⟩

/-- The month of a day of the year starts on it or in front of it, at most 30 days. -/
theorem monthOf_range {leap : Bool} {yday : Int} (hnonneg : 0 ≤ yday)
    (hlt : yday < 365 + if leap then 1 else 0) :
    daysBeforeMonth leap (monthOf leap yday) ≤ yday ∧
      yday ≤ daysBeforeMonth leap (monthOf leap yday) + 30 := by
  have hzero := daysBeforeMonth_zero leap
  have hlast := daysBeforeMonth_last leap
  unfold monthOf
  cases hfind : (List.finRange 12).reverse.find? fun month => daysBeforeMonth leap month ≤ yday with
  | none =>
    have hnot := List.find?_eq_none.mp hfind 0 (by simp)
    rw [decide_eq_true_eq, hzero] at hnot
    exact absurd hnonneg hnot
  | some month =>
    obtain ⟨hle, i, hi, hget, hlater⟩ := List.find?_eq_some_iff_getElem.mp hfind
    rw [decide_eq_true_eq] at hle
    refine ⟨hle, ?_⟩
    rw [Option.getD_some]
    cases i with
    | zero =>
      obtain rfl : 11 = month := by simpa using hget
      omega
    | succ i =>
      have hlen : i + 1 < 12 := by simpa using hi
      have hmonth : (month : Nat) = 12 - 1 - (i + 1) := by
        rw [← hget]
        simp
      have hsame : (List.finRange 12).reverse[i] = ⟨month + 1, by omega⟩ := by
        refine Fin.ext ?_
        simp
        omega
      -- the next month is passed over
      have hnext := hlater i (Nat.lt_succ_self i)
      have hstep := daysBeforeMonth_succ leap (m := month) (by omega)
      rw [hsame, Bool.not_eq_true', decide_eq_false_iff_not] at hnext
      rw [Fin.eta] at hstep
      omega

/-! ## Dates -/

/-- The date of a day is on that day. -/
theorem dayNumber_ofDayNumber (number : Int) : dayNumber (ofDayNumber number) = number := by
  have hsplit := daysBeforeYear_splitYear (number + epoch)
  simp only [dayNumber, ofDayNumber]
  omega

theorem ofDayNumber_day (number : Int) :
    1 ≤ (ofDayNumber number).day ∧ (ofDayNumber number).day ≤ 31 := by
  obtain ⟨hnonneg, hlt⟩ := splitYear_range (number + epoch)
  have hmonth := monthOf_range hnonneg hlt
  simp only [ofDayNumber]
  omega

/-- The year of a day starts on it or in front of it, and the next year after it. -/
theorem ofDayNumber_year (number : Int) :
    daysBeforeYear (ofDayNumber number).year ≤ number + epoch ∧
      number + epoch < daysBeforeYear ((ofDayNumber number).year + 1) := by
  have hsplit := daysBeforeYear_splitYear (number + epoch)
  have hrange := splitYear_range (number + epoch)
  have hnext := daysBeforeYear_succ ((splitYear (number + epoch)).1 + 1)
  simp only [ofDayNumber]
  omega

/-- A day that is not in front of the first day of a year is in that year or a later one. -/
theorem le_year {number year : Int} (h : dayNumber ⟨year, 0, 1⟩ ≤ number) :
    year ≤ (ofDayNumber number).year := by
  have hnext := (ofDayNumber_year number).2
  simp only [dayNumber, daysBeforeMonth] at h
  by_contra hlt
  have hmono := daysBeforeYear_mono (a := (ofDayNumber number).year + 1) (b := year) (by omega)
  simp at h
  omega

theorem year_lt {number year : Int} (h : number < dayNumber ⟨year, 0, 1⟩) :
    (ofDayNumber number).year < year := by
  have hfirst := (ofDayNumber_year number).1
  by_contra hlt
  have hmono := daysBeforeYear_mono (a := year) (b := (ofDayNumber number).year) (by omega)
  simp [dayNumber, daysBeforeMonth] at h
  omega

end CxxFramework.Calendar
