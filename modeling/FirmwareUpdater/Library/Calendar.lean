import Mathlib.Logic.Function.Iterate
import Mathlib.Tactic.IntervalCases

/-!
# The proleptic Gregorian calendar

The calendar by its recursive definition: the lengths of the months under the
leap-year rule, and the day after a day. `dayNumber` is the closed form. It
counts from a year that begins in March, so that the leap day is the last of its
year, and steps by one from each day to the next: with that the two agree on
every day.
-/

namespace FirmwareUpdater.Library.Calendar

/-- Every fourth year, but not the centuries, except every fourth. -/
def leap (year : Int) : Bool :=
  year % 4 = 0 && (year % 100 ≠ 0 || year % 400 = 0)

/-- The days of a month. -/
def monthLength (year : Int) (month : Nat) : Nat :=
  if month = 2 then if leap year then 29 else 28
  else if month = 4 ∨ month = 6 ∨ month = 9 ∨ month = 11 then 30
  else 31

/-- A day by its year, month and day of the month. -/
structure Date where
  year : Int
  month : Nat
  day : Nat
  deriving DecidableEq

/-- The calendar has this day. -/
structure Date.Valid (date : Date) : Prop where
  month_pos : 1 ≤ date.month
  month_le : date.month ≤ 12
  day_pos : 1 ≤ date.day
  day_le : date.day ≤ monthLength date.year date.month

/-- The day after. -/
def Date.next (date : Date) : Date :=
  if date.day < monthLength date.year date.month then { date with day := date.day + 1 }
  else if date.month < 12 then { date with month := date.month + 1, day := 1 }
  else ⟨date.year + 1, 1, 1⟩

/-- 1970-01-01. -/
def Date.unixEpoch : Date := ⟨1970, 1, 1⟩

/-- The day so many days after 1970-01-01, counted one by one. -/
def Date.counted (days : Nat) : Date := Date.next^[days] Date.unixEpoch

/-- The year a date falls in when years begin in March. -/
def Date.marchYear (date : Date) : Int :=
  if date.month ≤ 2 then date.year - 1 else date.year

/-- Its place in the 400 years after which the calendar repeats. -/
def Date.yearOfEra (date : Date) : Nat := (date.marchYear % 400).toNat

/-- How many months of that year are over. -/
def Date.marchMonth (date : Date) : Nat :=
  if date.month ≤ 2 then date.month + 9 else date.month - 3

/-- How many days of that year are over. -/
def Date.marchDay (date : Date) : Nat :=
  (153 * date.marchMonth + 2) / 5 + date.day - 1

/-- The days of those 400 years that are over. -/
def Date.dayOfEra (date : Date) : Nat :=
  date.yearOfEra * 365 + date.yearOfEra / 4 - date.yearOfEra / 100 + date.marchDay

/-- The days from 1970-01-01 to a date. -/
def Date.dayNumber (date : Date) : Int :=
  365 * date.marchYear + date.marchYear / 4 - date.marchYear / 100 + date.marchYear / 400 +
    date.marchDay - 719468

/-- The leap years as an arithmetical condition. -/
theorem leap_iff (year : Int) :
    leap year = true ↔ year % 4 = 0 ∧ (year % 100 ≠ 0 ∨ year % 400 = 0) := by
  simp [leap]

/-- Every month has a day. -/
theorem monthLength_pos (year : Int) (month : Nat) : 1 ≤ monthLength year month := by
  unfold monthLength
  split_ifs <;> omega

/-- No month has more than 31. -/
theorem monthLength_le (year : Int) (month : Nat) : monthLength year month ≤ 31 := by
  unfold monthLength
  split_ifs <;> omega

/-- February. -/
theorem monthLength_february (year : Int) :
    monthLength year 2 = 28 ∧ ¬(year % 4 = 0 ∧ (year % 100 ≠ 0 ∨ year % 400 = 0)) ∨
      monthLength year 2 = 29 ∧ year % 4 = 0 ∧ (year % 100 ≠ 0 ∨ year % 400 = 0) := by
  rw [← leap_iff]
  unfold monthLength
  by_cases hleap : leap year = true
  · right
    simp [hleap]
  · left
    simp [hleap]

/-- The months but February take the same days every year. -/
theorem monthLength_eq (year : Int) {month : Nat} (hne : month ≠ 2) :
    monthLength year month =
      if month = 4 ∨ month = 6 ∨ month = 9 ∨ month = 11 then 30 else 31 := by
  unfold monthLength
  rw [if_neg hne]

namespace Date

variable {date : Date}

/-- The calendar starts on one of its days. -/
theorem valid_unixEpoch : unixEpoch.Valid := by
  constructor <;> decide

/-- The day after a day is a day. -/
theorem Valid.next (h : date.Valid) : date.next.Valid := by
  obtain ⟨hmonth, hlast, hday, hend⟩ := h
  unfold Date.next
  split_ifs with hin hyear
  · exact ⟨hmonth, hlast, Nat.le_add_left 1 date.day, hin⟩
  · exact ⟨Nat.le_add_left 1 date.month, hyear, le_rfl, monthLength_pos _ _⟩
  · exact ⟨le_rfl, Nat.le_of_ble_eq_true rfl, le_rfl, monthLength_pos _ _⟩

/-- Years repeat every 400. -/
theorem yearOfEra_lt (date : Date) : date.yearOfEra < 400 := by
  unfold yearOfEra
  omega

/-- The closed form era by era. -/
theorem dayNumber_eq (date : Date) :
    date.dayNumber = date.dayOfEra + date.marchYear / 400 * 146097 - 719468 := by
  obtain ⟨era, hera⟩ : ∃ era, era = date.marchYear / 400 := ⟨_, rfl⟩
  have hyear : date.marchYear = 400 * era + date.yearOfEra := by
    unfold yearOfEra
    omega
  have hlt := date.yearOfEra_lt
  unfold dayNumber dayOfEra
  rw [← hera, hyear]
  omega

/-- The closed form steps by one within a month. -/
theorem dayNumber_next_day (h : 1 ≤ date.day) :
    dayNumber { date with day := date.day + 1 } = dayNumber date + 1 := by
  unfold dayNumber marchDay marchYear marchMonth
  dsimp only
  omega

/-- It steps by one over the end of a month. -/
theorem Valid.dayNumber_next_month (h : date.Valid)
    (hlast : date.day = monthLength date.year date.month) (hyear : date.month < 12) :
    dayNumber { date with month := date.month + 1, day := 1 } = dayNumber date + 1 := by
  obtain ⟨year, month, day⟩ := date
  obtain ⟨hmonth, -, -, -⟩ := h
  simp only at hmonth hlast hyear
  subst hlast
  by_cases hfebruary : month = 2
  · -- The year that begins in March ends here, with or without the leap day.
    subst hfebruary
    rcases monthLength_february year with ⟨hlength, hleap⟩ | ⟨hlength, hleap⟩
    · simp only [dayNumber, marchDay, marchYear, marchMonth, hlength]
      norm_num
      omega
    · simp only [dayNumber, marchDay, marchYear, marchMonth, hlength]
      norm_num
      omega
  · rw [monthLength_eq year hfebruary]
    interval_cases month <;> simp [dayNumber, marchDay, marchYear, marchMonth] at * <;> omega

/-- It steps by one over the end of a year. -/
theorem Valid.dayNumber_next_year (h : date.Valid)
    (hlast : date.day = monthLength date.year date.month) (hyear : date.month = 12) :
    dayNumber ⟨date.year + 1, 1, 1⟩ = dayNumber date + 1 := by
  obtain ⟨year, month, day⟩ := date
  simp only at hlast hyear
  subst hlast hyear
  rw [monthLength_eq year (by decide)]
  simp [dayNumber, marchDay, marchYear, marchMonth]
  omega

/-- The closed form steps by one from each day to the next. -/
theorem Valid.dayNumber_next (h : date.Valid) : dayNumber date.next = dayNumber date + 1 := by
  have hend := h.day_le
  have hmonth := h.month_le
  unfold Date.next
  split_ifs with hin hyear
  · exact dayNumber_next_day h.day_pos
  · exact h.dayNumber_next_month (by omega) hyear
  · exact h.dayNumber_next_year (by omega) (by omega)

/-- Counting from 1970-01-01 stays on the calendar, and the closed form is the count. -/
theorem counted_spec (days : Nat) : (counted days).Valid ∧ dayNumber (counted days) = days := by
  induction days with
  | zero => exact ⟨valid_unixEpoch, by decide⟩
  | succ days ih =>
      obtain ⟨hvalid, hnumber⟩ := ih
      have hstep : counted (days + 1) = (counted days).next :=
        Function.iterate_succ_apply' Date.next days unixEpoch
      rw [hstep]
      refine ⟨hvalid.next, ?_⟩
      rw [hvalid.dayNumber_next, hnumber]
      push_cast
      rfl

/-- A year that begins in March takes 365 days, and one more where its February is long. -/
theorem Valid.marchDay_le (h : date.Valid) :
    date.marchDay ≤ 364 ∨ date.marchDay = 365 ∧ (date.marchYear + 1) % 4 = 0 ∧
      ((date.marchYear + 1) % 100 ≠ 0 ∨ (date.marchYear + 1) % 400 = 0) := by
  obtain ⟨year, month, day⟩ := date
  obtain ⟨hmonth, hlast, hday, hend⟩ := h
  simp only at hmonth hlast hday hend
  by_cases hfebruary : month = 2
  · subst hfebruary
    simp only [marchDay, marchYear, marchMonth]
    have hlength := monthLength_february year
    norm_num
    omega
  · rw [monthLength_eq year hfebruary] at hend
    left
    interval_cases month <;> simp [marchDay, marchMonth] at * <;> omega

/-- A year has twelve months. -/
theorem Valid.marchMonth_le (h : date.Valid) : date.marchMonth ≤ 11 := by
  have hfirst := h.month_pos
  have hlast := h.month_le
  unfold marchMonth
  split_ifs <;> omega

/-- The month is the one whose first day of the year is the last not after the day. -/
theorem Valid.marchMonth_of_marchDay (h : date.Valid) :
    (5 * date.marchDay + 2) / 153 = date.marchMonth := by
  obtain ⟨year, month, day⟩ := date
  obtain ⟨hmonth, hlast, hday, hend⟩ := h
  simp only at hmonth hlast hday hend
  have hlength : monthLength year month ≤ if month = 2 then 29 else
      if month = 4 ∨ month = 6 ∨ month = 9 ∨ month = 11 then 30 else 31 := by
    unfold monthLength
    split_ifs <;> omega
  interval_cases month <;> simp [marchDay, marchMonth] at * <;> omega

/-- The days from 1970 to 9999 are those numbered below 2932897. -/
theorem Valid.dayNumber_range (h : date.Valid) :
    (0 ≤ date.dayNumber ∧ date.dayNumber ≤ 2932896) ↔ 1970 ≤ date.year ∧ date.year ≤ 9999 := by
  have hday := h.marchDay_le
  have hend := h.day_le.trans (monthLength_le _ _)
  obtain ⟨year, month, day⟩ := date
  obtain ⟨hmonth, hlast, hpos, -⟩ := h
  simp only at hmonth hlast hpos hend
  unfold dayNumber marchDay marchYear marchMonth at *
  simp only at hday ⊢
  -- The years next to the bounds are decided by the months.
  obtain hyear | rfl | hyear | rfl | hyear : year < 1969 ∨ year = 1969 ∨
      1969 < year ∧ year < 10000 ∨ year = 10000 ∨ 10000 < year := by omega
  all_goals split_ifs at hday ⊢ <;> omega

end Date
end FirmwareUpdater.Library.Calendar
