import FirmwareUpdater.Core.Iso8601
import FirmwareUpdater.Library.Calendar

/-!
# Civil time and epoch seconds

The closed forms of the code against the calendar: `daysFromCivil` is the day
number of a date, `civilFromDays` takes it apart again, and no step of their
32-bit arithmetic leaves its width on the dates they are given. So `toEpoch` and
`fromEpoch` undo each other, and `fromEpoch` gives the date counted day by day.
-/

namespace FirmwareUpdater.Iso8601

open Library.Calendar

/-- The date of a civil time. -/
def Civil.date (c : Civil) : Date := ⟨c.year, c.month.toNat, c.day.toNat⟩

/-- The seconds since its midnight. -/
def Civil.secondOfDay (c : Civil) : Nat :=
  c.hour.toNat * 3600 + c.minute.toNat * 60 + c.second.toNat

/-- A civil time of the calendar, without leap seconds. -/
structure Civil.Valid (c : Civil) : Prop where
  date : c.date.Valid
  hour_le : c.hour.toNat ≤ 23
  minute_le : c.minute.toNat ≤ 59
  second_le : c.second.toNat ≤ 59

/-! ## The arithmetic of the code -/

/-- A value of the width survives the cast to it. -/
theorem toNat_ofInt {value : Int} (h : 0 ≤ value) (hlt : value < 4294967296) :
    (UInt32.ofInt value).toNat = value.toNat := by
  rw [UInt32.ofInt, UInt32.toNat_ofNat']
  omega

/-- So does a byte. -/
theorem uint8_ofInt_toNat (byte : UInt8) : UInt8.ofInt byte.toNat = byte := by
  have hlt := byte.toNat_lt
  have hmod : ((byte.toNat : Int) % 2 ^ 8).toNat = byte.toNat := by omega
  rw [UInt8.ofInt, hmod, UInt8.ofNat_toNat]

/-- A byte widened and cast back. -/
theorem toUInt8_ofNat_toNat (byte : UInt8) : (UInt32.ofNat byte.toNat).toUInt8 = byte := by
  rw [← UInt8.toNat_toUInt32, UInt32.ofNat_toNat, UInt8.toUInt8_toUInt32]

/-- Division towards zero, after the shift of a negative dividend, is division downwards. -/
theorem shifted_tdiv (value : Int) {cycle : Int} (h : 0 < cycle) :
    (if 0 ≤ value then value else value - (cycle - 1)).tdiv cycle = value / cycle := by
  by_cases hsign : 0 ≤ value
  · rw [if_pos hsign]
    exact Int.tdiv_eq_ediv_of_nonneg hsign
  · have hneg : value - (cycle - 1) = -(-value + (cycle - 1)) := by omega
    have hsplit : -value + (cycle - 1) =
        (cycle - 1 - value % cycle) + cycle * -(value / cycle) := by
      have hvalue := Int.emod_add_mul_ediv value cycle
      rw [Int.mul_neg]
      omega
    have hrest : (cycle - 1 - value % cycle) / cycle = 0 := by
      have hlt := Int.emod_lt_of_pos value h
      have hnonneg := Int.emod_nonneg value (by omega : cycle ≠ 0)
      exact Int.ediv_eq_zero_of_lt (by omega) (by omega)
    rw [if_neg hsign, hneg, Int.neg_tdiv, Int.tdiv_eq_ediv_of_nonneg (by omega), hsplit,
      Int.add_mul_ediv_left _ _ (by omega), hrest]
    omega

/-- The month of a year that begins in March, with the wrap-around of `m - 3`. -/
theorem marchMonth_toNat {m : UInt32} (h : m.toNat ≤ 12) :
    (if m > 2 then m - 3 else m + 9).toNat =
      if m.toNat ≤ 2 then m.toNat + 9 else m.toNat - 3 := by
  have hlt : m > 2 ↔ ¬m.toNat ≤ 2 := by
    rw [gt_iff_lt, UInt32.lt_iff_toNat_lt, Nat.not_le]
    rfl
  by_cases hjanuary : m.toNat ≤ 2
  · rw [if_neg (by simpa [hlt] using hjanuary), if_pos hjanuary, UInt32.toNat_add]
    exact Nat.mod_eq_of_lt (by show m.toNat + 9 < _; omega)
  · rw [if_pos (hlt.mpr hjanuary), if_neg hjanuary]
    exact UInt32.toNat_sub_of_le _ _ (by show 3 ≤ m.toNat; omega)

/-- And back, with the wrap-around of `mp - 9`. -/
theorem month_toNat {mp : UInt32} (h : mp.toNat ≤ 11) :
    (mp + if mp < 10 then 3 else -9).toNat =
      if mp.toNat < 10 then mp.toNat + 3 else mp.toNat - 9 := by
  have hlt : mp < 10 ↔ mp.toNat < 10 := UInt32.lt_iff_toNat_lt
  by_cases hmarch : mp.toNat < 10
  · rw [if_pos (hlt.mpr hmarch), if_pos hmarch, UInt32.toNat_add]
    exact Nat.mod_eq_of_lt (by show mp.toNat + 3 < _; omega)
  · have hneg : (-9 : UInt32).toNat = 4294967287 := by decide
    rw [if_neg (by simpa [hlt] using hmarch), if_neg hmarch, UInt32.toNat_add, hneg]
    omega

/-- The days before the first of a month. -/
theorem monthStart_toNat (mp : UInt32) (h : mp.toNat ≤ 11) :
    ((153 * mp + 2) / 5).toNat = (153 * mp.toNat + 2) / 5 := by
  rw [UInt32.toNat_div, UInt32.toNat_add, UInt32.toNat_mul]
  simp only [UInt32.reduceToNat]
  omega

/-- The day of a year that begins in March. -/
theorem marchDay_toNat {mp d : UInt32} (h : mp.toNat ≤ 11) (hpos : 1 ≤ d.toNat)
    (hle : d.toNat ≤ 31) :
    ((153 * mp + 2) / 5 + d - 1).toNat = (153 * mp.toNat + 2) / 5 + d.toNat - 1 := by
  have hsum : ((153 * mp + 2) / 5 + d).toNat = (153 * mp.toNat + 2) / 5 + d.toNat := by
    rw [UInt32.toNat_add, monthStart_toNat _ h]
    omega
  have hone : (1 : UInt32).toNat ≤ ((153 * mp + 2) / 5 + d).toNat := by
    rw [hsum]
    show 1 ≤ _
    omega
  rw [UInt32.toNat_sub_of_le _ _ hone, hsum]
  rfl

/-- The days of the years of an era before one of them. -/
theorem yearStart_toNat (yoe : UInt32) (h : yoe.toNat < 400) :
    (yoe * 365 + yoe / 4 - yoe / 100).toNat =
      yoe.toNat * 365 + yoe.toNat / 4 - yoe.toNat / 100 := by
  have hsum : (yoe * 365 + yoe / 4).toNat = yoe.toNat * 365 + yoe.toNat / 4 := by
    rw [UInt32.toNat_add, UInt32.toNat_mul, UInt32.toNat_div]
    simp only [UInt32.reduceToNat]
    omega
  have hcenturies : (yoe / 100).toNat = yoe.toNat / 100 := UInt32.toNat_div _ _
  rw [UInt32.toNat_sub_of_le _ _ (by rw [UInt32.le_iff_toNat_le, hcenturies, hsum]; omega), hsum,
    hcenturies]

/-- `daysFromCivil` is the number of the day. -/
theorem daysFromCivil_eq {date : Date} (h : date.Valid) {m d : UInt32}
    (hm : m.toNat = date.month) (hd : d.toNat = date.day) :
    daysFromCivil date.year m d = date.dayNumber := by
  have hmonth := h.month_le
  have hpos := h.day_pos
  have hend := h.day_le.trans (monthLength_le _ _)
  have hyear : (if m ≤ 2 then date.year - 1 else date.year) = date.marchYear := by
    have hle : m ≤ 2 ↔ date.month ≤ 2 := by
      rw [UInt32.le_iff_toNat_le, hm]
      rfl
    simp only [Date.marchYear, hle]
  have hmp : (if m > 2 then m - 3 else m + 9).toNat = date.marchMonth := by
    rw [marchMonth_toNat (by omega), hm]
    rfl
  have hdoy : ((153 * (if m > 2 then m - 3 else m + 9) + 2) / 5 + d - 1).toNat =
      date.marchDay := by
    rw [marchDay_toNat (hmp ▸ h.marchMonth_le) (by omega) (by omega), hmp, hd]
    rfl
  have hera : (if 0 ≤ date.marchYear then date.marchYear else date.marchYear - 399).tdiv 400 =
      date.marchYear / 400 := shifted_tdiv date.marchYear (by decide : (0 : Int) < 400)
  have hyoe : (UInt32.ofInt (date.marchYear - date.marchYear / 400 * 400)).toNat =
      date.yearOfEra := by
    rw [toNat_ofInt (by omega) (by omega)]
    unfold Date.yearOfEra
    congr 1
    omega
  have hlt := date.yearOfEra_lt
  have hday := h.marchDay_le
  simp only [daysFromCivil, hyear, hera]
  rw [UInt32.toNat_add, hdoy, yearStart_toNat _ (hyoe ▸ hlt), hyoe, Date.dayNumber_eq]
  unfold Date.dayOfEra
  omega

/-- `toEpoch` counts the seconds. -/
theorem toEpoch_eq {c : Civil} (h : c.date.Valid) :
    toEpoch c = c.date.dayNumber * 86400 + c.secondOfDay := by
  have hdays : daysFromCivil c.year c.month.toUInt32 c.day.toUInt32 = c.date.dayNumber :=
    daysFromCivil_eq h (UInt8.toNat_toUInt32 _) (UInt8.toNat_toUInt32 _)
  rw [toEpoch, hdays, Civil.secondOfDay]
  push_cast
  omega

/-- The year of an era is read off its day: of the days over, those of the leap years are taken
out again. -/
theorem yearOfEra_eq {yoe doy doe : Nat} (hyear : yoe < 400)
    (hday : doy ≤ 364 ∨
      doy = 365 ∧ (yoe + 1) % 4 = 0 ∧ ((yoe + 1) % 100 ≠ 0 ∨ (yoe + 1) % 400 = 0))
    (hdoe : doe = yoe * 365 + yoe / 4 - yoe / 100 + doy) :
    doe < 146097 ∧ (doe - doe / 1460 + doe / 36524 - doe / 146096) / 365 = yoe := by
  obtain ⟨c, a, b, hc, ha, hb, rfl⟩ : ∃ c a b, c < 4 ∧ a < 25 ∧ b < 4 ∧
      yoe = 100 * c + 4 * a + b :=
    ⟨yoe / 100, yoe % 100 / 4, yoe % 4, by omega, by omega, by omega, by omega⟩
  have hsum : doe = 36524 * c + 1461 * a + 365 * b + doy := by omega
  have hlt : doe < 146097 := by omega
  refine ⟨hlt, ?_⟩
  by_cases hlast : doe = 146096
  · -- The last day of the era.
    have hyear : 100 * c + 4 * a + b = 399 := by omega
    rw [hlast, hyear]
  · have hera : doe / 146096 = 0 := by omega
    have hdays : 1461 * a + 365 * b + doy < 36524 := by
      by_cases hninetynine : 4 * a + b = 99
      · obtain ⟨rfl, rfl⟩ : a = 24 ∧ b = 3 := by omega
        interval_cases c <;> omega
      · omega
    have hcentury : doe / 36524 = c := by omega
    by_cases hfour : 24 * c + a + 365 * b + doy < 1460
    · have hquad : doe / 1460 = 25 * c + a := by omega
      rw [hera, hcentury, hquad]
      omega
    · have hquad : doe / 1460 = 25 * c + a + 1 := by omega
      rw [hera, hcentury, hquad]
      omega

/-- So the day of the era of a date gives its year of the era. -/
theorem yearOfEra_of_dayOfEra {date : Date} (h : date.Valid) :
    date.dayOfEra < 146097 ∧
      (date.dayOfEra - date.dayOfEra / 1460 + date.dayOfEra / 36524 - date.dayOfEra / 146096) /
        365 = date.yearOfEra := by
  have hday : date.marchDay ≤ 364 ∨ date.marchDay = 365 ∧ (date.yearOfEra + 1) % 4 = 0 ∧
      ((date.yearOfEra + 1) % 100 ≠ 0 ∨ (date.yearOfEra + 1) % 400 = 0) := by
    have hmarch := h.marchDay_le
    unfold Date.yearOfEra
    omega
  exact yearOfEra_eq date.yearOfEra_lt hday rfl

/-- That division at 32 bits. -/
theorem yearOfEra_toNat {doe : UInt32} (h : doe.toNat < 146097) :
    ((doe - doe / 1460 + doe / 36524 - doe / 146096) / 365).toNat =
      (doe.toNat - doe.toNat / 1460 + doe.toNat / 36524 - doe.toNat / 146096) / 365 := by
  have hquad : (doe - doe / 1460).toNat = doe.toNat - doe.toNat / 1460 := by
    have hdiv : (doe / 1460).toNat = doe.toNat / 1460 := UInt32.toNat_div _ _
    rw [UInt32.toNat_sub_of_le _ _ (by rw [UInt32.le_iff_toNat_le, hdiv]; omega), hdiv]
  have hcentury : (doe - doe / 1460 + doe / 36524).toNat =
      doe.toNat - doe.toNat / 1460 + doe.toNat / 36524 := by
    have hdiv : (doe / 36524).toNat = doe.toNat / 36524 := UInt32.toNat_div _ _
    rw [UInt32.toNat_add, hquad, hdiv]
    omega
  have hera : (doe / 146096).toNat = doe.toNat / 146096 := UInt32.toNat_div _ _
  rw [UInt32.toNat_div, UInt32.toNat_sub_of_le _ _
    (by rw [UInt32.le_iff_toNat_le, hera, hcentury]; omega), hera, hcentury]
  rfl

/-- The month and the day of the month, from the day of a year that begins in March. -/
theorem monthDay_toNat {doy : UInt32} {date : Date} (h : date.Valid)
    (hdoy : doy.toNat = date.marchDay) :
    ((5 * doy + 2) / 153).toNat = date.marchMonth ∧
      (doy - (153 * ((5 * doy + 2) / 153) + 2) / 5 + 1).toNat = date.day := by
  have hday := h.marchDay_le
  have hpos := h.day_pos
  have hmp : ((5 * doy + 2) / 153).toNat = date.marchMonth := by
    rw [← h.marchMonth_of_marchDay, ← hdoy, UInt32.toNat_div, UInt32.toNat_add, UInt32.toNat_mul]
    simp only [UInt32.reduceToNat]
    omega
  refine ⟨hmp, ?_⟩
  have hstart := monthStart_toNat ((5 * doy + 2) / 153) (hmp ▸ h.marchMonth_le)
  rw [hmp] at hstart
  have hle : (153 * date.marchMonth + 2) / 5 ≤ date.marchDay := by
    unfold Date.marchDay
    omega
  rw [UInt32.toNat_add, UInt32.toNat_sub_of_le _ _ (by
    rw [UInt32.le_iff_toNat_le, hstart, hdoy]; exact hle), hstart, hdoy]
  simp only [UInt32.reduceToNat]
  unfold Date.marchDay at *
  omega

/-- `civilFromDays` finds the date a day number is of. -/
theorem civilFromDays_dayNumber {date : Date} (h : date.Valid)
    (hyears : -2147483648 ≤ date.year ∧ date.year < 2147483648) :
    civilFromDays date.dayNumber =
      (date.year, UInt32.ofNat date.month, UInt32.ofNat date.day) := by
  obtain ⟨hlt, hread⟩ := yearOfEra_of_dayOfEra h
  have hyear := date.yearOfEra_lt
  have hsplit := date.dayNumber_eq
  have hera : (if 0 ≤ date.dayNumber + 719468 then date.dayNumber + 719468
      else date.dayNumber + 719468 - 146096).tdiv 146097 = date.marchYear / 400 := by
    refine (shifted_tdiv (date.dayNumber + 719468) (by decide : (0 : Int) < 146097)).trans ?_
    omega
  unfold civilFromDays
  simp only [hera]
  generalize hword : UInt32.ofInt (date.dayNumber + 719468 - date.marchYear / 400 * 146097) = doe
  have hdoe : doe.toNat = date.dayOfEra := by
    rw [← hword, toNat_ofInt (by omega) (by omega)]
    omega
  generalize hyoeword : (doe - doe / 1460 + doe / 36524 - doe / 146096) / 365 = yoe
  have hyoe : yoe.toNat = date.yearOfEra := by
    rw [← hyoeword, yearOfEra_toNat (hdoe ▸ hlt), hdoe, hread]
  generalize hdoyword : doe - (365 * yoe + yoe / 4 - yoe / 100) = doy
  have hdoy : doy.toNat = date.marchDay := by
    have hstart := yearStart_toNat yoe (hyoe ▸ hyear)
    have hday : date.dayOfEra - (yoe.toNat * 365 + yoe.toNat / 4 - yoe.toNat / 100) =
        date.marchDay ∧ yoe.toNat * 365 + yoe.toNat / 4 - yoe.toNat / 100 ≤ date.dayOfEra := by
      rw [hyoe]
      unfold Date.dayOfEra
      omega
    rw [← hdoyword, UInt32.mul_comm, UInt32.toNat_sub_of_le _ _ (by
      rw [UInt32.le_iff_toNat_le, hstart, hdoe]; exact hday.2), hstart, hdoe, hday.1]
  obtain ⟨hmp, hd⟩ := monthDay_toNat h hdoy
  have hm : ((5 * doy + 2) / 153 + if (5 * doy + 2) / 153 < 10 then 3 else -9).toNat =
      date.month := by
    have hfirst := h.month_pos
    have hlast := h.month_le
    rw [month_toNat (hmp ▸ h.marchMonth_le), hmp]
    unfold Date.marchMonth
    split_ifs <;> omega
  generalize ((5 * doy + 2) / 153 + if (5 * doy + 2) / 153 < 10 then (3 : UInt32) else -9) = m
    at hm ⊢
  have hy : (yoe.toNat + date.marchYear / 400 * 400 + if m ≤ 2 then 1 else 0 : Int) =
      date.year := by
    have hle : m ≤ 2 ↔ date.month ≤ 2 := by
      rw [UInt32.le_iff_toNat_le, hm]
      rfl
    rw [hyoe]
    simp only [hle]
    unfold Date.yearOfEra Date.marchYear
    split_ifs <;> omega
  rw [hy, Int.bmod_eq_of_le (by omega) (by omega), ← hm, ← hd, UInt32.ofNat_toNat,
    UInt32.ofNat_toNat]

/-! ## The two directions -/

/-- From a civil time to its epoch and back. -/
theorem fromEpoch_toEpoch {c : Civil} (h : c.Valid) (hyears : 1970 ≤ c.year ∧ c.year ≤ 9999) :
    fromEpoch (toEpoch c) = some c := by
  have hnumber := h.date.dayNumber_range.mpr hyears
  have hhour := h.hour_le
  have hminute := h.minute_le
  have hsecond := h.second_le
  have hepoch := toEpoch_eq h.date
  have hdays : (toEpoch c).tdiv 86400 = c.date.dayNumber := by
    rw [hepoch, Int.tdiv_eq_ediv_of_nonneg (by omega)]
    unfold Civil.secondOfDay
    omega
  have hrem : (toEpoch c).tmod 86400 = c.secondOfDay := by
    rw [hepoch, Int.tmod_eq_emod_of_nonneg (by omega)]
    unfold Civil.secondOfDay
    omega
  have hcivil := civilFromDays_dayNumber h.date (by
    have hyear : c.date.year = c.year := rfl
    omega)
  have hnonneg : ¬toEpoch c < 0 := by omega
  have hmonth : (UInt32.ofNat c.date.month).toUInt8 = c.month := toUInt8_ofNat_toNat c.month
  have hday : (UInt32.ofNat c.date.day).toUInt8 = c.day := toUInt8_ofNat_toNat c.day
  have hdiv : (c.secondOfDay : Int).tdiv 3600 = c.hour.toNat := by
    rw [Int.tdiv_eq_ediv_of_nonneg (by omega)]
    unfold Civil.secondOfDay
    omega
  have hmod : (c.secondOfDay : Int).tmod 3600 = (c.minute.toNat * 60 + c.second.toNat : Nat) := by
    rw [Int.tmod_eq_emod_of_nonneg (by omega)]
    unfold Civil.secondOfDay
    omega
  have hmindiv : ((c.minute.toNat * 60 + c.second.toNat : Nat) : Int).tdiv 60 = c.minute.toNat := by
    rw [Int.tdiv_eq_ediv_of_nonneg (by omega)]
    omega
  have hminmod : ((c.minute.toNat * 60 + c.second.toNat : Nat) : Int).tmod 60 = c.second.toNat := by
    rw [Int.tmod_eq_emod_of_nonneg (by omega)]
    omega
  rw [fromEpoch, if_neg hnonneg]
  simp only [hdays, hrem, hcivil, hmonth, hday, hdiv, hmod, hmindiv, hminmod,
    uint8_ofInt_toNat]
  rfl

/-- The civil time of a date and a second of the day. -/
theorem exists_civil {date : Date} (h : date.Valid) (second : Nat) (hlt : second < 86400) :
    ∃ c : Civil, c.Valid ∧ c.date = date ∧ c.secondOfDay = second := by
  have hlast := h.month_le
  have hend := h.day_le.trans (monthLength_le _ _)
  have hbyte {n : Nat} (hn : n < 256) : (UInt8.ofNat n).toNat = n := UInt8.toNat_ofNat_of_lt' hn
  have hmonth : (UInt8.ofNat date.month).toNat = date.month := hbyte (by omega)
  have hday : (UInt8.ofNat date.day).toNat = date.day := hbyte (by omega)
  have hhour : (UInt8.ofNat (second / 3600)).toNat = second / 3600 := hbyte (by omega)
  have hminute : (UInt8.ofNat (second % 3600 / 60)).toNat = second % 3600 / 60 :=
    hbyte (by omega)
  have hsecond : (UInt8.ofNat (second % 60)).toNat = second % 60 := hbyte (by omega)
  let c : Civil := ⟨date.year, UInt8.ofNat date.month, UInt8.ofNat date.day,
    UInt8.ofNat (second / 3600), UInt8.ofNat (second % 3600 / 60), UInt8.ofNat (second % 60)⟩
  have hc : c.date = date := by
    show (⟨date.year, (UInt8.ofNat date.month).toNat, (UInt8.ofNat date.day).toNat⟩ : Date) = date
    rw [hmonth, hday]
  refine ⟨c, ⟨hc ▸ h, ?_, ?_, ?_⟩, hc, ?_⟩
  · show (UInt8.ofNat (second / 3600)).toNat ≤ 23
    omega
  · show (UInt8.ofNat (second % 3600 / 60)).toNat ≤ 59
    omega
  · show (UInt8.ofNat (second % 60)).toNat ≤ 59
    omega
  · show (UInt8.ofNat (second / 3600)).toNat * 3600 +
      (UInt8.ofNat (second % 3600 / 60)).toNat * 60 + (UInt8.ofNat (second % 60)).toNat = second
    omega

/-- Every epoch from 1970 to 9999 has the civil time that counting days from 1970-01-01 gives. -/
theorem fromEpoch_spec {epoch : Int} (hnonneg : 0 ≤ epoch) (hle : epoch ≤ 253402300799) :
    ∃ c : Civil, fromEpoch epoch = some c ∧ c.Valid ∧ (1970 ≤ c.year ∧ c.year ≤ 9999) ∧
      c.date = Date.counted (epoch / 86400).toNat ∧ c.secondOfDay = epoch % 86400 ∧
      toEpoch c = epoch := by
  obtain ⟨hdate, hnumber⟩ := Date.counted_spec (epoch / 86400).toNat
  obtain ⟨c, hvalid, hc, hsecond⟩ :=
    exists_civil hdate (epoch % 86400).toNat (by omega)
  have hyears : 1970 ≤ c.date.year ∧ c.date.year ≤ 9999 := by
    rw [hc]
    exact hdate.dayNumber_range.mp (by omega)
  have hepoch : toEpoch c = epoch := by
    rw [toEpoch_eq hvalid.date, hc, hnumber, hsecond]
    omega
  refine ⟨c, ?_, hvalid, hyears, hc, by omega, hepoch⟩
  rw [← hepoch]
  exact fromEpoch_toEpoch hvalid hyears

/-- The epochs from 1970 to 9999 and the civil times of those years are the same: each epoch has
the civil time that counting days from 1970-01-01 gives, and the two functions undo each other. -/
theorem civil_epoch_inverse :
    (∀ epoch : Int, 0 ≤ epoch → epoch ≤ 253402300799 →
      ∃ c : Civil, fromEpoch epoch = some c ∧ c.Valid ∧ 1970 ≤ c.year ∧ c.year ≤ 9999 ∧
        c.date = Date.counted (epoch / 86400).toNat ∧ c.secondOfDay = epoch % 86400 ∧
        toEpoch c = epoch) ∧
    (∀ c : Civil, c.Valid → 1970 ≤ c.year → c.year ≤ 9999 → fromEpoch (toEpoch c) = some c) := by
  constructor
  · intro epoch hnonneg hle
    obtain ⟨c, hc, hvalid, hyears, hrest⟩ := fromEpoch_spec hnonneg hle
    exact ⟨c, hc, hvalid, hyears.1, hyears.2, hrest⟩
  · intro c hvalid hfirst hlast
    exact fromEpoch_toEpoch hvalid ⟨hfirst, hlast⟩

/-- The last second of a leap day, in both directions. -/
theorem civil_epoch_inverse_leap_day :
    (∃ c : Civil, fromEpoch 1709251199 = some c ∧ c.date = Date.counted 19782 ∧
      toEpoch c = 1709251199) ∧
    fromEpoch (toEpoch ⟨2024, 2, 29, 23, 59, 59⟩) = some ⟨2024, 2, 29, 23, 59, 59⟩ := by
  obtain ⟨hfrom, hto⟩ := civil_epoch_inverse
  constructor
  · obtain ⟨c, hc, -, -, -, hdate, -, hepoch⟩ := hfrom 1709251199 (by decide) (by decide)
    exact ⟨c, hc, hdate, hepoch⟩
  · refine hto ⟨2024, 2, 29, 23, 59, 59⟩ ⟨⟨?_, ?_, ?_, ?_⟩, ?_, ?_, ?_⟩ ?_ ?_
    all_goals decide

end FirmwareUpdater.Iso8601
