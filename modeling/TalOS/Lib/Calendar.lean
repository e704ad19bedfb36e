-- SUMMARY: The Gregorian calendar: leap years, valid dates with a time of day, their order, and the numbering of days.
import Mathlib.Order.Monotone.Basic
import Mathlib.Tactic.IntervalCases

/-!
# Gregorian calendar

Dates with a time of day, what makes one valid, and the order in which they
follow each other. The days are numbered through years that start in March, so
that the leap day is the last day of its year; nothing here refers to a
particular epoch.
-/

namespace Calendar

def isLeap (y : Nat) : Bool := y % 400 == 0 || (y % 4 == 0 && y % 100 != 0)

/-- Number of days of month `m` (January is 1) of year `y`. -/
def daysInMonth (y m : Nat) : Nat :=
  if m = 2 then (if isLeap y then 29 else 28)
  else if m = 4 ∨ m = 6 ∨ m = 9 ∨ m = 11 then 30
  else 31

structure DateTime where
  year : Nat
  month : Nat
  day : Nat
  hour : Nat
  minute : Nat
  second : Nat
  deriving Repr, DecidableEq

/-- A date of the proleptic Gregorian calendar with a time of day. -/
structure DateTime.Valid (t : DateTime) : Prop where
  month_pos : 1 ≤ t.month
  month_le : t.month ≤ 12
  day_pos : 1 ≤ t.day
  day_le : t.day ≤ daysInMonth t.year t.month
  hour_lt : t.hour < 24
  minute_lt : t.minute < 60
  second_lt : t.second < 60

/-- `s` is not later than `t`: the fields are compared from the year down. -/
def DateTime.NotAfter (s t : DateTime) : Prop :=
  s.year < t.year ∨ s.year = t.year ∧
    (s.month < t.month ∨ s.month = t.month ∧
      (s.day < t.day ∨ s.day = t.day ∧
        (s.hour < t.hour ∨ s.hour = t.hour ∧
          (s.minute < t.minute ∨ s.minute = t.minute ∧ s.second ≤ t.second))))

instance (s t : DateTime) : Decidable (s.NotAfter t) := by
  unfold DateTime.NotAfter
  infer_instance

theorem isLeap_iff (y : Nat) : isLeap y = true ↔ y % 400 = 0 ∨ (y % 4 = 0 ∧ y % 100 ≠ 0) := by
  simp [isLeap]

theorem daysInMonth_le (y m : Nat) : daysInMonth y m ≤ 31 := by
  unfold daysInMonth
  split_ifs <;> omega

/-- A month other than February has its length in every year. -/
theorem daysInMonth_of_ne_two {y m : Nat} (h : m ≠ 2) :
    daysInMonth y m = if m = 4 ∨ m = 6 ∨ m = 9 ∨ m = 11 then 30 else 31 := if_neg h

theorem daysInMonth_two (y : Nat) : daysInMonth y 2 = if isLeap y then 29 else 28 := rfl

/-! ## Numbering the days -/

/-- The year of a date when January and February belong to the year before. -/
def marchYear (y m : Nat) : Nat := if m ≤ 2 then y - 1 else y

/-- The month of a date when January and February are months 13 and 14. -/
def marchMonth (m : Nat) : Nat := if m ≤ 2 then m + 12 else m

/-- Days before the March-based year `y`. -/
def daysBefore (y : Nat) : Nat := 365 * y + y / 4 - y / 100 + y / 400

/-- Days before the March-based month `m` counted from December. -/
def monthStart (m : Nat) : Nat := 30 * m + 3 * (m + 1) / 5

/-- The number of a day; consecutive days have consecutive numbers. -/
def DateTime.serial (t : DateTime) : Nat :=
  daysBefore (marchYear t.year t.month) + (monthStart (marchMonth t.month) + t.day)

/-- Seconds since midnight. -/
def DateTime.secondOfDay (t : DateTime) : Nat := 3600 * t.hour + 60 * t.minute + t.second

theorem daysBefore_succ (y : Nat) :
    daysBefore (y + 1) = daysBefore y + if isLeap (y + 1) then 366 else 365 := by
  have h100 : 100 ∣ y + 1 → 4 ∣ y + 1 := (Nat.dvd_trans (by decide) ·)
  have h400 : 400 ∣ y + 1 → 100 ∣ y + 1 := (Nat.dvd_trans (by decide) ·)
  have hle : y / 100 ≤ y := Nat.div_le_self _ _
  unfold daysBefore
  simp only [isLeap_iff, ← Nat.dvd_iff_mod_eq_zero, Nat.succ_div, ne_eq]
  generalize y / 4 = q, y / 100 = r, y / 400 = s at *
  by_cases h : 400 ∣ y + 1
  · simp only [h, h400 h, h100 (h400 h), true_or, if_true]
    omega
  · by_cases h' : 100 ∣ y + 1
    · simp only [h, h', h100 h', not_true_eq_false, and_false, or_self, if_true, if_false]
      omega
    · simp only [h, h', not_false_eq_true, and_true, false_or, if_false]
      split_ifs <;> omega

theorem daysBefore_mono : Monotone daysBefore := by
  apply monotone_nat_of_le_succ
  intro y
  rw [daysBefore_succ]
  split_ifs <;> omega

theorem monthStart_mono : Monotone monthStart := by
  intro m n h
  unfold monthStart
  omega

theorem marchMonth_bounds {m : Nat} (h : 1 ≤ m) (h' : m ≤ 12) :
    3 ≤ marchMonth m ∧ marchMonth m ≤ 14 := by
  unfold marchMonth
  split_ifs <;> omega

/-- The months but February, the last of the March-based year, are as long as
the distance to the next month's start. -/
theorem monthStart_succ (y : Nat) {m : Nat} (h : 1 ≤ m) (h' : m ≤ 12) (h2 : m ≠ 2) :
    monthStart (marchMonth m) + daysInMonth y m = monthStart (marchMonth m + 1) := by
  rw [daysInMonth_of_ne_two h2]
  interval_cases m <;> simp_all [monthStart, marchMonth]

/-- The last day of February ends the March-based year. -/
theorem monthStart_february {y : Nat} (hy : 1 ≤ y) :
    daysBefore (marchYear y 2) + (monthStart (marchMonth 2) + daysInMonth y 2) =
      daysBefore (marchYear y 2 + 1) + 92 := by
  have hsucc : marchYear y 2 + 1 = y := by
    unfold marchYear
    simp only [Nat.le_refl, if_true]
    omega
  have hstart : monthStart (marchMonth 2) = 429 := by decide
  rw [daysBefore_succ, hsucc, daysInMonth_two, hstart]
  split_ifs <;> omega

/-- A valid day stays inside its month, unless it is in February. -/
theorem DateTime.Valid.lt_nextMonth {t : DateTime} (h : t.Valid) (h2 : t.month ≠ 2) :
    monthStart (marchMonth t.month) + t.day ≤ monthStart (marchMonth t.month + 1) := by
  have hday := h.day_le
  rw [← monthStart_succ t.year h.month_pos h.month_le h2]
  omega

/-- A valid day stays inside its March-based year. -/
theorem DateTime.Valid.serial_le {t : DateTime} (h : t.Valid) (hy : 1 ≤ t.year) :
    t.serial ≤ daysBefore (marchYear t.year t.month + 1) + 92 := by
  unfold DateTime.serial
  by_cases h2 : t.month = 2
  · have hlast := monthStart_february hy
    have hday := h.day_le
    rw [h2] at hday ⊢
    omega
  · have hmonth := h.lt_nextMonth h2
    have hnot14 : marchMonth t.month + 1 ≤ 14 := by
      have hpos := h.month_pos
      have hle := h.month_le
      unfold marchMonth
      split_ifs <;> omega
    have hend : monthStart (marchMonth t.month + 1) ≤ monthStart 14 := monthStart_mono hnot14
    have h14 : monthStart 14 = 429 := by decide
    have hyear := daysBefore_succ (marchYear t.year t.month)
    split_ifs at hyear <;> omega

/-- A valid day does not precede its March-based year. -/
theorem DateTime.Valid.lt_serial {t : DateTime} (h : t.Valid) :
    daysBefore (marchYear t.year t.month) + 92 < t.serial := by
  have hmonth := (marchMonth_bounds h.month_pos h.month_le).1
  have hstart : monthStart 3 ≤ monthStart (marchMonth t.month) := monthStart_mono hmonth
  have h3 : monthStart 3 = 92 := by decide
  have hday := h.day_pos
  unfold DateTime.serial
  omega

/-! ## Order and numbering agree -/

theorem DateTime.Valid.serial_lt_of_marchYear {s t : DateTime} (hs : s.Valid) (ht : t.Valid)
    (hy : 1 ≤ s.year) (h : marchYear s.year s.month < marchYear t.year t.month) :
    s.serial < t.serial := by
  have hle := hs.serial_le hy
  have hlt := ht.lt_serial
  have hmono : daysBefore (marchYear s.year s.month + 1) ≤
      daysBefore (marchYear t.year t.month) := daysBefore_mono h
  omega

theorem DateTime.Valid.serial_lt_of_marchMonth {s t : DateTime} (hs : s.Valid) (ht : t.Valid)
    (hy : marchYear s.year s.month = marchYear t.year t.month)
    (h : marchMonth s.month < marchMonth t.month) : s.serial < t.serial := by
  have h2 : s.month ≠ 2 := by
    intro hfeb
    have hmax := (marchMonth_bounds ht.month_pos ht.month_le).2
    rw [hfeb, show marchMonth 2 = 14 from rfl] at h
    omega
  have hle := hs.lt_nextMonth h2
  have hday := ht.day_pos
  have hmono : monthStart (marchMonth s.month + 1) ≤ monthStart (marchMonth t.month) :=
    monthStart_mono h
  unfold DateTime.serial
  rw [hy]
  omega

/-- A date that comes first in the year, month, day order has the smaller number. -/
theorem DateTime.Valid.serial_lt {s t : DateTime} (hs : s.Valid) (ht : t.Valid)
    (hy : 1 ≤ s.year)
    (h : s.year < t.year ∨ s.year = t.year ∧
      (s.month < t.month ∨ s.month = t.month ∧ s.day < t.day)) : s.serial < t.serial := by
  have hsm := hs.month_le
  have htm := ht.month_pos
  by_cases hyear : marchYear s.year s.month < marchYear t.year t.month
  · exact hs.serial_lt_of_marchYear ht hy hyear
  by_cases hmonth : marchMonth s.month < marchMonth t.month
  · refine hs.serial_lt_of_marchMonth ht ?_ hmonth
    unfold marchYear marchMonth at *
    split_ifs at * <;> omega
  · have hsame : s.year = t.year ∧ s.month = t.month ∧ s.day < t.day := by
      unfold marchYear marchMonth at *
      split_ifs at * <;> omega
    unfold DateTime.serial
    rw [hsame.1, hsame.2.1]
    omega

/-- Two valid dates with the same number are the same day. -/
theorem DateTime.Valid.serial_injective {s t : DateTime} (hs : s.Valid) (ht : t.Valid)
    (hys : 1 ≤ s.year) (hyt : 1 ≤ t.year) (h : s.serial = t.serial) :
    s.year = t.year ∧ s.month = t.month ∧ s.day = t.day := by
  have hst := hs.serial_lt ht hys
  have hts := ht.serial_lt hs hyt
  omega

theorem DateTime.Valid.secondOfDay_lt {t : DateTime} (h : t.Valid) : t.secondOfDay < 86400 := by
  have hh := h.hour_lt
  have hm := h.minute_lt
  have hs := h.second_lt
  unfold DateTime.secondOfDay
  omega

/-- The day number and the second of the day determine a valid date. -/
theorem DateTime.Valid.ext_serial {s t : DateTime} (hs : s.Valid) (ht : t.Valid)
    (hys : 1 ≤ s.year) (hyt : 1 ≤ t.year) (hday : s.serial = t.serial)
    (hsec : s.secondOfDay = t.secondOfDay) : s = t := by
  obtain ⟨hy, hm, hd⟩ := hs.serial_injective ht hys hyt hday
  have hsm := hs.minute_lt
  have hss := hs.second_lt
  have htm := ht.minute_lt
  have hts := ht.second_lt
  unfold DateTime.secondOfDay at hsec
  obtain ⟨year, month, day, hour, minute, second⟩ := s
  obtain ⟨year', month', day', hour', minute', second'⟩ := t
  simp only [DateTime.mk.injEq] at *
  omega

/-- The order of dates is the order of their day numbers, then of the seconds. -/
theorem DateTime.Valid.serial_of_notAfter {s t : DateTime} (hs : s.Valid) (ht : t.Valid)
    (hy : 1 ≤ s.year) (h : s.NotAfter t) :
    s.serial < t.serial ∨ s.serial = t.serial ∧ s.secondOfDay ≤ t.secondOfDay := by
  unfold DateTime.NotAfter at h
  have hlt := hs.serial_lt ht hy
  by_cases hday : s.year = t.year ∧ s.month = t.month ∧ s.day = t.day
  · right
    obtain ⟨hyear, hmonth, hd⟩ := hday
    have hsm := hs.minute_lt
    have hss := hs.second_lt
    refine ⟨by simp only [DateTime.serial, hyear, hmonth, hd], ?_⟩
    unfold DateTime.secondOfDay
    omega
  · left
    apply hlt
    omega

/-! ## The next day -/

/-- The day after. -/
def DateTime.tomorrow (t : DateTime) : DateTime :=
  if t.day < daysInMonth t.year t.month then { t with day := t.day + 1 }
  else if t.month < 12 then { t with month := t.month + 1, day := 1 }
  else { t with year := t.year + 1, month := 1, day := 1 }

theorem daysInMonth_pos (y m : Nat) : 1 ≤ daysInMonth y m := by
  unfold daysInMonth
  split_ifs <;> decide

theorem DateTime.Valid.tomorrow {t : DateTime} (h : t.Valid) : t.tomorrow.Valid := by
  have hmonth := h.month_pos
  unfold DateTime.tomorrow
  split_ifs with hday hlast
  · exact { h with day_pos := Nat.succ_pos _, day_le := hday }
  · exact { h with
      month_pos := Nat.succ_pos _
      month_le := hlast
      day_pos := Nat.le_refl 1
      day_le := daysInMonth_pos _ _ }
  · exact { h with
      month_pos := Nat.le_refl 1
      month_le := (by decide : 1 ≤ 12)
      day_pos := Nat.le_refl 1
      day_le := daysInMonth_pos _ _ }

theorem DateTime.year_le_tomorrow (t : DateTime) : t.year ≤ t.tomorrow.year := by
  unfold DateTime.tomorrow
  split_ifs
  · exact Nat.le_refl _
  · exact Nat.le_refl _
  · exact Nat.le_succ _

/-- Behind the last day of a month comes the first of the next one. -/
theorem serial_nextMonth {y m : Nat} (hy : 1 ≤ y) (hm : 1 ≤ m) (hm' : m < 12) :
    daysBefore (marchYear y (m + 1)) + (monthStart (marchMonth (m + 1)) + 1) =
      daysBefore (marchYear y m) + (monthStart (marchMonth m) + daysInMonth y m) + 1 := by
  rcases Nat.lt_trichotomy m 2 with h | rfl | h
  · obtain rfl : m = 1 := by omega
    rw [monthStart_succ y (Nat.le_refl 1) (by decide) (by decide)]
    rfl
  · have hmarch : marchYear y 2 + 1 = marchYear y 3 := Nat.sub_add_cancel hy
    rw [monthStart_february hy, hmarch]
    rfl
  · have hyear : marchYear y (m + 1) = marchYear y m := by
      rw [marchYear, marchYear, if_neg (by omega), if_neg (by omega)]
    have hmonth : marchMonth (m + 1) = marchMonth m + 1 := by
      rw [marchMonth, marchMonth, if_neg (by omega), if_neg (by omega)]
    rw [monthStart_succ y hm (by omega) (by omega), hyear, hmonth]
    omega

/-- Behind the last of December comes the first of January. -/
theorem serial_nextYear (y : Nat) :
    daysBefore (marchYear (y + 1) 1) + (monthStart (marchMonth 1) + 1) =
      daysBefore (marchYear y 12) + (monthStart (marchMonth 12) + daysInMonth y 12) + 1 := by
  rw [monthStart_succ y (by decide) (Nat.le_refl 12) (by decide)]
  rfl

/-- The day after has the next number. -/
theorem DateTime.Valid.serial_tomorrow {t : DateTime} (h : t.Valid) (hy : 1 ≤ t.year) :
    t.tomorrow.serial = t.serial + 1 := by
  have hle := h.day_le
  have hmonth := h.month_le
  unfold DateTime.tomorrow
  split_ifs with hday hlast
  · rfl
  · have hend : t.day = daysInMonth t.year t.month := by omega
    rw [DateTime.serial, DateTime.serial, hend]
    exact serial_nextMonth hy h.month_pos hlast
  · have hend : t.day = daysInMonth t.year t.month := by omega
    have hdecember : t.month = 12 := by omega
    rw [DateTime.serial, DateTime.serial, hend, hdecember]
    exact serial_nextYear t.year

end Calendar
