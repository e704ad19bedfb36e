-- SUMMARY: The calendar functions of `libk/time.c` and the arithmetic of `ts_to_date`.
import Mathlib.Tactic.IntervalCases
import TalOS.Lib.Calendar
import TalOS.Lib.MachineInt

/-!
# `libk/time.c`

`ts_to_date` and the two helpers that compute the day of the week and of the
year. `time_t` is a 64-bit integer, everything after the division into days is
computed in `uint32_t`.

The second half reads the magic constants: with the year counted from March,
`a` identifies the century, `c` the year, `e` the month and `f` the day.
-/

namespace TalOS

open MachineInt Calendar

/-- `struct tm`, less `tm_isdst`, which no function sets. -/
structure Tm where
  tmSec : Int
  tmMin : Int
  tmHour : Int
  tmMday : Int
  tmMon : Int
  tmYear : Int
  tmWday : Int
  tmYday : Int
  deriving Repr, DecidableEq

def daysPerMonth : List (List Nat) :=
  [[31, 28, 31, 30, 31, 30, 31, 31, 30, 31, 30, 31],
   [31, 29, 31, 30, 31, 30, 31, 31, 30, 31, 30, 31]]

def getDayOfYear (y m d : Nat) : Nat :=
  let leap := if y % 400 = 0 then 1 else if y % 4 = 0 ∧ ¬ y % 100 = 0 then 1 else 0
  let ydays := ((daysPerMonth.getD leap []).take (m - 1)).foldl (fun acc n => u16 (acc + n)) 0
  u16 (ydays + d)

def getDayOfWeek (y m d : Nat) : Nat :=
  -- January and February are counted as months 13 and 14 of the previous year
  let m' := if m ≤ 2 then u8 (m + 12) else m
  let y' := if m ≤ 2 then sub16 y 1 else y
  let j := y' / 100
  let k := y' % 100
  let h := u32 (d + 26 * (m' + 1) / 10 + k + k / 4 + 5 * j + j / 4)
  u32 (h + 5) % 7 + 1

/-- The middle of `ts_to_date`: year, month and day of a day since 1970. -/
def dateOfDays (times : Nat) : Nat × Nat × Nat :=
  let a := u32 ((4 * times + 102032) / 146097 + 15)
  let b := u32 (times + 2442113 + a - a / 4)
  let c := sub32 (u32 (20 * b)) 2442 / 7305
  let d := sub32 (sub32 b (u32 (365 * c))) (c / 4)
  let e := u32 (d * 1000) / 30601
  let f := sub32 (sub32 d (u32 (e * 30))) (u32 (e * 601) / 1000)
  -- January and February are counted as months 13 and 14 of the previous year
  if e ≤ 13 then (sub32 c 4716, sub32 e 1, f) else (sub32 c 4715, sub32 e 13, f)

/-- The end of `ts_to_date`: the fields for the time of day and for the date. -/
def tmOfDate (times c e f : Nat) : Tm where
  tmSec := (times % 60 : Nat)
  tmMin := (times / 60 % 60 : Nat)
  tmHour := (times / 60 / 60 % 24 : Nat)
  tmMday := int32 f
  tmMon := int32 e
  tmYear := int32 (sub32 c 1900)
  tmWday := getDayOfWeek (u16 c) (u8 e) (u8 f)
  tmYday := getDayOfYear (u16 c) (u8 e) (u8 f)

/-- `ts_to_date`: `none` is the `NULL` returned for a timestamp below 1. -/
def tsToDate (timestamp : Int) : Option Tm :=
  if timestamp < 1 then none
  else
    let times := timestamp.toNat
    let date := dateOfDays (times / 60 / 60 / 24)
    some (tmOfDate times date.1 date.2.1 date.2.2)

/-- The fields of a `struct tm` are those of a date with a time of day. -/
structure Tm.Holds (t : Tm) (c : DateTime) : Prop where
  sec : t.tmSec = c.second
  min : t.tmMin = c.minute
  hour : t.tmHour = c.hour
  mday : t.tmMday = c.day
  mon : t.tmMon = c.month
  year : t.tmYear = (c.year : Int) - 1900

/-! ## The steps of `ts_to_date` without truncation -/

namespace DayCount

def a (days : Nat) : Nat := (4 * days + 102032) / 146097 + 15
def b (days : Nat) : Nat := days + 2442113 + a days - a days / 4
def c (days : Nat) : Nat := (20 * b days - 2442) / 7305
def d (days : Nat) : Nat := b days - 365 * c days - c days / 4
def e (days : Nat) : Nat := d days * 1000 / 30601
def f (days : Nat) : Nat := d days - e days * 30 - e days * 601 / 1000

def year (days : Nat) : Nat := if e days ≤ 13 then c days - 4716 else c days - 4715
def month (days : Nat) : Nat := if e days ≤ 13 then e days - 1 else e days - 13

/-- `a` counts the centuries of the year that starts in March. -/
theorem century (days : Nat) :
    100 * (a days + 4) + 4716 ≤ c days ∧ c days < 100 * (a days + 5) + 4716 := by
  have ha : a days = (4 * days + 102032) / 146097 + 15 := rfl
  unfold c b
  generalize a days = x at *
  omega

/-- The day number inside the March-based year, offset by 123. Only a year whose
February has 29 days in the Julian count reaches 488. -/
theorem b_bounds (days : Nat) :
    365 * c days + c days / 4 + 123 ≤ b days ∧ b days ≤ 365 * c days + c days / 4 + 488 ∧
      (c days % 4 ≠ 3 → b days ≤ 365 * c days + c days / 4 + 487) := by
  have hb : 2442113 ≤ b days := by
    unfold b
    omega
  have hc : c days = (20 * b days - 2442) / 7305 := rfl
  generalize b days = y at *
  generalize c days = z at *
  omega

theorem d_bounds (days : Nat) :
    123 ≤ d days ∧ d days ≤ 488 ∧ (c days % 4 ≠ 3 → d days ≤ 487) := by
  have h := b_bounds days
  unfold d
  omega

theorem b_eq (days : Nat) : b days = 365 * c days + c days / 4 + d days := by
  have h := b_bounds days
  unfold d
  omega

theorem e_bounds (days : Nat) : 4 ≤ e days ∧ e days ≤ 15 := by
  have h := d_bounds days
  unfold e
  omega

theorem d_eq (days : Nat) : d days = e days * 30 + e days * 601 / 1000 + f days := by
  have h := d_bounds days
  unfold f e
  omega

/-- The last day of the last year of a century reaches 488 only when the
century is a leap one: in the others `a` has moved on by then. -/
theorem d_century_end (days : Nat) (h : c days = 100 * (a days + 5) + 4715) (h4 : a days % 4 ≠ 3) :
    d days ≤ 487 := by
  have ha : a days = (4 * days + 102032) / 146097 + 15 := rfl
  have hb : b days = days + 2442113 + a days - a days / 4 := rfl
  have hbe := b_eq days
  generalize a days = x at *
  omega

/-- The day of the month stays within the month of the Gregorian calendar. -/
theorem f_bounds (days : Nat) :
    1 ≤ f days ∧ f days ≤ daysInMonth (year days) (month days) := by
  have he := e_bounds days
  have hd := d_bounds days
  have hed : e days = d days * 1000 / 30601 := rfl
  have hfd := d_eq days
  by_cases hfeb : e days = 15
  · -- February: the length depends on the year
    have hm : month days = 2 := by simp [month, hfeb]
    have hy : year days = c days - 4715 := by simp [year, hfeb]
    have hcent := century days
    have hend := d_century_end days
    rw [hm, hy, daysInMonth_two]
    have hleap := isLeap_iff (c days - 4715)
    generalize a days = x at *
    split_ifs with h
    · omega
    · rw [hleap] at h
      omega
  · have hm : month days ≠ 2 := by
      unfold month
      split_ifs <;> omega
    rw [daysInMonth_of_ne_two hm]
    unfold month
    generalize e days = x at *
    obtain ⟨h4, h15⟩ := he
    interval_cases x <;> simp <;> omega

theorem month_bounds (days : Nat) : 1 ≤ month days ∧ month days ≤ 12 := by
  have he := e_bounds days
  unfold month
  split_ifs <;> omega

theorem marchMonth_month (days : Nat) : marchMonth (month days) = e days - 1 := by
  have he := e_bounds days
  unfold month marchMonth
  split_ifs <;> omega

theorem marchYear_year (days : Nat) : marchYear (year days) (month days) = c days - 4716 := by
  have he := e_bounds days
  have hc := century days
  unfold year month marchYear
  split_ifs <;> omega

/-- The lengths of the months add up to the same in both formulas. -/
theorem monthStart_e (days : Nat) :
    monthStart (e days - 1) + 30 = e days * 30 + e days * 601 / 1000 := by
  obtain ⟨h4, h15⟩ := e_bounds days
  generalize e days = x at *
  interval_cases x <;> rfl

/-- The leap days add up to the same in both formulas. -/
theorem daysBefore_c (days : Nat) :
    daysBefore (c days - 4716) + a days + 1722522 =
      365 * c days + c days / 4 + a days / 4 := by
  have hc := century days
  have h400 : (c days - 4716) / 400 = (c days - 4716) / 100 / 4 :=
    (Nat.div_div_eq_div_mul _ 100 4).symm
  have h4 : c days / 4 = (c days - 4716) / 4 + 1179 := by omega
  have h100 : (c days - 4716) / 100 = a days + 4 := by omega
  unfold daysBefore
  rw [h400, h100, h4]
  omega

end DayCount

/-! ## `ts_to_date` -/

/-- The number that the calendar gives to the first of January 1970. -/
def epochSerial : Nat := 719561

/-- The date and time of day that `ts_to_date` computes for a timestamp. -/
def dateOfTimestamp (t : Nat) : DateTime where
  year := DayCount.year (t / 86400)
  month := DayCount.month (t / 86400)
  day := DayCount.f (t / 86400)
  hour := t / 3600 % 24
  minute := t / 60 % 60
  second := t % 60

theorem dateOfTimestamp_valid (t : Nat) : (dateOfTimestamp t).Valid where
  month_pos := (DayCount.month_bounds _).1
  month_le := (DayCount.month_bounds _).2
  day_pos := (DayCount.f_bounds _).1
  day_le := (DayCount.f_bounds _).2
  hour_lt := Nat.mod_lt _ (by decide)
  minute_lt := Nat.mod_lt _ (by decide)
  second_lt := Nat.mod_lt _ (by decide)

theorem dateOfTimestamp_secondOfDay (t : Nat) :
    (dateOfTimestamp t).secondOfDay = t % 86400 := by
  simp only [DateTime.secondOfDay, dateOfTimestamp]
  omega

/-- The date of day `D` since 1970 is the calendar's `D`-th day after the epoch. -/
theorem dateOfTimestamp_serial (t : Nat) :
    (dateOfTimestamp t).serial = epochSerial + t / 86400 := by
  have hc := DayCount.daysBefore_c (t / 86400)
  have hm := DayCount.monthStart_e (t / 86400)
  have hd := DayCount.d_eq (t / 86400)
  have hb := DayCount.b_eq (t / 86400)
  have hbd : DayCount.b (t / 86400) =
      t / 86400 + 2442113 + DayCount.a (t / 86400) - DayCount.a (t / 86400) / 4 := rfl
  unfold DateTime.serial dateOfTimestamp
  simp only [DayCount.marchYear_year, DayCount.marchMonth_month, epochSerial]
  omega

theorem dateOfTimestamp_year_pos (t : Nat) : 1 ≤ (dateOfTimestamp t).year := by
  have hc := DayCount.century (t / 86400)
  simp only [dateOfTimestamp, DayCount.year]
  split_ifs <;> omega

/-- No date before 1970 is ever computed. -/
theorem dateOfTimestamp_year_ge (t : Nat) : 1970 ≤ (dateOfTimestamp t).year := by
  by_contra h
  have hepoch : (⟨1970, 1, 1, 0, 0, 0⟩ : DateTime).Valid := by
    constructor <;> decide
  have hlt := (dateOfTimestamp_valid t).serial_lt hepoch (dateOfTimestamp_year_pos t) (by
    left
    exact Nat.lt_of_not_le h)
  have hserial := dateOfTimestamp_serial t
  have h1970 : (⟨1970, 1, 1, 0, 0, 0⟩ : DateTime).serial = epochSerial := by decide
  omega

theorem dateOfTimestamp_year_le {t : Nat} (h : t ≤ 253402300799) :
    (dateOfTimestamp t).year ≤ 9999 := by
  by_contra hlt
  have hend : (⟨9999, 12, 31, 0, 0, 0⟩ : DateTime).Valid := by
    constructor <;> decide
  have hser := hend.serial_lt (dateOfTimestamp_valid t) (by decide) (by
    left
    exact Nat.lt_of_not_le hlt)
  have hserial := dateOfTimestamp_serial t
  have h9999 : (⟨9999, 12, 31, 0, 0, 0⟩ : DateTime).serial = 3652457 := by decide
  have hepoch : epochSerial = 719561 := rfl
  omega

/-- Up to the year 9999 no step of `ts_to_date` wraps around. -/
theorem dateOfDays_eq {days : Nat} (h : days ≤ 2932896) :
    dateOfDays days = (DayCount.year days, DayCount.month days, DayCount.f days) := by
  have hcent := DayCount.century days
  have hb := DayCount.b_eq days
  have hd := DayCount.d_bounds days
  have he := DayCount.e_bounds days
  have hf := DayCount.d_eq days
  have ha : u32 ((4 * days + 102032) / 146097 + 15) = DayCount.a days :=
    u32_of_lt (by omega)
  have hale : DayCount.a days ≤ 100 := by
    unfold DayCount.a
    omega
  have hb' : u32 (days + 2442113 + DayCount.a days - DayCount.a days / 4) = DayCount.b days :=
    u32_of_lt (by omega)
  have hble : DayCount.b days ≤ 5400000 := by
    unfold DayCount.b
    omega
  have hc : sub32 (u32 (20 * DayCount.b days)) 2442 / 7305 = DayCount.c days := by
    rw [u32_of_lt (by omega), sub32_of_le (by omega) (by omega), DayCount.c]
  have hd' : sub32 (sub32 (DayCount.b days) (u32 (365 * DayCount.c days))) (DayCount.c days / 4) =
      DayCount.d days := by
    have hyears : sub32 (DayCount.b days) (u32 (365 * DayCount.c days)) =
        DayCount.b days - 365 * DayCount.c days := by
      rw [u32_of_lt (by omega), sub32_of_le (by omega) (by omega)]
    rw [hyears, sub32_of_le (by omega) (by omega), DayCount.d]
  have he' : u32 (DayCount.d days * 1000) / 30601 = DayCount.e days := by
    rw [u32_of_lt (by omega), DayCount.e]
  have hf' : sub32 (sub32 (DayCount.d days) (u32 (DayCount.e days * 30)))
      (u32 (DayCount.e days * 601) / 1000) = DayCount.f days := by
    have hmonths : sub32 (DayCount.d days) (u32 (DayCount.e days * 30)) =
        DayCount.d days - DayCount.e days * 30 := by
      rw [u32_of_lt (by omega), sub32_of_le (by omega) (by omega)]
    rw [hmonths, u32_of_lt (by omega), sub32_of_le (by omega) (by omega), DayCount.f]
  simp only [dateOfDays, ha, hb', hc, hd', he', hf', DayCount.year, DayCount.month]
  split_ifs
  · rw [sub32_of_le (by omega) (by omega), sub32_of_le (by omega) (by omega)]
  · rw [sub32_of_le (by omega) (by omega), sub32_of_le (by omega) (by omega)]

/-- A `struct tm` built from a date within the years 1900 to 9999 holds that date. -/
theorem tmOfDate_holds {times c e f : Nat} (hc : 1900 ≤ c) (hc' : c ≤ 9999)
    (he : e ≤ 12) (hf : f ≤ 31) :
    (tmOfDate times c e f).Holds
      ⟨c, e, f, times / 60 / 60 % 24, times / 60 % 60, times % 60⟩ where
  sec := rfl
  min := rfl
  hour := rfl
  mday := int32_of_lt (by omega)
  mon := int32_of_lt (by omega)
  year := by
    unfold tmOfDate
    dsimp only
    rw [sub32_of_le hc (by omega), int32_of_lt (by omega)]
    omega

/-- `ts_to_date` fills in the date of the timestamp. -/
theorem tsToDate_eq {t : Nat} (h : 1 ≤ t) (h' : t ≤ 253402300799) :
    tsToDate t = some (tmOfDate t (dateOfTimestamp t).year (dateOfTimestamp t).month
      (dateOfTimestamp t).day) := by
  have hpos : ¬ (t : Int) < 1 := by omega
  have hdays : t / 60 / 60 / 24 = t / 86400 := by omega
  have hdate := dateOfDays_eq (show t / 86400 ≤ 2932896 by omega)
  rw [tsToDate, if_neg hpos, Int.toNat_natCast]
  dsimp only
  rw [hdays, hdate]
  rfl

theorem tsToDate_holds {t : Nat} (h : 1 ≤ t) (h' : t ≤ 253402300799) :
    ∃ tm, tsToDate t = some tm ∧ tm.Holds (dateOfTimestamp t) := by
  have hhour : t / 60 / 60 = t / 3600 := by omega
  have hge : 1970 ≤ DayCount.year (t / 86400) := dateOfTimestamp_year_ge t
  have hle : DayCount.year (t / 86400) ≤ 9999 := dateOfTimestamp_year_le h'
  have hm := DayCount.month_bounds (t / 86400)
  have hf := (DayCount.f_bounds (t / 86400)).2.trans (daysInMonth_le _ _)
  have hholds := @tmOfDate_holds t _ _ _ (Nat.le_trans (by decide) hge) hle hm.2 hf
  rw [hhour] at hholds
  exact ⟨_, tsToDate_eq h h', hholds⟩

end TalOS
