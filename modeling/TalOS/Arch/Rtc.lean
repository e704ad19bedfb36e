-- SUMMARY: The RTC's date-to-timestamp conversion, and that it and `ts_to_date` are inverse to each other.
import TalOS.Libk.Time

/-!
# `arch/IA32/rtc.c`

`RTC_DateToTimestamp` packs a CMOS date into seconds since 1970 with 32-bit
arithmetic. `ts_to_date` unpacks them with unrelated constants; the two are
compared through the steps in `DayCount`.
-/

namespace TalOS

open MachineInt Calendar

/-- `date_t`: the CMOS registers after the BCD conversion, one byte each. -/
structure CmosDate where
  sec : Nat
  min : Nat
  hours : Nat
  day : Nat
  weekd : Nat
  month : Nat
  year : Nat
  century : Nat
  deriving Repr, DecidableEq

/-- `RTC_DateToTimestamp` -/
def rtcDateToTimestamp (date : CmosDate) : Nat :=
  let y := u16 (date.year + date.century * 100)
  let m := date.month
  let d := date.day
  -- January and February are counted as months 13 and 14 of the previous year
  let m' := if m ≤ 2 then u8 (m + 12) else m
  let y' := if m ≤ 2 then sub16 y 1 else y
  -- years to days, months to days, then back to 1970
  let t := u32 (365 * y' + y' / 4 - y' / 100 + y' / 400)
  let t := u32 (t + (30 * m' + 3 * (m' + 1) / 5 + d))
  let t := sub32 t epochSerial
  let t := u32 (t * 86400)
  u32 (t + (3600 * date.hours + 60 * date.min + date.sec))

/-- The CMOS registers that hold a date: the year is split into a century and
two digits. The weekday register is not read by the conversion. -/
def cmosOfDateTime (t : DateTime) (weekd : Nat) : CmosDate where
  sec := t.second
  min := t.minute
  hours := t.hour
  day := t.day
  weekd := weekd
  month := t.month
  year := t.year % 100
  century := t.year / 100

/-- The last two truncations of the conversion do nothing while the result fits. -/
theorem seconds_of_days {x rest : Nat} (hx : epochSerial ≤ x) (hx' : x < 2 ^ 32)
    (hfit : (x - epochSerial) * 86400 + rest < 2 ^ 32) :
    u32 (u32 (sub32 x epochSerial * 86400) + rest) = (x - epochSerial) * 86400 + rest := by
  rw [sub32_of_le hx hx']
  generalize x - epochSerial = days at *
  simp only [u32_of_lt (Nat.lt_of_le_of_lt (Nat.le_add_right _ _) hfit)]
  exact u32_of_lt hfit

/-- Without wrap-around the conversion is the number of days since 1970 times
the length of a day plus the time of day. -/
theorem rtcDateToTimestamp_cmosOfDateTime {t : DateTime} (h : t.Valid) (weekd : Nat)
    (hy : 1 ≤ t.year) (hy' : t.year ≤ 9999) (hstart : epochSerial ≤ t.serial)
    (hfit : (t.serial - epochSerial) * 86400 + t.secondOfDay < 2 ^ 32) :
    rtcDateToTimestamp (cmosOfDateTime t weekd) =
      (t.serial - epochSerial) * 86400 + t.secondOfDay := by
  have hm12 := h.month_le
  have hday := h.day_le.trans (daysInMonth_le _ _)
  have hmonth : monthStart (marchMonth t.month) ≤ monthStart 14 :=
    monthStart_mono (marchMonth_bounds h.month_pos hm12).2
  have h14 : monthStart 14 = 429 := by decide
  have hyear : t.year % 100 + t.year / 100 * 100 = t.year := by omega
  have hend : daysBefore (marchYear t.year t.month) ≤ daysBefore 9999 := by
    apply daysBefore_mono
    unfold marchYear
    split_ifs <;> omega
  have h9999 : daysBefore 9999 = 3652059 := by decide
  simp only [rtcDateToTimestamp, cmosOfDateTime, hyear, u16_of_lt (by omega : t.year < 2 ^ 16),
    u8_of_lt (by omega : t.month + 12 < 2 ^ 8),
    sub16_of_le hy (by omega : t.year < 2 ^ 16)]
  rw [← marchYear, ← marchMonth, ← daysBefore, ← monthStart, ← DateTime.secondOfDay,
    u32_of_lt (show daysBefore (marchYear t.year t.month) < 2 ^ 32 by omega),
    u32_of_lt (show daysBefore (marchYear t.year t.month) +
      (monthStart (marchMonth t.month) + t.day) < 2 ^ 32 by omega), ← DateTime.serial]
  refine seconds_of_days hstart ?_ hfit
  unfold DateTime.serial
  omega

/-! ## The two conversions are inverse -/

/-- The first and the last date of a positive 32-bit timestamp. -/
def firstDate : DateTime := ⟨1970, 1, 1, 0, 0, 1⟩
def lastDate : DateTime := ⟨2106, 2, 7, 6, 28, 15⟩

/-- A date computed from a 32-bit timestamp packs back into the timestamp. -/
theorem rtcDateToTimestamp_dateOfTimestamp {t : Nat} (h : t < 2 ^ 32) (weekd : Nat) :
    rtcDateToTimestamp (cmosOfDateTime (dateOfTimestamp t) weekd) = t := by
  have hserial := dateOfTimestamp_serial t
  have hsec := dateOfTimestamp_secondOfDay t
  have hback : ((dateOfTimestamp t).serial - epochSerial) * 86400 +
      (dateOfTimestamp t).secondOfDay = t := by
    rw [hserial, hsec, Nat.add_sub_cancel_left]
    exact Nat.div_add_mod' t 86400
  rw [rtcDateToTimestamp_cmosOfDateTime (dateOfTimestamp_valid t) weekd
    (dateOfTimestamp_year_pos t) (dateOfTimestamp_year_le (by omega))
    (by rw [hserial]; exact Nat.le_add_right _ _) (by rw [hback]; exact h), hback]

/-- A date in the 32-bit range is the date of its own timestamp. -/
theorem dateOfTimestamp_rtcDateToTimestamp {c : DateTime} (hv : c.Valid) (weekd : Nat)
    (hfirst : firstDate.NotAfter c) (hlast : c.NotAfter lastDate) :
    dateOfTimestamp (rtcDateToTimestamp (cmosOfDateTime c weekd)) = c ∧
      1 ≤ rtcDateToTimestamp (cmosOfDateTime c weekd) ∧
      rtcDateToTimestamp (cmosOfDateTime c weekd) < 2 ^ 32 := by
  have hfv : firstDate.Valid := by constructor <;> decide
  have hlv : lastDate.Valid := by constructor <;> decide
  have hy : 1970 ≤ c.year := by
    simp only [DateTime.NotAfter, firstDate] at hfirst
    omega
  have hy' : c.year ≤ 2106 := by
    simp only [DateTime.NotAfter, lastDate] at hlast
    omega
  have hlo := hfv.serial_of_notAfter hv (by decide) hfirst
  have hhi := hv.serial_of_notAfter hlv (by omega) hlast
  have hf : firstDate.serial = epochSerial ∧ firstDate.secondOfDay = 1 := by decide
  have hl : lastDate.serial = 769271 ∧ lastDate.secondOfDay = 23295 := by decide
  have hepoch : epochSerial = 719561 := rfl
  have hsec := hv.secondOfDay_lt
  rw [hf.1, hf.2] at hlo
  rw [hl.1, hl.2] at hhi
  have hpack := rtcDateToTimestamp_cmosOfDateTime hv weekd (by omega) (by omega) (by omega)
    (by omega)
  rw [hpack]
  generalize hD : c.serial - epochSerial = days at *
  refine ⟨?_, by omega, by omega⟩
  apply (dateOfTimestamp_valid _).ext_serial hv (dateOfTimestamp_year_pos _) (by omega)
  · rw [dateOfTimestamp_serial]
    omega
  · rw [dateOfTimestamp_secondOfDay]
    omega

/-- `ts_to_date` and `RTC_DateToTimestamp` are inverse to each other on the
positive 32-bit timestamps and on the dates between the first and the last. -/
theorem tsToDate_rtcDateToTimestamp_inverse (weekd : Nat) :
    (∀ t : Nat, 1 ≤ t → t ≤ 2 ^ 32 - 1 →
      ∃ tm c, tsToDate t = some tm ∧ tm.Holds c ∧ c.Valid ∧
        rtcDateToTimestamp (cmosOfDateTime c weekd) = t) ∧
    (∀ c : DateTime, c.Valid → firstDate.NotAfter c → c.NotAfter lastDate →
      ∃ tm, tsToDate (rtcDateToTimestamp (cmosOfDateTime c weekd)) = some tm ∧ tm.Holds c) := by
  constructor
  · intro t hpos hlast
    obtain ⟨tm, htm, hholds⟩ := tsToDate_holds hpos (by omega)
    exact ⟨tm, dateOfTimestamp t, htm, hholds, dateOfTimestamp_valid t,
      rtcDateToTimestamp_dateOfTimestamp (by omega) weekd⟩
  · intro c hv hfirst hlast
    obtain ⟨hdate, hpos, hlt⟩ := dateOfTimestamp_rtcDateToTimestamp hv weekd hfirst hlast
    obtain ⟨tm, htm, hholds⟩ := tsToDate_holds hpos (by omega)
    rw [hdate] at hholds
    exact ⟨tm, htm, hholds⟩

/-- The last second of the 32-bit range, in both directions. -/
theorem tsToDate_rtcDateToTimestamp_last :
    (∃ tm c, tsToDate ((2 ^ 32 - 1 : Nat) : Int) = some tm ∧ tm.Holds c ∧ c.Valid ∧
      rtcDateToTimestamp (cmosOfDateTime c 0) = 2 ^ 32 - 1) ∧
    (∃ tm, tsToDate (rtcDateToTimestamp (cmosOfDateTime lastDate 0)) = some tm ∧
      tm.Holds lastDate) :=
  ⟨(tsToDate_rtcDateToTimestamp_inverse 0).1 (2 ^ 32 - 1) (by decide) (by decide),
    (tsToDate_rtcDateToTimestamp_inverse 0).2 lastDate (by constructor <;> decide)
      (by decide) (by decide)⟩

end TalOS
