-- SUMMARY: The day of the week, the day of the year and the date that `ts_to_date` computes, against the calendar day by day.
import Mathlib.Logic.Function.Iterate
import TalOS.Libk.Time

/-!
# The fields of a date

The calendar is walked day by day from the first of January 1970. The fields that
`ts_to_date` computes for a timestamp are those of the day the walk has reached,
with the weekdays in their order and the days of the year counted from its first.
-/

namespace TalOS

open MachineInt Calendar

/-! ## Walking the calendar -/

/-- The day `D` days after the first of January 1970. -/
def civilDay (D : Nat) : DateTime := DateTime.tomorrow^[D] ⟨1970, 1, 1, 0, 0, 0⟩

theorem civilDay_succ (D : Nat) : civilDay (D + 1) = (civilDay D).tomorrow :=
  Function.iterate_succ_apply' _ _ _

/-- The walk stays on valid dates, and every step is one day. -/
theorem civilDay_spec (D : Nat) :
    (civilDay D).Valid ∧ 1970 ≤ (civilDay D).year ∧ (civilDay D).serial = epochSerial + D := by
  induction D with
  | zero => exact ⟨by constructor <;> decide, Nat.le_refl _, by decide⟩
  | succ D ih =>
    obtain ⟨hvalid, hyear, hserial⟩ := ih
    rw [civilDay_succ]
    refine ⟨hvalid.tomorrow, Nat.le_trans hyear (civilDay D).year_le_tomorrow, ?_⟩
    rw [hvalid.serial_tomorrow (Nat.le_trans (by decide) hyear), hserial]
    rfl

/-- Every date from 1970 on is reached. -/
theorem civilDay_of_serial {t : DateTime} {D : Nat} (h : t.Valid) (hy : 1 ≤ t.year)
    (hserial : t.serial = epochSerial + D) :
    (civilDay D).year = t.year ∧ (civilDay D).month = t.month ∧ (civilDay D).day = t.day := by
  obtain ⟨hvalid, hyear, hcivil⟩ := civilDay_spec D
  exact hvalid.serial_injective h (Nat.le_trans (by decide) hyear) hy (hcivil.trans hserial.symm)

/-! ## `GetDayOfWeek` -/

/-- Zeller's congruence counts as the day numbers do, two days off. -/
theorem zeller_serial (t : DateTime) :
    (t.day + 26 * (marchMonth t.month + 1) / 10 + marchYear t.year t.month % 100 +
        marchYear t.year t.month % 100 / 4 + 5 * (marchYear t.year t.month / 100) +
        marchYear t.year t.month / 100 / 4) % 7 = (t.serial + 2) % 7 := by
  have h400 := Nat.div_div_eq_div_mul (marchYear t.year t.month) 100 4
  have h4 : marchYear t.year t.month / 4 =
      25 * (marchYear t.year t.month / 100) + marchYear t.year t.month % 100 / 4 := by omega
  have hmonth : 26 * (marchMonth t.month + 1) / 10 =
      2 * (marchMonth t.month + 1) + 3 * (marchMonth t.month + 1) / 5 := by omega
  unfold DateTime.serial daysBefore monthStart
  rw [h4, hmonth, ← h400]
  omega

theorem getDayOfWeek_eq {t : DateTime} (h : t.Valid) (hy : 1 ≤ t.year) (hy' : t.year ≤ 9999) :
    getDayOfWeek t.year t.month t.day = t.serial % 7 + 1 := by
  have hmonth := h.month_le
  have hday := Nat.le_trans h.day_le (daysInMonth_le _ _)
  have hm : (if t.month ≤ 2 then u8 (t.month + 12) else t.month) = marchMonth t.month := by
    unfold marchMonth
    split_ifs with hfirst
    · exact u8_of_lt (by omega)
    · rfl
  have hyear : (if t.month ≤ 2 then sub16 t.year 1 else t.year) = marchYear t.year t.month := by
    unfold marchYear
    split_ifs
    · exact sub16_of_le hy (by omega)
    · rfl
  have hbound := (marchMonth_bounds h.month_pos hmonth).2
  have hyear' : marchYear t.year t.month ≤ 9999 := by
    unfold marchYear
    split_ifs <;> omega
  have hzeller := zeller_serial t
  have hsmall : ∀ z < 2 ^ 31, u32 (u32 z + 5) % 7 + 1 = (z + 5) % 7 + 1 := by
    intro z hz
    rw [u32_of_lt (Nat.lt_trans hz (by decide)), u32_of_lt (by omega)]
  unfold getDayOfWeek
  dsimp only
  rw [hm, hyear, hsmall _ (by omega)]
  omega

/-! ## `GetDayOfYear` -/

/-- Days before a month, from the table. -/
theorem daysPerMonth_sum : ∀ leap < 2, ∀ m < 13, 1 ≤ m →
    ((daysPerMonth.getD leap []).take (m - 1)).foldl (fun acc n => u16 (acc + n)) 0 =
      if m ≤ 2 then 31 * (m - 1) else monthStart m + leap - 33 := by decide

/-- The days of a year are counted from its first. -/
theorem getDayOfYear_eq {t : DateTime} (h : t.Valid) (hy : 1 ≤ t.year) :
    getDayOfYear t.year t.month t.day + (⟨t.year, 1, 1, 0, 0, 0⟩ : DateTime).serial = t.serial + 1 := by
  have hday := Nat.le_trans h.day_le (daysInMonth_le _ _)
  have hle : monthStart t.month ≤ monthStart 12 := monthStart_mono h.month_le
  have hge : 3 ≤ t.month → monthStart 3 ≤ monthStart t.month := fun h => monthStart_mono h
  have h12 : monthStart 12 = 367 := by decide
  have h3 : monthStart 3 = 92 := by decide
  have hfirst : (⟨t.year, 1, 1, 0, 0, 0⟩ : DateTime).serial =
      daysBefore (t.year - 1) + (monthStart 13 + 1) := rfl
  have h13 : monthStart 13 = 398 := by decide
  have hyear := daysBefore_succ (t.year - 1)
  rw [Nat.sub_add_cancel hy] at hyear
  obtain ⟨leap, hlt, hleap, hlength⟩ : ∃ leap < 2,
      (if t.year % 400 = 0 then 1 else if t.year % 4 = 0 ∧ ¬ t.year % 100 = 0 then 1 else 0) = leap ∧
        (if isLeap t.year then 366 else 365) = 365 + leap := by
    have hiff := isLeap_iff t.year
    by_cases h400 : t.year % 400 = 0
    · exact ⟨1, by decide, if_pos h400, if_pos (hiff.mpr (.inl h400))⟩
    by_cases h4 : t.year % 4 = 0 ∧ ¬ t.year % 100 = 0
    · exact ⟨1, by decide, by rw [if_neg h400, if_pos h4], if_pos (hiff.mpr (.inr h4))⟩
    · exact ⟨0, by decide, by rw [if_neg h400, if_neg h4], if_neg fun hleap => (hiff.mp hleap).elim h400 h4⟩
  rw [hlength] at hyear
  rw [hfirst, h13]
  unfold getDayOfYear DateTime.serial
  dsimp only
  rw [hleap, daysPerMonth_sum leap hlt t.month (Nat.lt_succ_of_le h.month_le) h.month_pos, marchYear, marchMonth]
  split_ifs with hfirst'
  · have hjanuary : monthStart (t.month + 12) = 398 + 31 * (t.month - 1) := by
      have hpos := h.month_pos
      generalize t.month = m at *
      interval_cases m <;> rfl
    rw [u16_of_lt (by omega), hjanuary]
    omega
  · rw [u16_of_lt (by omega), hyear]
    omega

/-! ## The fields of `ts_to_date` -/

/-- Weekday and day of the year of a timestamp, in terms of the day numbers. -/
theorem tmOfDate_days {t : Nat} (h' : t ≤ 253402300799) :
    (tmOfDate t (dateOfTimestamp t).year (dateOfTimestamp t).month (dateOfTimestamp t).day).tmWday =
        ((t / 86400 + 3) % 7 + 1 : Nat) ∧
      ∃ days : Nat, (tmOfDate t (dateOfTimestamp t).year (dateOfTimestamp t).month
          (dateOfTimestamp t).day).tmYday = days ∧
        days + (⟨(dateOfTimestamp t).year, 1, 1, 0, 0, 0⟩ : DateTime).serial =
          epochSerial + t / 86400 + 1 := by
  have hvalid := dateOfTimestamp_valid t
  have hyear := dateOfTimestamp_year_pos t
  have hyear' := dateOfTimestamp_year_le h'
  have hserial := dateOfTimestamp_serial t
  have hweek := getDayOfWeek_eq hvalid hyear hyear'
  have hyday := getDayOfYear_eq hvalid hyear
  have hday := Nat.le_trans hvalid.day_le (daysInMonth_le _ _)
  have hmonth := hvalid.month_le
  rw [hserial] at hweek hyday
  unfold tmOfDate
  dsimp only
  rw [u16_of_lt (Nat.lt_of_le_of_lt hyear' (by decide)), u8_of_lt (by omega), u8_of_lt (by omega), hweek]
  refine ⟨?_, _, rfl, hyday⟩
  unfold epochSerial
  omega

/-- Up to the year 9999 `ts_to_date` steps through the weekdays, counts the days of the year from its first of
January, and gives the date of the day. -/
theorem tsToDate_fields {t : Nat} (h : 1 ≤ t) (h' : t ≤ 253402300799) :
    ∃ tm, tsToDate t = some tm ∧
      tm.tmWday = ((t / 86400 + 3) % 7 + 1 : Nat) ∧
      (∃ first : Nat, (civilDay first).year = tm.tmYear + 1900 ∧ (civilDay first).month = 1 ∧
        (civilDay first).day = 1 ∧ tm.tmYday = (t / 86400 : Nat) - first + 1) ∧
      tm.tmYear + 1900 = (civilDay (t / 86400)).year ∧ tm.tmMon = (civilDay (t / 86400)).month ∧
      tm.tmMday = (civilDay (t / 86400)).day := by
  obtain ⟨tm, htm, hholds⟩ := tsToDate_holds h h'
  have hvalid := dateOfTimestamp_valid t
  have hyear := dateOfTimestamp_year_pos t
  obtain ⟨hdateYear, hdateMonth, hdateDay⟩ := civilDay_of_serial hvalid hyear (dateOfTimestamp_serial t)
  obtain ⟨hweek, days, hyday, hdays⟩ := tmOfDate_days h'
  rw [tsToDate_eq h h'] at htm
  obtain rfl := Option.some.inj htm
  have hfield := hholds.year
  refine ⟨_, tsToDate_eq h h', hweek, ?_, ?_, ?_, ?_⟩
  · -- The first of January of a year from 1970 on is a day of the walk.
    have hjanuary : (⟨(dateOfTimestamp t).year, 1, 1, 0, 0, 0⟩ : DateTime).Valid := by
      constructor <;> simp [daysInMonth]
    have hepoch : (⟨1970, 1, 1, 0, 0, 0⟩ : DateTime).Valid := by
      constructor <;> decide
    have hepochSerial : (⟨1970, 1, 1, 0, 0, 0⟩ : DateTime).serial = epochSerial := by decide
    have hafter : epochSerial ≤ (⟨(dateOfTimestamp t).year, 1, 1, 0, 0, 0⟩ : DateTime).serial := by
      rcases Nat.eq_or_lt_of_le (dateOfTimestamp_year_ge t) with heq | hlt
      · rw [← heq, hepochSerial]
      · rw [← hepochSerial]
        exact Nat.le_of_lt (hepoch.serial_lt hjanuary (by decide) (.inl hlt))
    obtain ⟨first, hfirst⟩ := Nat.exists_eq_add_of_le hafter
    obtain ⟨hfirstYear, hfirstMonth, hfirstDay⟩ := civilDay_of_serial hjanuary hyear hfirst
    refine ⟨first, ?_, hfirstMonth, hfirstDay, ?_⟩
    · rw [hfirstYear, hfield]
      exact (Int.sub_add_cancel _ _).symm
    · rw [hyday]
      omega
  · rw [hfield, hdateYear]
    omega
  · rw [hholds.mon, hdateMonth]
  · rw [hholds.mday, hdateDay]

/-- The last second of the year 9999, a Friday. -/
theorem tsToDate_fields_last :
    ∃ tm, tsToDate 253402300799 = some tm ∧ tm.tmWday = 5 ∧
      (∃ first : Nat, (civilDay first).year = tm.tmYear + 1900 ∧ (civilDay first).month = 1 ∧
        (civilDay first).day = 1 ∧ tm.tmYday = 2932896 - first + 1) ∧
      tm.tmYear + 1900 = (civilDay 2932896).year ∧ tm.tmMon = (civilDay 2932896).month ∧
      tm.tmMday = (civilDay 2932896).day :=
  tsToDate_fields (t := 253402300799) (by decide) (by decide)

end TalOS
