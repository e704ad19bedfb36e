-- SUMMARY: `asctime_r`: the text of a date, and how many bytes it stores.
import TalOS.Libk.ConversionRules
import TalOS.Libk.DateFields
import TalOS.Libk.Stdout

/-!
# `asctime_r`

The names of weekday and month come from two tables, the numbers through the
formatter. For the dates that `ts_to_date` computes every field has its fixed
width, so the text has the length of the buffers that the callers give.
-/

namespace TalOS

open MachineInt Calendar Numeral

/-- `wday_name`, each name before its NUL -/
def wdayName : List (List UInt8) :=
  [[0x4d, 0x6f, 0x6e], [0x54, 0x75, 0x65], [0x57, 0x65, 0x64], [0x54, 0x68, 0x75], [0x46, 0x72, 0x69],
    [0x53, 0x61, 0x74], [0x53, 0x75, 0x6e]]

/-- `mon_name` -/
def monName : List (List UInt8) :=
  [[0x4a, 0x61, 0x6e], [0x46, 0x65, 0x62], [0x4d, 0x61, 0x72], [0x41, 0x70, 0x72], [0x4d, 0x61, 0x79],
    [0x4a, 0x75, 0x6e], [0x4a, 0x75, 0x6c], [0x41, 0x75, 0x67], [0x53, 0x65, 0x70], [0x4f, 0x63, 0x74],
    [0x4e, 0x6f, 0x76], [0x44, 0x65, 0x63]]

/-- An entry of a table; behind its ends there is none. -/
def tableEntry (table : List (List UInt8)) (i : Int) : Option (List UInt8) :=
  if 0 ≤ i then table[i.toNat]? else none

/-- An `int` as the word it is passed in. -/
def intWord (v : Int) : UInt32 := (v % 2 ^ 32).toNat.toUInt32

/-- `"%.3s %.3s%3d %.2d:%.2d:%.2d %d\\n"` -/
def ASCTIME_FORMAT : List UInt8 :=
  [0x25, 0x2e, 0x33, 0x73, 0x20, 0x25, 0x2e, 0x33, 0x73, 0x25, 0x33, 0x64, 0x20, 0x25, 0x2e, 0x32, 0x64,
    0x3a, 0x25, 0x2e, 0x32, 0x64, 0x3a, 0x25, 0x2e, 0x32, 0x64, 0x20, 0x25, 0x64, 0x0a]

def ASCTIME_BUFF_LEN : Nat := 26

/-- `asctime_r`: `buf` afterwards; none where a name is read outside its table. -/
def asctimeR (beyond : Nat) (timeptr : Tm) (buf : Nat → UInt8) : Option (Nat → UInt8) :=
  (tableEntry wdayName (timeptr.tmWday - 1)).bind fun wday =>
    (tableEntry monName (timeptr.tmMon - 1)).bind fun mon =>
      (sprintf beyond buf ASCTIME_FORMAT
        [.str wday, .str mon, .word (intWord timeptr.tmMday), .word (intWord timeptr.tmHour),
          .word (intWord timeptr.tmMin), .word (intWord timeptr.tmSec),
          .word (intWord (1900 + timeptr.tmYear))]).map Prod.fst

/-! ## The text -/

/-- Two decimal digits. -/
def twoDigits (v : Nat) : List UInt8 := [digitChar (v / 10), digitChar (v % 10)]

def COLON : UInt8 := 0x3a
def NEWLINE : UInt8 := 0x0a

/-- `Www Mmm dd hh:mm:ss yyyy` and a newline, the day right-aligned in two columns. -/
def asctimeText (wday mon : List UInt8) (c : DateTime) : List UInt8 :=
  wday ++ [SPACE] ++ mon ++ [SPACE] ++ fieldText 2 (decimal c.day) ++ [SPACE] ++ twoDigits c.hour ++ [COLON] ++
    twoDigits c.minute ++ [COLON] ++ twoDigits c.second ++ [SPACE] ++ decimal c.year ++ [NEWLINE]

theorem decimal_of_lt_ten {n : Nat} (h : n < 10) : decimal n = [digitChar n] := numeral_of_lt h

theorem decimal_of_lt_hundred {n : Nat} (h : 10 ≤ n) (h' : n < 100) : decimal n = twoDigits n := by
  rw [decimal, numeral_of_le (by decide) h, numeral_of_lt (by omega)]
  rfl

theorem length_decimal_bounds {n : Nat} (h : n < 100) :
    1 ≤ (decimal n).length ∧ (decimal n).length ≤ 2 :=
  ⟨length_numeral_pos, length_numeral_le (by decide) (by decide) h⟩

theorem intValue_intWord {v : Nat} (h : v < 2 ^ 31) : intValue .signed (.word (intWord v)) = v := by
  have hmod : ((v : Int) % 2 ^ 32).toNat = v := by omega
  have hword : (intWord v).toNat = v := by
    rw [intWord, hmod]
    exact Nat.mod_eq_of_lt (Nat.lt_trans h (by decide))
  show int32 (intWord v).toNat = v
  rw [hword, int32_of_lt h]

/-- An `int` that is not negative, without a sign. -/
theorem numberText_intWord {v P W : Nat} (hv : v < 2 ^ 31) (hP : P < 2 ^ 31) (hW : W < 2 ^ 31) :
    numberText (wordText .signed (intWord v)) P W 0 =
      List.replicate (W - if P = 0 then (decimal v).length else P) SPACE ++
        (List.replicate (P - (decimal v).length) ASCII_0 ++ decimal v) := by
  have hsign : signChars (v : Int) = [] := if_neg (Int.not_lt.mpr (Int.natCast_nonneg v))
  have hlen := length_integerText_le .signed (natAbs_intValue_lt .signed (.word (intWord v)))
  rw [intValue_intWord hv] at hlen
  rw [wordText_eq, intValue_intWord hv, numberText_integerText (by decide) (by decide)
    (Nat.le_trans hlen (by decide)) (clampSigned_of_lt hP) (clampSigned_of_lt hW) (ite_self 0).symm, widthTaken,
    preciseText, hsign, List.length_nil, Nat.zero_add]
  rfl

/-- `%.2d` -/
theorem numberText_twoDigits {v : Nat} (h : v < 100) :
    numberText (wordText .signed (intWord v)) 2 0 0 = twoDigits v := by
  rw [numberText_intWord (by omega) (by decide) (by decide), Nat.zero_sub, List.replicate_zero, List.nil_append]
  rcases Nat.lt_or_ge v 10 with hlt | hge
  · rw [decimal_of_lt_ten hlt, twoDigits, Nat.div_eq_of_lt hlt, Nat.mod_eq_of_lt hlt]
    rfl
  · rw [decimal_of_lt_hundred hge h]
    rfl

/-- `%3d` of a number with at most two digits. -/
theorem numberText_mday {v : Nat} (h : v < 100) :
    numberText (wordText .signed (intWord v)) 0 3 0 =
      SPACE :: fieldText 2 (decimal v) := by
  have hlen := length_decimal_bounds h
  have hspaces : 3 - (decimal v).length = 2 - (decimal v).length + 1 := by omega
  rw [numberText_intWord (by omega) (by decide) (by decide), if_pos rfl, Nat.zero_sub, hspaces,
    List.replicate_succ]
  rfl

theorem length_twoDigits (v : Nat) : (twoDigits v).length = 2 := rfl

theorem length_asctimeText {wday mon : List UInt8} {c : DateTime} (hwday : wday.length = 3) (hmon : mon.length = 3)
    (hday : c.day < 100) (hyear : 1000 ≤ c.year) (hyear' : c.year < 10000) :
    (asctimeText wday mon c).length = 25 := by
  have hlen := length_decimal_bounds hday
  have hle : (decimal c.year).length ≤ 4 := length_numeral_le (by decide) (by decide) hyear'
  have hlt : 3 < (decimal c.year).length := lt_length_numeral (by decide) hyear
  simp only [asctimeText, List.length_append, hwday, hmon, length_fieldText, length_twoDigits,
    List.length_singleton]
  omega

/-- The turns of the formatter over the format of `asctime_r`. -/
theorem textLoop_asctime (beyond : Nat) (wday mon : List UInt8) (mday hour min sec year : UInt32) :
    textLoop beyond (ASCTIME_FORMAT.length + 1) ⟨ASCTIME_FORMAT,
        [.str wday, .str mon, .word mday, .word hour, .word min, .word sec, .word year]⟩ =
      some ((List.replicate (padCount 0 wday.length) SPACE ++ wday) ++ ([SPACE] ++
        ((List.replicate (padCount 0 mon.length) SPACE ++ mon) ++
        (numberText (wordText .signed mday) 0 3 0 ++ ([SPACE] ++
        (numberText (wordText .signed hour) 2 0 0 ++ ([COLON] ++
        (numberText (wordText .signed min) 2 0 0 ++ ([COLON] ++
        (numberText (wordText .signed sec) 2 0 0 ++ ([SPACE] ++
        (numberText (wordText .signed year) 0 0 0 ++ ([NEWLINE] ++ []))))))))))))) := rfl

/-- The text `asctime_r` prints for a date with its fields in range. -/
theorem asctimeR_eq (beyond : Nat) {timeptr : Tm} {c : DateTime} {wday mon : List UInt8} (hc : timeptr.Holds c)
    (hvalid : c.Valid) (hyear : 1000 ≤ c.year) (hyear' : c.year < 10000)
    (hwday : tableEntry wdayName (timeptr.tmWday - 1) = some wday) (hwday' : wday.length = 3)
    (hmon : tableEntry monName (timeptr.tmMon - 1) = some mon) (hmon' : mon.length = 3) (buf : Nat → UInt8) :
    asctimeR beyond timeptr buf = some (Memory.writeAt buf 0 (asctimeText wday mon c ++ [NUL])) := by
  have hday : c.day < 100 := Nat.lt_of_le_of_lt (Nat.le_trans hvalid.day_le (daysInMonth_le _ _)) (by decide)
  have hhour := hvalid.hour_lt
  have hminute := hvalid.minute_lt
  have hsecond := hvalid.second_lt
  have hyearWord : 1900 + timeptr.tmYear = (c.year : Int) := by
    rw [hc.year]
    omega
  have hlen := length_asctimeText hwday' hmon' hday hyear hyear'
  have hturns := textLoop_asctime beyond wday mon (intWord c.day) (intWord c.hour) (intWord c.minute)
    (intWord c.second) (intWord c.year)
  rw [numberText_mday hday, numberText_twoDigits (by omega), numberText_twoDigits (by omega),
    numberText_twoDigits (by omega), numberText_intWord (by omega) (by decide) (by decide), hwday', hmon'] at hturns
  have htext : textLoop beyond (ASCTIME_FORMAT.length + 1) ⟨ASCTIME_FORMAT, [.str wday, .str mon,
      .word (intWord c.day), .word (intWord c.hour), .word (intWord c.minute), .word (intWord c.second),
      .word (intWord c.year)]⟩ = some (asctimeText wday mon c) := by
    rw [hturns]
    simp [asctimeText, padCount]
  have hsprintf : sprintf beyond buf ASCTIME_FORMAT _ = _ :=
    vsprintf_rendering buf (rendering_of_textLoop htext (by rw [hlen]; decide)) (by rw [hlen]; decide)
  rw [asctimeR, hwday, hmon, Option.bind_some, Option.bind_some, hc.mday, hc.hour, hc.min, hc.sec, hyearWord,
    hsprintf, Option.map_some]

/-! ## The dates of `ts_to_date` -/

theorem tableEntry_of_lt {table : List (List UInt8)} {i : Int} {k : Nat} (hi : i = (k + 1 : Nat))
    (hk : k < table.length) (hnames : ∀ name ∈ table, name.length = 3) :
    ∃ name, tableEntry table (i - 1) = some name ∧ name.length = 3 := by
  obtain rfl : i = (k : Int) + 1 := hi
  rw [Int.add_sub_cancel]
  exact ⟨table[k], (if_pos (Int.natCast_nonneg k)).trans (List.getElem?_eq_getElem hk),
    hnames _ (List.getElem_mem hk)⟩

/-- Up to the year 9999 both names are found, and the text fills a buffer of `ASCTIME_BUFF_LEN` bytes. -/
theorem asctimeR_tsToDate (beyond : Nat) {t : Nat} (h : 1 ≤ t) (h' : t ≤ 253402300799) (buf : Nat → UInt8) :
    ∃ tm c wday mon, tsToDate t = some tm ∧ tm.Holds c ∧
      tableEntry wdayName (tm.tmWday - 1) = some wday ∧ wday.length = 3 ∧
      tableEntry monName (tm.tmMon - 1) = some mon ∧ mon.length = 3 ∧
      asctimeR beyond tm buf = some (Memory.writeAt buf 0 (asctimeText wday mon c ++ [NUL])) ∧
      (asctimeText wday mon c ++ [NUL]).length = ASCTIME_BUFF_LEN ∧ (decimal c.year).length = 4 := by
  obtain ⟨tm, htm, hholds⟩ := tsToDate_holds h h'
  have hvalid := dateOfTimestamp_valid t
  have hmonth := hvalid.month_le
  have hmonth' := hvalid.month_pos
  have hge := Nat.le_trans (by decide : 1000 ≤ 1970) (dateOfTimestamp_year_ge t)
  have hlt := Nat.lt_succ_of_le (dateOfTimestamp_year_le h')
  have hweek := (tmOfDate_days h').1
  rw [tsToDate_eq h h'] at htm
  obtain rfl := Option.some.inj htm
  have hmon : _ = (((dateOfTimestamp t).month - 1 + 1 : Nat) : Int) := hholds.mon.trans (by omega)
  obtain ⟨wday, hwday, hwday'⟩ := @tableEntry_of_lt wdayName _ _ hweek (Nat.mod_lt _ (by decide)) (by decide)
  obtain ⟨mon, hmon, hmon'⟩ := @tableEntry_of_lt monName _ _ hmon (show _ < 12 by omega) (by decide)
  refine ⟨_, _, wday, mon, tsToDate_eq h h', hholds, hwday, hwday', hmon, hmon',
    asctimeR_eq beyond hholds hvalid hge hlt hwday hwday' hmon hmon' buf, ?_, ?_⟩
  · have hday := Nat.lt_of_le_of_lt (Nat.le_trans hvalid.day_le (daysInMonth_le _ _)) (show 31 < 100 by decide)
    rw [List.length_append, length_asctimeText hwday' hmon' hday hge hlt]
    rfl
  · exact Nat.le_antisymm (length_numeral_le (by decide) (by decide) hlt) (lt_length_numeral (by decide) hge)

/-- The last second of the year 9999. -/
theorem asctimeR_tsToDate_last :
    ∃ tm c wday mon, tsToDate 253402300799 = some tm ∧ tm.Holds c ∧
      tableEntry wdayName (tm.tmWday - 1) = some wday ∧ wday.length = 3 ∧
      tableEntry monName (tm.tmMon - 1) = some mon ∧ mon.length = 3 ∧
      asctimeR 0 tm (fun _ => 7) = some (Memory.writeAt (fun _ => 7) 0 (asctimeText wday mon c ++ [NUL])) ∧
      (asctimeText wday mon c ++ [NUL]).length = ASCTIME_BUFF_LEN ∧ (decimal c.year).length = 4 :=
  asctimeR_tsToDate 0 (t := 253402300799) (by decide) (by decide) (fun _ => 7)

end TalOS
