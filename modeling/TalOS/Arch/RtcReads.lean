-- SUMMARY: `RTC_GetTimestamp` over whatever the CMOS answers: when it reads the date, and what its timestamp is of.
import TalOS.Arch.Rtc
import TalOS.Libk.String
import TalOS.Lib.Device

/-!
# Reading the RTC

`RTC_GetTimestamp` reads the date twice, each time behind a wait for the end of an
update, and takes the date when both reads are equal. The macro `BCD2DEC` evaluates
its argument twice, so each register is read twice for one field of the date.
-/

namespace TalOS

open MachineInt Device

/-- A program that reads CMOS registers, each answered by one byte. -/
abbrev CmosReader := Reader Nat UInt8

def rtcRegStatusA : Nat := 0x0A

/-- The update-in-progress bit of status register A. -/
def updating (statusA : UInt8) : Bool := statusA.toNat &&& (1 <<< 7) != 0

/-- `readCMOS_reg` -/
def readCmosReg (reg : Nat) : CmosReader Nat := do
  let data ← Device.read reg
  return data.toNat

/-- `BCD2DEC(bcd)`, for an argument that is evaluated at both of its places. C does not say which of the two
comes first. -/
def bcd2Dec (tensFirst : Bool) (bcd : CmosReader Nat) : CmosReader Nat := do
  let first ← bcd
  let second ← bcd
  let tens := if tensFirst then first else second
  let units := if tensFirst then second else first
  return u8 ((tens &&& 0xF0) >>> 4 * 10 + (units &&& 0x0F))

/-- `RTC_read_date_time` -/
def rtcReadDateTime (tensFirst : Bool) : CmosReader CmosDate := do
  let sec ← bcd2Dec tensFirst (readCmosReg 0x00)
  let min ← bcd2Dec tensFirst (readCmosReg 0x02)
  let hours ← bcd2Dec tensFirst (do return (← readCmosReg 0x04) &&& 0x7F)
  let weekd ← bcd2Dec tensFirst (readCmosReg 0x06)
  let day ← bcd2Dec tensFirst (readCmosReg 0x07)
  let month ← bcd2Dec tensFirst (readCmosReg 0x08)
  let year ← bcd2Dec tensFirst (readCmosReg 0x09)
  let century ← bcd2Dec tensFirst (readCmosReg 0x32)
  return { sec, min, hours, day, weekd, month, year, century }

/-- The bytes of a `date_t`. -/
def CmosDate.bytes (date : CmosDate) : List Nat :=
  [date.sec, date.min, date.hours, date.day, date.weekd, date.month, date.year, date.century]

/-- `do .. while(up_in_progress == 0)`, under the comment "wait end of update". -/
def waitEndOfUpdate : CmosReader Unit := poll rtcRegStatusA updating

/-- The loop of `RTC_GetTimestamp` with `tries` tries left: the date that was read twice, if any was. -/
def rtcTries (tensFirst : Bool) : Nat → CmosReader (Option CmosDate)
  | 0 => return none
  | tries + 1 => do
    waitEndOfUpdate
    let first ← rtcReadDateTime tensFirst
    waitEndOfUpdate
    let second ← rtcReadDateTime tensFirst
    if memcmp (first.bytes[·]?) (second.bytes[·]?) 0 8 = some 0 then return some second
    else rtcTries tensFirst tries

/-- `RTC_GetTimestamp`: what it returns, and what it stores in `*timestamp`. -/
def rtcGetTimestamp (tensFirst : Bool) : CmosReader (Bool × Nat) := do
  match ← rtcTries tensFirst 3 with
  | some second => return (true, rtcDateToTimestamp second)
  | none => return (false, 0)

/-! ## The two reads of the date -/

theorem CmosDate.bytes_inj {first second : CmosDate} : first.bytes = second.bytes ↔ first = second := by
  constructor
  · intro h
    cases first
    cases second
    simpa [CmosDate.bytes, and_assoc] using h
  · exact fun h => h ▸ rfl

theorem CmosDate.memcmp_eq_zero {first second : CmosDate} :
    memcmp (first.bytes[·]?) (second.bytes[·]?) 0 8 = some 0 ↔ first = second := by
  rw [memcmp_eq_zero_iff, ← CmosDate.bytes_inj]
  constructor
  · intro h
    refine List.ext_getElem? fun j => ?_
    by_cases hj : j < 8
    · obtain ⟨x, hx, hy⟩ := h j hj
      rw [Nat.zero_add] at hx hy
      rw [hx, hy]
    · rw [List.getElem?_eq_none (Nat.not_lt.mp hj), List.getElem?_eq_none (Nat.not_lt.mp hj)]
  · intro h j hj
    rw [Nat.zero_add, ← h]
    exact ⟨_, List.getElem?_eq_getElem hj, List.getElem?_eq_getElem hj⟩

theorem readCmosReg_determined (reg : Nat) : Determined (readCmosReg reg) :=
  (Determined.read reg).bind fun _ => Determined.pure _

theorem bcd2Dec_determined (tensFirst : Bool) {bcd : CmosReader Nat} (h : Determined bcd) :
    Determined (bcd2Dec tensFirst bcd) :=
  h.bind fun _ => h.bind fun _ => Determined.pure _

theorem rtcReadDateTime_determined (tensFirst : Bool) : Determined (rtcReadDateTime tensFirst) := by
  have hreg (reg : Nat) := bcd2Dec_determined tensFirst (readCmosReg_determined reg)
  have hhours := bcd2Dec_determined tensFirst
    ((readCmosReg_determined 0x04).bind fun hours => Determined.pure (hours &&& 0x7F))
  refine (hreg 0x00).bind fun sec => (hreg 0x02).bind fun min => hhours.bind fun hours => ?_
  refine (hreg 0x06).bind fun weekd => (hreg 0x07).bind fun day => (hreg 0x08).bind fun month => ?_
  exact (hreg 0x09).bind fun year => (hreg 0x32).bind fun century => Determined.pure _

/-- The last two times that the date was read it was `date`, with nothing but the status read in between. -/
def ReadTwice (tensFirst : Bool) (date : CmosDate) (reads : List (Nat × UInt8)) : Prop :=
  ∃ before first waits second, reads = before ++ first ++ waits ++ second ∧
    Ends (rtcReadDateTime tensFirst) first date ∧ (∀ r ∈ waits, r.1 = rtcRegStatusA) ∧
    Ends (rtcReadDateTime tensFirst) second date

theorem rtcTries_some {tensFirst : Bool} {tries : Nat} {line line' : Line Nat UInt8} {date : CmosDate}
    (h : rtcTries tensFirst tries line = .ok (some date) line') : ReadTwice tensFirst date line'.reads := by
  induction tries generalizing line with
  | zero => cases h
  | succ tries ih =>
    obtain ⟨_, line₁, -, h⟩ := bind_eq_ok.mp h
    obtain ⟨first, line₂, hfirst, h⟩ := bind_eq_ok.mp h
    obtain ⟨_, line₃, hwait, h⟩ := bind_eq_ok.mp h
    obtain ⟨second, line₄, hsecond, h⟩ := bind_eq_ok.mp h
    split at h
    case isTrue heq =>
      obtain ⟨hdate, rfl⟩ := pure_eq_ok.mp h
      obtain rfl := Option.some.inj hdate
      obtain rfl := CmosDate.memcmp_eq_zero.mp heq
      obtain ⟨reads₁, -, hreads₁, hends₁⟩ := rtcReadDateTime_determined tensFirst hfirst
      obtain ⟨waits, hwaits, hstatus⟩ := poll_ok hwait
      obtain ⟨reads₂, -, hreads₂, hends₂⟩ := rtcReadDateTime_determined tensFirst hsecond
      exact ⟨line₁.reads, reads₁, waits, reads₂, by rw [hreads₂, hwaits, hreads₁], hends₁, hstatus, hends₂⟩
    case isFalse => exact ih h

/-- A timestamp that is returned is the one of a date that was read twice in a row. -/
theorem rtcGetTimestamp_readTwice {tensFirst : Bool} {line line' : Line Nat UInt8} {timestamp : Nat}
    (h : rtcGetTimestamp tensFirst line = .ok (true, timestamp) line') :
    ∃ date, ReadTwice tensFirst date line'.reads ∧ timestamp = rtcDateToTimestamp date := by
  obtain ⟨second, line₁, htries, h⟩ := bind_eq_ok.mp h
  cases second with
  | none =>
    obtain ⟨hfalse, -⟩ := pure_eq_ok.mp h
    cases hfalse
  | some date =>
    obtain ⟨hret, rfl⟩ := pure_eq_ok.mp h
    exact ⟨date, rtcTries_some htries, (Prod.mk.inj hret).2.symm⟩

/-- The answers to one read of noon on 1 January 2025, a Wednesday. -/
def noonAnswers : List UInt8 :=
  [0x00, 0x00, 0x00, 0x00, 0x12, 0x12, 0x04, 0x04, 0x01, 0x01, 0x01, 0x01, 0x25, 0x25, 0x20, 0x20]

example : ∃ line, rtcGetTimestamp true ⟨0x80 :: noonAnswers ++ 0x00 :: 0x80 :: noonAnswers, []⟩ =
    .ok (true, 1735732800) line := ⟨_, rfl⟩

/-! ## When the date is read -/

/-- The last value that was read from status register A. -/
def lastStatus (reads : List (Nat × UInt8)) : Option UInt8 :=
  (reads.filter (·.1 = rtcRegStatusA)).getLast?.map Prod.snd

/-- Whenever the reads turn to the date registers, the update bit was clear when it was read last. -/
def OutsideUpdate (reads : List (Nat × UInt8)) : Prop :=
  ∀ before reg v after, reads = before ++ (reg, v) :: after → reg ≠ rtcRegStatusA →
    (∀ r ∈ before.getLast?, r.1 = rtcRegStatusA) → ∃ statusA ∈ lastStatus before, updating statusA = false

/-- The first `n` answers of a stream. -/
def firstAnswers (stream : Nat → UInt8) (n : Nat) : List UInt8 := (List.range n).map stream

/-- While the bit reads clear, the status is read again and again. -/
theorem rtcGetTimestamp_waits (tensFirst : Bool) {answers : List UInt8} (h : ∀ v ∈ answers, updating v = false) :
    readsOn (rtcGetTimestamp tensFirst) answers = answers.map (rtcRegStatusA, ·) := by
  have htries : rtcTries tensFirst 3 ⟨answers, []⟩ = .error () ⟨[], answers.map (rtcRegStatusA, ·)⟩ :=
    bind_of_error (poll_waits [] h)
  have hget : rtcGetTimestamp tensFirst ⟨answers, []⟩ = .error () ⟨[], answers.map (rtcRegStatusA, ·)⟩ :=
    bind_of_error htries
  simp only [readsOn, hget]

/-- Once it reads set, the seconds are read. -/
theorem rtcGetTimestamp_reads (tensFirst : Bool) {answers : List UInt8} {v seconds : UInt8}
    (h : ∀ w ∈ answers, updating w = false) (hv : updating v = true) :
    readsOn (rtcGetTimestamp tensFirst) (answers ++ [v, seconds]) =
      (answers ++ [v]).map (rtcRegStatusA, ·) ++ [(0x00, seconds)] := by
  have htries : rtcTries tensFirst 3 ⟨answers ++ [v, seconds], []⟩ =
      .error () ⟨[], (answers ++ [v]).map (rtcRegStatusA, ·) ++ [(0x00, seconds)]⟩ := by
    refine (bind_of_ok (poll_first [] h hv)).trans (bind_of_error (bind_of_error ?_))
    rfl
  have hget : rtcGetTimestamp tensFirst ⟨answers ++ [v, seconds], []⟩ = _ := bind_of_error htries
  simp only [readsOn, hget]

/-- The date is read outside of updates, from first to last, exactly if the update bit always reads clear; then
the function never gets past its first wait. A timestamp is always the one of a date read twice in a row. -/
theorem rtcGetTimestamp_outsideUpdate_iff (tensFirst : Bool) (stream : Nat → UInt8) :
    ((∀ n, OutsideUpdate (readsOn (rtcGetTimestamp tensFirst) (firstAnswers stream n))) ↔
      ∀ i, updating (stream i) = false) ∧
    ∀ n timestamp line,
      rtcGetTimestamp tensFirst ⟨firstAnswers stream n, []⟩ = .ok (true, timestamp) line →
        ∃ date, ReadTwice tensFirst date line.reads ∧ timestamp = rtcDateToTimestamp date := by
  refine ⟨⟨fun h => ?_, fun h n => ?_⟩, fun n timestamp line hrun => rtcGetTimestamp_readTwice hrun⟩
  · intro i
    induction i using Nat.strong_induction_on with
    | h i ih =>
      have hbefore : ∀ w ∈ firstAnswers stream i, updating w = false := by
        simpa [firstAnswers] using ih
      by_contra hne
      have hset : updating (stream i) = true := by simpa using hne
      have hanswers : firstAnswers stream (i + 2) = firstAnswers stream i ++ [stream i, stream (i + 1)] := by
        simp [firstAnswers, List.range_succ]
      have hreads := h (i + 2)
      rw [hanswers, rtcGetTimestamp_reads tensFirst hbefore hset] at hreads
      obtain ⟨statusA, hlast, hclear⟩ := hreads _ 0x00 (stream (i + 1)) [] rfl (by decide) (by simp)
      have hstatus : lastStatus ((firstAnswers stream i ++ [stream i]).map (rtcRegStatusA, ·)) = some (stream i) := by
        simp [lastStatus]
      obtain rfl := Option.some.inj (hstatus.symm.trans hlast)
      exact hne hclear
  · rw [rtcGetTimestamp_waits tensFirst (by simpa [firstAnswers] using fun i _ => h i)]
    intro before reg v after hreads hreg
    have hmem : (reg, v) ∈ (firstAnswers stream n).map (rtcRegStatusA, ·) := hreads ▸ by simp
    obtain ⟨w, -, hw⟩ := List.mem_map.mp hmem
    exact absurd (Prod.mk.inj hw).1.symm hreg

/-- An update in progress at the first look, and the seconds are read. -/
theorem not_rtcGetTimestamp_outsideUpdate :
    ¬ OutsideUpdate (readsOn (rtcGetTimestamp true) (firstAnswers (fun i => if i = 0 then 0xA6 else 0x59) 2)) := by
  intro h
  obtain ⟨statusA, hlast, hclear⟩ := h [(rtcRegStatusA, 0xA6)] 0x00 0x59 [] rfl (by decide) (by decide)
  obtain rfl := Option.some.inj (show some 0xA6 = some statusA from hlast)
  cases hclear

end TalOS
