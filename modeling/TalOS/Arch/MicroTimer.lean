-- SUMMARY: Waiting for microseconds: the calibration of the LAPIC timer, `Wait_us`, and when the wait is long enough.
import TalOS.Lib.MachineInt

/-!
# Microseconds

`InitMicroTimer` counts how far the LAPIC timer gets in 32 milliseconds. `Wait_us` lets
that timer count down, or waits whole milliseconds where there is none.
-/

namespace TalOS

open MachineInt

/-! ## The LAPIC timer -/

def LAPIC_LVT_TIMER : Nat := 0x320
def LAPIC_INIT_COUNT : Nat := 0x380
def LAPIC_TIMER_DIV_CONF : Nat := 0x3E0

def LAPIC_TIM_DIV_1 : Nat := 0x0B
def LAPIC_TIM_MODE_ONESHOT : Nat := 0x00

def UINT32_MAX : Nat := 0xFFFFFFFF

/-- `BIT_FIELD_32` -/
def bitField32 (input start len : Nat) : Nat := (input >>> start) &&& (UINT32_MAX >>> (32 - len))

/-- What a function of `systime.c` does to the timer, or waits for. -/
inductive TimerAction where
  | writeReg (reg value : Nat)
  /-- The system counter has advanced by so many milliseconds. -/
  | waitMs (timeMs : Nat)
  /-- The LAPIC timer has counted down to zero. -/
  | waitZero
  deriving Repr, DecidableEq

def lapicTimSetClockDivisor (divisor : Nat) : TimerAction :=
  .writeReg LAPIC_TIMER_DIV_CONF (bitField32 divisor 0 3)

def lapicTimSetMode (mode : Nat) : TimerAction := .writeReg LAPIC_LVT_TIMER (bitField32 mode 17 2)

/-- `LAPIC_TIM_SetInitCount`, whose parameter has 32 bits. -/
def lapicTimSetInitCount (count : Nat) : TimerAction := .writeReg LAPIC_INIT_COUNT (u32 count)

def lapicTimStopTimer : TimerAction := .writeReg LAPIC_INIT_COUNT 0

/-! ## `systime.c` -/

def TICKS_PER_MS : Nat := 32

/-- The variables of the timer, and what is known of the machine. -/
structure MicroTimer where
  acpiInit : Bool
  lapicPtr : Nat
  lapicTimFreqHz : Nat
  hwTimerEnabled : Bool
  apicTicksUs : Nat
  deriving Repr, DecidableEq

/-- There is a LAPIC timer to calibrate. -/
def MicroTimer.Calibrates (t : MicroTimer) : Prop := t.acpiInit = true ∧ t.lapicPtr ≠ 0

instance (t : MicroTimer) : Decidable t.Calibrates := inferInstanceAs (Decidable (_ ∧ _))

/-- `get_apic_timer_clock`, where `currentCount` is the count that is read back: what it does, and what it
returns. The product is one of 32 bits. -/
def getApicTimerClock (currentCount : Nat) (t : MicroTimer) : List TimerAction × Nat :=
  if t.Calibrates then
    ([lapicTimSetClockDivisor LAPIC_TIM_DIV_1, lapicTimSetMode LAPIC_TIM_MODE_ONESHOT,
      lapicTimSetInitCount UINT32_MAX, .waitMs TICKS_PER_MS],
      u32 (sub32 UINT32_MAX currentCount * 1000) / TICKS_PER_MS)
  else ([], 0)

/-- `InitMicroTimer` -/
def initMicroTimer (currentCount : Nat) (t : MicroTimer) : MicroTimer :=
  let clock := (getApicTimerClock currentCount t).2
  let t := { t with lapicTimFreqHz := clock }
  if clock ≠ 0 then { t with hwTimerEnabled := true, apicTicksUs := clock / 1000000 } else t

/-- `Wait_us`. The product with the 64-bit time is one of 64 bits. -/
def waitUs (t : MicroTimer) (timeUs : Nat) : List TimerAction :=
  if t.hwTimerEnabled then
    [lapicTimSetClockDivisor LAPIC_TIM_DIV_1, lapicTimSetMode LAPIC_TIM_MODE_ONESHOT,
      lapicTimSetInitCount (u64 (t.apicTicksUs * timeUs)), .waitZero, lapicTimStopTimer]
  else
    let usToMs := if timeUs % 1000 = 0 then 1 else timeUs / 1000
    [.waitMs usToMs]

/-! ## Calibration -/

/-- The clock in Hz that the count read back after 32 milliseconds stands for. -/
def timerClock (currentCount : Nat) : Nat := (UINT32_MAX - currentCount) * 1000 / 32

/-- The calibration returns the clock if 32 bits can hold it. -/
def ClockExact (t : MicroTimer) (currentCount : Nat) : Prop :=
  timerClock currentCount < 2 ^ 32 → (getApicTimerClock currentCount t).2 = timerClock currentCount

theorem getApicTimerClock_snd {t : MicroTimer} (ht : t.Calibrates) {currentCount : Nat}
    (h : currentCount < 2 ^ 32) :
    (getApicTimerClock currentCount t).2 = u32 ((UINT32_MAX - currentCount) * 1000) / 32 := by
  have hsub : sub32 UINT32_MAX currentCount = UINT32_MAX - currentCount :=
    sub32_of_le (Nat.le_of_lt_succ h) (by decide)
  rw [getApicTimerClock, if_pos ht, hsub]
  rfl

/-- A product that wraps is far too small, so the calibration is exact only without one. -/
theorem clockExact_iff {t : MicroTimer} (ht : t.Calibrates) {currentCount : Nat} (h : currentCount < 2 ^ 32) :
    ClockExact t currentCount ↔
      (UINT32_MAX - currentCount) * 1000 < 2 ^ 32 ∨ 2 ^ 32 ≤ timerClock currentCount := by
  unfold ClockExact timerClock
  rw [getApicTimerClock_snd ht h]
  generalize (UINT32_MAX - currentCount) * 1000 = product
  unfold u32
  omega

/-- After the calibration a microsecond is at most 134 ticks, whatever the count was. -/
theorem initMicroTimer_ticks_le {t : MicroTimer} (currentCount : Nat) (ht : t.apicTicksUs ≤ 134) :
    (initMicroTimer currentCount t).apicTicksUs ≤ 134 := by
  have hclock : (getApicTimerClock currentCount t).2 ≤ 134217727 := by
    unfold getApicTimerClock TICKS_PER_MS u32
    split_ifs
    · dsimp only
      omega
    · exact Nat.zero_le _
  unfold initMicroTimer
  dsimp only
  split_ifs
  · dsimp only
    omega
  · exact ht

/-! ## Waiting -/

/-- Without a hardware timer the wait is at least `timeUs` microseconds long. -/
def FallbackSuffices (t : MicroTimer) (timeUs : Nat) : Prop :=
  ∃ timeMs, waitUs t timeUs = [.waitMs timeMs] ∧ timeUs ≤ 1000 * timeMs

/-- With one, the count that it counts down from is the whole product. -/
def CountExact (t : MicroTimer) (timeUs : Nat) : Prop :=
  [.writeReg LAPIC_INIT_COUNT (t.apicTicksUs * timeUs), .waitZero] <:+: waitUs t timeUs

theorem fallbackSuffices_iff {t : MicroTimer} (ht : t.hwTimerEnabled = false) {timeUs : Nat} :
    FallbackSuffices t timeUs ↔ timeUs = 0 ∨ timeUs = 1000 := by
  have hwait : waitUs t timeUs = [.waitMs (if timeUs % 1000 = 0 then 1 else timeUs / 1000)] := by
    simp [waitUs, ht]
  have hms : FallbackSuffices t timeUs ↔ timeUs ≤ 1000 * (if timeUs % 1000 = 0 then 1 else timeUs / 1000) := by
    simp [FallbackSuffices, hwait]
  rw [hms]
  split_ifs <;> omega

theorem countExact_iff {t : MicroTimer} (ht : t.hwTimerEnabled = true) {timeUs : Nat} :
    CountExact t timeUs ↔ t.apicTicksUs * timeUs < 2 ^ 32 := by
  have hcount : CountExact t timeUs ↔ t.apicTicksUs * timeUs = u32 (u64 (t.apicTicksUs * timeUs)) := by
    simp [CountExact, waitUs, ht, lapicTimSetClockDivisor, lapicTimSetMode, lapicTimSetInitCount,
      lapicTimStopTimer, List.infix_cons_iff]
  rw [hcount]
  unfold u32 u64
  omega

/-- After the calibration no wait of up to 32 seconds loses a part of its count. -/
theorem initMicroTimer_countExact {t : MicroTimer} (currentCount : Nat) (ht : t.apicTicksUs ≤ 134)
    (henabled : (initMicroTimer currentCount t).hwTimerEnabled = true) {timeUs : Nat} (h : timeUs ≤ 32051994) :
    CountExact (initMicroTimer currentCount t) timeUs := by
  rw [countExact_iff henabled]
  calc (initMicroTimer currentCount t).apicTicksUs * timeUs
      ≤ 134 * 32051994 := Nat.mul_le_mul (initMicroTimer_ticks_le currentCount ht) h
    _ < 2 ^ 32 := by decide

/-- What a delay of `timeUs` microseconds rests on. -/
structure WaitsEnough (t : MicroTimer) (currentCount timeUs : Nat) : Prop where
  clock : t.Calibrates → ClockExact t currentCount
  fallback : t.hwTimerEnabled = false → FallbackSuffices t timeUs
  count : t.hwTimerEnabled = true → CountExact t timeUs

/-- Whatever the state of the timer, the count read back and the time asked for: the delay is computed without a
loss exactly if neither product leaves 32 bits and, without a hardware timer, the time is 0 or 1000. -/
theorem waitsEnough_iff (t : MicroTimer) (currentCount timeUs : Nat) (hcount : currentCount < 2 ^ 32) :
    WaitsEnough t currentCount timeUs ↔
      (t.Calibrates → (UINT32_MAX - currentCount) * 1000 < 2 ^ 32 ∨ 2 ^ 32 ≤ timerClock currentCount) ∧
      (t.hwTimerEnabled = false → timeUs = 0 ∨ timeUs = 1000) ∧
      (t.hwTimerEnabled = true → t.apicTicksUs * timeUs < 2 ^ 32) := by
  constructor
  · intro h
    refine ⟨fun ht => ?_, fun ht => ?_, fun ht => ?_⟩
    · exact (clockExact_iff ht hcount).mp (h.clock ht)
    · exact (fallbackSuffices_iff ht).mp (h.fallback ht)
    · exact (countExact_iff ht).mp (h.count ht)
  · rintro ⟨hclock, hfallback, hproduct⟩
    refine ⟨fun ht => ?_, fun ht => ?_, fun ht => ?_⟩
    · exact (clockExact_iff ht hcount).mpr (hclock ht)
    · exact (fallbackSuffices_iff ht).mpr (hfallback ht)
    · exact (countExact_iff ht).mpr (hproduct ht)

/-- A timer of 6.25 MHz, calibrated, and the 200 microseconds that the start of a processor waits. -/
theorem waitsEnough_200 : WaitsEnough ⟨true, 0xFEE00000, 6250000, true, 6⟩ 0xFFFCF2BF 200 :=
  (waitsEnough_iff _ 0xFFFCF2BF 200 (by decide)).mpr (by decide)

/-- A clock of 134217750 Hz is taken for one of 22 Hz; 200 microseconds become 0 milliseconds; and 134 ticks a
microsecond leave 34 of a wait of 32 seconds. -/
theorem not_waitsEnough :
    ¬ WaitsEnough ⟨true, 0xFEE00000, 0, false, 0⟩ (UINT32_MAX - 4294968) 1000 ∧
      (getApicTimerClock (UINT32_MAX - 4294968) ⟨true, 0xFEE00000, 0, false, 0⟩).2 = 22 ∧
      ¬ WaitsEnough ⟨false, 0, 0, false, 0⟩ 0 200 ∧ waitUs ⟨false, 0, 0, false, 0⟩ 200 = [.waitMs 0] ∧
      ¬ WaitsEnough ⟨true, 0xFEE00000, 134000000, true, 134⟩ 0 32051995 := by
  refine ⟨fun h => ?_, by decide, fun h => ?_, rfl, fun h => ?_⟩
  · exact absurd ((clockExact_iff (by decide) (by decide)).mp (h.clock (by decide))) (by decide)
  · exact absurd ((fallbackSuffices_iff rfl).mp (h.fallback rfl)) (by decide)
  · exact absurd ((countExact_iff rfl).mp (h.count rfl)) (by decide)

end TalOS
