-- SUMMARY: The system tick of `arch/IA32/systime.c` and exactly when the wall clock follows its counter.
import Mathlib.Data.Nat.Count
import Mathlib.Logic.Function.Iterate
import Mathlib.Tactic.Ring
import TalOS.Coresys.Timer

/-!
# `arch/IA32/systime.c`

The PIT does not divide into whole milliseconds, so every `TickAdjustReload`-th
tick leaves the counter where it is. The callback sees the counter value a
second time at that tick, and counts a second twice when the value is a whole
one.
-/

namespace TalOS

open MachineInt

/-! ## Model -/

/-- `PIT_CLOCK`, in Hz. -/
def pitClock : Nat := 1193181

/-- `SYS_TICK_CORRECTION` -/
def sysTickCorrection (sysTickFreqHz : Nat) : Nat :=
  if pitClock % sysTickFreqHz = 0 then 0
  else pitClock / sysTickFreqHz * sysTickFreqHz / (pitClock % sysTickFreqHz)

/-- The static variables of the tick, and the count last written to the PIT. -/
structure SysTime where
  sysTickCounter : Nat
  sysTickIncrement : Nat
  tickAdjustReload : Nat
  tickAdjustCurrent : Nat
  pitCount : Nat
  deriving Repr, DecidableEq

/-- `SetSysTimerFrequency` -/
def setSysTimerFrequency (sysTickFreqHz : Nat) (s : SysTime) : SysTime :=
  { s with
    tickAdjustReload := sysTickCorrection sysTickFreqHz
    tickAdjustCurrent := sysTickCorrection sysTickFreqHz
    sysTickIncrement := 1000 / sysTickFreqHz
    pitCount := u16 (pitClock / sysTickFreqHz) }

/-- The first half of `SysTick`: the counter and its compensation. -/
def SysTime.advance (s : SysTime) : SysTime :=
  let current := sub32 s.tickAdjustCurrent 1
  if current = 0 then
    -- do not increment the counter to compensate the extra millisecond
    { s with tickAdjustCurrent := s.tickAdjustReload }
  else
    { s with
      tickAdjustCurrent := current
      sysTickCounter := u64 (s.sysTickCounter + s.sysTickIncrement) }

/-- `SysTick`, with the registered callback (`none` while there is none) and the
data that the callback works on. -/
def sysTick {σ : Type} (callback : Option (Nat → σ → σ)) : SysTime × σ → SysTime × σ
  | (s, os) =>
    let s' := s.advance
    match callback with
    | none => (s', os)
    | some f => (s', f s'.sysTickCounter os)

/-! ## One tick -/

/-- The next tick is a compensation tick. -/
def SysTime.Compensates (s : SysTime) : Prop := s.tickAdjustCurrent = 1

instance (s : SysTime) : Decidable s.Compensates := by
  unfold SysTime.Compensates
  infer_instance

/-- The counter runs in steps that divide a second, and the compensation counter
stays in its cycle. -/
structure SysTime.Ok (s : SysTime) : Prop where
  increment_dvd : s.sysTickIncrement ∣ 1000
  counter_dvd : s.sysTickIncrement ∣ s.sysTickCounter
  reload_gt : 1 < s.tickAdjustReload
  reload_lt : s.tickAdjustReload < 2 ^ 32
  current_pos : 1 ≤ s.tickAdjustCurrent
  current_le : s.tickAdjustCurrent ≤ s.tickAdjustReload

/-- What one tick does to the counters. -/
theorem SysTime.advance_cases {s : SysTime} (h : s.Ok)
    (hwrap : s.sysTickCounter + s.sysTickIncrement < 2 ^ 64) :
    (s.Compensates ∧ s.advance = { s with tickAdjustCurrent := s.tickAdjustReload }) ∨
    (¬ s.Compensates ∧ s.advance =
      { s with
        tickAdjustCurrent := s.tickAdjustCurrent - 1
        sysTickCounter := s.sysTickCounter + s.sysTickIncrement }) := by
  have hpos := h.current_pos
  have hlt : s.tickAdjustCurrent < 2 ^ 32 := Nat.lt_of_le_of_lt h.current_le h.reload_lt
  have hsub : sub32 s.tickAdjustCurrent 1 = s.tickAdjustCurrent - 1 := sub32_of_le hpos hlt
  unfold SysTime.advance SysTime.Compensates
  dsimp only
  rw [hsub, u64_of_lt hwrap]
  by_cases hone : s.tickAdjustCurrent = 1
  · left
    rw [if_pos (by omega)]
    exact ⟨hone, rfl⟩
  · right
    rw [if_neg (by omega)]
    exact ⟨hone, rfl⟩

/-- Steps that divide a second never skip one. -/
theorem seconds_add {c inc : Nat} (hinc : inc ∣ 1000) (hc : inc ∣ c) :
    (c + inc) / 1000 = c / 1000 + if (c + inc) % 1000 = 0 then 1 else 0 := by
  obtain ⟨n, hn⟩ := hinc
  obtain ⟨q, rfl⟩ := hc
  have hpos : 0 < inc := by
    rcases Nat.eq_zero_or_pos inc with rfl | hpos
    · omega
    · exact hpos
  rw [← Nat.mul_succ, hn, Nat.mul_div_mul_left _ _ hpos, Nat.mul_div_mul_left _ _ hpos,
    Nat.mul_mod_mul_left, Nat.succ_div]
  simp only [Nat.mul_eq_zero, hpos.ne', false_or, Nat.dvd_iff_mod_eq_zero]

/-! ## Runs of ticks -/

/-- Quotient and remainder when the dividend grows by one. -/
theorem succ_div_mod_cases (x : Nat) {r : Nat} (hr : 0 < r) :
    (x % r = r - 1 ∧ (x + 1) / r = x / r + 1 ∧ (x + 1) % r = 0) ∨
    (x % r ≠ r - 1 ∧ (x + 1) / r = x / r ∧ (x + 1) % r = x % r + 1) := by
  have hx := Nat.div_add_mod x r
  have hlt := Nat.mod_lt x hr
  by_cases hlast : x % r = r - 1
  · refine Or.inl ⟨hlast, (Nat.div_mod_unique hr).mpr ⟨?_, hr⟩⟩
    rw [Nat.mul_succ]
    omega
  · refine Or.inr ⟨hlast, (Nat.div_mod_unique hr).mpr ⟨?_, by omega⟩⟩
    omega

namespace SysTime

/-- Ticks since a moment, before the start, at which a cycle of `R` ticks began. -/
def sinceReload (s : SysTime) (j : Nat) : Nat :=
  j + (s.tickAdjustReload - s.tickAdjustCurrent)

/-- The counters after `j` ticks, in closed form. -/
def after (s : SysTime) (j : Nat) : SysTime :=
  { s with
    tickAdjustCurrent := s.tickAdjustReload - s.sinceReload j % s.tickAdjustReload
    sysTickCounter := s.sysTickCounter +
      s.sysTickIncrement * (j - s.sinceReload j / s.tickAdjustReload) }

theorem Ok.sinceReload_div_le {s : SysTime} (h : s.Ok) (j : Nat) :
    s.sinceReload j / s.tickAdjustReload ≤ j := by
  have hpos := h.current_pos
  have hgt := h.reload_gt
  have hj : j ≤ s.tickAdjustReload * j := Nat.le_mul_of_pos_left j (by omega)
  rw [Nat.div_le_iff_le_mul_add_pred (by omega)]
  unfold sinceReload
  omega

theorem after_zero {s : SysTime} (h : s.Ok) : s.after 0 = s := by
  have hpos := h.current_pos
  have hle := h.current_le
  have hlt : s.sinceReload 0 < s.tickAdjustReload := by
    unfold sinceReload
    omega
  unfold after
  rw [Nat.mod_eq_of_lt hlt, Nat.div_eq_of_lt hlt]
  have hcur : s.tickAdjustReload - s.sinceReload 0 = s.tickAdjustCurrent := by
    unfold sinceReload
    omega
  rw [hcur]
  simp

theorem after_compensates_iff {s : SysTime} (h : s.Ok) (j : Nat) :
    (s.after j).Compensates ↔ s.sinceReload j % s.tickAdjustReload = s.tickAdjustReload - 1 := by
  have hgt := h.reload_gt
  have hlt := Nat.mod_lt (s.sinceReload j) (show 0 < s.tickAdjustReload by omega)
  unfold Compensates after
  dsimp only
  omega

theorem Ok.after {s : SysTime} (h : s.Ok) (j : Nat) : (s.after j).Ok := by
  have hgt := h.reload_gt
  have hlt := Nat.mod_lt (s.sinceReload j) (show 0 < s.tickAdjustReload by omega)
  exact {
    h with
    counter_dvd := Nat.dvd_add h.counter_dvd (Nat.dvd_mul_right _ _)
    current_pos := by unfold SysTime.after; dsimp only; omega
    current_le := Nat.sub_le _ _ }

theorem after_counter_le {s : SysTime} (j : Nat) :
    (s.after j).sysTickCounter ≤ s.sysTickCounter + s.sysTickIncrement * j :=
  Nat.add_le_add_left (Nat.mul_le_mul_left _ (Nat.sub_le _ _)) _

/-- One tick leads from one closed form to the next. -/
theorem after_succ {s : SysTime} (h : s.Ok) {j : Nat}
    (hwrap : s.sysTickCounter + s.sysTickIncrement * (j + 1) < 2 ^ 64) :
    (s.after j).advance = s.after (j + 1) := by
  have hgt := h.reload_gt
  have hdiv := h.sinceReload_div_le j
  have hcount := s.after_counter_le j
  have hfit : (s.after j).sysTickCounter + (s.after j).sysTickIncrement < 2 ^ 64 := by
    rw [Nat.mul_succ] at hwrap
    exact Nat.lt_of_le_of_lt (Nat.add_le_add_right hcount _) (by rwa [Nat.add_assoc])
  have hsucc : s.sinceReload (j + 1) = s.sinceReload j + 1 := by
    unfold sinceReload
    omega
  rcases advance_cases (h.after j) hfit with ⟨hcomp, heq⟩ | ⟨hcomp, heq⟩
  · rw [after_compensates_iff h] at hcomp
    rcases succ_div_mod_cases (s.sinceReload j) (show 0 < s.tickAdjustReload by omega) with
      ⟨_, hd, hm⟩ | ⟨hne, _⟩
    · rw [heq]
      unfold SysTime.after
      rw [hsucc, hd, hm, Nat.add_sub_add_right, Nat.sub_zero]
    · exact absurd hcomp hne
  · rw [after_compensates_iff h] at hcomp
    rcases succ_div_mod_cases (s.sinceReload j) (show 0 < s.tickAdjustReload by omega) with
      ⟨heq', _⟩ | ⟨_, hd, hm⟩
    · exact absurd heq' hcomp
    · rw [heq]
      unfold SysTime.after
      dsimp only
      rw [hsucc, hd, hm, Nat.succ_sub hdiv, Nat.mul_succ, Nat.add_assoc, Nat.sub_sub]

/-- The counters after a run of ticks. -/
theorem iterate_advance {s : SysTime} (h : s.Ok) {j : Nat}
    (hwrap : s.sysTickCounter + s.sysTickIncrement * j < 2 ^ 64) :
    SysTime.advance^[j] s = s.after j := by
  induction j with
  | zero => exact (after_zero h).symm
  | succ j ih =>
    rw [Function.iterate_succ_apply', ih ?_, after_succ h hwrap]
    rw [Nat.mul_succ] at hwrap
    omega

end SysTime

/-! ## The wall clock -/

/-- The next tick hands the callback a whole second that it has already seen. -/
def SysTime.Recounts (s : SysTime) : Prop := s.Compensates ∧ s.sysTickCounter % 1000 = 0

instance (s : SysTime) : Decidable s.Recounts := by
  unfold SysTime.Recounts
  infer_instance

section WallClock

variable {freq : Nat}

/-- A run of the tick interrupt with `SysTickFun` registered. -/
def ticks (freq k : Nat) (s : SysTime) (os : OsData) : SysTime × OsData :=
  (sysTick (some (sysTickFun freq)))^[k] (s, os)

theorem ticks_succ (k : Nat) (s : SysTime) (os : OsData) :
    ticks freq (k + 1) s os =
      ((ticks freq k s os).1.advance,
        sysTickFun freq (ticks freq k s os).1.advance.sysTickCounter (ticks freq k s os).2) :=
  Function.iterate_succ_apply' _ _ _

theorem ticks_fst {s : SysTime} (h : s.Ok) {os : OsData} {k : Nat}
    (hwrap : s.sysTickCounter + s.sysTickIncrement * k < 2 ^ 64) :
    (ticks freq k s os).1 = s.after k := by
  rw [← SysTime.iterate_advance h hwrap]
  clear hwrap
  induction k with
  | zero => rfl
  | succ k ih => rw [ticks_succ, ih, Function.iterate_succ_apply']

/-- One tick moves the timestamp by the seconds that the counter passed, and by
one more when it recounts. -/
theorem timestamp_sysTickFun {s : SysTime} (h : s.Ok) (os : OsData)
    (hwrap : s.sysTickCounter + s.sysTickIncrement < 2 ^ 64) :
    (sysTickFun freq s.advance.sysTickCounter os).timestamp =
      os.timestamp + (s.advance.sysTickCounter / 1000 : Nat) - (s.sysTickCounter / 1000 : Nat) +
        (if s.Recounts then 1 else 0 : Nat) := by
  unfold sysTickFun SysTime.Recounts
  dsimp only
  rcases SysTime.advance_cases h hwrap with ⟨hcomp, heq⟩ | ⟨hcomp, heq⟩
  · rw [heq]
    dsimp only
    simp only [hcomp, true_and]
    split_ifs <;> omega
  · rw [heq]
    dsimp only
    simp only [hcomp, false_and, if_false]
    have hsec := seconds_add h.increment_dvd h.counter_dvd
    split_ifs at hsec ⊢ <;> omega

/-- After a run the timestamp has moved by the seconds that the counter passed
and by the ticks that recounted one. -/
theorem timestamp_ticks {s : SysTime} (h : s.Ok) (os : OsData) {k : Nat}
    (hwrap : s.sysTickCounter + s.sysTickIncrement * k < 2 ^ 64) :
    (ticks freq k s os).2.timestamp =
      os.timestamp + ((ticks freq k s os).1.sysTickCounter / 1000 : Nat) -
        (s.sysTickCounter / 1000 : Nat) + Nat.count (fun j => (s.after j).Recounts) k := by
  induction k with
  | zero => simp [ticks]
  | succ k ih =>
    have hprev : s.sysTickCounter + s.sysTickIncrement * k < 2 ^ 64 := by
      rw [Nat.mul_succ] at hwrap
      omega
    have hstep : (s.after k).sysTickCounter + (s.after k).sysTickIncrement < 2 ^ 64 := by
      rw [Nat.mul_succ] at hwrap
      exact Nat.lt_of_le_of_lt (Nat.add_le_add_right (s.after_counter_le k) _)
        (by rwa [Nat.add_assoc])
    have hone := @timestamp_sysTickFun freq _ (h.after k) (ticks freq k s os).2 hstep
    rw [ticks_succ]
    dsimp only
    rw [ticks_fst h hprev] at ih ⊢
    rw [hone, ih hprev, Nat.count_succ]
    push_cast
    ring

/-- The wall clock follows the counter as long as no tick recounts a second. -/
theorem timestamp_ticks_eq_iff {s : SysTime} (h : s.Ok) (os : OsData) {k : Nat}
    (hwrap : s.sysTickCounter + s.sysTickIncrement * k < 2 ^ 64) :
    (ticks freq k s os).2.timestamp - os.timestamp =
        ((ticks freq k s os).1.sysTickCounter / 1000 : Nat) - (s.sysTickCounter / 1000 : Nat) ↔
      ∀ j < k, ¬ (s.after j).Recounts := by
  rw [← Nat.count_iff_forall_not, timestamp_ticks h os hwrap]
  omega

/-- The compensation ticks, by the number of cycles before them. -/
theorem SysTime.after_compensates_iff_exists {s : SysTime} (h : s.Ok) (j : Nat) :
    (s.after j).Compensates ↔ ∃ m, j + 1 = s.tickAdjustCurrent + m * s.tickAdjustReload := by
  have hgt := h.reload_gt
  have hpos := h.current_pos
  have hle := h.current_le
  have hdiv := Nat.div_add_mod (s.sinceReload j) s.tickAdjustReload
  have hlt := Nat.mod_lt (s.sinceReload j) (show 0 < s.tickAdjustReload by omega)
  rw [after_compensates_iff h]
  constructor
  · intro hmod
    refine ⟨s.sinceReload j / s.tickAdjustReload, ?_⟩
    rw [Nat.mul_comm]
    unfold sinceReload at *
    omega
  · rintro ⟨m, hm⟩
    have hsince : s.sinceReload j = s.tickAdjustReload * m + (s.tickAdjustReload - 1) := by
      unfold sinceReload
      rw [Nat.mul_comm]
      omega
    rw [hsince, Nat.mul_add_mod, Nat.mod_eq_of_lt (by omega)]

/-- The counter value at a compensation tick. -/
theorem SysTime.after_counter_of_compensates {s : SysTime} (h : s.Ok) {j m : Nat}
    (hm : j + 1 = s.tickAdjustCurrent + m * s.tickAdjustReload) :
    (s.after j).sysTickCounter = s.sysTickCounter + s.sysTickIncrement *
      (s.tickAdjustCurrent - 1 + m * (s.tickAdjustReload - 1)) := by
  have hgt := h.reload_gt
  have hpos := h.current_pos
  have hle := h.current_le
  have hsince : s.sinceReload j = s.tickAdjustReload * m + (s.tickAdjustReload - 1) := by
    unfold sinceReload
    rw [Nat.mul_comm]
    omega
  have hdiv : s.sinceReload j / s.tickAdjustReload = m := by
    rw [hsince, Nat.mul_add_div (by omega), Nat.div_eq_of_lt (by omega), Nat.add_zero]
  have hless : m * (s.tickAdjustReload - 1) = m * s.tickAdjustReload - m := by
    rw [Nat.mul_sub, Nat.mul_one]
  have hmle : m ≤ m * s.tickAdjustReload := Nat.le_mul_of_pos_right m (by omega)
  unfold after
  dsimp only
  rw [hdiv, hless]
  congr 2
  omega

theorem SysTime.forall_not_recounts_iff {s : SysTime} (h : s.Ok) (k : Nat) :
    (∀ j < k, ¬ (s.after j).Recounts) ↔
      ∀ m, s.tickAdjustCurrent + m * s.tickAdjustReload ≤ k →
        (s.sysTickCounter + s.sysTickIncrement *
          (s.tickAdjustCurrent - 1 + m * (s.tickAdjustReload - 1))) % 1000 ≠ 0 := by
  have hpos := h.current_pos
  constructor
  · intro hall m hm hzero
    have htick : s.tickAdjustCurrent + m * s.tickAdjustReload - 1 + 1 =
        s.tickAdjustCurrent + m * s.tickAdjustReload := by omega
    refine hall (s.tickAdjustCurrent + m * s.tickAdjustReload - 1) (by omega) ⟨?_, ?_⟩
    · exact (after_compensates_iff_exists h _).mpr ⟨m, htick⟩
    · rw [after_counter_of_compensates h htick]
      exact hzero
  · rintro hall j hj ⟨hcomp, hzero⟩
    obtain ⟨m, hm⟩ := (after_compensates_iff_exists h j).mp hcomp
    rw [after_counter_of_compensates h hm] at hzero
    exact hall m (by omega) hzero

/-- The state in which the kernel registers `SysTickFun`: the frequency is set,
the counter and the compensation counter may have run for a while. -/
def registered (freq counter current : Nat) (s : SysTime) : SysTime :=
  { setSysTimerFrequency freq s with sysTickCounter := counter, tickAdjustCurrent := current }

theorem registered_ok {counter current : Nat} (s : SysTime) (hf : freq ∈ offeredFrequencies)
    (hc : 1000 / freq ∣ counter) (hpos : 1 ≤ current) (hle : current ≤ sysTickCorrection freq) :
    (registered freq counter current s).Ok := by
  have hconst : ∀ f ∈ offeredFrequencies, 1000 / f ∣ 1000 ∧ 1 < sysTickCorrection f ∧
      sysTickCorrection f < 2 ^ 32 := by decide
  obtain ⟨hinc, hgt, hlt⟩ := hconst freq hf
  exact {
    increment_dvd := hinc
    counter_dvd := hc
    reload_gt := hgt
    reload_lt := hlt
    current_pos := hpos
    current_le := hle }

/-- While the 64-bit counter does not wrap, the timestamp advances by the seconds
that the counter passes if and only if no compensation tick finds the counter
at a whole second. The tick numbers and counter values are in closed form. -/
theorem timestamp_follows_counter_iff {counter current k : Nat} (s : SysTime) (os : OsData)
    (hf : freq ∈ offeredFrequencies) (hc : 1000 / freq ∣ counter)
    (hpos : 1 ≤ current) (hle : current ≤ sysTickCorrection freq)
    (hwrap : counter + 1000 / freq * k < 2 ^ 64) :
    (ticks freq k (registered freq counter current s) os).2.timestamp - os.timestamp =
        ((ticks freq k (registered freq counter current s) os).1.sysTickCounter / 1000 : Nat) -
          (counter / 1000 : Nat) ↔
      ∀ m, current + m * sysTickCorrection freq ≤ k →
        (counter + 1000 / freq * (current - 1 + m * (sysTickCorrection freq - 1))) % 1000 ≠ 0 := by
  have hok := registered_ok s hf hc hpos hle
  exact (timestamp_ticks_eq_iff hok os hwrap).trans (SysTime.forall_not_recounts_iff hok k)

/-- At the shipped 1000 Hz, a counter that starts at 0 and a run that stops short
of the first compensation tick: the clock is exact. -/
theorem timestamp_follows_counter_first_cycle :
    (ticks 1000 6590 (registered 1000 0 6591 ⟨0, 1, 0, 0, 0⟩) ⟨0, 0, ⟨false, 0⟩, []⟩).2.timestamp
        - 0 =
      ((ticks 1000 6590 (registered 1000 0 6591 ⟨0, 1, 0, 0, 0⟩)
        ⟨0, 0, ⟨false, 0⟩, []⟩).1.sysTickCounter / 1000 : Nat) - (0 / 1000 : Nat) :=
  (timestamp_follows_counter_iff ⟨0, 1, 0, 0, 0⟩ ⟨0, 0, ⟨false, 0⟩, []⟩
    (by decide) (by decide) (by decide) (by decide) (by decide)).mpr (by
      have hreload : sysTickCorrection 1000 = 6591 := by decide
      intro m hm
      omega)

/-- At 1000 Hz the hundredth compensation tick after boot finds the counter at
659000 a second time: eleven minutes in, the clock is one second ahead. -/
theorem timestamp_ahead_of_counter :
    ¬ (ticks 1000 659100 (registered 1000 0 6591 ⟨0, 1, 0, 0, 0⟩) ⟨0, 0, ⟨false, 0⟩, []⟩).2.timestamp
        - 0 =
      ((ticks 1000 659100 (registered 1000 0 6591 ⟨0, 1, 0, 0, 0⟩)
        ⟨0, 0, ⟨false, 0⟩, []⟩).1.sysTickCounter / 1000 : Nat) - (0 / 1000 : Nat) := by
  have hok : (registered 1000 0 6591 ⟨0, 1, 0, 0, 0⟩).Ok :=
    registered_ok _ (by decide) (by decide) (by decide) (by decide)
  intro heq
  have hnone := (timestamp_ticks_eq_iff hok ⟨0, 0, ⟨false, 0⟩, []⟩ (by decide)).mp heq
  exact (SysTime.forall_not_recounts_iff hok 659100).mp hnone 99 (by decide) (by decide)

end WallClock

end TalOS
