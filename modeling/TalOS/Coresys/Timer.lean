-- SUMMARY: The tick callback and the software timers of `coresys/timer.c`: a timer expires on the tick it was set for.
import TalOS.Lib.MachineInt
import TalOS.Lib.Run

/-!
# `coresys/timer.c`

`OSData` as far as the timers use it, and `SysTickFun`, the callback that the
architecture's tick interrupt calls with the current counter value. The tick
frequency is a compile-time choice of `osconfig.h`, so it is a parameter here.

The functions that set, start and query a timer take its index in
`TimerBlocks`; a call with an index outside the array is undefined. The main
result is about a timer that was set and started, and any later sequence of
ticks and calls on the other timers.
-/

namespace TalOS

open MachineInt

/-- `timer_block_t`, less `Expired`, which no function reads. -/
structure TimerBlock where
  started : Bool
  countDown : Nat
  deriving Repr, DecidableEq

/-- `OSData`, less the fields that no timer function reads. -/
structure OsData where
  timestamp : Int
  sysTimeMs : Nat
  timeSliceTimer : TimerBlock
  timerBlocks : List TimerBlock
  deriving Repr, DecidableEq

def osTimersN : Nat := 20
def osTimeSlice : Nat := 20
def sysTickMaxHz : Nat := 1000

/-- The tick frequencies that `osconfig.h` offers. -/
def offeredFrequencies : List Nat := [1000, 500, 250, 125, 50]

/-- `SYS_TICK_INCREMENT_MS` -/
def sysTickIncrementMs (sysTickFreqHz : Nat) : Nat := sysTickMaxHz / sysTickFreqHz

/-- The body of the timer loop of `SysTickFun`. -/
def TimerBlock.tick (incrementMs : Nat) (b : TimerBlock) : TimerBlock :=
  if b.countDown > 0 ∧ b.started then
    if incrementMs ≥ b.countDown then { b with countDown := 0 }
    else { b with countDown := b.countDown - incrementMs }
  else b

/-- The time slice is reloaded when it runs out. -/
def TimerBlock.tickTimeSlice (incrementMs : Nat) (b : TimerBlock) : TimerBlock :=
  if incrementMs ≥ b.countDown then { b with countDown := osTimeSlice }
  else { b with countDown := b.countDown - incrementMs }

/-- `SysTickFun` -/
def sysTickFun (sysTickFreqHz : Nat) (counter : Nat) (os : OsData) : OsData where
  timestamp := if counter % 1000 = 0 then os.timestamp + 1 else os.timestamp
  sysTimeMs := counter
  timeSliceTimer := os.timeSliceTimer.tickTimeSlice (sysTickIncrementMs sysTickFreqHz)
  timerBlocks := os.timerBlocks.map (TimerBlock.tick (sysTickIncrementMs sysTickFreqHz))

/-! ## Setting and starting -/

/-- `OSData.TimerBlocks[index] = b` -/
def OsData.setBlock (os : OsData) (index : Nat) (b : TimerBlock) : OsData :=
  { os with timerBlocks := os.timerBlocks.set index b }

/-- `SetTimer`: a timer that is not started, or started and expired, is set. -/
def setTimer (index countDown : Nat) (os : OsData) : Option (Bool × OsData) := do
  let b ← os.timerBlocks[index]?
  if b.started = false ∨ b.countDown = 0 then
    some (true, os.setBlock index { started := false, countDown := u32 countDown })
  else some (false, os)

/-- `StartTimer`: only after a `SetTimer`. -/
def startTimer (index : Nat) (os : OsData) : Option (Bool × OsData) := do
  let b ← os.timerBlocks[index]?
  if b.started = false ∧ b.countDown > 0 then
    some (true, os.setBlock index { b with started := true })
  else some (false, os)

/-- `SetTimerStart` -/
def setTimerStart (index countDown : Nat) (os : OsData) : Option (Bool × OsData) := do
  let r ← setTimer index countDown os
  if r.1 then startTimer index r.2 else some (false, r.2)

/-- `TimerExpired` -/
def timerExpired (index : Nat) (os : OsData) : Option Bool := do
  let b ← os.timerBlocks[index]?
  some (b.countDown == 0)

/-- `GetTimerCount` -/
def getTimerCount (index : Nat) (os : OsData) : Option Nat := do
  let b ← os.timerBlocks[index]?
  some b.countDown

/-! ## Sequences of ticks and calls -/

inductive TimerOp where
  | sysTick (counter : Nat)
  | setTimer (index countDown : Nat)
  | startTimer (index : Nat)
  | setTimerStart (index countDown : Nat)
  deriving Repr, DecidableEq

/-- The timer that a call is about. -/
def TimerOp.index? : TimerOp → Option Nat
  | .sysTick _ => none
  | .setTimer index _ | .startTimer index | .setTimerStart index _ => some index

def TimerOp.step (sysTickFreqHz : Nat) : TimerOp → OsData → Option OsData
  | .sysTick counter, os => some (sysTickFun sysTickFreqHz counter os)
  | .setTimer index countDown, os => (TalOS.setTimer index countDown os).map Prod.snd
  | .startTimer index, os => (TalOS.startTimer index os).map Prod.snd
  | .setTimerStart index countDown, os => (TalOS.setTimerStart index countDown os).map Prod.snd

def TimerOp.isTick : TimerOp → Bool
  | .sysTick _ => true
  | .setTimer _ _ | .startTimer _ | .setTimerStart _ _ => false

/-- How many of the operations are ticks. -/
def tickCount (ops : List TimerOp) : Nat := ops.countP TimerOp.isTick

theorem sysTickIncrementMs_pos {hz : Nat} (h : hz ∈ offeredFrequencies) :
    0 < sysTickIncrementMs hz := by
  have hall : ∀ f ∈ offeredFrequencies, 0 < sysTickIncrementMs f := by decide
  exact hall hz h

/-! ### Calls on one timer leave the others alone -/

theorem setBlock_ne (os : OsData) {index k : Nat} (b : TimerBlock) (h : k ≠ index) :
    (os.setBlock index b).timerBlocks[k]? = os.timerBlocks[k]? :=
  List.getElem?_set_ne h.symm

theorem setTimer_cases {index countDown : Nat} {os : OsData} {r : Bool × OsData}
    (h : setTimer index countDown os = some r) :
    r = (true, os.setBlock index { started := false, countDown := u32 countDown }) ∨ r = (false, os) := by
  obtain ⟨b, -, hr⟩ := Option.bind_eq_some_iff.mp h
  split at hr
  · exact Or.inl (Option.some.inj hr).symm
  · exact Or.inr (Option.some.inj hr).symm

theorem startTimer_cases {index : Nat} {os : OsData} {r : Bool × OsData}
    (h : startTimer index os = some r) :
    (∃ b, r = (true, os.setBlock index b)) ∨ r = (false, os) := by
  obtain ⟨b, -, hr⟩ := Option.bind_eq_some_iff.mp h
  split at hr
  · exact Or.inl ⟨_, (Option.some.inj hr).symm⟩
  · exact Or.inr (Option.some.inj hr).symm

theorem setTimer_frame {index countDown k : Nat} {os : OsData} {r : Bool × OsData}
    (h : setTimer index countDown os = some r) (hk : k ≠ index) :
    r.2.timerBlocks[k]? = os.timerBlocks[k]? := by
  rcases setTimer_cases h with rfl | rfl
  · exact setBlock_ne os _ hk
  · rfl

theorem startTimer_frame {index k : Nat} {os : OsData} {r : Bool × OsData}
    (h : startTimer index os = some r) (hk : k ≠ index) :
    r.2.timerBlocks[k]? = os.timerBlocks[k]? := by
  rcases startTimer_cases h with ⟨b, rfl⟩ | rfl
  · exact setBlock_ne os b hk
  · rfl

theorem setTimerStart_frame {index countDown k : Nat} {os : OsData} {r : Bool × OsData}
    (h : setTimerStart index countDown os = some r) (hk : k ≠ index) :
    r.2.timerBlocks[k]? = os.timerBlocks[k]? := by
  obtain ⟨r₁, hset, hr⟩ := Option.bind_eq_some_iff.mp h
  have hset' := setTimer_frame hset hk
  split at hr
  · exact (startTimer_frame hr hk).trans hset'
  · rw [← Option.some.inj hr]
    exact hset'

/-- A call on timer `j` leaves every other timer as it is. -/
theorem TimerOp.step_frame {hz j k : Nat} {op : TimerOp} {os os' : OsData}
    (hj : op.index? = some j) (hk : k ≠ j) (h : op.step hz os = some os') :
    os'.timerBlocks[k]? = os.timerBlocks[k]? := by
  cases op with
  | sysTick counter => cases hj
  | setTimer index countDown =>
    cases hj
    obtain ⟨r, hr, rfl⟩ := Option.map_eq_some_iff.mp h
    exact setTimer_frame hr hk
  | startTimer index =>
    cases hj
    obtain ⟨r, hr, rfl⟩ := Option.map_eq_some_iff.mp h
    exact startTimer_frame hr hk
  | setTimerStart index countDown =>
    cases hj
    obtain ⟨r, hr, rfl⟩ := Option.map_eq_some_iff.mp h
    exact setTimerStart_frame hr hk

/-! ### A running timer -/

/-- A started timer with `c` left has `c - incrementMs` left after a tick, and none below zero. -/
theorem TimerBlock.tick_running (incrementMs c : Nat) :
    TimerBlock.tick incrementMs { started := true, countDown := c } =
      { started := true, countDown := c - incrementMs } := by
  unfold TimerBlock.tick
  rcases Nat.eq_zero_or_pos c with rfl | hc
  · simp
  · rw [if_pos ⟨hc, rfl⟩]
    split
    · next hle => rw [Nat.sub_eq_zero_of_le hle]
    · rfl

theorem sysTickFun_block (hz counter k : Nat) (os : OsData) :
    (sysTickFun hz counter os).timerBlocks[k]? =
      os.timerBlocks[k]?.map (TimerBlock.tick (sysTickIncrementMs hz)) :=
  List.getElem?_map

/-- One operation that is not a call on `index`, seen from the running timer `index`. -/
theorem TimerOp.step_running {hz index c : Nat} {op : TimerOp} {os os' : OsData}
    (hop : op.index? ≠ some index) (h : op.step hz os = some os')
    (hb : os.timerBlocks[index]? = some { started := true, countDown := c }) :
    os'.timerBlocks[index]? =
      some { started := true, countDown := c - tickCount [op] * sysTickIncrementMs hz } := by
  cases hj : op.index? with
  | none =>
    cases op with
    | sysTick counter =>
      rw [← Option.some.inj h, sysTickFun_block, hb, Option.map_some, TimerBlock.tick_running]
      simp [tickCount, TimerOp.isTick]
    | setTimer | startTimer | setTimerStart => cases hj
  | some j =>
    have hne : index ≠ j := fun he => hop (he ▸ hj)
    have hno : tickCount [op] = 0 := by
      cases op with
      | sysTick counter => cases hj
      | setTimer | startTimer | setTimerStart => rfl
    rw [step_frame hj hne h, hb, hno, Nat.zero_mul, Nat.sub_zero]

/-- A running timer after any sequence of ticks and calls on other timers. -/
theorem run_running {hz index c : Nat} {ops : List TimerOp} {os os' : OsData}
    (hops : ∀ op ∈ ops, op.index? ≠ some index)
    (hrun : Run.run (TimerOp.step hz) ops os = some os')
    (hb : os.timerBlocks[index]? = some { started := true, countDown := c }) :
    os'.timerBlocks[index]? =
      some { started := true, countDown := c - tickCount ops * sysTickIncrementMs hz } := by
  induction ops generalizing os c with
  | nil =>
    rw [← Option.some.inj hrun, hb]
    simp [tickCount]
  | cons op ops ih =>
    obtain ⟨os₁, hop, hrest⟩ := Run.run_cons_eq_some.mp hrun
    have hb₁ := TimerOp.step_running (hops op List.mem_cons_self) hop hb
    have hsum : tickCount (op :: ops) = tickCount [op] + tickCount ops :=
      @List.countP_append _ TimerOp.isTick [op] ops
    rw [ih (fun op' h => hops op' (List.mem_cons_of_mem _ h)) hrest hb₁, hsum, Nat.sub_sub,
      Nat.add_mul]

/-- A timer that does not run is set and started by `SetTimerStart`. -/
theorem setTimerStart_idle {index c : Nat} {os : OsData} {b : TimerBlock}
    (hb : os.timerBlocks[index]? = some b) (hidle : b.started = false ∨ b.countDown = 0)
    (hc : 0 < c) (hc' : c < 2 ^ 32) :
    ∃ os₀, setTimerStart index c os = some (true, os₀) ∧
      os₀.timerBlocks[index]? = some { started := true, countDown := c } := by
  have hlt : index < os.timerBlocks.length := (List.getElem?_eq_some_iff.mp hb).1
  have hset : setTimer index c os =
      some (true, os.setBlock index { started := false, countDown := c }) := by
    simp only [setTimer, hb, Option.bind_eq_bind, Option.bind_some, if_pos hidle, u32_of_lt hc']
  have hb₁ (b' : TimerBlock) (os' : OsData) (h : os'.timerBlocks.length = os.timerBlocks.length) :
      (os'.setBlock index b').timerBlocks[index]? = some b' :=
    List.getElem?_set_self (h ▸ hlt)
  have hstart : startTimer index (os.setBlock index { started := false, countDown := c }) =
      some (true, (os.setBlock index { started := false, countDown := c }).setBlock index
        { started := true, countDown := c }) := by
    simp only [startTimer, hb₁ _ os rfl, Option.bind_eq_bind, Option.bind_some]
    exact if_pos (And.intro trivial hc)
  refine ⟨_, ?_, hb₁ _ (os.setBlock index { started := false, countDown := c }) List.length_set⟩
  simp only [setTimerStart, hset, Option.bind_eq_bind, Option.bind_some, if_true]
  exact hstart

/-- `⌈c / incrementMs⌉ ≤ n` as a product. -/
theorem ceilDiv_le_iff {c n incrementMs : Nat} (h : 0 < incrementMs) :
    (c + incrementMs - 1) / incrementMs ≤ n ↔ c ≤ n * incrementMs := by
  rw [← Nat.lt_succ_iff, Nat.div_lt_iff_lt_mul h, Nat.succ_mul]
  omega

/-- The tick on which a timer with `c` milliseconds left expires. -/
def dueTick (hz c : Nat) : Nat := (c + sysTickIncrementMs hz - 1) / sysTickIncrementMs hz

/-- A running timer expires on the tick that completes its milliseconds, whatever is called on the other
timers. -/
theorem run_timerExpired {hz index c : Nat} (hhz : hz ∈ offeredFrequencies) {ops : List TimerOp} {os os' : OsData}
    (hops : ∀ op ∈ ops, op.index? ≠ some index) (hrun : Run.run (TimerOp.step hz) ops os = some os')
    (hb : os.timerBlocks[index]? = some { started := true, countDown := c }) :
    timerExpired index os' = some (decide (dueTick hz c ≤ tickCount ops)) := by
  have hdue : dueTick hz c ≤ tickCount ops ↔ c ≤ tickCount ops * sysTickIncrementMs hz :=
    ceilDiv_le_iff (sysTickIncrementMs_pos hhz)
  simp only [timerExpired, run_running hops hrun hb, Option.bind_eq_bind, Option.bind_some, Option.some.injEq]
  rw [Bool.eq_iff_iff, beq_iff_eq, Nat.sub_eq_zero_iff_le, decide_eq_true_iff, hdue]

/-- A timer set and started with `c` milliseconds expires on the tick that completes them, whatever
is called on the other timers; until then it cannot be set again; and calls on one timer change no
other. -/
theorem softwareTimer_expires_onTime (hz index c : Nat) (os : OsData) (hhz : hz ∈ offeredFrequencies)
    (hblocks : os.timerBlocks.length = osTimersN) (hindex : index < osTimersN)
    (hidle : ∀ b, os.timerBlocks[index]? = some b → b.started = false ∨ b.countDown = 0)
    (hc : 1 ≤ c) (hc' : c < 2 ^ 32) :
    (∃ os₀, setTimerStart index c os = some (true, os₀) ∧
      ∀ ops os', (∀ op ∈ ops, op.index? ≠ some index) →
        Run.run (TimerOp.step hz) ops os₀ = some os' →
        let due := (c + sysTickIncrementMs hz - 1) / sysTickIncrementMs hz
        timerExpired index os' = some (decide (due ≤ tickCount ops)) ∧
          (tickCount ops < due → ∀ c', setTimer index c' os' = some (false, os'))) ∧
      ∀ op j k os₁ os₂, op.index? = some j → k ≠ j → TimerOp.step hz op os₁ = some os₂ →
        os₂.timerBlocks[k]? = os₁.timerBlocks[k]? := by
  refine ⟨?_, fun op j k os₁ os₂ hj hk h => TimerOp.step_frame hj hk h⟩
  have hlt : index < os.timerBlocks.length := hblocks ▸ hindex
  have hb : os.timerBlocks[index]? = some os.timerBlocks[index] :=
    List.getElem?_eq_getElem _
  obtain ⟨os₀, hset, hb₀⟩ := setTimerStart_idle hb (hidle _ hb) hc hc'
  refine ⟨os₀, hset, ?_⟩
  intro ops os' hops hrun due
  have hpos : 0 < sysTickIncrementMs hz := sysTickIncrementMs_pos hhz
  have hdue : due ≤ tickCount ops ↔ c ≤ tickCount ops * sysTickIncrementMs hz := ceilDiv_le_iff hpos
  have hb' := run_running hops hrun hb₀
  constructor
  · exact run_timerExpired hhz hops hrun hb₀
  · intro hlt c'
    have hleft : ¬ c - tickCount ops * sysTickIncrementMs hz = 0 := by
      rw [Nat.sub_eq_zero_iff_le, ← hdue]
      exact Nat.not_le.mpr hlt
    simp only [setTimer, hb', Option.bind_eq_bind, Option.bind_some]
    exact if_neg (by simpa using hleft)

/-- At 125 Hz, 20 ms on timer 3 of the timers as they are at boot. -/
theorem softwareTimer_expires_onTime_third_tick :
    ∃ os₀, setTimerStart 3 20 ⟨0, 0, ⟨false, osTimeSlice⟩, List.replicate osTimersN ⟨false, 0⟩⟩ =
        some (true, os₀) ∧
      ∀ ops os', (∀ op ∈ ops, op.index? ≠ some 3) →
        Run.run (TimerOp.step 125) ops os₀ = some os' →
        timerExpired 3 os' = some (decide (3 ≤ tickCount ops)) := by
  have h := softwareTimer_expires_onTime 125 3 20
    ⟨0, 0, ⟨false, osTimeSlice⟩, List.replicate osTimersN ⟨false, 0⟩⟩
    (by decide) (by decide) (by decide) (by decide) (by decide) (by decide)
  obtain ⟨⟨os₀, hset, hrun⟩, -⟩ := h
  exact ⟨os₀, hset, fun ops os' hops h => (hrun ops os' hops h).1⟩

end TalOS
