-- SUMMARY: `SetTimer` with ticks between its accesses: when the timer that it sets keeps its countdown.
import TalOS.Coresys.Timer
import TalOS.Lib.Preemption

/-!
# Re-arming a timer

`SetTimer` reads the two fields of a timer, writes the count, and only then marks the
timer as not started. The tick may come between any two of these accesses. A timer that
was started and has expired is still marked as started when its new count is written.
-/

namespace TalOS

open MachineInt Preempt

/-! ## `SetTimer` access by access -/

/-- Where `SetTimer` stands. -/
inductive SetTimerPc where
  | readStarted
  | readCountDown
  | storeCountDown
  | storeStarted
  | returned (ret : Bool)
  deriving Repr, DecidableEq

/-- The next access of `SetTimer(index, countDown)`. -/
def setTimerTask (index countDown : Nat) : SetTimerPc × OsData → Option (SetTimerPc × OsData)
  | (pc, os) => do
    let b ← os.timerBlocks[index]?
    match pc with
    | .readStarted => some (if b.started = false then .storeCountDown else .readCountDown, os)
    | .readCountDown => some (if b.countDown = 0 then .storeCountDown else .returned false, os)
    | .storeCountDown => some (.storeStarted, os.setBlock index { b with countDown := u32 countDown })
    | .storeStarted => some (.returned true, os.setBlock index { b with started := false })
    | .returned _ => none

/-- One access of `SetTimer`, or one tick with the value of the counter. -/
def setTimerTurn (hz index countDown : Nat) : Turn Nat → SetTimerPc × OsData → Option (SetTimerPc × OsData) :=
  Preempt.step (setTimerTask index countDown) (sysTickFun hz)

/-- Without a tick the accesses are `SetTimer`. -/
theorem setTimerTurn_uninterrupted (hz : Nat) {index c : Nat} {os : OsData} {r : Bool × OsData}
    (h : setTimer index c os = some r) :
    ∃ n, Run.run (setTimerTurn hz index c) (List.replicate n .task) (.readStarted, os) =
      some (.returned r.1, r.2) := by
  obtain ⟨b, hb, hr⟩ := Option.bind_eq_some_iff.mp h
  have hlt : index < os.timerBlocks.length := (List.getElem?_eq_some_iff.mp hb).1
  have hset (b' : TimerBlock) : (os.setBlock index b').timerBlocks[index]? = some b' := List.getElem?_set_self hlt
  have htwice (b₁ b₂ : TimerBlock) : (os.setBlock index b₁).setBlock index b₂ = os.setBlock index b₂ := by
    simp [OsData.setBlock]
  by_cases hstarted : b.started = false
  · rw [if_pos (.inl hstarted)] at hr
    cases hr
    refine ⟨3, ?_⟩
    simp [Run.run, setTimerTurn, Preempt.step, setTimerTask, List.replicate, hb, hset, htwice, hstarted]
  · by_cases hzero : b.countDown = 0
    · rw [if_pos (.inr hzero)] at hr
      cases hr
      refine ⟨4, ?_⟩
      simp [Run.run, setTimerTurn, Preempt.step, setTimerTask, List.replicate, hb, hset, htwice, hstarted, hzero]
    · rw [if_neg (not_or_intro hstarted hzero)] at hr
      cases hr
      refine ⟨2, ?_⟩
      simp [Run.run, setTimerTurn, Preempt.step, setTimerTask, List.replicate, hb, hstarted, hzero]

/-! ## Ticks between the two stores -/

/-- The timer is marked as started. -/
def OsData.Started (os : OsData) (index : Nat) : Prop := ∃ b, os.timerBlocks[index]? = some b ∧ b.started = true

/-- No tick comes between the two stores while the timer is marked as started. -/
def Undisturbed (index : Nat) (turn : Turn Nat) (s : SetTimerPc × OsData) : Prop :=
  turn ≠ .task → s.1 = .storeStarted → ¬ s.2.Started index

/-- What the turns so far have made of the timer. -/
def RearmInv (hz index c : Nat) (os : OsData) (turns : List (Turn Nat)) (s : SetTimerPc × OsData) : Prop :=
  ∃ b, s.2.timerBlocks[index]? = some b ∧
    let undisturbed := Run.Along (setTimerTurn hz index c) (Undisturbed index) turns (.readStarted, os)
    match s.1 with
    | .storeStarted => undisturbed ∧ b.countDown = c ∨ ¬ undisturbed ∧ b.countDown < c
    | .returned true => b.started = false ∧ (undisturbed ∧ b.countDown = c ∨ ¬ undisturbed ∧ b.countDown < c)
    | .readStarted | .readCountDown | .storeCountDown | .returned false => undisturbed

section
variable {hz index c : Nat} {os : OsData} {turns : List (Turn Nat)}

theorem along_task {s : SetTimerPc × OsData}
    (hrun : Run.run (setTimerTurn hz index c) turns (.readStarted, os) = some s) :
    Run.Along (setTimerTurn hz index c) (Undisturbed index) (turns ++ [.task]) (.readStarted, os) ↔
      Run.Along (setTimerTurn hz index c) (Undisturbed index) turns (.readStarted, os) := by
  rw [Run.along_concat hrun]
  exact and_iff_left fun hne => absurd rfl hne

theorem along_tick {counter : Nat} {pc : SetTimerPc} {os' : OsData}
    (hrun : Run.run (setTimerTurn hz index c) turns (.readStarted, os) = some (pc, os')) :
    Run.Along (setTimerTurn hz index c) (Undisturbed index) (turns ++ [.interrupt counter]) (.readStarted, os) ↔
      Run.Along (setTimerTurn hz index c) (Undisturbed index) turns (.readStarted, os) ∧
        (pc = .storeStarted → ¬ os'.Started index) := by
  rw [Run.along_concat hrun]
  refine and_congr_right fun _ => ?_
  simp [Undisturbed]

/-- An access of `SetTimer` does to the timer what its place says. -/
theorem RearmInv.task (hc : c < 2 ^ 32) {s s' : SetTimerPc × OsData}
    (hrun : Run.run (setTimerTurn hz index c) turns (.readStarted, os) = some s)
    (h : RearmInv hz index c os turns s) (hstep : setTimerTask index c s = some s') :
    RearmInv hz index c os (turns ++ [.task]) s' := by
  obtain ⟨pc, os₁⟩ := s
  obtain ⟨b, hb, hpc⟩ := h
  have hset (b' : TimerBlock) : (os₁.setBlock index b').timerBlocks[index]? = some b' :=
    List.getElem?_set_self (List.getElem?_eq_some_iff.mp hb).1
  unfold RearmInv
  rw [along_task hrun]
  simp only [setTimerTask, hb, Option.bind_eq_bind, Option.bind_some] at hstep
  dsimp only at hb hpc
  cases pc with
  | readStarted =>
    cases hstep
    refine ⟨b, hb, ?_⟩
    dsimp only
    split_ifs <;> exact hpc
  | readCountDown =>
    cases hstep
    refine ⟨b, hb, ?_⟩
    dsimp only
    split_ifs <;> exact hpc
  | storeCountDown =>
    cases hstep
    exact ⟨_, hset _, .inl ⟨hpc, u32_of_lt hc⟩⟩
  | storeStarted =>
    cases hstep
    exact ⟨_, hset _, rfl, hpc⟩
  | returned ret => cases hstep

/-- A tick leaves a timer alone that is not started, and takes something off one that is. -/
theorem TimerBlock.tick_cases (incrementMs : Nat) (b : TimerBlock) :
    b.started = false ∧ b.tick incrementMs = b ∨
      b.started = true ∧ (b.tick incrementMs).countDown = b.countDown - incrementMs := by
  obtain ⟨started, countDown⟩ := b
  cases started with
  | false => exact .inl ⟨rfl, if_neg (by simp)⟩
  | true =>
    rw [TimerBlock.tick_running]
    exact .inr ⟨rfl, rfl⟩

/-- A tick matters only between the two stores, and there only to a timer that is marked as started. -/
theorem RearmInv.tick (hhz : hz ∈ offeredFrequencies) (hc : 1 ≤ c) {counter : Nat} {pc : SetTimerPc} {os₁ : OsData}
    (hrun : Run.run (setTimerTurn hz index c) turns (.readStarted, os) = some (pc, os₁))
    (h : RearmInv hz index c os turns (pc, os₁)) :
    RearmInv hz index c os (turns ++ [.interrupt counter]) (pc, sysTickFun hz counter os₁) := by
  obtain ⟨b, hb, hpc⟩ := h
  have hpos : 0 < sysTickIncrementMs hz := sysTickIncrementMs_pos hhz
  have hb' : (sysTickFun hz counter os₁).timerBlocks[index]? = some (b.tick (sysTickIncrementMs hz)) := by
    rw [sysTickFun_block, hb, Option.map_some]
  have hstarted : os₁.Started index ↔ b.started = true := by
    simp [OsData.Started, hb]
  refine ⟨_, hb', ?_⟩
  rw [along_tick hrun, hstarted]
  dsimp only at hpc ⊢
  cases pc with
  | readStarted | readCountDown | storeCountDown => exact ⟨hpc, nofun⟩
  | storeStarted =>
    rcases b.tick_cases (sysTickIncrementMs hz) with ⟨hfalse, hsame⟩ | ⟨htrue, hless⟩
    · rw [hsame, hfalse]
      simpa using hpc
    · -- The count that was just written has already lost a tick.
      refine .inr ⟨fun h => h.2 rfl htrue, ?_⟩
      rw [hless]
      rcases hpc with ⟨-, hcount⟩ | ⟨-, hcount⟩ <;> omega
  | returned ret =>
    cases ret with
    | false => exact ⟨hpc, nofun⟩
    | true =>
      obtain ⟨hfalse, hcount⟩ := hpc
      rcases b.tick_cases (sysTickIncrementMs hz) with ⟨-, hsame⟩ | ⟨htrue, -⟩
      · rw [hsame]
        simpa using ⟨hfalse, hcount⟩
      · rw [hfalse] at htrue
        cases htrue

/-- The invariant along every run from the call on. -/
theorem rearmInv_run (hhz : hz ∈ offeredFrequencies) (hc : 1 ≤ c) (hc' : c < 2 ^ 32)
    (hindex : index < os.timerBlocks.length) {s : SetTimerPc × OsData}
    (hrun : Run.run (setTimerTurn hz index c) turns (.readStarted, os) = some s) :
    RearmInv hz index c os turns s := by
  refine Preempt.run_history ⟨_, List.getElem?_eq_getElem hindex, trivial⟩ ?_ ?_ hrun
  · exact fun turns s₁ s₂ hturns hinv hstep => hinv.task hc' hturns hstep
  · exact fun turns counter pc os₁ hturns hinv => hinv.tick hhz hc hturns

end

theorem not_started_set {index : Nat} {os : OsData} {b : TimerBlock} (hb : os.timerBlocks[index]? = some b)
    (b' : TimerBlock) (hb' : b'.started = true → b.started = true) (h : ¬ os.Started index) :
    ¬ (os.setBlock index b').Started index := by
  rintro ⟨b₁, hb₁, hstarted⟩
  rw [OsData.setBlock, List.getElem?_set_self (List.getElem?_eq_some_iff.mp hb).1] at hb₁
  obtain rfl := Option.some.inj hb₁
  exact h ⟨b, hb, hb' hstarted⟩

/-- A timer that is not started at the call is not started by an access or by a tick, so no tick disturbs it. -/
theorem undisturbed_of_not_started (hz : Nat) {index : Nat} (c : Nat) {os : OsData} (h : ¬ os.Started index)
    (turns : List (Turn Nat)) :
    Run.Along (setTimerTurn hz index c) (Undisturbed index) turns (.readStarted, os) := by
  have hall : Run.Along (setTimerTurn hz index c) (fun _ _ => True) turns (.readStarted, os) :=
    Run.Along.of_forall (fun _ _ => trivial) _
  refine @Run.Along.of_invariant _ _ _ _ _ (fun s => ¬ s.2.Started index) (fun _ _ _ hI _ _ => hI) ?_ _ _ hall h
  rintro turn ⟨pc, os₁⟩ s' - hI hstep
  cases turn with
  | task =>
    obtain ⟨b, hb, hpc⟩ := Option.bind_eq_some_iff.mp hstep
    cases pc with
    | readStarted | readCountDown =>
      cases hpc
      exact hI
    | storeCountDown =>
      cases hpc
      exact not_started_set hb _ id hI
    | storeStarted =>
      cases hpc
      exact not_started_set hb _ (fun hfalse => nomatch hfalse) hI
    | returned ret => cases hpc
  | interrupt counter =>
    cases hstep
    rintro ⟨b, hb, hstarted⟩
    rw [sysTickFun_block, Option.map_eq_some_iff] at hb
    obtain ⟨b₁, hb₁, rfl⟩ := hb
    refine hI ⟨b₁, hb₁, ?_⟩
    rcases b₁.tick_cases (sysTickIncrementMs hz) with ⟨-, hsame⟩ | ⟨htrue, -⟩
    · rwa [hsame] at hstarted
    · exact htrue

/-! ## What a caller may expect -/

/-- The timer is set to `c` and not started; it can be started, and then it expires on the tick that
completes `c` milliseconds, whatever is called on the other timers. -/
structure Rearmed (hz index c : Nat) (os : OsData) : Prop where
  block : os.timerBlocks[index]? = some { started := false, countDown := c }
  served : ∃ os₀, startTimer index os = some (true, os₀) ∧
    ∀ ops os', (∀ op ∈ ops, op.index? ≠ some index) → Run.run (TimerOp.step hz) ops os₀ = some os' →
      timerExpired index os' = some (decide (dueTick hz c ≤ tickCount ops))

theorem rearmed_iff {hz index c : Nat} (hhz : hz ∈ offeredFrequencies) (hc : 1 ≤ c) {os : OsData} :
    Rearmed hz index c os ↔ os.timerBlocks[index]? = some { started := false, countDown := c } := by
  refine ⟨Rearmed.block, fun hb => ⟨hb, ?_⟩⟩
  have hlt : index < os.timerBlocks.length := (List.getElem?_eq_some_iff.mp hb).1
  refine ⟨os.setBlock index { started := true, countDown := c }, ?_, fun ops os' hops hrun => ?_⟩
  · simp only [startTimer, hb, Option.bind_eq_bind, Option.bind_some]
    exact if_pos ⟨trivial, hc⟩
  · exact run_timerExpired hhz hops hrun (List.getElem?_set_self hlt)

/-- Wherever ticks come between the accesses of `SetTimer`, a return of `TRUE` leaves the timer as it was set
exactly if none came between the two stores while the timer was marked as started. -/
theorem setTimer_rearms_iff (hz index c : Nat) (hhz : hz ∈ offeredFrequencies) (hc : 1 ≤ c) (hc' : c < 2 ^ 32)
    (os os' : OsData) (turns : List (Turn Nat)) (hindex : index < os.timerBlocks.length)
    (hrun : Run.run (setTimerTurn hz index c) turns (.readStarted, os) = some (.returned true, os')) :
    Rearmed hz index c os' ↔
      Run.Along (setTimerTurn hz index c) (Undisturbed index) turns (.readStarted, os) := by
  obtain ⟨b, hb, hfalse, hcount⟩ := rearmInv_run hhz hc hc' hindex hrun
  rw [rearmed_iff hhz hc, hb]
  obtain ⟨started, countDown⟩ := b
  obtain rfl : started = false := hfalse
  rcases hcount with ⟨hund, hcount⟩ | ⟨hdist, hcount⟩
  · obtain rfl : countDown = c := hcount
    exact iff_of_true rfl hund
  · refine iff_of_false (fun heq => ?_) hdist
    cases heq
    exact Nat.lt_irrefl _ hcount

/-- The timers of a kernel in which every one has been started and has expired, or none was ever started. -/
def allTimers (started : Bool) : OsData := ⟨0, 0, ⟨false, osTimeSlice⟩, List.replicate osTimersN ⟨started, 0⟩⟩

/-- A timer that has expired, with a tick before the first of the two stores. -/
theorem setTimer_rearms_expired :
    ∃ os', Run.run (setTimerTurn 1000 3 100) [.task, .task, .interrupt 1, .task, .task]
        (.readStarted, allTimers true) = some (.returned true, os') ∧ Rearmed 1000 3 100 os' := by
  refine ⟨_, rfl, (setTimer_rearms_iff 1000 3 100 (by decide) (by decide) (by decide) (allTimers true) _
    [.task, .task, .interrupt 1, .task, .task] (by decide) rfl).mpr ?_⟩
  have htask (s : SetTimerPc × OsData) : Undisturbed 3 .task s := fun hne => absurd rfl hne
  refine ⟨htask _, fun s₁ h₁ => ⟨htask _, fun s₂ h₂ => ⟨?_, fun s₃ _ => ⟨htask _, fun s₄ _ => ⟨htask _, ?_⟩⟩⟩⟩⟩
  · cases h₁
    cases h₂
    exact fun _ hpc => by cases hpc
  · exact fun _ _ => trivial

/-- An expired timer, with a tick between the two stores: one of the 100 milliseconds is gone. -/
theorem not_setTimer_rearms :
    ∃ os', Run.run (setTimerTurn 1000 0 100) [.task, .task, .task, .interrupt 1, .task]
        (.readStarted, allTimers true) = some (.returned true, os') ∧
      os'.timerBlocks[0]? = some ⟨false, 99⟩ ∧ ¬ Rearmed 1000 0 100 os' := by
  refine ⟨_, rfl, rfl, fun h => ?_⟩
  cases h.block

end TalOS
