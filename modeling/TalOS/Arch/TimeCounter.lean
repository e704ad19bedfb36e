-- SUMMARY: `ReadTimeCounter`, which loads a 64-bit counter in halves while ticks advance it: when its result is torn.
import TalOS.Arch.Systime
import TalOS.Lib.Preemption

/-!
# Reading the time counter

A 64-bit read is two 32-bit loads, and which half is loaded first is up to the compiler.
`ReadTimeCounter` reads the counter twice, compares the two high halves and returns the
second value. The tick may advance the counter between any two loads.
-/

namespace TalOS

open MachineInt Preempt

/-! ## The loads -/

/-- One of the halves of a 64-bit value. -/
inductive Half where
  | low
  | high
  deriving Repr, DecidableEq

def Half.other : Half → Half
  | .low => .high
  | .high => .low

def Half.load (half : Half) (counter : Nat) : Nat :=
  match half with
  | .low => u32 counter
  | .high => u32 (counter / 2 ^ 32)

/-- The value of which `half` was loaded as `loaded` and the other half as `rest`. -/
def Half.join (half : Half) (loaded rest : Nat) : Nat :=
  match half with
  | .low => rest * 2 ^ 32 + loaded
  | .high => loaded * 2 ^ 32 + rest

/-- Where `ReadTimeCounter` stands, with what it has loaded. -/
inductive ReadPc where
  | firstRead
  | firstHalf (loaded : Nat)
  | secondRead (first : Nat)
  | secondHalf (first loaded : Nat)
  | compare (first second : Nat)
  | returned (tOut : Nat)
  deriving Repr, DecidableEq

/-- The next load of `ReadTimeCounter`, or the test of its loop; `a` and `b` are the halves that the two
reads load first. -/
def readTask (a b : Half) : ReadPc × Nat → Option (ReadPc × Nat)
  | (.firstRead, counter) => some (.firstHalf (a.load counter), counter)
  | (.firstHalf loaded, counter) => some (.secondRead (a.join loaded (a.other.load counter)), counter)
  | (.secondRead first, counter) => some (.secondHalf first (b.load counter), counter)
  | (.secondHalf first loaded, counter) =>
    some (.compare first (b.join loaded (b.other.load counter)), counter)
  | (.compare first second, counter) =>
    some (if first / 2 ^ 32 ≠ second / 2 ^ 32 then .firstRead else .returned second, counter)
  | (.returned _, _) => none

/-- One step of `ReadTimeCounter`, or an interrupt that writes the counter. -/
def readTurn (a b : Half) : Turn Nat → ReadPc × Nat → Option (ReadPc × Nat) :=
  Preempt.step (readTask a b) fun value _ => value

/-- The counter is only written to advance it, and never wraps. -/
def Advances (turn : Turn Nat) (s : ReadPc × Nat) : Prop :=
  ∀ value, turn = .interrupt value → s.2 ≤ value ∧ value < 2 ^ 64

/-- A tick of the system advances the counter. -/
theorem sysTick_advances {s : SysTime} (h : s.Ok) (hwrap : s.sysTickCounter + s.sysTickIncrement < 2 ^ 64)
    (pc : ReadPc) : Advances (.interrupt s.advance.sysTickCounter) (pc, s.sysTickCounter) := by
  intro value hvalue
  obtain rfl := Turn.interrupt.inj hvalue
  rcases SysTime.advance_cases h hwrap with ⟨-, heq⟩ | ⟨-, heq⟩
  · rw [heq]
    exact ⟨Nat.le_refl _, Nat.lt_of_le_of_lt (Nat.le_add_right _ _) hwrap⟩
  · rw [heq]
    exact ⟨Nat.le_add_right _ _, hwrap⟩

/-- The counter does not carry into its high half while the second read has loaded only that half, found
equal to the one of the first read. -/
def NoCarry (b : Half) (turn : Turn Nat) (s : ReadPc × Nat) : Prop :=
  ∀ value first loaded, turn = .interrupt value → s.1 = .secondHalf first loaded → b = .high →
    first / 2 ^ 32 = loaded → value / 2 ^ 32 = s.2 / 2 ^ 32

/-! ## What the loads have seen -/

/-- The counter had the value `v` at some moment of the run. -/
def Held (a b : Half) (c₀ v : Nat) (turns : List (Turn Nat)) : Prop :=
  Run.Passes (readTurn a b) (fun s => s.2 = v) turns (.firstRead, c₀)

/-- What holds of the loaded halves as long as the counter only advances, and no carry is missed. -/
def ReadInv (a b : Half) (c₀ : Nat) (turns : List (Turn Nat)) : ReadPc × Nat → Prop
  | (.firstRead, _) => True
  | (.firstHalf loaded, counter) =>
    match a with
    | .low => loaded < 2 ^ 32
    | .high => loaded ≤ counter / 2 ^ 32
  | (.secondRead first, counter) => first / 2 ^ 32 ≤ counter / 2 ^ 32
  | (.secondHalf first loaded, counter) =>
    match b with
    | .low => ∃ v ≤ counter, Held a .low c₀ v turns ∧ first / 2 ^ 32 ≤ v / 2 ^ 32 ∧ loaded = u32 v
    | .high => first / 2 ^ 32 = loaded → loaded = counter / 2 ^ 32
  | (.compare first second, _) => first / 2 ^ 32 = second / 2 ^ 32 → Held a b c₀ second turns
  | (.returned v, _) => Held a b c₀ v turns

/-- A low half that was loaded between two equal high halves belongs to them. -/
theorem join_low_eq {first v counter : Nat} (hle : v ≤ counter) (hlt : counter < 2 ^ 64)
    (hfirst : first / 2 ^ 32 ≤ v / 2 ^ 32)
    (heq : first / 2 ^ 32 = Half.low.join (u32 v) (Half.high.load counter) / 2 ^ 32) :
    Half.low.join (u32 v) (Half.high.load counter) = v := by
  simp only [Half.join, Half.load, u32] at heq ⊢
  omega

/-- A high half that is still the one of the counter, and the low half of this moment. -/
theorem join_high_eq {first loaded counter : Nat} (hloaded : first / 2 ^ 32 = loaded → loaded = counter / 2 ^ 32)
    (heq : first / 2 ^ 32 = Half.high.join loaded (Half.low.load counter) / 2 ^ 32) :
    Half.high.join loaded (Half.low.load counter) = counter := by
  simp only [Half.join, Half.load, u32] at heq ⊢
  omega

section
variable {a b : Half} {c₀ : Nat} {turns : List (Turn Nat)}

theorem ReadInv.task {s s' : ReadPc × Nat} (hrun : Run.run (readTurn a b) turns (.firstRead, c₀) = some s)
    (hlt : s.2 < 2 ^ 64) (h : ReadInv a b c₀ turns s) (hstep : readTask a b s = some s') :
    s'.2 = s.2 ∧ ReadInv a b c₀ (turns ++ [.task]) s' := by
  have hheld : Held a b c₀ s.2 (turns ++ [.task]) :=
    Run.Passes.append (Run.passes_last (P := fun s₁ : ReadPc × Nat => s₁.2 = s.2) hrun rfl) _
  obtain ⟨pc, counter⟩ := s
  dsimp only at hlt
  cases pc with
  | firstRead =>
    cases hstep
    refine ⟨rfl, ?_⟩
    cases a with
    | low => exact u32_lt counter
    | high => exact Nat.mod_le _ _
  | firstHalf loaded =>
    cases hstep
    refine ⟨rfl, ?_⟩
    cases a with
    | low =>
      have hloaded : loaded < 2 ^ 32 := h
      show (u32 (counter / 2 ^ 32) * 2 ^ 32 + loaded) / 2 ^ 32 ≤ counter / 2 ^ 32
      unfold u32
      omega
    | high =>
      have hloaded : loaded ≤ counter / 2 ^ 32 := h
      show (loaded * 2 ^ 32 + u32 counter) / 2 ^ 32 ≤ counter / 2 ^ 32
      unfold u32
      omega
  | secondRead first =>
    cases hstep
    refine ⟨rfl, ?_⟩
    cases b with
    | low => exact ⟨counter, Nat.le_refl _, hheld, h, rfl⟩
    | high =>
      intro _
      exact u32_of_lt (by omega)
  | secondHalf first loaded =>
    cases hstep
    refine ⟨rfl, fun heq => ?_⟩
    cases b with
    | low =>
      obtain ⟨v, hle, hv, hfirst, rfl⟩ := h
      have hjoin := join_low_eq hle hlt hfirst heq
      exact hjoin.symm ▸ hv.append _
    | high =>
      -- No carry came after the high half was loaded, so the value is the one of this moment.
      have hjoin := join_high_eq h heq
      exact hjoin.symm ▸ hheld
  | compare first second =>
    cases hstep
    refine ⟨rfl, ?_⟩
    split_ifs with hne
    · trivial
    · exact Run.Passes.append (h (not_not.mp hne)) _
  | returned v => cases hstep

theorem ReadInv.interrupt {value : Nat} {pc : ReadPc} {counter : Nat} (hle : counter ≤ value)
    (hcarry : NoCarry b (.interrupt value) (pc, counter)) (h : ReadInv a b c₀ turns (pc, counter)) :
    ReadInv a b c₀ (turns ++ [.interrupt value]) (pc, value) := by
  have hhigh : counter / 2 ^ 32 ≤ value / 2 ^ 32 := Nat.div_le_div_right hle
  cases pc with
  | firstRead => trivial
  | firstHalf loaded =>
    cases a with
    | low => exact h
    | high => exact Nat.le_trans h hhigh
  | secondRead first => exact Nat.le_trans h hhigh
  | secondHalf first loaded =>
    cases b with
    | low =>
      obtain ⟨v, hv, hheld, hrest⟩ := h
      exact ⟨v, Nat.le_trans hv hle, hheld.append _, hrest⟩
    | high =>
      intro heq
      exact (h heq).trans (hcarry value first loaded rfl rfl rfl heq).symm
  | compare first second => exact fun heq => (h heq).append _
  | returned v => exact Run.Passes.append h _

/-- What the conditions on the run so far give. -/
theorem readInv_run (hc₀ : c₀ < 2 ^ 64) {s : ReadPc × Nat}
    (hrun : Run.run (readTurn a b) turns (.firstRead, c₀) = some s)
    (hadvances : Run.Along (readTurn a b) Advances turns (.firstRead, c₀))
    (hcarry : Run.Along (readTurn a b) (NoCarry b) turns (.firstRead, c₀)) :
    s.2 < 2 ^ 64 ∧ ReadInv a b c₀ turns s := by
  revert hadvances hcarry
  refine Preempt.run_history (P := fun turns s => Run.Along (readTurn a b) Advances turns (.firstRead, c₀) →
    Run.Along (readTurn a b) (NoCarry b) turns (.firstRead, c₀) → s.2 < 2 ^ 64 ∧ ReadInv a b c₀ turns s)
    (s := (.firstRead, c₀)) (fun _ _ => ⟨hc₀, trivial⟩) ?_ ?_ hrun
  · intro turns s₁ s₂ hturns hinv hstep hadvances hcarry
    obtain ⟨hlt, hread⟩ := hinv ((Run.along_concat hturns).mp hadvances).1 ((Run.along_concat hturns).mp hcarry).1
    obtain ⟨hsame, hnext⟩ := hread.task hturns hlt hstep
    exact ⟨hsame ▸ hlt, hnext⟩
  · intro turns value pc counter hturns hinv hadvances hcarry
    obtain ⟨hadvances, hvalue⟩ := (Run.along_concat hturns).mp hadvances
    obtain ⟨hcarry, hno⟩ := (Run.along_concat hturns).mp hcarry
    obtain ⟨hle, hlt⟩ := hvalue value rfl
    exact ⟨hlt, (hinv hadvances hcarry).2.interrupt hle hno⟩

/-- The counter never was below its value at the call. -/
theorem Held.ge {v : Nat} (hadvances : Run.Along (readTurn a b) Advances turns (.firstRead, c₀))
    (h : Held a b c₀ v turns) : c₀ ≤ v := by
  obtain ⟨before, ⟨after, rfl⟩, s, hrun, rfl⟩ := h
  refine Run.run_preserves (I := fun s : ReadPc × Nat => c₀ ≤ s.2) ?_ (Run.along_append.mp hadvances).1 hrun
    (Nat.le_refl c₀)
  rintro turn ⟨pc, counter⟩ s' hturn hle hstep
  cases turn with
  | task =>
    have hsame : s'.2 = counter := by
      cases pc <;> cases hstep <;> rfl
    exact hsame ▸ hle
  | interrupt value =>
    cases hstep
    exact Nat.le_trans hle (hturn value rfl).1

end

/-- Whatever halves are loaded first and wherever the counter advances, `ReadTimeCounter` returns a value that
the counter had during the call, if no carry comes between the two loads of a second read that starts with the
high half. -/
theorem readTimeCounter_held (a b : Half) (c₀ c v : Nat) (turns : List (Turn Nat)) (hc₀ : c₀ < 2 ^ 64)
    (hrun : Run.run (readTurn a b) turns (.firstRead, c₀) = some (.returned v, c))
    (hadvances : Run.Along (readTurn a b) Advances turns (.firstRead, c₀))
    (hcarry : Run.Along (readTurn a b) (NoCarry b) turns (.firstRead, c₀)) : Held a b c₀ v turns :=
  (readInv_run hc₀ hrun hadvances hcarry).2

/-- Both reads with the high half first, and a carry between the two reads: the first read is thrown away. -/
theorem readTimeCounter_held_retry :
    Held .high .high (2 ^ 32 - 1) (2 ^ 32)
      [.task, .task, .interrupt (2 ^ 32), .task, .task, .task, .task, .task, .task, .task, .task] := by
  refine readTimeCounter_held .high .high (2 ^ 32 - 1) (2 ^ 32) (2 ^ 32)
    [.task, .task, .interrupt (2 ^ 32), .task, .task, .task, .task, .task, .task, .task, .task] (by simp) rfl ?_ ?_
  · simp [Run.Along, readTurn, Preempt.step, readTask, Advances]
  · simp [Run.Along, readTurn, Preempt.step, readTask, NoCarry]

/-- The second read loads the high half 0 before the carry and the low half 0 after it: the counter never was 0. -/
theorem not_readTimeCounter_held :
    Run.run (readTurn .low .high) [.task, .task, .task, .interrupt (2 ^ 32), .task, .task]
        (.firstRead, 2 ^ 32 - 1) = some (.returned 0, 2 ^ 32) ∧
      Run.Along (readTurn .low .high) Advances [.task, .task, .task, .interrupt (2 ^ 32), .task, .task]
        (.firstRead, 2 ^ 32 - 1) ∧
      ¬ Held .low .high (2 ^ 32 - 1) 0 [.task, .task, .task, .interrupt (2 ^ 32), .task, .task] := by
  refine ⟨rfl, ?_, ?_⟩
  · simp [Run.Along, readTurn, Preempt.step, readTask, Advances]
  · intro hheld
    exact absurd (hheld.ge (by simp [Run.Along, readTurn, Preempt.step, readTask, Advances])) (by simp)

/-- The condition is always met where the second read starts with the low half. -/
theorem noCarry_lowFirst (a : Half) (turns : List (Turn Nat)) (s : ReadPc × Nat) :
    Run.Along (readTurn a .low) (NoCarry .low) turns s := by
  have hall (turn : Turn Nat) (s₁ : ReadPc × Nat) : NoCarry .low turn s₁ := by
    intro value first loaded _ _ hhigh
    cases hhigh
  induction turns generalizing s with
  | nil => trivial
  | cons turn turns ih => exact ⟨hall turn s, fun s₁ _ => ih s₁⟩

end TalOS
