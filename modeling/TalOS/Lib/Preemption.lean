-- SUMMARY: A task that may be interrupted between any two of its steps on shared memory.
import TalOS.Lib.Run

/-!
# Preemption

A task takes steps on a memory that it shares with interrupt handlers. Between any
two of its steps interrupts may come, any number of them, and each handler runs to
its end before the task goes on. What the task keeps for itself, its place in the
program included, no handler sees.
-/

namespace Preempt

variable {Local Shared Event : Type}

/-- Who runs next. -/
inductive Turn (Event : Type) where
  | task
  | interrupt (e : Event)
  deriving Repr, DecidableEq

/-- One step of the task (`none` once it has nothing left to do), or one interrupt from its start to
its end. -/
def step (task : Local × Shared → Option (Local × Shared)) (handler : Event → Shared → Shared) :
    Turn Event → Local × Shared → Option (Local × Shared)
  | .task, s => task s
  | .interrupt e, (t, m) => some (t, handler e m)

variable {task : Local × Shared → Option (Local × Shared)} {handler : Event → Shared → Shared}

/-- An invariant that may depend on the turns so far: it holds at the start, a step of the task keeps it,
and so does an interrupt. -/
theorem run_history {P : List (Turn Event) → Local × Shared → Prop} {s : Local × Shared} (hstart : P [] s)
    (htask : ∀ turns s₁ s₂, Run.run (step task handler) turns s = some s₁ → P turns s₁ → task s₁ = some s₂ →
      P (turns ++ [.task]) s₂)
    (hinterrupt : ∀ turns e t m, Run.run (step task handler) turns s = some (t, m) → P turns (t, m) →
      P (turns ++ [.interrupt e]) (t, handler e m))
    {turns : List (Turn Event)} {s' : Local × Shared} (hrun : Run.run (step task handler) turns s = some s') :
    P turns s' := by
  refine Run.run_history hstart (fun turns turn s₁ s₂ hturns hP hturn => ?_) hrun
  cases turn with
  | task => exact htask turns s₁ s₂ hturns hP hturn
  | interrupt e =>
    obtain ⟨t, m⟩ := s₁
    cases hturn
    exact hinterrupt turns e t m hturns hP

end Preempt
