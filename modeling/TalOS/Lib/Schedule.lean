-- SUMMARY: Schedules: runs that go on for ever, and that those which give everybody a turn come to rest.
import Mathlib.Order.WellFounded
import TalOS.Lib.Run

/-!
# Schedules

A schedule says for every point of time whose turn it is. Whoever cannot do anything
lets the turn pass. Where each change makes a measure smaller, the state changes only
finitely often, and what it comes to nobody with a turn ahead can change.
-/

namespace Run

variable {σ Op : Type}

/-- The state at a point of time. -/
def scheduled (step : Op → σ → Option σ) (schedule : Nat → Op) (s : σ) : Nat → σ
  | 0 => s
  | n + 1 => (step (schedule n) (scheduled step schedule s n)).getD (scheduled step schedule s n)

/-- The operations of the list all have a turn again and again. -/
def Fair (ops : List Op) (schedule : Nat → Op) : Prop := ∀ op ∈ ops, ∀ n, ∃ m, n ≤ m ∧ schedule m = op

/-- None of the operations changes the state. -/
def Rests (step : Op → σ → Option σ) (ops : List Op) (s : σ) : Prop :=
  ∀ op ∈ ops, ∀ s', step op s = some s' → s' = s

variable {step : Op → σ → Option σ} {schedule : Nat → Op} {s : σ}

theorem scheduled_succ (step : Op → σ → Option σ) (schedule : Nat → Op) (s : σ) (n : Nat) :
    step (schedule n) (scheduled step schedule s n) = some (scheduled step schedule s (n + 1)) ∨
      scheduled step schedule s (n + 1) = scheduled step schedule s n := by
  rw [scheduled]
  cases step (schedule n) (scheduled step schedule s n) with
  | none => exact Or.inr rfl
  | some s' => exact Or.inl rfl

/-- The turns that were not passed are a run. -/
theorem run_scheduled (step : Op → σ → Option σ) (schedule : Nat → Op) (s : σ) (n : Nat) :
    ∃ ops, run step ops s = some (scheduled step schedule s n) := by
  induction n with
  | zero => exact ⟨[], rfl⟩
  | succ n ih =>
    obtain ⟨ops, hrun⟩ := ih
    rcases scheduled_succ step schedule s n with hstep | hpass
    · exact ⟨ops ++ [schedule n], run_concat_eq_some.mpr ⟨_, hrun, hstep⟩⟩
    · exact ⟨ops, hpass ▸ hrun⟩

variable {measure : σ → Nat}

/-- From the point of time with the smallest measure on nothing changes any more. -/
theorem scheduled_constant (schedule : Nat → Op)
    (hdec : ∀ ops op s₁ s₂, run step ops s = some s₁ → step op s₁ = some s₂ → s₂ ≠ s₁ → measure s₂ < measure s₁) :
    ∃ N, ∀ n, N ≤ n → scheduled step schedule s n = scheduled step schedule s N := by
  refine ⟨Function.argmin fun n => measure (scheduled step schedule s n), fun n hn => ?_⟩
  induction n, hn using Nat.le_induction with
  | base => rfl
  | succ n _ ih =>
    by_contra hchange
    have hne : scheduled step schedule s (n + 1) ≠ scheduled step schedule s n := ih ▸ hchange
    have hstep := (scheduled_succ step schedule s n).resolve_right hne
    obtain ⟨ops, hrun⟩ := run_scheduled step schedule s n
    have hsmaller := hdec ops (schedule n) _ _ hrun hstep hne
    rw [ih] at hsmaller
    exact Function.not_lt_argmin (fun n => measure (scheduled step schedule s n)) (n + 1) hsmaller

/-- A fair schedule comes to a state that none of its operations changes. -/
theorem Fair.comes_to_rest {ops : List Op} (hfair : Fair ops schedule)
    (hdec : ∀ ops op s₁ s₂, run step ops s = some s₁ → step op s₁ = some s₂ → s₂ ≠ s₁ → measure s₂ < measure s₁) :
    ∃ N s', (∃ ops, run step ops s = some s') ∧ Rests step ops s' ∧
      ∀ n, N ≤ n → scheduled step schedule s n = s' := by
  obtain ⟨N, hN⟩ := scheduled_constant schedule hdec
  refine ⟨N, _, run_scheduled step schedule s N, fun op hop s₂ hstep => ?_, hN⟩
  obtain ⟨m, hm, rfl⟩ := hfair op hop N
  have hnext : scheduled step schedule s (m + 1) = s₂ := by
    rw [scheduled, hN m hm, hstep, Option.getD_some]
  rw [← hnext]
  exact hN (m + 1) (Nat.le_succ_of_le hm)

end Run
