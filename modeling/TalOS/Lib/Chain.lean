-- SUMMARY: Loops that follow a step function until a test succeeds: in a finite space they end iff they never come back.
import Mathlib.Data.Set.Finite.Basic
import Mathlib.Order.Interval.Finset.Nat
import Mathlib.Tactic.Common

/-!
# Chains

A loop takes `x` to `f x` as long as the position `go`es on. The `k`-th position
is visited when the loop goes on at every earlier one and at it.
-/

namespace Chain

variable {α : Type} (f : α → α) (go : α → Prop) (x : α)

/-- The loop has a turn at the `k`-th position. -/
def Visited (k : Nat) : Prop := ∀ i ≤ k, go (f^[i] x)

variable {f go x}

/-- A loop that ends never comes back to a position it has visited. -/
theorem ne_of_ends {n : Nat} (hend : ¬ go (f^[n] x)) {j k : Nat} (hjk : j < k)
    (hvisited : Visited f go x k) : f^[j] x ≠ f^[k] x := by
  intro heq
  -- from the `j`-th position on, the positions repeat with period `k - j`, all of them visited
  have hperiod : ∀ m, go (f^[m] x) := by
    intro m
    induction m using Nat.strong_induction_on with
    | _ m ih =>
      rcases Nat.lt_or_ge k m with hlt | hle
      · obtain ⟨d, rfl⟩ := Nat.exists_eq_add_of_le (Nat.le_of_lt hlt)
        rw [Nat.add_comm, Function.iterate_add_apply, ← heq, ← Function.iterate_add_apply]
        exact ih (d + j) (by omega)
      · exact hvisited m hle
  exact hend (hperiod n)

/-- In a bounded space, a loop that never comes back ends. -/
theorem ends_of_ne {N : Nat} {f : Nat → Nat} {go : Nat → Prop} {x : Nat} (hlt : ∀ n, f^[n] x < N)
    (hne : ∀ j k, j < k → Visited f go x k → f^[j] x ≠ f^[k] x) : ∃ n, ¬ go (f^[n] x) := by
  by_contra hall
  push Not at hall
  have hinj : Function.Injective fun n => f^[n] x := by
    intro j k heq
    rcases Nat.lt_trichotomy j k with hjk | rfl | hkj
    · exact absurd heq (hne j k hjk fun i _ => hall i)
    · rfl
    · exact absurd heq.symm (hne k j hkj fun i _ => hall i)
  have hsub : Set.range (fun n => f^[n] x) ⊆ Set.Iio N := by
    rintro _ ⟨n, rfl⟩
    exact hlt n
  exact Set.infinite_range_of_injective hinj ((Set.finite_Iio N).subset hsub)

end Chain
