-- SUMMARY: Fixed-width unsigned arithmetic on natural numbers, as C's unsigned types compute it.
import Mathlib.Algebra.Order.Ring.Int
import Mathlib.Algebra.Order.Ring.Nat
import Mathlib.Tactic.Common

/-!
# Machine integers

Values of C's unsigned types are natural numbers below a power of two; an
operation that can leave that range is followed by a truncation. The signed
reading of a value is two's complement.
-/

namespace MachineInt

def u8 (n : Nat) : Nat := n % 2 ^ 8
def u16 (n : Nat) : Nat := n % 2 ^ 16
def u32 (n : Nat) : Nat := n % 2 ^ 32
def u64 (n : Nat) : Nat := n % 2 ^ 64

/-- Difference of two 32-bit values, wrapping below zero. -/
def sub32 (a b : Nat) : Nat := (a + (2 ^ 32 - b % 2 ^ 32)) % 2 ^ 32

/-- Difference of two 16-bit values, wrapping below zero. -/
def sub16 (a b : Nat) : Nat := (a + (2 ^ 16 - b % 2 ^ 16)) % 2 ^ 16

/-- The signed value of a 32-bit word. -/
def int32 (n : Nat) : Int := if n < 2 ^ 31 then n else n - 2 ^ 32

/-- The signed value of a 64-bit word. -/
def int64 (n : Nat) : Int := if n < 2 ^ 63 then n else n - 2 ^ 64

theorem u8_of_lt {n : Nat} (h : n < 2 ^ 8) : u8 n = n := Nat.mod_eq_of_lt h
theorem u16_of_lt {n : Nat} (h : n < 2 ^ 16) : u16 n = n := Nat.mod_eq_of_lt h
theorem u32_of_lt {n : Nat} (h : n < 2 ^ 32) : u32 n = n := Nat.mod_eq_of_lt h
theorem u64_of_lt {n : Nat} (h : n < 2 ^ 64) : u64 n = n := Nat.mod_eq_of_lt h

theorem u32_lt (n : Nat) : u32 n < 2 ^ 32 := Nat.mod_lt _ (by decide)

theorem sub32_of_le {a b : Nat} (hb : b ≤ a) (ha : a < 2 ^ 32) : sub32 a b = a - b := by
  unfold sub32
  omega

theorem sub16_of_le {a b : Nat} (hb : b ≤ a) (ha : a < 2 ^ 16) : sub16 a b = a - b := by
  unfold sub16
  omega

theorem int32_of_lt {n : Nat} (h : n < 2 ^ 31) : int32 n = n := if_pos h

theorem int32_range {n : Nat} (h : n < 2 ^ 32) : -2 ^ 31 ≤ int32 n ∧ int32 n < 2 ^ 31 := by
  unfold int32
  omega

/-- The lower half of a 64-bit word has its signed value exactly when 32 bits can hold that. -/
theorem int32_u32_eq_int64 {n : Nat} (h : n < 2 ^ 64) :
    int32 (u32 n) = int64 n ↔ -2 ^ 31 ≤ int64 n ∧ int64 n < 2 ^ 31 := by
  unfold int32 int64 u32
  omega

end MachineInt
