-- SUMMARY: `memmove`: both directions of its byte loop, and what it does to ranges that overlap.
import TalOS.Lib.MachineInt
import TalOS.Lib.Memory

/-!
# `libk/memmove.c`

The bytes are copied from the first one on if the destination lies below the
source, else from the last one on. Either way a byte is read before the copy
overwrites it.
-/

open MachineInt Memory

namespace TalOS

/-- The loop from the first byte on, with `left` bytes to go. -/
def memmoveUp (dst src : Nat) : Nat → Nat → (Nat → UInt8) → (Nat → UInt8)
  | 0, _, mem => mem
  | left + 1, i, mem =>
    memmoveUp dst src left (i + 1) (writeAt mem (u32 (dst + i)) [mem (u32 (src + i))])

/-- The loop from the last byte on. -/
def memmoveDown (dst src : Nat) : Nat → (Nat → UInt8) → (Nat → UInt8)
  | 0, mem => mem
  | i + 1, mem => memmoveDown dst src i (writeAt mem (u32 (dst + i)) [mem (u32 (src + i))])

/-- `memmove`: the pointer it returns and the memory. -/
def memmove (dstptr srcptr size : Nat) (mem : Nat → UInt8) : Nat × (Nat → UInt8) :=
  if dstptr < srcptr then (dstptr, memmoveUp dstptr srcptr size 0 mem)
  else (dstptr, memmoveDown dstptr srcptr size mem)

variable {mem₀ mem : Nat → UInt8} {dst src size : Nat}

theorem memmoveUp_moved {left i : Nat} (hle : dst ≤ src) (hdst : dst + (i + left) ≤ 2 ^ 32)
    (hsrc : src + (i + left) ≤ 2 ^ 32) (h : Moved mem₀ mem dst src 0 i) :
    Moved mem₀ (memmoveUp dst src left i mem) dst src 0 (i + left) := by
  induction left generalizing i mem with
  | zero => exact h
  | succ left ih =>
    have hnext : i + (left + 1) = i + 1 + left := by omega
    rw [hnext] at hdst hsrc ⊢
    rw [memmoveUp, u32_of_lt (by omega), u32_of_lt (by omega)]
    exact ih hdst hsrc (h.up hle (Nat.zero_le i))

theorem memmoveDown_moved {i : Nat} (hle : src ≤ dst) (hdst : dst + size ≤ 2 ^ 32)
    (hsrc : src + size ≤ 2 ^ 32) (hi : i ≤ size) (h : Moved mem₀ mem dst src i size) :
    Moved mem₀ (memmoveDown dst src i mem) dst src 0 size := by
  induction i generalizing mem with
  | zero => exact h
  | succ i ih =>
    rw [memmoveDown, u32_of_lt (by omega), u32_of_lt (by omega)]
    exact ih (Nat.le_of_succ_le hi) (h.down hle hi)

theorem memmove_moved (mem : Nat → UInt8) (hdst : dst + size ≤ 2 ^ 32) (hsrc : src + size ≤ 2 ^ 32) :
    Moved mem (memmove dst src size mem).2 dst src 0 size := by
  rw [memmove]
  split
  · next hlt =>
    have hup : Moved mem (memmoveUp dst src size 0 mem) dst src 0 (0 + size) :=
      memmoveUp_moved hlt.le (by rwa [Nat.zero_add]) (by rwa [Nat.zero_add]) (Moved.none mem dst src 0)
    rwa [Nat.zero_add] at hup
  · next hge =>
    exact memmoveDown_moved (Nat.le_of_not_lt hge) hdst hsrc (Nat.le_refl size) (Moved.none mem dst src size)

/-- For all ranges that do not wrap, however they overlap: the destination gets the bytes that the source had,
no other byte changes, and the destination is returned. -/
theorem memmove_copies (mem : Nat → UInt8) (dst src size : Nat) (hdst : dst + size ≤ 2 ^ 32)
    (hsrc : src + size ≤ 2 ^ 32) :
    (memmove dst src size mem).1 = dst ∧
      readAt (memmove dst src size mem).2 dst size = readAt mem src size ∧
      ∀ a, ¬ (dst ≤ a ∧ a < dst + size) → (memmove dst src size mem).2 a = mem a := by
  have hmoved := memmove_moved mem hdst hsrc
  refine ⟨?_, List.map_congr_left fun i hi => ?_, hmoved.frame⟩
  · rw [memmove]
    split <;> rfl
  · exact hmoved.moved i (Nat.zero_le i) (List.mem_range.mp hi)

/-- Four bytes two places up, over two of their own. -/
theorem memmove_copies_overlap :
    readAt (memmove 102 100 4 fun a => a.toUInt8).2 102 4 = [100, 101, 102, 103] :=
  (memmove_copies (fun a => a.toUInt8) 102 100 4 (by decide) (by decide)).2.1

end TalOS
