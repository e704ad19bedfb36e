-- SUMMARY: A downward-growing stack of 32-bit words in byte memory: what pushing, popping and calls do to its words.
import Mathlib.Algebra.Order.Ring.Nat
import Mathlib.Tactic.Common

/-!
# Stacks of words in byte memory

Memory is a function from 32-bit addresses to bytes, words are little-endian,
and addresses wrap. `Holds m a ws` says that the words `ws` stand in memory from
address `a` on, the top of the stack first.
-/

namespace CallStack

abbrev Word := BitVec 32
abbrev ByteMem := Word → BitVec 8

/-- Store a word. -/
def store32 (m : ByteMem) (a v : Word) : ByteMem := fun x =>
  if (x - a).toNat < 4 then v.extractLsb' (8 * (x - a).toNat) 8 else m x

/-- Load a word. -/
def load32 (m : ByteMem) (a : Word) : Word := m (a + 3) ++ m (a + 2) ++ m (a + 1) ++ m a

theorem store32_of_ge (m : ByteMem) {a x : Word} (v : Word) (h : 4 ≤ (x - a).toNat) :
    store32 m a v x = m x := if_neg (Nat.not_lt.mpr h)

theorem store32_byte (m : ByteMem) (a v : Word) {k : Nat} (h : k < 4) :
    store32 m a v (a + BitVec.ofNat 32 k) = v.extractLsb' (8 * k) 8 := by
  have hk : (a + BitVec.ofNat 32 k - a).toNat = k := by
    rw [BitVec.add_comm, BitVec.add_sub_cancel, BitVec.toNat_ofNat]
    exact Nat.mod_eq_of_lt (Nat.lt_trans h (by decide))
  rw [store32, hk, if_pos h]

theorem add_ofNat_zero (a : Word) : a + BitVec.ofNat 32 0 = a := BitVec.add_zero a

theorem load32_store32 (m : ByteMem) (a v : Word) : load32 (store32 m a v) a = v := by
  have h₀ : store32 m a v a = v.extractLsb' 0 8 := by
    have h := store32_byte m a v (show 0 < 4 by decide)
    rwa [add_ofNat_zero] at h
  have h₁ : store32 m a v (a + 1) = v.extractLsb' 8 8 := store32_byte m a v (by decide)
  have h₂ : store32 m a v (a + 2) = v.extractLsb' 16 8 := store32_byte m a v (by decide)
  have h₃ : store32 m a v (a + 3) = v.extractLsb' 24 8 := store32_byte m a v (by decide)
  rw [load32, h₀, h₁, h₂, h₃, BitVec.extractLsb'_append_extractLsb'_eq_extractLsb' (by rfl),
    BitVec.extractLsb'_append_extractLsb'_eq_extractLsb' (by rfl),
    BitVec.extractLsb'_append_extractLsb'_eq_extractLsb' (by rfl)]
  exact BitVec.extractLsb'_eq_self

/-- A word depends on its four bytes only. -/
theorem load32_congr {m m' : ByteMem} {a : Word}
    (h : ∀ d < 4, m' (a + BitVec.ofNat 32 d) = m (a + BitVec.ofNat 32 d)) :
    load32 m' a = load32 m a := by
  have h₀ : m' a = m a := by
    have h := h 0 (by decide)
    rwa [add_ofNat_zero] at h
  have h₁ : m' (a + 1) = m (a + 1) := h 1 (by decide)
  have h₂ : m' (a + 2) = m (a + 2) := h 2 (by decide)
  have h₃ : m' (a + 3) = m (a + 3) := h 3 (by decide)
  rw [load32, load32, h₀, h₁, h₂, h₃]

/-! ## The words of a stack -/

/-- The words `ws` stand from address `a` on. -/
def Holds (m : ByteMem) : Word → List Word → Prop
  | _, [] => True
  | a, w :: ws => load32 m a = w ∧ Holds m (a + 4) ws

theorem add_four (a : Word) (d : Nat) : a + 4 + BitVec.ofNat 32 d = a + BitVec.ofNat 32 (4 + d) := by
  rw [BitVec.ofNat_add, BitVec.add_assoc]
  rfl

/-- The words stay if their bytes do. -/
theorem Holds.congr {m m' : ByteMem} {a : Word} {ws : List Word} (h : Holds m a ws)
    (hsame : ∀ d < 4 * ws.length, m' (a + BitVec.ofNat 32 d) = m (a + BitVec.ofNat 32 d)) :
    Holds m' a ws := by
  induction ws generalizing a with
  | nil => trivial
  | cons w ws ih =>
    rw [List.length_cons] at hsame
    constructor
    · rw [load32_congr fun d hd => hsame d (by omega)]
      exact h.1
    · refine ih h.2 fun d hd => ?_
      rw [add_four]
      exact hsame (4 + d) (by omega)

theorem Holds.append {m : ByteMem} {a : Word} {ws ws' : List Word} :
    Holds m a (ws ++ ws') ↔ Holds m a ws ∧ Holds m (a + BitVec.ofNat 32 (4 * ws.length)) ws' := by
  induction ws generalizing a with
  | nil => simp [Holds]
  | cons w ws ih =>
    rw [List.cons_append, Holds, ih, Holds, and_assoc, add_four, List.length_cons,
      Nat.mul_add, Nat.add_comm 4]

/-- Pushing a word on a stack that does not fill the address space. -/
theorem Holds.push {m : ByteMem} {a : Word} {ws : List Word} (h : Holds m a ws)
    (hroom : 4 * ws.length + 4 ≤ 2 ^ 32) (v : Word) : Holds (store32 m (a - 4) v) (a - 4) (v :: ws) := by
  refine ⟨load32_store32 m _ v, ?_⟩
  rw [BitVec.sub_add_cancel]
  refine h.congr fun d hd => store32_of_ge m v ?_
  have hoff : a + BitVec.ofNat 32 d - (a - 4) = BitVec.ofNat 32 (d + 4) := by
    rw [BitVec.ofNat_add]
    bv_omega
  rw [hoff, BitVec.toNat_ofNat, Nat.mod_eq_of_lt (by omega)]
  exact Nat.le_add_left 4 d

/-- A callee that leaves the bytes above its arguments alone leaves the words above them. -/
theorem Holds.call {m m' : ByteMem} {a : Word} {args ws : List Word} (h : Holds m a (args ++ ws))
    (hkeep : ∀ d, 4 * args.length ≤ d → d < 4 * (args.length + ws.length) →
      m' (a + BitVec.ofNat 32 d) = m (a + BitVec.ofNat 32 d)) :
    Holds m' (a + BitVec.ofNat 32 (4 * args.length)) ws := by
  refine (Holds.append.mp h).2.congr fun d hd => ?_
  rw [BitVec.add_assoc, ← BitVec.ofNat_add]
  exact hkeep _ (Nat.le_add_right _ _) (by omega)

end CallStack
