-- SUMMARY: `atoi`, and the numbers that it reads back from the text `litoa` writes; how far `atou` reads `dec_pow`.
import Mathlib.Data.List.TakeWhile
import TalOS.Libk.Numbers

/-!
# Reading a number back

`atoi` weighs the characters of its text by their places, the last one first. A minus
sign is weighed like a digit; and the sum is multiplied by -1 if there is such a sign,
by 0 if there is none.

`atou` weighs digits only. Its loop counts up to eleven of them; `dec_pow` has ten
entries.
-/

open MachineInt Numeral

namespace TalOS

/-- The arithmetic of `int`. -/
def wrapInt (v : Int) : Int := Int.bmod v (2 ^ 32)

theorem wrapInt_eq_iff {v n : Int} (hlow : -2 ^ 31 ≤ n) (hhigh : n < 2 ^ 31) :
    wrapInt v = n ↔ (v - n) % 2 ^ 32 = 0 := by
  rw [wrapInt, Int.bmod_def]
  split <;> omega

def ASCII_TO_DEC (c : UInt8) : Int := c.toNat - ASCII_0.toNat

/-- `atoi`. Up to eleven characters are weighed, one more than `dec_pow` has entries. -/
def atoi (beyond : Nat) (input : List UInt8) : Int :=
  let minus := input.head? = some ASCII_MINUS
  let mulFactor := if minus then -1 else 0
  let first := if minus then 1 else 0
  let digits := first + countDigits (11 - first) (input.drop first)
  let toRet := (List.range digits).foldl
    (fun toRet i => wrapInt (toRet + ASCII_TO_DEC (input.getD (digits - i - 1) 0) * decPow beyond i)) 0
  wrapInt (toRet * mulFactor)

/-! ## Weighing a text -/

/-- The sum of the characters, each times the entry of `dec_pow` for its place. -/
def weighted (beyond : Nat) : List UInt8 → Int
  | [] => 0
  | c :: text => ASCII_TO_DEC c * decPow beyond text.length + weighted beyond text

/-- The loop computes it, from the last character on. -/
theorem weighted_fold (beyond : Nat) (text : List UInt8) :
    (List.range text.length).foldl
        (fun toRet i => wrapInt (toRet + ASCII_TO_DEC (text.getD (text.length - i - 1) 0) * decPow beyond i)) 0 =
      wrapInt (weighted beyond text) := by
  induction text with
  | nil => rfl
  | cons c text ih =>
    -- All places but the last are those of the text without its first character.
    have hshift (i : Nat) (hi : i ∈ List.range text.length) :
        (c :: text).getD ((c :: text).length - i - 1) 0 = text.getD (text.length - i - 1) 0 := by
      have hplace : (c :: text).length - i - 1 = text.length - i - 1 + 1 := by
        have hlt := List.mem_range.mp hi
        rw [List.length_cons]
        omega
      rw [hplace, List.getD_cons_succ]
    have hlast : (c :: text).length - text.length - 1 = 0 := by
      rw [List.length_cons]
      omega
    have hfold := List.foldl_ext
      (fun toRet i => wrapInt (toRet +
        ASCII_TO_DEC ((c :: text).getD ((c :: text).length - i - 1) 0) * decPow beyond i))
      (fun toRet i => wrapInt (toRet + ASCII_TO_DEC (text.getD (text.length - i - 1) 0) * decPow beyond i))
      0 fun toRet i hi => by rw [hshift i hi]
    rw [List.length_cons, List.range_succ, List.foldl_append, ← List.length_cons, hfold, ih, List.foldl_cons,
      List.foldl_nil, hlast, List.getD_cons_zero, weighted, wrapInt, wrapInt, Int.bmod_add_bmod, Int.add_comm]
    rfl

theorem ASCII_TO_DEC_of_digit {c : UInt8} (h : isDigit c = true) : ASCII_TO_DEC c = digitValue c := by
  have hle : ASCII_0.toNat ≤ c.toNat := by
    simp only [isDigit, Bool.and_eq_true, decide_eq_true_eq] at h
    exact h.1
  rw [ASCII_TO_DEC, digitValue, Int.ofNat_sub hle]

/-- Ten digits at most weigh what they stand for. -/
theorem weighted_digits (beyond : Nat) {digits : List UInt8} (h : ∀ c ∈ digits, isDigit c = true)
    (h10 : digits.length ≤ 10) : weighted beyond digits = valueOf digitValue 10 digits := by
  induction digits with
  | nil => rfl
  | cons c digits ih =>
    obtain ⟨hc, hdigits⟩ := List.forall_mem_cons.mp h
    rw [weighted, ih hdigits (Nat.le_of_succ_le h10), ASCII_TO_DEC_of_digit hc, decPow_eq beyond _ h10, valueOf_cons]
    push_cast
    rfl

/-! ## `atoi` -/

/-- Without a minus sign the result is 0. -/
theorem atoi_of_head_ne (beyond : Nat) {input : List UInt8} (h : input.head? ≠ some ASCII_MINUS) :
    atoi beyond input = 0 := by
  simp [atoi, h, wrapInt]

/-- Behind a minus sign, which is taken for a digit of value -3. -/
theorem atoi_minus (beyond : Nat) {m : Nat} (h : m < 2 ^ 32) :
    atoi beyond (ASCII_MINUS :: decimal m) = wrapInt (3 * decPow beyond (decimal m).length - m) := by
  have hdigits : ∀ c ∈ decimal m, isDigit c = true := fun c hc => isDigit_of_mem_decimal hc
  have h10 := length_decimal_le h
  have hcount : 1 + countDigits (11 - 1) (decimal m) = (ASCII_MINUS :: decimal m).length := by
    have hall := countDigits_append hdigits (by simp : ∀ c, ([] : List UInt8).head? = some c → isDigit c = false) h10
    rw [List.append_nil] at hall
    rw [hall, List.length_cons, Nat.add_comm]
  have hvalue : weighted beyond (decimal m) = m := by
    rw [weighted_digits beyond hdigits h10, decimal, valueOf_numeral (by decide) digitValue_digitChar]
  have hminus : ASCII_TO_DEC ASCII_MINUS = -3 := by decide
  simp only [atoi, List.head?_cons, if_true, List.drop_succ_cons, List.drop_zero, hcount, weighted_fold]
  rw [weighted, hvalue, hminus, wrapInt, wrapInt, wrapInt, Int.bmod_mul_bmod]
  congr 1
  ring

/-- The word behind `dec_pow` has to be 0, if a number has ten digits; with fewer of them the sign counts. -/
theorem three_decPow_iff (beyond : Nat) {m : Nat} (h : m < 2 ^ 32) :
    3 * decPow beyond (decimal m).length % 2 ^ 32 = 0 ↔ 10 ^ 9 ≤ m ∧ u32 beyond = 0 := by
  rcases Nat.lt_or_ge m (10 ^ 9) with hlt | hge
  · have hlength : (decimal m).length ≤ 9 := length_numeral_le (by decide) (by decide) hlt
    have hpos : 0 < 10 ^ (decimal m).length := Nat.pow_pos (by decide)
    have hle : 10 ^ (decimal m).length ≤ 10 ^ 9 := Nat.pow_le_pow_right (by decide) hlength
    have hsmall : 3 * 10 ^ (decimal m).length < 2 ^ 32 := Nat.lt_of_le_of_lt (Nat.mul_le_mul_left 3 hle) (by decide)
    rw [decPow_eq beyond _ (Nat.lt_succ_of_le hlength), Nat.mod_eq_of_lt hsmall]
    exact iff_of_false (Nat.ne_of_gt (Nat.mul_pos (by decide) hpos)) fun h => absurd h.1 (Nat.not_le.mpr hlt)
  · have hlength : (decimal m).length = 10 :=
      Nat.le_antisymm (length_decimal_le h) (lt_length_numeral (by decide) hge)
    have hbeyond : decPow beyond 10 = beyond := rfl
    have hcop : Nat.Coprime (2 ^ 32) 3 := by decide
    rw [hlength, hbeyond, u32, ← Nat.dvd_iff_mod_eq_zero, ← Nat.dvd_iff_mod_eq_zero, hcop.dvd_mul_left]
    exact (and_iff_right hge).symm

/-- For every `int`: it is read back exactly if it is 0, or is negative with ten digits and the word behind
`dec_pow` is 0. -/
theorem atoi_litoa_iff (beyond : Nat) (n : Int) (hlow : -2 ^ 31 ≤ n) (hhigh : n < 2 ^ 31) :
    atoi beyond (litoa n 10) = n ↔ n = 0 ∨ n ≤ -10 ^ 9 ∧ u32 beyond = 0 := by
  rw [litoa_eq (by decide) (by decide) hlow hhigh]
  rcases lt_or_ge n 0 with hneg | hpos
  · have htext : integerText 10 n = ASCII_MINUS :: decimal n.natAbs := by
      rw [integerText, signChars, if_pos hneg]
      rfl
    have habs : n.natAbs < 2 ^ 32 := by omega
    have hsign := three_decPow_iff beyond habs
    rw [htext, atoi_minus beyond habs, wrapInt_eq_iff hlow hhigh]
    have hsum : 3 * (decPow beyond (decimal n.natAbs).length : Int) - n.natAbs - n =
        (3 * decPow beyond (decimal n.natAbs).length : Nat) := by
      omega
    have hrange : 10 ^ 9 ≤ n.natAbs ↔ n ≤ -10 ^ 9 := by omega
    rw [hsum, ← hrange, or_iff_right hneg.ne, ← hsign]
    norm_cast
  · have hhead : (integerText 10 n).head? ≠ some ASCII_MINUS := by
      rw [ne_eq, head?_integerText (by decide) (by decide)]
      exact Int.not_lt.mpr hpos
    rw [atoi_of_head_ne beyond hhead]
    omega

/-- The sign of a number with ten digits weighs nothing, if the word behind the table is 0. -/
theorem atoi_litoa_iff_minusBillion : atoi 0 (litoa (-1000000000) 10) = -1000000000 :=
  (atoi_litoa_iff 0 (-1000000000) (by decide) (by decide)).mpr (.inr ⟨by decide, rfl⟩)

/-- 7 is read as 0, and -7 as 23. -/
theorem not_atoi_litoa : atoi 0 (litoa 7 10) = 0 ∧ atoi 0 (litoa (-7) 10) = 23 := by
  decide

/-! ## `atou` -/

/-- The entries of `dec_pow`. -/
def DEC_POW : List Nat :=
  [1, 10, 100, 1000, 10000, 100000, 1000000, 10000000, 100000000, 1000000000]

/-- `atou`, with no result where it reads behind the end of `dec_pow`. -/
def atouChecked (input : List UInt8) : Option Nat :=
  let digits := countDigits 11 input
  (List.range digits).foldlM (fun toRet i => do
    let weight ← DEC_POW[i]?
    some (u32 (toRet + ((input.getD (digits - i - 1) 0).toNat - ASCII_0.toNat) * weight))) 0

theorem decPow_of_getElem? {i w : Nat} (h : DEC_POW[i]? = some w) (beyond : Nat) : decPow beyond i = w := by
  have hentry : decPow beyond i = (DEC_POW[i]?).getD beyond := rfl
  rw [hentry, h, Option.getD_some]

/-- The first entries of the table are all there: over them, nothing depends on what lies behind it. -/
theorem foldlM_decPow (beyond : Nat) (digit : Nat → Nat) {k : Nat} (h10 : k ≤ 10) :
    (List.range k).foldlM (fun toRet i => do
        let weight ← DEC_POW[i]?
        some (u32 (toRet + digit i * weight))) 0 =
      some ((List.range k).foldl (fun toRet i => u32 (toRet + digit i * decPow beyond i)) 0) := by
  induction k with
  | zero => rfl
  | succ k ih =>
    have hentry : DEC_POW[k]? = some DEC_POW[k] := List.getElem?_eq_getElem (h := h10)
    rw [List.range_succ, List.foldlM_append, ih (Nat.le_of_succ_le h10), List.foldl_append]
    simp only [List.foldlM_cons, List.foldlM_nil, List.foldl_cons, List.foldl_nil, hentry,
      decPow_of_getElem? hentry beyond]
    rfl

theorem countDigits_eq_min (limit : Nat) (input : List UInt8) :
    countDigits limit input = min limit (input.takeWhile isDigit).length := by
  induction input generalizing limit with
  | nil => cases limit <;> rfl
  | cons c input ih =>
    cases limit with
    | zero => exact (Nat.zero_min _).symm
    | succ limit =>
      rw [countDigits, List.takeWhile_cons, ih]
      split
      · rw [List.length_cons, Nat.add_min_add_right]
      · rfl

/-- A leading run of ten digits at most. -/
theorem atouChecked_of_le {input : List UInt8} (h10 : (input.takeWhile isDigit).length ≤ 10) :
    atouChecked input = some (u32 (valueOf digitValue 10 (input.takeWhile isDigit))) := by
  have hdigits : ∀ c ∈ input.takeWhile isDigit, isDigit c = true := fun c hc => List.mem_takeWhile_imp hc
  have hrest : ∀ c, (input.dropWhile isDigit).head? = some c → isDigit c = false := fun c hc => by
    have hhead := List.head?_dropWhile_not isDigit input
    rw [hc] at hhead
    simpa using hhead
  have hvalue := atou_append 0 hdigits hrest h10
  rw [List.takeWhile_append_dropWhile] at hvalue
  have hcount : countDigits 11 input ≤ 10 := by
    rw [countDigits_eq_min]
    exact Nat.le_trans (Nat.min_le_right _ _) h10
  rw [← hvalue, atouChecked, atou]
  exact foldlM_decPow 0 _ hcount

/-- The eleventh digit of a longer one is weighed with the word behind the table. -/
theorem atouChecked_of_gt {input : List UInt8} (h10 : 10 < (input.takeWhile isDigit).length) :
    atouChecked input = none := by
  have hcount : countDigits 11 input = 10 + 1 := by
    rw [countDigits_eq_min, Nat.min_eq_left h10]
  have hend : DEC_POW[10]? = none := rfl
  rw [atouChecked, hcount, List.range_succ, List.foldlM_append, foldlM_decPow 0 _ (Nat.le_refl 10)]
  simp only [List.foldlM_cons, hend]
  rfl

/-- For every string: `atou` reads nothing but `dec_pow` and returns the value of the leading digits modulo 2^32
iff there are at most ten of them. -/
theorem atouChecked_eq_value_iff (input : List UInt8) :
    atouChecked input = some (u32 (valueOf digitValue 10 (input.takeWhile isDigit))) ↔
      (input.takeWhile isDigit).length ≤ 10 := by
  constructor
  · intro hvalue
    by_contra h10
    rw [atouChecked_of_gt (Nat.lt_of_not_le h10)] at hvalue
    cases hvalue
  · exact atouChecked_of_le

/-- `12345678901`, as in the format `%12345678901d`. -/
theorem not_atouChecked_eq_value :
    ¬ ∀ input : List UInt8,
      atouChecked input = some (u32 (valueOf digitValue 10 (input.takeWhile isDigit))) := by
  intro hall
  have hvalue := hall [0x31, 0x32, 0x33, 0x34, 0x35, 0x36, 0x37, 0x38, 0x39, 0x30, 0x31]
  rw [atouChecked_of_gt (by decide)] at hvalue
  cases hvalue

/-- A result does not depend on what lies behind the table. -/
theorem atou_of_atouChecked {input : List UInt8} {v : Nat} (h : atouChecked input = some v) (beyond : Nat) :
    atou beyond input = v := by
  have h10 : countDigits 11 input ≤ 10 := by
    by_contra hlong
    rw [countDigits_eq_min] at hlong
    rw [atouChecked_of_gt (by omega)] at h
    cases h
  rw [atouChecked] at h
  exact Option.some.inj ((foldlM_decPow beyond _ h10).symm.trans h)

end TalOS
