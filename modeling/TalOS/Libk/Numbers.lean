-- SUMMARY: What the conversions of `itoa.c` and `atoi.c` compute: numerals, and the numbers they stand for.
import Mathlib.Data.List.GetD
import Mathlib.Tactic.IntervalCases
import TalOS.Lib.Numeral
import TalOS.Libk.Stdlib

/-!
# Numbers and their texts

`ulitoa` and `ullitoa` write the numeral of their argument, `litoa` puts a minus
sign in front of the magnitude of a negative one, and `atou` reads a decimal
numeral back.
-/

open MachineInt Numeral

namespace TalOS

/-! ## Digits -/

/-- The character of a digit; from ten on the digits are upper-case letters. -/
def digitChar (d : Nat) : UInt8 := if d ≤ 9 then d.toUInt8 + ASCII_0 else d.toUInt8 - 10 + ASCII_A

/-- The number a decimal digit stands for. -/
def digitValue (c : UInt8) : Nat := c.toNat - ASCII_0.toNat

theorem isDigit_digitChar : ∀ d < 10, isDigit (digitChar d) = true := by decide

theorem digitValue_digitChar : ∀ d < 10, digitValue (digitChar d) = d := by decide

/-- The decimal numeral of a number. -/
def decimal (n : Nat) : List UInt8 := numeral digitChar 10 n

theorem isDigit_of_mem_decimal {n : Nat} {c : UInt8} (h : c ∈ decimal n) : isDigit c = true := by
  obtain ⟨d, hd, rfl⟩ := mem_numeral (by decide) h
  exact isDigit_digitChar d hd

/-- The sign of a number. -/
def signChars (v : Int) : List UInt8 := if v < 0 then [ASCII_MINUS] else []

/-- The digits of a number. -/
def magnitudeText (base : Nat) (v : Int) : List UInt8 := numeral digitChar base v.natAbs

/-- Sign and magnitude. -/
def integerText (base : Nat) (v : Int) : List UInt8 := signChars v ++ magnitudeText base v

theorem digitChar_ne_minus : ∀ d < 16, digitChar d ≠ ASCII_MINUS := by decide

/-- The digits in front tell a numeral from a sign. -/
theorem head?_numeral_ne_minus {base n : Nat} (hbase : 1 < base) (h16 : base ≤ 16) :
    (numeral digitChar base n).head? ≠ some ASCII_MINUS := by
  intro hhead
  obtain ⟨d, hd, heq⟩ := mem_numeral hbase (List.mem_of_mem_head? hhead)
  exact digitChar_ne_minus d (Nat.lt_of_lt_of_le hd h16) heq.symm

/-- The number a digit stands for, letters included. -/
def hexDigitValue (c : UInt8) : Nat :=
  if isDigit c then digitValue c else c.toNat - ASCII_A.toNat + 10

theorem hexDigitValue_digitChar : ∀ d < 16, hexDigitValue (digitChar d) = d := by decide

/-- The sign is seen on the first character. -/
theorem head?_integerText {base : Nat} (hbase : 1 < base) (h16 : base ≤ 16) (v : Int) :
    (integerText base v).head? = some ASCII_MINUS ↔ v < 0 := by
  unfold integerText signChars
  split
  · next hneg => exact iff_of_true rfl hneg
  · next hneg => exact iff_of_false (head?_numeral_ne_minus hbase h16) hneg

/-- A text stands for one number. -/
theorem integerText_injective {base : Nat} (hbase : 1 < base) (h16 : base ≤ 16) {v v' : Int}
    (h : integerText base v = integerText base v') : v = v' := by
  have hsign : v < 0 ↔ v' < 0 := by
    rw [← head?_integerText hbase h16, h, head?_integerText hbase h16]
  have hdigits : ∀ d < base, hexDigitValue (digitChar d) = d :=
    fun d hd => hexDigitValue_digitChar d (Nat.lt_of_lt_of_le hd h16)
  unfold integerText signChars at h
  by_cases hneg : v < 0
  · rw [if_pos hneg, if_pos (hsign.mp hneg)] at h
    have habs := numeral_injective hbase hdigits (List.append_cancel_left h)
    omega
  · rw [if_neg hneg, if_neg (mt hsign.mpr hneg)] at h
    have habs := numeral_injective hbase hdigits (List.append_cancel_left h)
    omega

/-! ## `reverse_buffer` -/

theorem length_swapEnds (len : Nat) (buf : List UInt8) (i : Nat) :
    (swapEnds len buf i).length = buf.length := by
  rw [swapEnds, List.length_set, List.length_set]

/-- After `k` exchanges the outer cells are reversed, the inner ones untouched. -/
theorem foldl_swapEnds (buf : List UInt8) {k : Nat} (hk : k ≤ buf.length / 2) :
    ((List.range k).foldl (swapEnds buf.length) buf).length = buf.length ∧
      ∀ j < buf.length, ((List.range k).foldl (swapEnds buf.length) buf).getD j 0 =
        if j < k ∨ buf.length - k ≤ j then buf.getD (buf.length - j - 1) 0 else buf.getD j 0 := by
  induction k with
  | zero =>
    refine ⟨rfl, fun j hj => ?_⟩
    rw [if_neg (by omega)]
    rfl
  | succ k ih =>
    obtain ⟨hlength, hcells⟩ := ih (by omega)
    rw [List.range_succ, List.foldl_append]
    generalize (List.range k).foldl (swapEnds buf.length) buf = cells at hlength hcells
    refine ⟨by rw [List.foldl_cons, List.foldl_nil, length_swapEnds, hlength], fun j hj => ?_⟩
    have hfirst := hcells k (by omega)
    have hlast := hcells (buf.length - k - 1) (by omega)
    have hj' := hcells j hj
    rw [List.foldl_cons, List.foldl_nil, swapEnds]
    simp only [List.getD_eq_getElem?_getD, List.getElem?_set, List.length_set, hlength] at *
    by_cases hright : buf.length - k - 1 = j
    · subst hright
      rw [if_pos rfl, if_pos (by omega), Option.getD_some, hfirst, if_neg (by omega),
        if_pos (by omega)]
      congr 2
      omega
    · rw [if_neg hright]
      by_cases hleft : k = j
      · subst hleft
        rw [if_pos rfl, if_pos (by omega), Option.getD_some, hlast, if_neg (by omega),
          if_pos (by omega)]
      · rw [if_neg hleft, hj']
        refine if_congr ?_ rfl rfl
        omega

theorem reverseBuffer_eq (buf : List UInt8) : reverseBuffer buf = buf.reverse := by
  obtain ⟨hlength, hcells⟩ := foldl_swapEnds buf (Nat.le_refl (buf.length / 2))
  rw [← reverseBuffer] at hlength hcells
  refine List.ext_getElem (by rw [hlength, List.length_reverse]) fun j hj hj' => ?_
  have hcell := hcells j (hlength ▸ hj)
  rw [List.getD_eq_getElem _ _ hj] at hcell
  rw [hcell, List.getElem_reverse]
  split
  · rw [List.getD_eq_getElem _ _ (by omega)]
    congr 1
    omega
  · -- the middle cell of an odd length
    rw [List.getD_eq_getElem _ _ (hlength ▸ hj)]
    congr 1
    omega

/-! ## `ulitoa`, `ullitoa` and `litoa` -/

section
variable {base : Nat}

/-- The loop appends the digits, the least significant one first. -/
theorem digitLoop_eq (hbase : 1 < base) (hmax : base ≤ BASE_MAX) {fuel n : Nat} (hn : n < base ^ fuel)
    (hfuel : 0 < fuel) (buffer : List UInt8) :
    digitLoop base fuel n buffer = buffer ++ (digitsOf base n).map digitChar := by
  induction fuel generalizing n buffer with
  | zero => cases hfuel
  | succ fuel ih =>
    have hrem : n % base < BASE_MAX := Nat.lt_of_lt_of_le (Nat.mod_lt n (by omega)) hmax
    have hone : digitLoop base (fuel + 1) n buffer =
        if n / base ≠ 0 then digitLoop base fuel (n / base) (buffer ++ [digitChar (n % base)])
        else buffer ++ [digitChar (n % base)] := by
      rw [digitLoop, digitChar]
      dsimp only
      rw [if_pos hrem]
      split <;> rfl
    rw [hone]
    rcases Nat.lt_or_ge n base with hlt | hge
    · rw [Nat.div_eq_of_lt hlt, if_neg (not_not_intro rfl), digitsOf_of_lt hlt, Nat.mod_eq_of_lt hlt]
      rfl
    · have hdiv : 0 < n / base := Nat.div_pos hge (by omega)
      obtain ⟨hquot, hfuel'⟩ := div_lt_pow hge hn
      rw [if_pos (Nat.ne_of_gt hdiv), ih hquot hfuel', digitsOf_of_le hbase hge, List.append_assoc]
      rfl

theorem lt_pow_of_lt (hbase : 1 < base) {n : Nat} (h : n < 2 ^ 64) : n < base ^ 64 :=
  Nat.lt_of_lt_of_le h (Nat.pow_le_pow_left hbase 64)

theorem ullitoa_eq (hbase : 1 < base) (hmax : base ≤ BASE_MAX) (input : Nat) :
    ullitoa input base = numeral digitChar base (u64 input) := by
  have hlt : u64 input < 2 ^ 64 := Nat.mod_lt _ (by decide)
  rw [ullitoa, digitLoop_eq hbase hmax (lt_pow_of_lt hbase hlt) (by decide), List.nil_append,
    reverseBuffer_eq, numeral, List.map_reverse]

theorem ulitoa_eq (hbase : 1 < base) (hmax : base ≤ BASE_MAX) (input : Nat) :
    ulitoa input base = numeral digitChar base (u32 input) := by
  have hlt : u32 input < 2 ^ 64 := Nat.lt_trans (u32_lt input) (by decide)
  rw [ulitoa, digitLoop_eq hbase hmax (lt_pow_of_lt hbase hlt) (by decide), List.nil_append,
    reverseBuffer_eq, numeral, List.map_reverse]

/-- Negating the minimum wraps to its magnitude. -/
theorem litoa_eq (hbase : 1 < base) (hmax : base ≤ BASE_MAX) {v : Int} (hlow : -2 ^ 31 ≤ v)
    (hhigh : v < 2 ^ 31) : litoa v base = integerText base v := by
  unfold litoa integerText signChars
  rw [ulitoa_eq hbase hmax, ulitoa_eq hbase hmax]
  split
  · have hmagnitude : u32 (-v % 2 ^ 32).toNat = v.natAbs := by
      unfold u32
      omega
    rw [hmagnitude]
    rfl
  · have hmagnitude : u32 (v % 2 ^ 32).toNat = v.natAbs := by
      unfold u32
      omega
    rw [hmagnitude]
    rfl

end

/-! ## `atou` -/

theorem decPow_eq (beyond : Nat) : ∀ i < 10, decPow beyond i = 10 ^ i := by
  intro i hi
  interval_cases i <;> simp [decPow]

/-- The leading digits are counted up to the limit. -/
theorem countDigits_append {digits rest : List UInt8} (hdigits : ∀ c ∈ digits, isDigit c = true)
    (hrest : ∀ c, rest.head? = some c → isDigit c = false) {limit : Nat} (hlimit : digits.length ≤ limit) :
    countDigits limit (digits ++ rest) = digits.length := by
  induction digits generalizing limit with
  | nil =>
    rw [List.nil_append]
    match limit, rest with
    | 0, _ => rfl
    | _ + 1, [] => rfl
    | limit + 1, c :: cs =>
      rw [countDigits, hrest c rfl]
      rfl
  | cons c digits ih =>
    obtain ⟨limit, rfl⟩ := Nat.exists_eq_add_of_le' (Nat.lt_of_lt_of_le (Nat.zero_lt_succ _) hlimit)
    rw [List.cons_append, countDigits, if_pos (hdigits c List.mem_cons_self),
      ih (fun c hc => hdigits c (List.mem_cons_of_mem _ hc)) (Nat.le_of_succ_le_succ hlimit)]
    rfl

/-- The loop adds the digits up from the last one on. -/
theorem atou_fold (beyond : Nat) (digits rest : List UInt8) {k : Nat} (hk : k ≤ digits.length) (h10 : k ≤ 10) :
    (List.range k).foldl
        (fun toRet i =>
          u32 (toRet + (((digits ++ rest).getD (digits.length - i - 1) 0).toNat - ASCII_0.toNat) *
            decPow beyond i)) 0 =
      u32 (valueOf digitValue 10 (digits.drop (digits.length - k))) := by
  induction k with
  | zero =>
    rw [Nat.sub_zero, List.drop_length]
    rfl
  | succ k ih =>
    have hlt : digits.length - (k + 1) < digits.length := by omega
    have hlt' : digits.length - k - 1 < digits.length := by omega
    have hdrop : digits.drop (digits.length - (k + 1)) =
        digits[digits.length - k - 1] :: digits.drop (digits.length - k) := by
      rw [List.drop_eq_getElem_cons hlt]
      congr 2
      omega
    have hlength : (digits.drop (digits.length - k)).length = k := by
      rw [List.length_drop]
      omega
    rw [List.range_succ, List.foldl_append, ih (by omega) (by omega), hdrop, valueOf_cons, hlength,
      List.foldl_cons, List.foldl_nil, List.getD_append _ _ _ _ hlt', List.getD_eq_getElem _ _ hlt',
      decPow_eq beyond k (by omega), Nat.add_comm (digitValue _ * _)]
    exact Nat.mod_add_mod ..

/-- Up to ten digits are read as the number they stand for. -/
theorem atou_append (beyond : Nat) {digits rest : List UInt8} (hdigits : ∀ c ∈ digits, isDigit c = true)
    (hrest : ∀ c, rest.head? = some c → isDigit c = false) (h10 : digits.length ≤ 10) :
    atou beyond (digits ++ rest) = u32 (valueOf digitValue 10 digits) := by
  have hcount := countDigits_append hdigits hrest (Nat.le_succ_of_le h10)
  have hfold := atou_fold beyond digits rest (Nat.le_refl _) h10
  rw [Nat.sub_self, List.drop_zero] at hfold
  rw [atou, hcount]
  exact hfold

theorem countDigits_le (limit : Nat) (digits : List UInt8) : countDigits limit digits ≤ digits.length := by
  induction digits generalizing limit with
  | nil => cases limit <;> exact Nat.le_refl 0
  | cons c digits ih =>
    cases limit with
    | zero => exact Nat.zero_le _
    | succ limit =>
      rw [countDigits]
      split
      · exact Nat.succ_le_succ (ih limit)
      · exact Nat.zero_le _

/-- Behind its digits a number is not looked at. -/
theorem countDigits_rest {digits rest : List UInt8} (hrest : ∀ c, rest.head? = some c → isDigit c = false)
    (limit : Nat) : countDigits limit (digits ++ rest) = countDigits limit digits := by
  induction digits generalizing limit with
  | nil =>
    match limit, rest with
    | 0, _ => rfl
    | _ + 1, [] => rfl
    | limit + 1, c :: cs => simp [countDigits, hrest c rfl]
  | cons c digits ih =>
    cases limit with
    | zero => rfl
    | succ limit => rw [List.cons_append, countDigits, ih, countDigits]

theorem atou_rest (beyond : Nat) {digits rest : List UInt8}
    (hrest : ∀ c, rest.head? = some c → isDigit c = false) :
    atou beyond (digits ++ rest) = atou beyond digits := by
  have hle := countDigits_le 11 digits
  unfold atou
  rw [countDigits_rest hrest]
  refine List.foldl_ext _ _ _ fun v i hi => ?_
  have hlt : countDigits 11 digits - i - 1 < digits.length := by
    have := List.mem_range.mp hi
    omega
  rw [List.getD_append _ _ _ _ hlt]

theorem length_decimal_le {n : Nat} (h : n < 2 ^ 32) : (decimal n).length ≤ 10 :=
  length_numeral_le (by decide) (by decide) (Nat.lt_trans h (by decide))

/-- A 32-bit number is read back from its numeral. -/
theorem atou_decimal (beyond : Nat) {n : Nat} (h : n < 2 ^ 32) {rest : List UInt8}
    (hrest : ∀ c, rest.head? = some c → isDigit c = false) : atou beyond (decimal n ++ rest) = n := by
  rw [atou_append beyond (fun c hc => isDigit_of_mem_decimal hc) hrest (length_decimal_le h), decimal,
    valueOf_numeral (by decide) digitValue_digitChar, u32_of_lt h]

end TalOS
