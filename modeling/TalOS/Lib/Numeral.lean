-- SUMMARY: Numerals: the text of a number in a base, its length, its first digit and its value.
import Mathlib.Data.Nat.Digits.Lemmas

/-!
# Numerals

The numeral of a number in a base is the text of its digits, the most
significant one first and without leading zeros; zero has one digit. The
alphabet is a parameter: `digit` gives the symbol of each digit.
-/

namespace Numeral

variable {α : Type} {base n m : Nat}

/-- The digits of `n`, the least significant one first; zero has one digit. -/
def digitsOf (base n : Nat) : List Nat := if n = 0 then [0] else Nat.digits base n

/-- The text of `n` in a base. -/
def numeral (digit : Nat → α) (base n : Nat) : List α := (digitsOf base n).reverse.map digit

theorem digitsOf_of_lt (h : n < base) : digitsOf base n = [n] := by
  unfold digitsOf
  split
  · next hzero => rw [hzero]
  · next hne => exact Nat.digits_of_lt base n hne h

theorem digitsOf_of_le (hbase : 1 < base) (h : base ≤ n) :
    digitsOf base n = n % base :: digitsOf base (n / base) := by
  have hdiv : n / base ≠ 0 := Nat.ne_of_gt (Nat.div_pos h (Nat.lt_trans Nat.zero_lt_one hbase))
  have hne : n ≠ 0 := by omega
  rw [digitsOf, digitsOf, if_neg hne, if_neg hdiv, Nat.digits_eq_cons_digits_div hbase hne]

/-- What is in front of the last digit has a digit less, but has digits. -/
theorem div_lt_pow {k : Nat} (h : base ≤ n) (hlt : n < base ^ (k + 1)) : n / base < base ^ k ∧ 0 < k := by
  refine ⟨Nat.div_lt_of_lt_mul (by rwa [← Nat.pow_succ']), ?_⟩
  refine Nat.pos_of_ne_zero fun hzero => ?_
  rw [hzero, Nat.zero_add, Nat.pow_one] at hlt
  exact Nat.not_lt.mpr h hlt

theorem digitsOf_lt (hbase : 1 < base) {d : Nat} (h : d ∈ digitsOf base n) : d < base := by
  unfold digitsOf at h
  split at h
  · rw [List.mem_singleton.mp h]
    exact Nat.lt_trans Nat.zero_lt_one hbase
  · exact Nat.digits_lt_base hbase h

section
variable {digit : Nat → α}

theorem numeral_of_lt (h : n < base) : numeral digit base n = [digit n] := by
  rw [numeral, digitsOf_of_lt h]
  rfl

/-- The last digit, behind the numeral of what is in front of it. -/
theorem numeral_of_le (hbase : 1 < base) (h : base ≤ n) :
    numeral digit base n = numeral digit base (n / base) ++ [digit (n % base)] := by
  rw [numeral, digitsOf_of_le hbase h, List.reverse_cons, List.map_append]
  rfl

theorem numeral_induction {motive : Nat → Prop} (hbase : 1 < base)
    (small : ∀ n < base, motive n) (step : ∀ n, base ≤ n → motive (n / base) → motive n) (n : Nat) :
    motive n := by
  induction n using Nat.strong_induction_on with
  | _ n ih =>
    rcases Nat.lt_or_ge n base with hlt | hge
    · exact small n hlt
    · exact step n hge (ih _ (Nat.div_lt_self (by omega) hbase))

theorem numeral_ne_nil : numeral digit base n ≠ [] := by
  unfold numeral digitsOf
  split
  · exact List.cons_ne_nil _ _
  · next hne =>
    rw [ne_eq, List.map_eq_nil_iff, List.reverse_eq_nil_iff]
    exact Nat.digits_ne_nil_iff_ne_zero.mpr hne

theorem length_numeral_pos : 0 < (numeral digit base n).length :=
  List.length_pos_iff.mpr numeral_ne_nil

/-- A number below `base ^ k` has at most `k` digits. -/
theorem length_numeral_le (hbase : 1 < base) {k : Nat} (hk : 0 < k) (h : n < base ^ k) :
    (numeral digit base n).length ≤ k := by
  rw [numeral, List.length_map, List.length_reverse, digitsOf]
  split
  · exact hk
  · exact (Nat.digits_length_le_iff hbase n).mpr h

/-- A number from `base ^ k` on has more than `k` digits. -/
theorem lt_length_numeral (hbase : 1 < base) {k : Nat} (h : base ^ k ≤ n) :
    k < (numeral digit base n).length := by
  have hne : n ≠ 0 := Nat.ne_of_gt (Nat.lt_of_lt_of_le (Nat.pow_pos (Nat.lt_trans Nat.zero_lt_one hbase)) h)
  rw [numeral, List.length_map, List.length_reverse, digitsOf, if_neg hne]
  exact (Nat.lt_digits_length_iff hbase n).mpr h

theorem mem_numeral (hbase : 1 < base) {c : α} (h : c ∈ numeral digit base n) :
    ∃ d < base, c = digit d := by
  obtain ⟨d, hd, rfl⟩ := List.mem_map.mp h
  exact ⟨d, digitsOf_lt hbase (List.mem_reverse.mp hd), rfl⟩

/-- There is no leading zero. -/
theorem head?_numeral (hbase : 1 < base) (hn : 0 < n) :
    ∃ d, 0 < d ∧ d < base ∧ (numeral digit base n).head? = some (digit d) := by
  induction n using @numeral_induction base with
  | hbase => exact hbase
  | small n hlt => exact ⟨n, hn, hlt, by rw [numeral_of_lt hlt]; rfl⟩
  | step n hge ih =>
    obtain ⟨d, hpos, hlt, hhead⟩ := ih (Nat.div_pos hge (Nat.lt_trans Nat.zero_lt_one hbase))
    refine ⟨d, hpos, hlt, ?_⟩
    rw [numeral_of_le hbase hge, List.head?_append, hhead]
    rfl

/-! ## The value of a text -/

/-- The number that a text of digits stands for. -/
def valueOf (value : α → Nat) (base : Nat) (text : List α) : Nat :=
  text.foldl (fun v c => v * base + value c) 0

variable {value : α → Nat}

@[simp] theorem valueOf_concat (text : List α) (c : α) :
    valueOf value base (text ++ [c]) = valueOf value base text * base + value c := by
  rw [valueOf, List.foldl_append]
  rfl

/-- The first digit counts for as many powers of the base as there are digits behind it. -/
theorem valueOf_cons (c : α) (text : List α) :
    valueOf value base (c :: text) = value c * base ^ text.length + valueOf value base text := by
  induction text using List.reverseRecOn with
  | nil =>
    show 0 * base + value c = value c * base ^ 0 + 0
    rw [Nat.zero_mul, Nat.zero_add, Nat.pow_zero, Nat.mul_one, Nat.add_zero]
  | append_singleton text d ih =>
    rw [← List.cons_append, valueOf_concat, ih, valueOf_concat, List.length_append,
      List.length_singleton, Nat.pow_succ, Nat.add_mul, Nat.mul_assoc, Nat.add_assoc]

/-- A numeral stands for its number. -/
theorem valueOf_numeral (hbase : 1 < base) (hvalue : ∀ d < base, value (digit d) = d) (n : Nat) :
    valueOf value base (numeral digit base n) = n := by
  induction n using @numeral_induction base with
  | hbase => exact hbase
  | small n hlt =>
    rw [numeral_of_lt hlt]
    show 0 * base + value (digit n) = n
    rw [hvalue n hlt, Nat.zero_mul, Nat.zero_add]
  | step n hge ih =>
    rw [numeral_of_le hbase hge, valueOf_concat, ih,
      hvalue _ (Nat.mod_lt n (Nat.lt_trans Nat.zero_lt_one hbase)), Nat.mul_comm]
    exact Nat.div_add_mod n base

theorem numeral_injective (hbase : 1 < base) (hvalue : ∀ d < base, value (digit d) = d)
    (h : numeral digit base n = numeral digit base m) : n = m := by
  rw [← valueOf_numeral hbase hvalue n, h, valueOf_numeral hbase hvalue m]

/-- What makes a text the numeral of `n`: digits of the base that stand for `n`, without a leading zero unless
that is all. -/
structure IsNumeral (digit : Nat → α) (value : α → Nat) (base n : Nat) (text : List α) : Prop where
  digits : ∀ c ∈ text, ∃ d < base, c = digit d
  value_eq : valueOf value base text = n
  ne_nil : text ≠ []
  leading : text.head? = some (digit 0) → text = [digit 0]

theorem isNumeral_numeral (hbase : 1 < base) (hvalue : ∀ d < base, value (digit d) = d) (n : Nat) :
    IsNumeral digit value base n (numeral digit base n) where
  digits := fun _ hc => mem_numeral hbase hc
  value_eq := valueOf_numeral hbase hvalue n
  ne_nil := numeral_ne_nil
  leading := by
    have hzero : 0 < base := Nat.lt_trans Nat.zero_lt_one hbase
    rcases Nat.eq_zero_or_pos n with rfl | hpos
    · exact fun _ => numeral_of_lt hzero
    · obtain ⟨d, hd, hlt, hhead⟩ := head?_numeral hbase hpos
      rw [hhead]
      intro heq
      have hvalues := congrArg value (Option.some.inj heq)
      rw [hvalue d hlt, hvalue 0 hzero] at hvalues
      exact absurd hvalues (Nat.ne_of_gt hd)

end

end Numeral
