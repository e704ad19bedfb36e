-- SUMMARY: What C asks of integer and string conversions, and exactly when the formatter prints it.
import TalOS.Libk.Conversions

/-!
# The rules of C

Value, field width, precision and zero flag each have a text that C asks for.
The formatter's own text is computed from the code, and the two are compared:
what is left is the condition under which they agree.
-/

open MachineInt Bounded Numeral

namespace TalOS

/-! ## Integers -/

def IntConv.base : IntConv → Nat
  | .signed | .unsigned => 10
  | .hex => 16

/-- The number an argument stands for under a conversion. -/
def intValue (conv : IntConv) : Arg → Int
  | .word w => if conv = .signed then int32 w.toNat else w.toNat
  | .dword w => if conv = .signed then int64 w.toNat else w.toNat
  | .str _ => 0

theorem IntConv.one_lt_base (conv : IntConv) : 1 < conv.base := by cases conv <;> decide

theorem IntConv.base_le (conv : IntConv) : conv.base ≤ 16 := by cases conv <;> decide

/-- A 32-bit argument is converted exactly. -/
theorem wordText_eq (conv : IntConv) (w : UInt32) :
    wordText conv w = integerText conv.base (intValue conv (.word w)) := by
  have hlt : w.toNat < 2 ^ 32 := w.toNat_lt
  cases conv with
  | signed => exact litoa_eq (by decide) (by decide) (int32_range hlt).1 (int32_range hlt).2
  | unsigned | hex =>
    rw [wordText, ulitoa_eq (by decide) (by decide), u32_of_lt hlt]
    rfl

/-- So is a 64-bit one, but for a signed number only its lower half. -/
theorem dwordText_eq (conv : IntConv) (w : UInt64) :
    dwordText conv w = integerText conv.base
      (if conv = .signed then int32 (u32 w.toNat) else w.toNat) := by
  have hlt : w.toNat < 2 ^ 64 := w.toNat_lt
  have hrange := int32_range (u32_lt w.toNat)
  cases conv with
  | signed => exact litoa_eq (by decide) (by decide) hrange.1 hrange.2
  | unsigned | hex =>
    rw [dwordText, ullitoa_eq (by decide) (by decide), u64_of_lt hlt]
    rfl

theorem length_signChars_le (v : Int) : (signChars v).length ≤ 1 := by
  unfold signChars
  split <;> simp

/-- The text of a number below `2^64` is well below what `print_number` looks at. -/
theorem length_integerText_le (conv : IntConv) {v : Int} (h : v.natAbs < 2 ^ 64) :
    (integerText conv.base v).length ≤ 21 := by
  have hpow : v.natAbs < conv.base ^ 20 :=
    Nat.lt_of_lt_of_le (Nat.lt_trans h (by decide))
      (Nat.pow_le_pow_left (show 10 ≤ conv.base by cases conv <;> decide) 20)
  have hdigits : (magnitudeText conv.base v).length ≤ 20 :=
    length_numeral_le conv.one_lt_base (by decide) hpow
  have hsign := length_signChars_le v
  rw [integerText, List.length_append]
  omega

theorem natAbs_intValue_lt (conv : IntConv) (arg : Arg) : (intValue conv arg).natAbs < 2 ^ 64 := by
  cases arg with
  | word w =>
    have hlt : w.toNat < 2 ^ 32 := w.toNat_lt
    have hrange := int32_range hlt
    show (if conv = .signed then int32 w.toNat else (w.toNat : Int)).natAbs < 2 ^ 64
    split <;> omega
  | dword w =>
    have hlt : w.toNat < 2 ^ 64 := w.toNat_lt
    show (if conv = .signed then int64 w.toNat else (w.toNat : Int)).natAbs < 2 ^ 64
    unfold int64
    split <;> omega
  | str s => exact Nat.two_pow_pos 64

/-- An argument is printed as the number it stands for, but for the upper half of a signed `ll`. -/
theorem argText_eq (conv : IntConv) {m : LengthModifier} {arg : Arg} (harg : m.Takes arg) :
    ∃ v : Int, v.natAbs < 2 ^ 64 ∧ argText conv arg = integerText conv.base v ∧
      (v = intValue conv arg ↔ (m = .longLong → conv = .signed →
        -2 ^ 31 ≤ intValue conv arg ∧ intValue conv arg < 2 ^ 31)) := by
  match m, arg, harg with
  | .none, .word w, _ | .long, .word w, _ =>
    exact ⟨_, natAbs_intValue_lt conv (.word w), wordText_eq conv w, iff_of_true rfl nofun⟩
  | .longLong, .dword w, _ =>
    have hlt : w.toNat < 2 ^ 64 := w.toNat_lt
    refine ⟨_, ?_, dwordText_eq conv w, ?_⟩
    · have hrange := int32_range (u32_lt w.toNat)
      split <;> omega
    · unfold intValue
      split
      · next hsigned => simpa [hsigned] using int32_u32_eq_int64 hlt
      · next hsigned => exact iff_of_true rfl fun _ h => absurd h hsigned

/-! ### The text of `print_number` -/

theorem skipSign_integerText {base : Nat} (hbase : 1 < base) (h16 : base ≤ 16) (v : Int) :
    skipSign (integerText base v) = magnitudeText base v := by
  unfold skipSign
  by_cases hneg : v < 0
  · rw [if_pos ((head?_integerText hbase h16 v).mpr hneg), integerText, signChars, if_pos hneg]
    rfl
  · rw [if_neg (mt (head?_integerText hbase h16 v).mp hneg), integerText, signChars, if_neg hneg]
    rfl

theorem signText_integerText {base : Nat} (hbase : 1 < base) (h16 : base ≤ 16) (v : Int) :
    signText (integerText base v) = signChars v :=
  if_congr (head?_integerText hbase h16 v) rfl rfl

/-- Sign, zeros up to the precision, digits. -/
def preciseText (precision : Nat) (base : Nat) (v : Int) : List UInt8 :=
  signChars v ++ (List.replicate (precision - (magnitudeText base v).length) ASCII_0 ++
    magnitudeText base v)

/-- What the code subtracts from the width: a precision counts in place of the digits, even a smaller one. -/
def widthTaken (precision : Nat) (base : Nat) (v : Int) : Nat :=
  (signChars v).length + if precision = 0 then (magnitudeText base v).length else precision

theorem length_signChars (v : Int) : (signChars v).length = if v < 0 then 1 else 0 := by
  unfold signChars
  split <;> rfl

theorem spaceCount_integerText {base : Nat} (hbase : 1 < base) (h16 : base ≤ 16) (v : Int)
    (P : Nat) (room : Int) :
    spaceCount room P (integerText base v).length (integerText base v) =
      (room - widthTaken P base v).toNat := by
  have hlen : (integerText base v).length = (signChars v).length + (magnitudeText base v).length :=
    List.length_append
  have hsign := length_signChars v
  unfold spaceCount widthTaken
  rw [if_congr (head?_integerText hbase h16 v) rfl rfl, hlen]
  by_cases hP : P = 0
  · rw [if_neg (by omega), if_pos hP]
  · rw [if_pos (by omega), if_neg hP]
    by_cases hneg : v < 0
    · rw [if_pos hneg] at hsign ⊢
      congr 1
      omega
    · rw [if_neg hneg] at hsign ⊢
      congr 1
      omega

/-- The zeros in front of the digits, where the code takes the trouble to write them. -/
theorem zeros_integerText {base : Nat} (hbase : 1 < base) (h16 : base ≤ 16) (v : Int) (P : Nat) :
    (if needsZeros P (integerText base v).length (integerText base v) then
      (if (integerText base v).head? = some ASCII_MINUS then [ASCII_MINUS] else []) ++
        (List.replicate ((P : Int) - (skipSign (integerText base v)).length).toNat ASCII_0 ++
          skipSign (integerText base v))
      else integerText base v) = preciseText P base v := by
  have hlen : (integerText base v).length = (signChars v).length + (magnitudeText base v).length :=
    List.length_append
  rw [← signText, signText_integerText hbase h16, skipSign_integerText hbase h16]
  split
  · next hneeds =>
    rw [preciseText, Int.toNat_sub]
  · next hneeds =>
    -- No zeros are due: the precision is not above the number of digits.
    have hP : P ≤ (magnitudeText base v).length := by
      simp only [needsZeros, head?_integerText hbase h16, hlen, length_signChars, Bool.or_eq_true,
        Bool.and_eq_true, decide_eq_true_eq, not_or, not_and] at hneeds
      by_cases hneg : v < 0
      · have := hneeds.2 hneg
        rw [if_pos hneg] at this
        omega
      · have := hneeds.1
        rw [if_neg hneg] at this
        omega
    rw [preciseText, Nat.sub_eq_zero_of_le hP]
    rfl

/-- The text of `print_number` for the text of a number. -/
theorem numberText_integerText {base : Nat} (hbase : 1 < base) (h16 : base ≤ 16) {v : Int}
    (hlen : (integerText base v).length ≤ MAX_STR_NUM) {precision width zeroPad : Nat} {P W Z : Nat}
    (hP : clampSigned precision = P) (hW : clampSigned width = W)
    (hZ : Z = if (integerText base v).length ≥ W then 0 else zeroPad) :
    numberText (integerText base v) precision width zeroPad =
      List.replicate Z ASCII_0 ++
        (List.replicate (W - Z - widthTaken P base v) SPACE ++ preciseText P base v) := by
  have hzero : (if ((integerText base v).length : Int) ≥ (W : Int) then 0 else zeroPad) = Z := by
    rw [hZ]
    exact if_congr Int.ofNat_le rfl rfl
  unfold numberText
  dsimp only
  rw [List.take_of_length_le hlen, hP, hW, hzero, spaceCount_integerText hbase h16,
    zeros_integerText hbase h16]
  congr 3
  omega

/-- An integer conversion whose prefix is read as `spec`. -/
theorem conversionText_number {beyond : Nat} {pre : List UInt8} {spec : Spec} {m : LengthModifier}
    {letter : UInt8} {conv : IntConv} {arg : Arg} (hletter : intConv letter = some conv)
    (harg : m.Takes arg)
    (hscan : ∀ rest, scanSpec beyond (pre ++ (m.text ++ letter :: rest)) = (spec, m.text ++ letter :: rest))
    (hplain : ∀ rest, (pre ++ (m.text ++ letter :: rest)).head? ≠ some PERCENT) :
    ConversionText beyond (PERCENT :: (pre ++ (m.text ++ [letter]))) arg
      (numberText (argText conv arg) spec.precision spec.width spec.zeroPad) := by
  have hformat : ∀ rest, PERCENT :: (pre ++ (m.text ++ [letter])) ++ rest =
      PERCENT :: (pre ++ (m.text ++ letter :: rest)) := by
    intro rest
    simp only [List.cons_append, List.append_assoc, List.nil_append]
  have hliteral : ∀ rest, ¬ startsLiteral (PERCENT :: (pre ++ (m.text ++ letter :: rest))) = true := by
    intro rest hstarts
    have hhead : (pre ++ (m.text ++ letter :: rest)).head? = some PERCENT := by
      simpa [startsLiteral] using hstarts
    exact hplain rest hhead
  constructor
  · intro rest more
    rw [hformat, stepText, if_neg (hliteral rest)]
    dsimp only [List.tail_cons]
    rw [hscan, scanConv_integer hletter harg]
    rfl
  · intro rest more
    rw [hformat, turnRun, if_neg (hliteral rest)]
    dsimp only [List.tail_cons]
    rw [hscan, scanConv_integer hletter harg]
    exact show MAX_STR_NUM < 2 ^ 31 by decide

/-! ### Values -/

/-- Without width and precision a conversion prints the exact value of its argument, but a signed `ll`
only as far as 32 bits hold it. -/
theorem conversionPrints_integerText (beyond : Nat) (m : LengthModifier) {letter : UInt8} {conv : IntConv}
    {arg : Arg} (hletter : intConv letter = some conv) (harg : m.Takes arg) :
    ConversionPrints beyond (PERCENT :: (m.text ++ [letter])) arg
        (integerText conv.base (intValue conv arg)) ↔
      (m = .longLong → conv = .signed →
        -2 ^ 31 ≤ intValue conv arg ∧ intValue conv arg < 2 ^ 31) := by
  obtain ⟨v, hv, htext, hexact⟩ := argText_eq conv harg
  have hconv : ConversionText beyond (PERCENT :: (m.text ++ [letter])) arg
      (integerText conv.base v) := by
    have hnumber := @conversionText_number beyond [] ⟨0, 0, 0⟩ m letter conv arg hletter harg
      (fun rest => by
        obtain ⟨hends, hdot, -⟩ := endsNumber_integer hletter m rest
        exact @scanSpec_text beyond _ none none nofun nofun hends hdot)
      (fun rest => (endsNumber_integer hletter m rest).2.2)
    rw [htext, numberText_integerText conv.one_lt_base conv.base_le
      (Nat.le_trans (length_integerText_le conv hv) (by decide)) (P := 0) (W := 0) (Z := 0) rfl rfl
      (if_pos (Nat.zero_le _)).symm, Nat.zero_sub, preciseText, Nat.zero_sub] at hnumber
    exact hnumber
  rw [hconv.prints_iff, ← hexact]
  · constructor
    · exact fun h => (integerText_injective conv.one_lt_base conv.base_le h).symm
    · rintro rfl
      rfl
  · exact Nat.lt_of_le_of_lt (length_integerText_le conv (natAbs_intValue_lt conv arg)) (by decide)

/-- `%lld` with -1. -/
theorem conversionPrints_integerText_minusOne :
    ConversionPrints 0 [PERCENT, LETTER_l, LETTER_l, 0x64] (.dword 0xffffffffffffffff)
      (integerText 10 (-1)) :=
  (conversionPrints_integerText 0 .longLong (show intConv 0x64 = some .signed from rfl)
    (show LengthModifier.Takes .longLong (.dword 0xffffffffffffffff) from trivial)).mpr
    fun _ _ => by decide

/-- `%lld` with 2^32 prints `0`. -/
theorem not_conversionPrints_lld :
    ¬ ConversionPrints 0 [PERCENT, LETTER_l, LETTER_l, 0x64] (.dword 4294967296)
      [0x34, 0x32, 0x39, 0x34, 0x39, 0x36, 0x37, 0x32, 0x39, 0x36] := by
  have hconv : ConversionText 0 [PERCENT, LETTER_l, LETTER_l, 0x64] (.dword 4294967296) [0x30] :=
    ⟨fun _ _ => rfl, fun _ _ => show MAX_STR_NUM < 2 ^ 31 by decide⟩
  rw [hconv.prints_iff (by decide)]
  decide

/-! ### Width and precision -/

/-- A text at the right end of its field. -/
def fieldText (width : Nat) (body : List UInt8) : List UInt8 :=
  List.replicate (width - body.length) SPACE ++ body

theorem length_fieldText (width : Nat) (body : List UInt8) :
    (fieldText width body).length = max width body.length := by
  rw [fieldText, List.length_append, List.length_replicate]
  omega

theorem length_preciseText (P base : Nat) (v : Int) :
    (preciseText P base v).length = (signChars v).length + max P (magnitudeText base v).length := by
  rw [preciseText, List.length_append, List.length_append, List.length_replicate]
  omega

theorem clampSigned_of_lt {n : Nat} (h : n < 2 ^ 31) : clampSigned n = n := by
  unfold clampSigned
  rw [int32_of_lt h]
  split <;> omega

/-- The text of an integer conversion with width and precision. -/
theorem conversionText_field (beyond : Nat) {width precision : Option Nat} (hwidth : ∀ W ∈ width, 1 ≤ W)
    (hW : width.getD 0 < 2 ^ 31) (hP : precision.getD 0 < 2 ^ 31) {letter : UInt8} {conv : IntConv}
    (hletter : intConv letter = some conv) (w : UInt32) :
    ConversionText beyond (PERCENT :: (widthText width ++ (precisionText precision ++ [letter]))) (.word w)
      (List.replicate (width.getD 0 - widthTaken (precision.getD 0) conv.base (intValue conv (.word w))) SPACE ++
        preciseText (precision.getD 0) conv.base (intValue conv (.word w))) := by
  have hwidth' : ∀ W ∈ width, 1 ≤ W ∧ W < 2 ^ 32 := by
    rintro W rfl
    exact ⟨hwidth W rfl, Nat.lt_trans hW (by decide)⟩
  have hprecision : ∀ P ∈ precision, P < 2 ^ 32 := by
    rintro P rfl
    exact Nat.lt_trans hP (by decide)
  have hnumber := @conversionText_number beyond (widthText width ++ precisionText precision)
    ⟨0, width.getD 0, precision.getD 0⟩ .none letter conv (.word w) hletter trivial
    (fun rest => by
      obtain ⟨hends, hdot, -⟩ := endsNumber_integer hletter .none rest
      rw [List.append_assoc]
      exact scanSpec_text hwidth' hprecision hends hdot)
    (fun rest => by
      rw [List.append_assoc]
      exact head?_width_precision (endsNumber_integer hletter .none rest).2.2)
  have hlen := length_integerText_le conv (natAbs_intValue_lt conv (.word w))
  rw [argText, wordText_eq, numberText_integerText conv.one_lt_base conv.base_le
    (Nat.le_trans hlen (by decide)) (clampSigned_of_lt hP) (clampSigned_of_lt hW) (ite_self 0).symm,
    List.append_assoc] at hnumber
  exact hnumber

/-- Width and precision follow the rule of C, unless the precision is below the number of digits and the
field is wider than sign and precision: the spaces are counted as if there were no more digits. -/
theorem conversionPrints_fieldText (beyond : Nat) {width precision : Option Nat}
    (hwidth : ∀ W ∈ width, 1 ≤ W) (hprecision : ∀ P ∈ precision, 1 ≤ P) {letter : UInt8} {conv : IntConv}
    (hletter : intConv letter = some conv) (w : UInt32)
    (htext : (fieldText (width.getD 0)
      (preciseText (precision.getD 0) conv.base (intValue conv (.word w)))).length < INT_MAX - 1) :
    ConversionPrints beyond (PERCENT :: (widthText width ++ (precisionText precision ++ [letter]))) (.word w)
        (fieldText (width.getD 0) (preciseText (precision.getD 0) conv.base (intValue conv (.word w)))) ↔
      ∀ P ∈ precision, (magnitudeText conv.base (intValue conv (.word w))).length ≤ P ∨
        width.getD 0 ≤ P + (signChars (intValue conv (.word w))).length := by
  have hlength := htext
  rw [length_fieldText, length_preciseText] at hlength
  have hmax : INT_MAX - 1 < 2 ^ 31 := by decide
  have hconv := @conversionText_field beyond width precision hwidth (by omega) (by omega) _ _ hletter w
  rw [hconv.prints_iff htext, fieldText, List.append_left_inj, List.replicate_inj, length_preciseText,
    widthTaken]
  generalize (magnitudeText conv.base (intValue conv (.word w))).length = digits
  generalize (signChars (intValue conv (.word w))).length = sign
  cases precision with
  | none => simp
  | some P =>
    have hpos := hprecision P rfl
    simp only [Option.getD_some, Option.mem_some_iff, forall_eq', if_neg (Nat.ne_of_gt hpos), or_true, and_true]
    omega

/-- `%8.3d` with 42. -/
theorem conversionPrints_fieldText_wide :
    ConversionPrints 0 (PERCENT :: (widthText (some 8) ++ (precisionText (some 3) ++ [0x64]))) (.word 42)
      (fieldText 8 (preciseText 3 10 42)) := by
  have hdigits : (magnitudeText 10 42).length = 2 :=
    congrArg List.length (@ulitoa_eq 10 (by decide) (by decide) 42).symm
  have htext : (fieldText 8 (preciseText 3 10 42)).length < INT_MAX - 1 := by
    rw [length_fieldText, length_preciseText, hdigits]
    decide
  have hprints := @conversionPrints_fieldText 0 (some 8) (some 3) (by decide) (by decide) 0x64 .signed rfl 42
  have hvalue : intValue .signed (.word 42) = 42 := rfl
  simp only [hvalue, Option.getD_some, IntConv.base, hdigits] at hprints
  refine (hprints htext).mpr ?_
  rintro P ⟨⟩
  exact .inl (by decide)

/-- `%5.1d` with 123 prints two spaces too many. -/
theorem not_conversionPrints_precision :
    ¬ ConversionPrints 0 [PERCENT, 0x35, DOT, 0x31, 0x64] (.word 123)
      [SPACE, SPACE, 0x31, 0x32, 0x33] := by
  have hwidth : widthText (some 5) = [0x35] := numeral_of_lt (by decide)
  have hprecision : decimal 1 = [0x31] := numeral_of_lt (by decide)
  have hdigits : magnitudeText 10 123 = [0x31, 0x32, 0x33] :=
    (@ulitoa_eq 10 (by decide) (by decide) 123).symm.trans (by decide)
  have hvalue : intValue .signed (.word 123) = 123 := rfl
  have hconv := @conversionText_field 0 (some 5) (some 1) (by decide) (by decide) (by decide) 0x64 .signed
    rfl 123
  simp only [hvalue, hwidth, precisionText, hprecision, Option.getD_some, IntConv.base, widthTaken,
    preciseText, hdigits, List.cons_append, List.nil_append] at hconv
  rw [hconv.prints_iff (by decide)]
  decide

/-! ### The zero flag -/

/-- Zeros between sign and digits. -/
def zeroPadded (width base : Nat) (v : Int) : List UInt8 :=
  signChars v ++ (List.replicate (width - (integerText base v).length) ASCII_0 ++ magnitudeText base v)

theorem exists_clampSigned (n : Nat) : ∃ c : Nat, clampSigned n = c := by
  unfold clampSigned
  split
  · exact ⟨(int32 n).toNat, by omega⟩
  · exact ⟨0, rfl⟩

theorem length_zeroPadded (width base : Nat) (v : Int) :
    (zeroPadded width base v).length = max width (integerText base v).length := by
  have hlength : (integerText base v).length = _ := List.length_append
  rw [zeroPadded, List.length_append, List.length_append, List.length_replicate]
  omega

/-- Two zeros or more to fill in, and one of them is the second character. -/
theorem getElem?_zeroPadded {width base : Nat} {v : Int} (h : (integerText base v).length + 2 ≤ width) :
    (zeroPadded width base v)[1]? = some ASCII_0 := by
  obtain ⟨k, hk⟩ := Nat.exists_eq_add_of_le h
  have hzeros : width - (integerText base v).length = k + 2 := by omega
  rw [zeroPadded, hzeros, signChars, List.replicate_succ, List.replicate_succ]
  split <;> rfl

/-- What the code makes of the flag `0`: with room for it one zero, and spaces behind it. -/
def spacePadded (width base : Nat) (v : Int) : List UInt8 :=
  List.replicate (if (integerText base v).length ≥ width then 0 else 1) ASCII_0 ++
    (List.replicate (width - (if (integerText base v).length ≥ width then 0 else 1) -
      (integerText base v).length) SPACE ++ integerText base v)

theorem spacePadded_of_le {width base : Nat} {v : Int} (h : width ≤ (integerText base v).length) :
    spacePadded width base v = integerText base v := by
  rw [spacePadded, if_pos h, Nat.sub_zero, Nat.sub_eq_zero_of_le h]
  rfl

theorem spacePadded_succ {base : Nat} {v : Int} :
    spacePadded ((integerText base v).length + 1) base v = ASCII_0 :: integerText base v := by
  rw [spacePadded, if_neg (by omega), Nat.add_sub_cancel, Nat.sub_self]
  rfl

theorem getElem?_spacePadded {width base : Nat} {v : Int} (h : (integerText base v).length + 2 ≤ width) :
    (spacePadded width base v)[1]? = some SPACE := by
  obtain ⟨k, hk⟩ := Nat.exists_eq_add_of_le h
  have hspaces : width - 1 - (integerText base v).length = k + 1 := by omega
  rw [spacePadded, if_neg (by omega), hspaces, List.replicate_succ, List.replicate_succ]
  rfl

/-- Where there is at most one character to fill in, and no sign before it, the two agree. -/
theorem spacePadded_eq_zeroPadded {width base : Nat} {v : Int}
    (h : width ≤ (integerText base v).length ∨ width = (integerText base v).length + 1 ∧ 0 ≤ v) :
    zeroPadded width base v = spacePadded width base v := by
  rcases h with h | ⟨rfl, h⟩
  · rw [spacePadded_of_le h, zeroPadded, Nat.sub_eq_zero_of_le h]
    rfl
  · have hsign : signChars v = [] := if_neg (by omega)
    rw [spacePadded_succ, zeroPadded, Nat.add_sub_cancel_left, integerText, hsign]
    rfl

/-- Nowhere else do they, even when only a part of them is printed or the width is misread. -/
theorem padding_of_take_eq {width read base limit : Nat} {v : Int}
    (hlimit : (integerText base v).length + 1 < limit) (hone : 1 < limit) (hread : width < limit → read = width)
    (htake : (zeroPadded width base v).take limit = (spacePadded read base v).take limit) :
    width ≤ (integerText base v).length ∨ width = (integerText base v).length + 1 ∧ 0 ≤ v := by
  have hlength := congrArg List.length htake
  rw [List.length_take, List.length_take, length_zeroPadded] at hlength
  rcases Nat.lt_trichotomy read ((integerText base v).length + 1) with hread' | rfl | hread'
  · rw [spacePadded_of_le (Nat.le_of_lt_succ hread')] at hlength
    exact .inl (by omega)
  · rw [spacePadded_succ, List.length_cons] at hlength
    have hwidth : width = (integerText base v).length + 1 := by
      have := hread (by omega)
      omega
    -- The zero of the code stands in front of the sign.
    have hfirst : (zeroPadded width base v)[0]? = some ASCII_0 := by
      rw [← List.getElem?_take_of_lt (Nat.lt_trans Nat.zero_lt_one hone), htake, spacePadded_succ,
        List.getElem?_take_of_lt (Nat.lt_trans Nat.zero_lt_one hone)]
      rfl
    refine .inr ⟨hwidth, Int.not_lt.mp fun hneg => ?_⟩
    rw [zeroPadded, signChars, if_pos hneg] at hfirst
    exact absurd (Option.some.inj hfirst) (by decide)
  · -- The second character is a space in one text and, if there is any, a zero in the other.
    refine .inl (Nat.le_of_not_lt fun hwide => ?_)
    have hwidth : (integerText base v).length + 2 ≤ width := by
      rcases Nat.lt_or_ge width limit with hlt | hge
      · rwa [hread hlt] at hread'
      · omega
    have hsecond := getElem?_zeroPadded hwidth
    rw [← List.getElem?_take_of_lt hone, htake, List.getElem?_take_of_lt hone,
      getElem?_spacePadded hread'] at hsecond
    exact absurd (Option.some.inj hsecond) (by decide)

/-- The text of a conversion with the flag `0` and a width: the code counts the zeros of the format, one,
and fills the field with spaces behind it. -/
theorem conversionText_zero (beyond : Nat) {W : Nat} (hW : 1 ≤ W) {letter : UInt8} {conv : IntConv}
    (hletter : intConv letter = some conv) (w : UInt32) {c : Nat}
    (hc : clampSigned (atou beyond (decimal W)) = c) :
    ConversionText beyond (PERCENT :: ASCII_0 :: (decimal W ++ [letter])) (.word w)
      (spacePadded c conv.base (intValue conv (.word w))) := by
  have hnumber := @conversionText_number beyond (ASCII_0 :: decimal W)
    ⟨1, atou beyond (decimal W), 0⟩ .none letter conv (.word w) hletter trivial
    (fun rest => by
      obtain ⟨hends, hdot, -⟩ := endsNumber_integer hletter .none rest
      rw [List.cons_append, scanSpec_zero hW hends hdot, atou_rest beyond hends])
    (fun rest hhead => nomatch hhead)
  have hlen := length_integerText_le conv (natAbs_intValue_lt conv (.word w))
  have hlength : (integerText conv.base (intValue conv (.word w))).length = widthTaken 0 conv.base _ :=
    List.length_append
  rw [argText, wordText_eq, numberText_integerText conv.one_lt_base conv.base_le
    (Nat.le_trans hlen (by decide)) (P := 0) rfl hc rfl, ← hlength, preciseText, Nat.zero_sub] at hnumber
  exact hnumber

/-- The flag `0` pads to the width where there is nothing to pad, or one zero in front of a number that is not
negative. -/
theorem conversionPrints_zeroPadded (beyond : Nat) {W : Nat} (hW : 1 ≤ W) {letter : UInt8} {conv : IntConv}
    (hletter : intConv letter = some conv) (w : UInt32) :
    ConversionPrints beyond (PERCENT :: ASCII_0 :: (decimal W ++ [letter])) (.word w)
        (zeroPadded W conv.base (intValue conv (.word w))) ↔
      W ≤ (integerText conv.base (intValue conv (.word w))).length ∨
        W = (integerText conv.base (intValue conv (.word w))).length + 1 ∧ 0 ≤ intValue conv (.word w) := by
  obtain ⟨c, hc⟩ := exists_clampSigned (atou beyond (decimal W))
  have hlen := length_integerText_le conv (natAbs_intValue_lt conv (.word w))
  have hread : W < INT_MAX - 1 → c = W := by
    intro hlt
    have hatou := @atou_decimal beyond W (Nat.lt_trans hlt (by decide)) [] nofun
    rw [List.append_nil] at hatou
    rw [hatou, clampSigned_of_lt (Nat.lt_trans hlt (by decide))] at hc
    exact (Int.ofNat_inj.mp hc).symm
  have hlimit : (integerText conv.base (intValue conv (.word w))).length + 1 < INT_MAX - 1 :=
    Nat.lt_of_le_of_lt (Nat.succ_le_succ hlen) (by decide)
  rw [(conversionText_zero beyond hW hletter w hc).prints_iff_take]
  constructor
  · exact padding_of_take_eq hlimit (by decide) hread
  · intro h
    have hc' : c = W := hread (by omega)
    rw [hc', spacePadded_eq_zeroPadded h]

/-- `%02u` with 7. -/
theorem conversionPrints_zeroPadded_two :
    ConversionPrints 0 (PERCENT :: ASCII_0 :: (decimal 2 ++ [0x75])) (.word 7) (zeroPadded 2 10 7) := by
  have hdigits : (integerText 10 7).length = 1 :=
    congrArg List.length (@ulitoa_eq 10 (by decide) (by decide) 7).symm
  have hone : 2 = (integerText 10 7).length + 1 ∧ 0 ≤ (7 : Int) := ⟨by rw [hdigits], by decide⟩
  exact (conversionPrints_zeroPadded 0 (by decide) (show intConv 0x75 = some .unsigned from rfl) 7).mpr
    (.inr hone)

/-- `%04d` with 42 prints a space. -/
theorem not_conversionPrints_zero :
    ¬ ConversionPrints 0 [PERCENT, ASCII_0, 0x34, 0x64] (.word 42) [0x30, 0x30, 0x34, 0x32] := by
  have hwidth : decimal 4 = [0x34] := numeral_of_lt (by decide)
  have hdigits : integerText 10 42 = [0x34, 0x32] :=
    (@litoa_eq 10 (by decide) (by decide) 42 (by decide) (by decide)).symm.trans (by decide)
  have hvalue : intValue .signed (.word 42) = 42 := rfl
  have hconv := @conversionText_zero 0 4 (by decide) 0x64 .signed rfl 42 4 (by rw [hwidth]; decide)
  simp only [hvalue, hwidth, IntConv.base, spacePadded, hdigits, List.cons_append, List.nil_append] at hconv
  rw [hconv.prints_iff (by decide)]
  decide

/-! ## Strings -/

/-- What a precision leaves of a string. -/
def cutString (precision : Option Nat) (s : List UInt8) : List UInt8 :=
  match precision with
  | none => s
  | some P => s.take P

/-- The format of a string conversion. -/
def stringFormat (width precision : Option Nat) : List UInt8 :=
  PERCENT :: (widthText width ++ (precisionText precision ++ [LETTER_s]))

theorem endsNumber_string (rest : List UInt8) :
    EndsNumber (LETTER_s :: rest) ∧ (LETTER_s :: rest).head? ≠ some DOT ∧
      (LETTER_s :: rest).head? ≠ some PERCENT := by
  show (∀ c, some LETTER_s = some c → isDigit c = false) ∧ some LETTER_s ≠ some DOT ∧
    some LETTER_s ≠ some PERCENT
  exact ⟨fun c hc => Option.some.inj hc ▸ rfl, by decide, by decide⟩

/-- Of width and precision `%s` uses only the width. -/
theorem stepText_string (beyond : Nat) {width : Option Nat} (hwidth : ∀ W ∈ width, W < 2 ^ 32)
    (precision : Option Nat) (s rest : List UInt8) (more : List Arg) :
    stepText beyond ⟨stringFormat width precision ++ rest, .str s :: more⟩ =
        some (List.replicate (padCount (width.getD 0) s.length) SPACE ++ s, ⟨rest, more⟩) ∧
      turnRun beyond ⟨stringFormat width precision ++ rest, .str s :: more⟩ = s.length := by
  obtain ⟨hends, hdot, hpercent⟩ := endsNumber_string rest
  have hformat : stringFormat width precision ++ rest =
      PERCENT :: (widthText width ++ (precisionText precision ++ LETTER_s :: rest)) := by
    simp only [stringFormat, List.cons_append, List.append_assoc, List.nil_append]
  have hliteral : ¬ startsLiteral (stringFormat width precision ++ rest) = true := by
    intro hstarts
    rw [hformat] at hstarts
    have hhead : (widthText width ++ (precisionText precision ++ LETTER_s :: rest)).head? =
        some PERCENT := by simpa [startsLiteral] using hstarts
    exact head?_width_precision hpercent hhead
  obtain ⟨hW, htail⟩ := scanSpec_width beyond hwidth precision hends hdot
  rw [stepText, turnRun, if_neg hliteral, if_neg hliteral, hformat]
  dsimp only [List.tail_cons]
  rw [htail]
  refine ⟨?_, rfl⟩
  show some (List.replicate (padCount _ s.length) SPACE ++ s, _) = _
  rw [hW]

theorem eq_replicate_of_shift {α : Type} {s : List α} {a : α} {k : Nat} (hk : k < s.length) :
    s = List.replicate (s.length - k) a ++ s.take k ↔ ∀ c ∈ s, c = a := by
  constructor
  · intro hshift
    -- A character is one of the first, or the same as one further in front.
    have hcells : ∀ i < s.length, s[i]? = some a := by
      intro i
      induction i using Nat.strong_induction_on with
      | _ i ih =>
        intro hi
        rw [hshift]
        rcases Nat.lt_or_ge i (s.length - k) with hfront | hback
        · rw [List.getElem?_append_left (by rw [List.length_replicate]; exact hfront),
            List.getElem?_replicate_of_lt hfront]
        · rw [List.getElem?_append_right (by rw [List.length_replicate]; exact hback),
            List.length_replicate, List.getElem?_take_of_lt (by omega)]
          exact ih _ (by omega) (by omega)
    intro c hc
    obtain ⟨i, hi, rfl⟩ := List.mem_iff_getElem.mp hc
    have hcell := hcells i hi
    rw [List.getElem?_eq_getElem hi] at hcell
    exact Option.some.inj hcell
  · intro hall
    have hs : s = List.replicate s.length a := List.eq_replicate_iff.mpr ⟨rfl, hall⟩
    have htake : s.take k = List.replicate k a := by
      rw [hs, List.take_replicate, Nat.min_eq_left (Nat.le_of_lt hk)]
    rw [htake, ← List.replicate_add, Nat.sub_add_cancel (Nat.le_of_lt hk)]
    exact hs

theorem cutString_of_le {precision : Option Nat} {s : List UInt8} (h : ∀ P ∈ precision, s.length ≤ P) :
    cutString precision s = s := by
  cases precision with
  | none => rfl
  | some P => exact List.take_of_length_le (h P rfl)

/-- The spaces the code writes before a string are the right ones where the precision cuts nothing off and the
string is shorter than its field, or where there are only spaces to tell apart. -/
theorem padded_eq_fieldText {width : Nat} {precision : Option Nat} {s : List UInt8} :
    fieldText width (cutString precision s) = List.replicate (padCount width s.length) SPACE ++ s ↔
      (∀ P ∈ precision, s.length ≤ P) ∧ (width = 0 ∨ s.length < width) ∨
        s.length < width ∧ ∀ c ∈ s, c = SPACE := by
  by_cases hcut : ∀ P ∈ precision, s.length ≤ P
  · rw [cutString_of_le hcut, fieldText, List.append_left_inj, List.replicate_inj, padCount,
      and_iff_left (.inr rfl), and_iff_right hcut]
    by_cases hfits : s.length < width
    · rw [if_pos hfits]
      exact iff_of_true rfl (.inl (.inr hfits))
    · rw [if_neg hfits]
      omega
  · obtain ⟨P, rfl, hP⟩ : ∃ P, precision = some P ∧ P < s.length := by
      cases precision with
      | none => exact absurd nofun hcut
      | some P => exact ⟨P, rfl, by simpa using hcut⟩
    have hlen : (s.take P).length = P := List.length_take_of_le (Nat.le_of_lt hP)
    rw [cutString, or_iff_right fun h => hcut h.1]
    by_cases hfits : s.length < width
    · have hsplit : width - P = (width - s.length) + (s.length - P) := by omega
      rw [fieldText, padCount, if_pos hfits, hlen, hsplit, List.replicate_add, List.append_assoc,
        List.append_right_inj, eq_comm, eq_replicate_of_shift hP, and_iff_right hfits]
    · refine iff_of_false (fun heq => ?_) fun h => hfits h.1
      -- As long as the field or as the cut string, against width and string together.
      have hlength := congrArg List.length heq
      rw [length_fieldText, hlen, List.length_append, List.length_replicate, padCount, if_neg hfits] at hlength
      omega

/-- A string conversion follows width and precision exactly when the string is shorter than its field, if there is
one, and not longer than the precision, if there is one. -/
theorem conversionPrints_string (beyond : Nat) (width precision : Option Nat) (s : List UInt8)
    (htext : (fieldText (width.getD 0) (cutString precision s)).length < INT_MAX - 1) :
    ConversionPrints beyond (stringFormat width precision) (.str s)
        (fieldText (width.getD 0) (cutString precision s)) ↔
      (∀ P ∈ precision, s.length ≤ P) ∧ (width.getD 0 = 0 ∨ s.length < width.getD 0) ∨
        s.length < width.getD 0 ∧ ∀ c ∈ s, c = SPACE := by
  have hlength := htext
  rw [length_fieldText] at hlength
  have hmax : INT_MAX - 1 < 2 ^ 31 := by decide
  have hwidth : ∀ W ∈ width, W < 2 ^ 32 := by
    rintro W rfl
    rw [Option.getD_some] at hlength
    omega
  have hstep := stepText_string beyond hwidth precision s
  rcases Nat.lt_or_ge s.length (2 ^ 31) with hs | hs
  · have hconv : ConversionText beyond (stringFormat width precision) (.str s)
        (List.replicate (padCount (width.getD 0) s.length) SPACE ++ s) :=
      ⟨fun rest more => (hstep rest more).1, fun rest more => by rw [(hstep rest more).2]; exact hs⟩
    rw [hconv.prints_iff htext, padded_eq_fieldText]
  · refine iff_of_false (fun hprints => ?_) ?_
    · -- The record of a run of 2 GiB is full, a text that fits leaves room.
      obtain ⟨q, hq, hput⟩ := hprints recorder INT_MAX ⟨[], 0⟩ [] [] (by decide) (Nat.le_refl _)
        (Nat.zero_le _)
      have hrec : Recorded ⟨[], 0⟩ := rfl
      obtain ⟨text, htext', hcase⟩ := genStep_recorder (by decide) (Nat.le_refl _) (Nat.zero_le _) hrec hq
        hput.noError
      rw [(hstep [] []).1] at htext'
      obtain ⟨rfl, -⟩ := Prod.mk.inj (Option.some.inj htext')
      rcases hcase with hshort | hfull
      · rw [List.length_append] at hshort
        omega
      · rw [hput.output, Output.put_of_le (Nat.le_of_lt htext)] at hfull
        exact absurd htext (Nat.not_lt.mpr hfull)
    · rintro (⟨hcut, -⟩ | ⟨hfits, -⟩)
      · rw [cutString_of_le hcut] at hlength
        omega
      · omega

/-- `%5.3s` with two characters. -/
theorem conversionPrints_string_short :
    ConversionPrints 0 (stringFormat (some 5) (some 3)) (.str [0x61, 0x62])
      [SPACE, SPACE, SPACE, 0x61, 0x62] :=
  (conversionPrints_string 0 (some 5) (some 3) [0x61, 0x62] (by decide)).mpr (.inl ⟨by decide, .inr (by decide)⟩)

/-- `%3s` with three characters prints three spaces. -/
theorem not_conversionPrints_field :
    ¬ ConversionPrints 0 [PERCENT, 0x33, LETTER_s] (.str [0x61, 0x62, 0x63]) [0x61, 0x62, 0x63] := by
  have hconv : ConversionText 0 [PERCENT, 0x33, LETTER_s] (.str [0x61, 0x62, 0x63])
      [SPACE, SPACE, SPACE, 0x61, 0x62, 0x63] :=
    ⟨fun _ _ => rfl, fun _ _ => show 3 < 2 ^ 31 by decide⟩
  rw [hconv.prints_iff (by decide)]
  decide

end TalOS
