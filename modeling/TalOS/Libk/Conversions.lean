-- SUMMARY: What the integer and string conversions of the formatter print, against the rules of C.
import TalOS.Libk.Numbers
import TalOS.Libk.Rendering

/-!
# Conversions

A conversion is `%`, a field width, a precision, a length modifier and a letter.
For each of them there is the text that C asks for, and the exact condition
under which the formatter prints it.
-/

open MachineInt Bounded Numeral

namespace TalOS

/-! ## What a conversion prints -/

/-- A conversion with its argument prints `text`: wherever it stands in a format, whatever takes the
output, and as far as there is room. -/
def ConversionPrints (beyond : Nat) (conv : List UInt8) (arg : Arg) (text : List UInt8) : Prop :=
  ∀ ⦃σ : Type⦄ (S : Sink σ UInt8) (n : Nat) (o : Output σ) (rest : List UInt8) (more : List Arg),
    1 ≤ n → n ≤ INT_MAX → o.written ≤ n - 1 →
    ∃ q, genStep (sinkFun S) beyond n ⟨conv ++ rest, arg :: more⟩ o = some (⟨rest, more⟩, q) ∧
      Prints S n o text q

/-- The text of a conversion, of which no long run is copied at once. -/
structure ConversionText (beyond : Nat) (conv : List UInt8) (arg : Arg) (text : List UInt8) : Prop where
  stepText : ∀ rest more,
    stepText beyond ⟨conv ++ rest, arg :: more⟩ = some (text, ⟨rest, more⟩)
  run : ∀ rest more, turnRun beyond ⟨conv ++ rest, arg :: more⟩ < 2 ^ 31

section
variable {beyond : Nat} {conv : List UInt8} {arg : Arg} {text text' : List UInt8}

theorem ConversionText.prints (h : ConversionText beyond conv arg text) :
    ConversionPrints beyond conv arg text := by
  intro σ S n o rest more hone hn ho
  exact genStep_noWrap (h.stepText rest more) hone (Nat.lt_of_le_of_lt hn (by decide))
    (noWrap_of_le hn (h.run rest more) _ _) ho

/-- Two texts that are the same as far as an `int` counts are printed alike. -/
theorem ConversionText.prints_iff_take (h : ConversionText beyond conv arg text') :
    ConversionPrints beyond conv arg text ↔
      text.take (INT_MAX - 1) = text'.take (INT_MAX - 1) := by
  constructor
  · intro hprints
    obtain ⟨q, hq, hput⟩ := hprints recorder INT_MAX ⟨[], 0⟩ [] [] (by decide) (Nat.le_refl _)
      (Nat.zero_le _)
    obtain ⟨q', hq', hput'⟩ := h.prints recorder INT_MAX ⟨[], 0⟩ [] [] (by decide) (Nat.le_refl _)
      (Nat.zero_le _)
    obtain ⟨-, rfl⟩ := Prod.mk.inj (Option.some.inj (hq.symm.trans hq'))
    exact congrArg Output.sink (hput.output.symm.trans hput'.output)
  · intro htake σ S n o rest more hone hn ho
    obtain ⟨q, hq, hput⟩ := h.prints S n o rest more hone hn ho
    have hroom : n - 1 - o.written ≤ INT_MAX - 1 := by omega
    have hcut : text.take (n - 1 - o.written) = text'.take (n - 1 - o.written) := by
      have hcut' := congrArg (List.take (n - 1 - o.written)) htake
      rwa [List.take_take, List.take_take, Nat.min_eq_left hroom] at hcut'
    refine ⟨q, hq, ?_, hput.noError, hput.full⟩
    rw [hput.output, Output.put, Output.put, hcut]

/-- A text that an `int` can count is printed only by a conversion with that text. -/
theorem ConversionText.prints_iff (h : ConversionText beyond conv arg text')
    (htext : text.length < INT_MAX - 1) : ConversionPrints beyond conv arg text ↔ text = text' := by
  rw [h.prints_iff_take, List.take_of_length_le (Nat.le_of_lt htext)]
  constructor
  · intro htake
    have hlength := congrArg List.length htake
    rw [List.length_take] at hlength
    rw [htake, List.take_of_length_le (by omega)]
  · intro heq
    rw [← heq, List.take_of_length_le (Nat.le_of_lt htext)]

end

/-! ## Reading a conversion -/

/-- The length modifiers. -/
inductive LengthModifier where
  | none
  | long
  | longLong
deriving Repr, DecidableEq

def LengthModifier.text : LengthModifier → List UInt8
  | .none => []
  | .long => [LETTER_l]
  | .longLong => [LETTER_l, LETTER_l]

/-- The argument has the size that the modifier says. -/
def LengthModifier.Takes : LengthModifier → Arg → Prop
  | .none, .word _ | .long, .word _ | .longLong, .dword _ => True
  | _, _ => False

/-- The text the formatter makes of an integer argument. -/
def argText (conv : IntConv) : Arg → List UInt8
  | .word w => wordText conv w
  | .dword w => dwordText conv w
  | .str _ => []

/-- A field width as it is written; none is no text. -/
def widthText : Option Nat → List UInt8
  | none => []
  | some w => decimal w

/-- A precision as it is written. -/
def precisionText : Option Nat → List UInt8
  | none => []
  | some p => DOT :: decimal p

/-- What follows a number: no digit. -/
def EndsNumber (format : List UInt8) : Prop := ∀ c, format.head? = some c → isDigit c = false

section Scan

variable {beyond : Nat} {format tail : List UInt8}

theorem dropWhile_digits {digits : List UInt8} (hdigits : ∀ c ∈ digits, isDigit c = true)
    (htail : EndsNumber tail) : (digits ++ tail).dropWhile isDigit = tail := by
  rw [List.dropWhile_append_of_pos hdigits]
  cases tail with
  | nil => rfl
  | cons c tail =>
    rw [List.dropWhile_cons_of_neg]
    rw [htail c rfl]
    exact Bool.false_ne_true

/-- A numeral does not begin with a zero. -/
theorem decimal_eq_cons {w : Nat} (hw : 1 ≤ w) :
    ∃ c cs, decimal w = c :: cs ∧ isDigit c = true ∧ c ≠ ASCII_0 := by
  obtain ⟨d, hpos, hlt, hhead⟩ := @head?_numeral UInt8 10 w digitChar (by decide) hw
  obtain ⟨cs, hcs⟩ := List.head?_eq_some_iff.mp hhead
  refine ⟨digitChar d, cs, hcs, isDigit_digitChar d hlt, ?_⟩
  have hzero : ∀ d < 10, 0 < d → digitChar d ≠ ASCII_0 := by decide
  exact hzero d hlt hpos

/-- Zeros in front are counted, the number behind them is the width. -/
theorem scanWidth_decimal (zeros : Nat) {w : Nat} (hw : 1 ≤ w) (htail : EndsNumber tail) :
    scanWidth beyond (List.replicate zeros ASCII_0 ++ (decimal w ++ tail)) =
      (zeros, atou beyond (decimal w ++ tail), tail) := by
  obtain ⟨c, cs, hcs, hdigit, hne⟩ := decimal_eq_cons hw
  have hzeros : ∀ a ∈ List.replicate zeros ASCII_0, (a == ASCII_0) = true := by
    intro a ha
    rw [List.eq_of_mem_replicate ha]
    rfl
  have hstop : (c == ASCII_0) = false := beq_false_of_ne hne
  have htake : (decimal w ++ tail).takeWhile (· == ASCII_0) = [] := by
    simp [hcs, hstop]
  have hdrop : (decimal w ++ tail).dropWhile (· == ASCII_0) = decimal w ++ tail := by
    simp [hcs, hstop]
  have hfirst : ((List.replicate zeros ASCII_0 ++ (decimal w ++ tail)).head?.map isDigit).getD false =
      true := by
    cases zeros with
    | zero =>
      rw [List.replicate_zero, List.nil_append, hcs]
      exact hdigit
    | succ zeros => rfl
  unfold scanWidth
  dsimp only
  rw [if_pos hfirst, List.dropWhile_append_of_pos hzeros, List.takeWhile_append_of_pos hzeros, htake,
    hdrop, dropWhile_digits (fun c hc => isDigit_of_mem_decimal hc) htail, List.append_nil,
    List.length_replicate]

theorem scanWidth_none (htail : EndsNumber tail) : scanWidth beyond tail = (0, 0, tail) := by
  unfold scanWidth
  refine if_neg ?_
  cases tail with
  | nil => exact Bool.false_ne_true
  | cons c tail =>
    show ¬ isDigit c = true
    rw [htail c rfl]
    exact Bool.false_ne_true

/-- A width that is nothing but a `0`. -/
theorem scanWidth_zero (htail : EndsNumber tail) :
    (scanWidth beyond (decimal 0 ++ tail)).2 = (0, tail) := by
  have hzero : decimal 0 = [ASCII_0] := numeral_of_lt (by decide)
  have hvalue : atou beyond tail = 0 := by
    rw [← List.nil_append tail, atou_rest beyond htail]
    rfl
  have hfirst : (([ASCII_0] ++ tail).head?.map isDigit).getD false = true := rfl
  rw [hzero, scanWidth, if_pos hfirst]
  cases tail with
  | nil => exact Prod.ext hvalue rfl
  | cons c tail =>
    have hdigit := htail c rfl
    have hne : (c == ASCII_0) = false := by
      refine beq_false_of_ne ?_
      rintro rfl
      cases hdigit
    have hdrop : ([ASCII_0] ++ c :: tail).dropWhile (· == ASCII_0) = c :: tail := by simp [hne]
    have hdrop' : (c :: tail).dropWhile isDigit = c :: tail := by simp [hdigit]
    dsimp only
    rw [hdrop, hvalue, hdrop']

theorem scanWidth_text {width : Option Nat} (hwidth : ∀ w ∈ width, 1 ≤ w ∧ w < 2 ^ 32)
    (htail : EndsNumber tail) :
    scanWidth beyond (widthText width ++ tail) = (0, width.getD 0, tail) := by
  cases width with
  | none => exact scanWidth_none htail
  | some w =>
    obtain ⟨hpos, hlt⟩ := hwidth w rfl
    refine (scanWidth_decimal 0 hpos htail).trans ?_
    rw [atou_decimal beyond hlt htail]
    rfl

theorem scanPrecision_text {precision : Option Nat} (hprecision : ∀ p ∈ precision, p < 2 ^ 32)
    (htail : EndsNumber tail) (hdot : tail.head? ≠ some DOT) :
    scanPrecision beyond (precisionText precision ++ tail) = (precision.getD 0, tail) := by
  cases precision with
  | none => exact if_neg hdot
  | some p =>
    have hvalue := atou_decimal beyond (hprecision p rfl) htail
    have hdrop := dropWhile_digits (fun c hc => isDigit_of_mem_decimal (n := p) hc) htail
    unfold scanPrecision
    refine (if_pos rfl).trans ?_
    exact Prod.ext hvalue hdrop

theorem endsNumber_precision {precision : Option Nat} (htail : EndsNumber tail) :
    EndsNumber (precisionText precision ++ tail) := by
  cases precision with
  | none => exact htail
  | some p =>
    intro c hc
    rw [← Option.some.inj hc]
    rfl

/-- Width and precision are read as they are written. -/
theorem scanSpec_text {width precision : Option Nat} (hwidth : ∀ w ∈ width, 1 ≤ w ∧ w < 2 ^ 32)
    (hprecision : ∀ p ∈ precision, p < 2 ^ 32) (htail : EndsNumber tail)
    (hdot : tail.head? ≠ some DOT) :
    scanSpec beyond (widthText width ++ (precisionText precision ++ tail)) =
      (⟨0, width.getD 0, precision.getD 0⟩, tail) := by
  rw [scanSpec, scanWidth_text hwidth (endsNumber_precision htail)]
  dsimp only
  rw [scanPrecision_text hprecision htail hdot]

/-- The width alone, a single `0` included; a precision is passed over whatever it is. -/
theorem scanSpec_width (beyond : Nat) {width : Option Nat} (hwidth : ∀ w ∈ width, w < 2 ^ 32)
    (precision : Option Nat) (htail : EndsNumber tail) (hdot : tail.head? ≠ some DOT) :
    (scanSpec beyond (widthText width ++ (precisionText precision ++ tail))).1.width = width.getD 0 ∧
      (scanSpec beyond (widthText width ++ (precisionText precision ++ tail))).2 = tail := by
  have hends := @endsNumber_precision _ precision htail
  have hwidth' : (scanWidth beyond (widthText width ++ (precisionText precision ++ tail))).2 =
      (width.getD 0, precisionText precision ++ tail) := by
    match width with
    | none => exact congrArg Prod.snd (scanWidth_none hends)
    | some 0 => exact scanWidth_zero hends
    | some (w + 1) =>
      refine (congrArg Prod.snd (scanWidth_decimal 0 (Nat.succ_pos w) hends)).trans ?_
      rw [atou_decimal beyond (hwidth _ rfl) hends]
      rfl
  have hprecision : (scanPrecision beyond (precisionText precision ++ tail)).2 = tail := by
    cases precision with
    | none => exact congrArg Prod.snd (if_neg hdot)
    | some p =>
      refine (congrArg Prod.snd (if_pos rfl)).trans ?_
      exact dropWhile_digits (fun c hc => isDigit_of_mem_decimal hc) htail
  unfold scanSpec
  dsimp only
  rw [hwidth']
  exact ⟨rfl, hprecision⟩

/-- A `0` before the width. -/
theorem scanSpec_zero {w : Nat} (hw : 1 ≤ w) (htail : EndsNumber tail) (hdot : tail.head? ≠ some DOT) :
    scanSpec beyond (ASCII_0 :: (decimal w ++ tail)) = (⟨1, atou beyond (decimal w ++ tail), 0⟩, tail) := by
  rw [scanSpec, show ASCII_0 :: (decimal w ++ tail) = List.replicate 1 ASCII_0 ++ (decimal w ++ tail) from rfl,
    scanWidth_decimal 1 hw htail]
  dsimp only
  have hscan : scanPrecision beyond tail = (0, tail) := if_neg hdot
  rw [hscan]

/-- A conversion with width and precision is no `%%`. -/
theorem head?_width_precision {width precision : Option Nat} (htail : tail.head? ≠ some PERCENT) :
    (widthText width ++ (precisionText precision ++ tail)).head? ≠ some PERCENT := by
  have hdecimal : ∀ {n : Nat} {rest : List UInt8}, (decimal n ++ rest).head? ≠ some PERCENT := by
    intro n rest hhead
    obtain ⟨c, cs, hcs⟩ := List.exists_cons_of_ne_nil (show decimal n ≠ [] from numeral_ne_nil)
    have hdigit : isDigit c = true := isDigit_of_mem_decimal (by rw [hcs]; exact List.mem_cons_self)
    rw [hcs] at hhead
    rw [show c = PERCENT from Option.some.inj hhead] at hdigit
    cases hdigit
  cases width with
  | some w => exact hdecimal
  | none =>
    cases precision with
    | some p => exact fun h => nomatch h
    | none => exact htail

/-! ### The letters -/

theorem intConv_letter {letter : UInt8} {conv : IntConv} (h : intConv letter = some conv) :
    letter = 0x64 ∨ letter = 0x69 ∨ letter = 0x75 ∨ letter = 0x78 ∨ letter = 0x58 := by
  unfold intConv at h
  split at h
  · next hsigned => exact hsigned.elim .inl fun h => .inr (.inl h)
  · split at h
    · next hunsigned => exact .inr (.inr (.inl hunsigned))
    · split at h
      · next hhex => exact .inr (.inr (.inr hhex))
      · cases h

/-- A modifier and the letter of an integer conversion. -/
theorem scanConv_integer {m : LengthModifier} {letter : UInt8} {conv : IntConv} {arg : Arg}
    (hletter : intConv letter = some conv) (harg : m.Takes arg) (rest : List UInt8) (more : List Arg) :
    scanConv (m.text ++ letter :: rest) (arg :: more) =
      some (.number (argText conv arg), ⟨rest, more⟩) := by
  have hc : letter ≠ LETTER_c := by
    rintro rfl
    cases hletter
  have hs : letter ≠ LETTER_s := by
    rintro rfl
    cases hletter
  have hl : letter ≠ LETTER_l := by
    rintro rfl
    cases hletter
  have hl' : ¬ (letter :: rest).head? = some LETTER_l := fun h => hl (Option.some.inj h)
  match m, arg, harg with
  | .none, .word w, _ =>
    have hscan : scanConv (letter :: rest) (.word w :: more) =
        some (.number (wordText conv w), ⟨rest, more⟩) := by
      simp only [scanConv, if_neg hc, if_neg hs, if_neg hl, hletter, fetchWord, Option.map_some]
    exact hscan
  | .long, .word w, _ =>
    have hscan : scanConv (LETTER_l :: letter :: rest) (.word w :: more) =
        some (.number (wordText conv w), ⟨rest, more⟩) := by
      simp only [scanConv, if_neg hl', scanNumber, hletter, fetchWord, Option.map_some]
      rfl
    exact hscan
  | .longLong, .dword w, _ =>
    have hscan : scanConv (LETTER_l :: LETTER_l :: letter :: rest) (.dword w :: more) =
        some (.number (dwordText conv w), ⟨rest, more⟩) := by
      simp only [scanConv, List.head?_cons, List.tail_cons, scanNumber, hletter, fetchDword,
        Option.map_some]
      rfl
    exact hscan

/-- What stands behind width and precision of an integer conversion. -/
theorem endsNumber_integer {letter : UInt8} {conv : IntConv} (hletter : intConv letter = some conv)
    (m : LengthModifier) (rest : List UInt8) :
    EndsNumber (m.text ++ letter :: rest) ∧ (m.text ++ letter :: rest).head? ≠ some DOT ∧
      (m.text ++ letter :: rest).head? ≠ some PERCENT := by
  cases m with
  | none =>
    show (∀ c, some letter = some c → isDigit c = false) ∧ some letter ≠ some DOT ∧
      some letter ≠ some PERCENT
    rcases intConv_letter hletter with rfl | rfl | rfl | rfl | rfl <;>
      exact ⟨fun c hc => Option.some.inj hc ▸ rfl, by decide, by decide⟩
  | long | longLong =>
    show (∀ c, some LETTER_l = some c → isDigit c = false) ∧ some LETTER_l ≠ some DOT ∧
      some LETTER_l ≠ some PERCENT
    exact ⟨fun c hc => Option.some.inj hc ▸ rfl, by decide, by decide⟩

end Scan

end TalOS
