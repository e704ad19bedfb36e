-- SUMMARY: `ulitoa`, `ullitoa`, `litoa` and `llitoa` in memory: they write the numeral and nothing else.
import TalOS.Lib.Memory
import TalOS.Libk.Numbers

/-!
# `libk/itoa.c` in memory

The digits are stored from the buffer's start on, the least significant one first,
and then exchanged in place. The counter of the digits has eight bits. The 32-bit
and the 64-bit functions differ in the width of their argument only.
-/

open MachineInt Memory Numeral

namespace TalOS

/-! ## The code -/

/-- One exchange of `reverse_buffer`. -/
def swapEndsAt (buf len : Nat) (mem : Nat → UInt8) (i : Nat) : Nat → UInt8 :=
  let temp := mem (u32 (buf + i))
  let mem' := writeAt mem (u32 (buf + i)) [mem (u32 (buf + (len - i - 1)))]
  writeAt mem' (u32 (buf + (len - i - 1))) [temp]

/-- `reverse_buffer` -/
def reverseBufferAt (buf len : Nat) (mem : Nat → UInt8) : Nat → UInt8 :=
  (List.range (len / 2)).foldl (swapEndsAt buf len) mem

/-- The do-while loop: the counter and the memory it leaves. -/
def digitLoopAt (buffer base : Nat) : Nat → Nat → Nat → (Nat → UInt8) → Option (Nat × (Nat → UInt8))
  | 0, _, _, _ => none
  | fuel + 1, n, count, mem =>
    let rem := n % base
    let next := fun digit =>
      let mem' := writeAt mem (u32 (buffer + count)) [digit]
      if n / base ≠ 0 then digitLoopAt buffer base fuel (n / base) (u8 (count + 1)) mem'
      else some (u8 (count + 1), mem')
    if rem ≤ 9 then next (rem.toUInt8 + ASCII_0)
    else if rem < BASE_MAX then next (rem.toUInt8 - 10 + ASCII_A)
    else some (count, mem)

/-- The body that `ulitoa` and `ullitoa` have in common. For a base of at least 2 a 64-bit number has at most
64 digits. -/
def writeDigits (n buffer base : Nat) (mem : Nat → UInt8) : Option (Nat → UInt8) :=
  (digitLoopAt buffer base 64 n 0 mem).map fun r => reverseBufferAt buffer r.1 r.2

/-- `ulitoa` -/
def ulitoaAt (input buffer base : Nat) (mem : Nat → UInt8) : Option (Nat → UInt8) :=
  writeDigits (u32 input) buffer base mem

/-- `ullitoa` -/
def ullitoaAt (input buffer base : Nat) (mem : Nat → UInt8) : Option (Nat → UInt8) :=
  writeDigits (u64 input) buffer base mem

/-- `litoa`: the negation wraps. -/
def litoaAt (input : Int) (buffer base : Nat) (mem : Nat → UInt8) : Option (Nat → UInt8) :=
  if input < 0 then
    ulitoaAt (-input % 2 ^ 32).toNat (u32 (buffer + 1)) base (writeAt mem buffer [ASCII_MINUS])
  else ulitoaAt (input % 2 ^ 32).toNat buffer base mem

/-- `llitoa` -/
def llitoaAt (input : Int) (buffer base : Nat) (mem : Nat → UInt8) : Option (Nat → UInt8) :=
  if input < 0 then
    ullitoaAt (-input % 2 ^ 64).toNat (u32 (buffer + 1)) base (writeAt mem buffer [ASCII_MINUS])
  else ullitoaAt (input % 2 ^ 64).toNat buffer base mem

/-! ## The exchanges -/

section

variable {buf buffer base : Nat} {mem : Nat → UInt8} {l : List UInt8}

/-- An exchange in memory is one in the list that is stored there. -/
theorem swapEndsAt_writeAt {i : Nat} (hi : i < l.length / 2) (hfits : buf + l.length ≤ 2 ^ 32) :
    swapEndsAt buf l.length (writeAt mem buf l) i = writeAt mem buf (swapEnds l.length l i) := by
  have hfirst : i < l.length := by omega
  have hlast : l.length - i - 1 < l.length := by omega
  have haddr {j : Nat} (hj : j < l.length) : u32 (buf + j) = buf + j := u32_of_lt (by omega)
  rw [swapEndsAt, haddr hfirst, haddr hlast, writeAt_getElem hfirst, writeAt_getElem hlast,
    writeAt_set mem buf hfirst, writeAt_set mem buf (by rwa [List.length_set]), swapEnds,
    List.getD_eq_getElem _ _ hfirst, List.getD_eq_getElem _ _ hlast]

theorem foldl_swapEndsAt (hfits : buf + l.length ≤ 2 ^ 32) {k : Nat} (hk : k ≤ l.length / 2) :
    (List.range k).foldl (swapEndsAt buf l.length) (writeAt mem buf l) =
      writeAt mem buf ((List.range k).foldl (swapEnds l.length) l) := by
  induction k with
  | zero => rfl
  | succ k ih =>
    have hlength := (foldl_swapEnds l (Nat.le_of_succ_le hk)).1
    rw [List.range_succ, List.foldl_append, List.foldl_append, ih (Nat.le_of_succ_le hk)]
    generalize (List.range k).foldl (swapEnds l.length) l = cells at hlength ⊢
    rw [List.foldl_cons, List.foldl_nil, List.foldl_cons, List.foldl_nil, ← hlength]
    exact swapEndsAt_writeAt (hlength ▸ hk) (hlength ▸ hfits)

theorem reverseBufferAt_writeAt (mem : Nat → UInt8) (hfits : buf + l.length ≤ 2 ^ 32) :
    reverseBufferAt buf l.length (writeAt mem buf l) = writeAt mem buf l.reverse := by
  rw [reverseBufferAt, foldl_swapEndsAt hfits (Nat.le_refl _), ← reverseBuffer, reverseBuffer_eq]

/-! ## The digits -/

/-- One turn of the loop stores one digit. -/
theorem digitLoopAt_succ (hmax : base ≤ BASE_MAX) (hbase : 1 < base) {fuel n : Nat}
    (hcount : l.length + 1 < 2 ^ 8) (haddr : buffer + l.length < 2 ^ 32) :
    digitLoopAt buffer base (fuel + 1) n l.length (writeAt mem buffer l) =
      if n / base ≠ 0 then
        digitLoopAt buffer base fuel (n / base) (l ++ [digitChar (n % base)]).length
          (writeAt mem buffer (l ++ [digitChar (n % base)]))
      else some ((l ++ [digitChar (n % base)]).length, writeAt mem buffer (l ++ [digitChar (n % base)])) := by
  have hrem : n % base < BASE_MAX := Nat.lt_of_lt_of_le (Nat.mod_lt n (by omega)) hmax
  rw [digitLoopAt, digitChar]
  simp only [u32_of_lt haddr, u8_of_lt hcount, writeAt_concat, List.length_append, List.length_singleton]
  rw [if_pos hrem]
  split <;> rfl

/-- The loop stores the digits of `n` behind those that are there. -/
theorem digitLoopAt_eq (hbase : 1 < base) (hmax : base ≤ BASE_MAX) {fuel n : Nat} (hn : n < base ^ fuel)
    (hfuel : 0 < fuel) (hcount : l.length + fuel < 2 ^ 8)
    (hfits : buffer + (l ++ (digitsOf base n).map digitChar).length ≤ 2 ^ 32) :
    digitLoopAt buffer base fuel n l.length (writeAt mem buffer l) =
      some ((l ++ (digitsOf base n).map digitChar).length,
        writeAt mem buffer (l ++ (digitsOf base n).map digitChar)) := by
  induction fuel generalizing n l with
  | zero => cases hfuel
  | succ fuel ih =>
    rcases Nat.lt_or_ge n base with hlt | hge
    · rw [digitsOf_of_lt hlt, List.map_singleton] at hfits ⊢
      have haddr : buffer + l.length < 2 ^ 32 := by
        rw [List.length_append, List.length_singleton] at hfits
        omega
      rw [digitLoopAt_succ hmax hbase (by omega) haddr, Nat.div_eq_of_lt hlt, Nat.mod_eq_of_lt hlt,
        if_neg (not_not_intro rfl)]
    · have hdiv : 0 < n / base := Nat.div_pos hge (by omega)
      obtain ⟨hquot, hfuel'⟩ := div_lt_pow hge hn
      have hsplit : l ++ (digitsOf base n).map digitChar =
          l ++ [digitChar (n % base)] ++ (digitsOf base (n / base)).map digitChar := by
        rw [digitsOf_of_le hbase hge, List.append_assoc]
        rfl
      have haddr : buffer + l.length < 2 ^ 32 := by
        rw [hsplit, List.length_append, List.length_append, List.length_singleton] at hfits
        omega
      have hcount' : (l ++ [digitChar (n % base)]).length + fuel < 2 ^ 8 := by
        rw [List.length_append, List.length_singleton]
        omega
      rw [hsplit] at hfits ⊢
      rw [digitLoopAt_succ hmax hbase (by omega) haddr, if_pos (Nat.ne_of_gt hdiv)]
      exact ih hquot hfuel' hcount' hfits

/-- The common body writes the numeral of its argument. -/
theorem writeDigits_eq (hbase : 1 < base) (hmax : base ≤ BASE_MAX) {n : Nat} (hn : n < 2 ^ 64)
    (mem : Nat → UInt8) (hfits : buffer + (numeral digitChar base n).length ≤ 2 ^ 32) :
    writeDigits n buffer base mem = some (writeAt mem buffer (numeral digitChar base n)) := by
  have hlength : (numeral digitChar base n).length = ((digitsOf base n).map digitChar).length := by
    rw [numeral, List.length_map, List.length_reverse, List.length_map]
  rw [hlength] at hfits
  have hloop : digitLoopAt buffer base 64 n 0 (writeAt mem buffer []) =
      some (((digitsOf base n).map digitChar).length, writeAt mem buffer ((digitsOf base n).map digitChar)) :=
    digitLoopAt_eq (l := []) hbase hmax (lt_pow_of_lt hbase hn) (by decide) (by decide) hfits
  rw [writeAt_nil] at hloop
  rw [writeDigits, hloop, Option.map_some, reverseBufferAt_writeAt mem hfits, numeral, List.map_reverse]

/-- The text that is left in memory is the one that `ulitoa` stands for. -/
theorem ulitoaAt_eq (hbase : 1 < base) (hmax : base ≤ BASE_MAX) (input : Nat) (mem : Nat → UInt8)
    (hfits : buffer + (ulitoa input base).length ≤ 2 ^ 32) :
    ulitoaAt input buffer base mem = some (writeAt mem buffer (ulitoa input base)) := by
  rw [ulitoa_eq hbase hmax] at hfits ⊢
  exact writeDigits_eq hbase hmax (Nat.lt_trans (u32_lt input) (by decide)) mem hfits

theorem ullitoaAt_eq (hbase : 1 < base) (hmax : base ≤ BASE_MAX) (input : Nat) (mem : Nat → UInt8)
    (hfits : buffer + (ullitoa input base).length ≤ 2 ^ 32) :
    ullitoaAt input buffer base mem = some (writeAt mem buffer (ullitoa input base)) := by
  rw [ullitoa_eq hbase hmax] at hfits ⊢
  exact writeDigits_eq hbase hmax (Nat.mod_lt _ (by decide)) mem hfits

/-! ## Positional notation -/

theorem hexDigitValue_digitChar_lt : ∀ d < 32, hexDigitValue (digitChar d) = d := by decide

theorem digitChar_ne_minus_of_lt : ∀ d < 32, digitChar d ≠ ASCII_MINUS := by decide

/-- The number that a text stands for, with a sign in front or without. -/
def signedValue (base : Nat) (text : List UInt8) : Int :=
  if text.head? = some ASCII_MINUS then -(valueOf hexDigitValue base text.tail : Nat)
  else (valueOf hexDigitValue base text : Nat)

/-- A run of a conversion leaves the digits of `n` in the memory from `buffer` on, and changes nothing else. -/
def WritesNumeral (base n buffer : Nat) (mem : Nat → UInt8) (run : Option (Nat → UInt8)) : Prop :=
  ∃ text, IsNumeral digitChar hexDigitValue base n text ∧
    (buffer + text.length ≤ 2 ^ 32 → run = some (writeAt mem buffer text))

/-- The same with a minus sign in front of the magnitude of a negative number. -/
def WritesInteger (base : Nat) (v : Int) (buffer : Nat) (mem : Nat → UInt8) (run : Option (Nat → UInt8)) : Prop :=
  ∃ digits, IsNumeral digitChar hexDigitValue base v.natAbs digits ∧
    signedValue base (signChars v ++ digits) = v ∧
    (buffer + (signChars v ++ digits).length ≤ 2 ^ 32 → run = some (writeAt mem buffer (signChars v ++ digits)))

theorem isNumeral_digitChar (hbase : 1 < base) (hmax : base ≤ BASE_MAX) (n : Nat) :
    IsNumeral digitChar hexDigitValue base n (numeral digitChar base n) :=
  isNumeral_numeral hbase (fun d hd => hexDigitValue_digitChar_lt d (Nat.lt_of_lt_of_le hd hmax)) n

/-- The sign is told from the digits. -/
theorem signedValue_signChars_append {v : Int} {digits : List UInt8} (hmax : base ≤ BASE_MAX)
    (h : IsNumeral digitChar hexDigitValue base v.natAbs digits) :
    signedValue base (signChars v ++ digits) = v := by
  have hvalue := h.value_eq
  unfold signedValue signChars
  by_cases hneg : v < 0
  · rw [if_pos hneg, List.singleton_append, List.head?_cons, if_pos rfl, List.tail_cons, hvalue]
    omega
  · have hhead : digits.head? ≠ some ASCII_MINUS := by
      intro heq
      obtain ⟨d, hd, hminus⟩ := h.digits _ (List.mem_of_mem_head? heq)
      exact digitChar_ne_minus_of_lt d (Nat.lt_of_lt_of_le hd hmax) hminus.symm
    rw [if_neg hneg, List.nil_append, if_neg hhead, hvalue]
    omega

/-- What a signed conversion has to do: the common body over the magnitude, behind a minus sign or not. -/
theorem writesInteger (hbase : 1 < base) (hmax : base ≤ BASE_MAX) {v : Int} {run : Option (Nat → UInt8)}
    (hv : v.natAbs < 2 ^ 64)
    (hneg : v < 0 → run = writeDigits v.natAbs (u32 (buffer + 1)) base (writeAt mem buffer [ASCII_MINUS]))
    (hpos : ¬ v < 0 → run = writeDigits v.natAbs buffer base mem) : WritesInteger base v buffer mem run := by
  have hnumeral := isNumeral_digitChar hbase hmax v.natAbs
  refine ⟨_, hnumeral, signedValue_signChars_append hmax hnumeral, fun hfits => ?_⟩
  unfold signChars at hfits ⊢
  by_cases hsign : v < 0
  · have hdigits : 0 < (numeral digitChar base v.natAbs).length := length_numeral_pos
    rw [if_pos hsign, List.length_append, List.length_singleton] at hfits
    rw [hneg hsign, if_pos hsign, u32_of_lt (by omega), writeDigits_eq hbase hmax hv _ (by omega)]
    exact congrArg some (writeAt_append mem buffer [ASCII_MINUS] _)
  · rw [if_neg hsign, List.nil_append] at hfits
    rw [hpos hsign, if_neg hsign, List.nil_append]
    exact writeDigits_eq hbase hmax hv mem hfits

end

/-- For every base from 2 to 32, every input of either width and every buffer. -/
theorem itoa_positional (mem : Nat → UInt8) (buffer base : Nat) (hbase : 2 ≤ base) (hmax : base ≤ BASE_MAX) :
    (∀ n < 2 ^ 32, WritesNumeral base n buffer mem (ulitoaAt n buffer base mem)) ∧
      (∀ n < 2 ^ 64, WritesNumeral base n buffer mem (ullitoaAt n buffer base mem)) ∧
      (∀ v : Int, -2 ^ 31 ≤ v → v < 2 ^ 31 → WritesInteger base v buffer mem (litoaAt v buffer base mem)) ∧
      (∀ v : Int, -2 ^ 63 ≤ v → v < 2 ^ 63 → WritesInteger base v buffer mem (llitoaAt v buffer base mem)) := by
  refine ⟨fun n hn => ?_, fun n hn => ?_, fun v hlow hhigh => ?_, fun v hlow hhigh => ?_⟩
  · refine ⟨_, isNumeral_digitChar hbase hmax n, fun hfits => ?_⟩
    rw [ulitoaAt, u32_of_lt hn]
    exact writeDigits_eq hbase hmax (Nat.lt_trans hn (by decide)) mem hfits
  · refine ⟨_, isNumeral_digitChar hbase hmax n, fun hfits => ?_⟩
    rw [ullitoaAt, u64_of_lt hn]
    exact writeDigits_eq hbase hmax hn mem hfits
  -- Negating the minimum wraps to its magnitude, in either width.
  · refine writesInteger hbase hmax (by omega) (fun hneg => ?_) fun hpos => ?_
    · have hmagnitude : u32 (-v % 2 ^ 32).toNat = v.natAbs := by
        unfold u32
        omega
      rw [litoaAt, if_pos hneg, ulitoaAt, hmagnitude]
    · have hmagnitude : u32 (v % 2 ^ 32).toNat = v.natAbs := by
        unfold u32
        omega
      rw [litoaAt, if_neg hpos, ulitoaAt, hmagnitude]
  · refine writesInteger hbase hmax (by omega) (fun hneg => ?_) fun hpos => ?_
    · have hmagnitude : u64 (-v % 2 ^ 64).toNat = v.natAbs := by
        unfold u64
        omega
      rw [llitoaAt, if_pos hneg, ullitoaAt, hmagnitude]
    · have hmagnitude : u64 (v % 2 ^ 64).toNat = v.natAbs := by
        unfold u64
        omega
      rw [llitoaAt, if_neg hpos, ullitoaAt, hmagnitude]

/-- The minimum of 32 bits in base 32, at the end of memory. -/
theorem itoa_positional_minimum :
    WritesInteger 32 (-2147483648) 4294967288 (fun _ => 0) (litoaAt (-2147483648) 4294967288 32 fun _ => 0) :=
  (itoa_positional (fun _ => 0) 4294967288 32 (by decide) (by decide)).2.2.1 _ (by decide) (by decide)

end TalOS
