-- SUMMARY: Text of numbers and back: `atou`, `ulitoa`, `ullitoa`, `litoa`.
import TalOS.Lib.MachineInt

/-!
# Numbers as text

The conversions of `atoi.c` and `itoa.c` that the formatter uses. A string is
the list of its bytes before the terminating NUL; a number is written into a
buffer of zeros, so the bytes written are the string that is left in it.
-/

open MachineInt

namespace TalOS

/-! ## `atoi.c` -/

def ASCII_0 : UInt8 := 0x30
def ASCII_9 : UInt8 := 0x39
def ASCII_A : UInt8 := 0x41
def ASCII_MINUS : UInt8 := 0x2d

def isDigit (c : UInt8) : Bool := ASCII_0 ≤ c && c ≤ ASCII_9

/-- `dec_pow`, followed in memory by the word `beyond`. -/
def decPow (beyond i : Nat) : Nat :=
  ([1, 10, 100, 1000, 10000, 100000, 1000000, 10000000, 100000000, 1000000000][i]?).getD beyond

/-- The digit-counting loop: at most `limit` leading digits. -/
def countDigits : Nat → List UInt8 → Nat
  | 0, _ => 0
  | _, [] => 0
  | limit + 1, c :: cs => if isDigit c then countDigits limit cs + 1 else 0

/-- `atou`. It reads up to eleven digits, one more than `dec_pow` has entries. -/
def atou (beyond : Nat) (input : List UInt8) : Nat :=
  let digits := countDigits 11 input
  (List.range digits).foldl
    (fun toRet i =>
      u32 (toRet + ((input.getD (digits - i - 1) 0).toNat - ASCII_0.toNat) * decPow beyond i)) 0

/-! ## `itoa.c` -/

def BASE_MAX : Nat := 32

/-- One exchange of `reverse_buffer`. -/
def swapEnds (len : Nat) (buf : List UInt8) (i : Nat) : List UInt8 :=
  (buf.set i (buf.getD (len - i - 1) 0)).set (len - i - 1) (buf.getD i 0)

def reverseBuffer (buf : List UInt8) : List UInt8 :=
  (List.range (buf.length / 2)).foldl (swapEnds buf.length) buf

/-- The do-while loop of `ulitoa` and `ullitoa`, least significant digit first.
For a base of at least 2 a 64-bit number has at most 64 digits. -/
def digitLoop (base : Nat) : Nat → Nat → List UInt8 → List UInt8
  | 0, _, buffer => buffer
  | fuel + 1, n, buffer =>
    let rem := n % base
    let next := fun digit =>
      if n / base ≠ 0 then digitLoop base fuel (n / base) (buffer ++ [digit]) else buffer ++ [digit]
    if rem ≤ 9 then next (rem.toUInt8 + ASCII_0)
    else if rem < BASE_MAX then next (rem.toUInt8 - 10 + ASCII_A)
    else buffer

/-- `ulitoa`: `unsigned long` is 32 bits wide. -/
def ulitoa (input base : Nat) : List UInt8 := reverseBuffer (digitLoop base 64 (u32 input) [])

def ullitoa (input base : Nat) : List UInt8 := reverseBuffer (digitLoop base 64 (u64 input) [])

/-- `litoa`: the minimum keeps its magnitude, the negation wraps. -/
def litoa (input : Int) (base : Nat) : List UInt8 :=
  if input < 0 then ASCII_MINUS :: ulitoa ((-input % 2 ^ 32).toNat) base
  else ulitoa ((input % 2 ^ 32).toNat) base

example : litoa (-2147483648) 10 = [45, 50, 49, 52, 55, 52, 56, 51, 54, 52, 56] := by decide

end TalOS
