-- SUMMARY: The formatter `gen_printf` behind the printf family, over any copy function.
import TalOS.Lib.Output
import TalOS.Libk.Stdlib

/-!
# `gen_printf`

The formatter walks the format string and hands every piece of text to a copy
function together with the position it goes to. The format is the list of its
bytes up to the terminating NUL, the arguments are the list of the values still
to be fetched. A run that has no defined meaning in C (an argument of another
type, a cursor moved past the NUL, a copy longer than its source) has no result.
-/

open MachineInt Bounded

namespace TalOS

variable {σ : Type}

def INT_MAX : Nat := 2 ^ 31 - 1
def UINT_MAX : Nat := 2 ^ 32 - 1

def SPACE : UInt8 := 0x20
def PERCENT : UInt8 := 0x25
def DOT : UInt8 := 0x2e
def NUL : UInt8 := 0

/-! ## Sinks -/

/-- `copy_fun_t` on what lies behind `buff_out`, the offset into it and the bytes
to copy; whether it returned its destination, as every caller checks. -/
abbrev CopyFun (σ : Type) := σ → Nat → List UInt8 → σ × Bool

/-- `memcpy` into the memory from `buff_out` on. -/
def memcpyFun : CopyFun (Nat → UInt8) := fun mem start bytes => (Memory.writeAt mem start bytes, true)

/-- How a piece of the formatter ends: carry on, leave the main loop, return -1. -/
inductive Exit where
  | go
  | stop
  | error
deriving Repr, DecidableEq

/-- `cpy_fun(buff_out + written, bytes, len)`, then `written += len`. -/
def copyOut (cpyFun : CopyFun σ) (bytes : List UInt8) (o : Output σ) (exit : Exit) :
    Output σ × Exit :=
  let r := cpyFun o.sink o.written bytes
  if r.2 then (⟨r.1, u32 (o.written + bytes.length)⟩, exit) else (⟨r.1, o.written⟩, .error)

/-- Run the rest of a function unless this part has already returned. -/
def andThen (r : Output σ × Exit) (rest : Output σ → Output σ × Exit) : Output σ × Exit :=
  match r.2 with
  | .go => rest r.1
  | .stop => r
  | .error => r

/-! ## Pieces of output -/

/-- One byte, if there is room for it and the NUL. -/
def emitByte (cpyFun : CopyFun σ) (maxWrite : Nat) (byte : UInt8) (o : Output σ) :
    Output σ × Exit :=
  if u32 (o.written + 2) > maxWrite then (o, .stop) else copyOut cpyFun [byte] o .go

/-- The padding loops: `count` times the same byte. -/
def padLoop (cpyFun : CopyFun σ) (maxWrite : Nat) (byte : UInt8) :
    Nat → Output σ → Output σ × Exit
  | 0, o => (o, .go)
  | count + 1, o =>
    andThen (emitByte cpyFun maxWrite byte o) (padLoop cpyFun maxWrite byte count)

/-- A run of text, cut to what is left of `n`. -/
def emitRun (cpyFun : CopyFun σ) (n maxrem : Nat) (bytes : List UInt8) (o : Output σ) :
    Option (Output σ × Exit) :=
  if maxrem < bytes.length then some (o, .error)
  else if u32 (o.written + bytes.length + 1) > n then
    let len := sub32 (sub32 n o.written) 1
    if len ≤ bytes.length then some (copyOut cpyFun (bytes.take len) o .stop) else none
  else some (copyOut cpyFun bytes o .go)

/-! ## Numbers -/

def MAX_STR_NUM : Nat := 41

/-- `(ssize_t)value > 0 ? (ssize_t)value : 0` -/
def clampSigned (value : Nat) : Int := if int32 value > 0 then int32 value else 0

/-- Spaces before the number: what the width leaves beside precision, sign and digits. -/
def spaceCount (intWidth intPrecision len : Int) (strNum : List UInt8) : Nat :=
  if intPrecision > 0 then
    (if strNum.head? = some ASCII_MINUS then intWidth - intPrecision - 1
      else intWidth - intPrecision).toNat
  else (intWidth - len).toNat

/-- Whether `print_number` writes the sign apart and fills up to the precision. -/
def needsZeros (intPrecision len : Int) (strNum : List UInt8) : Bool :=
  intPrecision > len || (strNum.head? = some ASCII_MINUS && intPrecision + 1 > len)

/-- The sign, where the number has one. -/
def emitSign (cpyFun : CopyFun σ) (maxWrite : Nat) (strNum : List UInt8) (o : Output σ) :
    Output σ × Exit :=
  if strNum.head? = some ASCII_MINUS then emitByte cpyFun maxWrite ASCII_MINUS o else (o, .go)

/-- The digits behind a sign. -/
def skipSign (strNum : List UInt8) : List UInt8 :=
  if strNum.head? = some ASCII_MINUS then strNum.tail else strNum

/-- The precision loop leaves by `break` where the others return. -/
def breaks (r : Output σ × Exit) : Output σ × Exit :=
  match r.2 with
  | .stop => (r.1, .go)
  | .go => r
  | .error => r

/-- `andThen` for a rest that may itself have no defined result. -/
def thenRun (r : Output σ × Exit) (rest : Output σ → Option (Output σ × Exit)) :
    Option (Output σ × Exit) :=
  match r.2 with
  | .go => rest r.1
  | .stop => some r
  | .error => some r

/-- `print_number` -/
def printNumber (cpyFun : CopyFun σ) (strNum : List UInt8) (precision width zeroPad maxWrite : Nat)
    (maxrem : Nat) (o : Output σ) : Option (Output σ × Exit) :=
  let strNum := strNum.take MAX_STR_NUM
  let len := strNum.length
  let intWidth := clampSigned width
  let intPrecision := clampSigned precision
  let zeroPad := if len ≥ intWidth then 0 else zeroPad
  thenRun (padLoop cpyFun maxWrite ASCII_0 zeroPad o) fun o =>
  thenRun (padLoop cpyFun maxWrite SPACE
    (spaceCount (intWidth - zeroPad) intPrecision len strNum) o) fun o =>
  if needsZeros intPrecision len strNum then
    let digits := skipSign strNum
    thenRun (emitSign cpyFun maxWrite strNum o) fun o =>
    thenRun (breaks (padLoop cpyFun maxWrite ASCII_0
      (intPrecision - digits.length).toNat o)) fun o =>
    emitRun cpyFun maxWrite maxrem digits o
  else emitRun cpyFun maxWrite maxrem strNum o

/-! ## Conversions -/

/-- An argument as `va_arg` fetches it on IA32: `int` and `long` are the same
32-bit word; a string is the list of its bytes before the NUL. -/
inductive Arg where
  | word (w : UInt32)
  | dword (w : UInt64)
  | str (s : List UInt8)
deriving Repr, DecidableEq

/-- The part of the format not yet read and the arguments not yet fetched. -/
structure Cursor where
  format : List UInt8
  parameters : List Arg
deriving Repr, DecidableEq

/-- The prefix of a conversion up to its letter. -/
structure Spec where
  zeroPad : Nat
  width : Nat
  precision : Nat
deriving Repr, DecidableEq

/-- Zeros and width of a conversion: what it reads, and the format behind it. -/
def scanWidth (beyond : Nat) (format : List UInt8) : Nat × Nat × List UInt8 :=
  if (format.head?.map isDigit).getD false then
    let afterZeros := format.dropWhile (· == ASCII_0)
    ((format.takeWhile (· == ASCII_0)).length, atou beyond afterZeros, afterZeros.dropWhile isDigit)
  else (0, 0, format)

def scanPrecision (beyond : Nat) (format : List UInt8) : Nat × List UInt8 :=
  if format.head? = some DOT then (atou beyond format.tail, format.tail.dropWhile isDigit)
  else (0, format)

/-- The conversion prefix behind `%`, and the format from the conversion letter on. -/
def scanSpec (beyond : Nat) (format : List UInt8) : Spec × List UInt8 :=
  let w := scanWidth beyond format
  let p := scanPrecision beyond w.2.2
  (⟨w.1, w.2.1, p.1⟩, p.2)

/-- Conversion letters of the integer conversions. -/
inductive IntConv where
  | signed
  | unsigned
  | hex
deriving Repr, DecidableEq

def intConv (letter : UInt8) : Option IntConv :=
  if letter = 0x64 ∨ letter = 0x69 then some .signed
  else if letter = 0x75 then some .unsigned
  else if letter = 0x78 ∨ letter = 0x58 then some .hex
  else none

/-- The text of a 32-bit argument. -/
def wordText (conv : IntConv) (w : UInt32) : List UInt8 :=
  match conv with
  | .signed => litoa (int32 w.toNat) 10
  | .unsigned => ulitoa w.toNat 10
  | .hex => ulitoa w.toNat 16

/-- The text of a 64-bit argument; a signed one goes through `litoa`, whose
parameter is 32 bits wide. -/
def dwordText (conv : IntConv) (w : UInt64) : List UInt8 :=
  match conv with
  | .signed => litoa (int32 (u32 w.toNat)) 10
  | .unsigned => ullitoa w.toNat 10
  | .hex => ullitoa w.toNat 16

def fetchWord (conv : IntConv) : List Arg → Option (List UInt8 × List Arg)
  | .word w :: rest => some (wordText conv w, rest)
  | _ => none

def fetchDword (conv : IntConv) : List Arg → Option (List UInt8 × List Arg)
  | .dword w :: rest => some (dwordText conv w, rest)
  | _ => none

def LETTER_c : UInt8 := 0x63
def LETTER_l : UInt8 := 0x6c
def LETTER_s : UInt8 := 0x73

/-- The number behind `l` or `ll`: one character is skipped whatever it is, and
without a conversion letter there is no number and no argument is fetched. -/
def scanNumber (fetch : IntConv → List Arg → Option (List UInt8 × List Arg)) (format : List UInt8)
    (parameters : List Arg) : Option (List UInt8 × Cursor) :=
  match format with
  | [] => none
  | letter :: format =>
    match intConv letter with
    | some conv => (fetch conv parameters).map fun r => (r.1, ⟨format, r.2⟩)
    | none => some ([], ⟨format, parameters⟩)

/-- What a conversion turns out to be. -/
inductive Conv where
  | char (c : UInt8)
  | str (s : List UInt8)
  | number (strNum : List UInt8)
  | unknown
deriving Repr, DecidableEq

/-- The dispatch on the conversion letter: the conversion with its argument, and
the cursor behind it. -/
def scanConv (format : List UInt8) (parameters : List Arg) : Option (Conv × Cursor) :=
  match format with
  | [] => some (.unknown, ⟨[], parameters⟩)
  | letter :: format =>
    if letter = LETTER_c then
      match parameters with
      | .word w :: rest => some (.char w.toNat.toUInt8, ⟨format, rest⟩)
      | _ => none
    else if letter = LETTER_s then
      match parameters with
      | .str s :: rest => some (.str s, ⟨format, rest⟩)
      | _ => none
    else if letter = LETTER_l then
      if format.head? = some LETTER_l then
        (scanNumber fetchDword format.tail parameters).map fun r => (.number r.1, r.2)
      else (scanNumber fetchWord format parameters).map fun r => (.number r.1, r.2)
    else
      match intConv letter with
      | some conv => (fetchWord conv parameters).map fun r => (.number r.1, ⟨format, r.2⟩)
      | none => some (.unknown, ⟨[], parameters⟩)

/-- What the dispatch can read, by the letters: a conversion and the cursor behind it. -/
inductive Scans (parameters : List Arg) : List UInt8 → Conv → Cursor → Prop where
  | char {w : UInt32} {rest : List Arg} {format : List UInt8} (hargs : parameters = .word w :: rest) :
      Scans parameters (LETTER_c :: format) (.char w.toNat.toUInt8) ⟨format, rest⟩
  | str {s : List UInt8} {rest : List Arg} {format : List UInt8} (hargs : parameters = .str s :: rest) :
      Scans parameters (LETTER_s :: format) (.str s) ⟨format, rest⟩
  | longLong {format num : List UInt8} {c : Cursor} (hnum : scanNumber fetchDword format parameters = some (num, c)) :
      Scans parameters (LETTER_l :: LETTER_l :: format) (.number num) c
  | long {format num : List UInt8} {c : Cursor} (hformat : format.head? ≠ some LETTER_l)
      (hnum : scanNumber fetchWord format parameters = some (num, c)) :
      Scans parameters (LETTER_l :: format) (.number num) c
  | plain {letter : UInt8} {conv : IntConv} {format num : List UInt8} {rest : List Arg}
      (hletter : letter ∉ [LETTER_c, LETTER_s, LETTER_l]) (hconv : intConv letter = some conv)
      (hnum : fetchWord conv parameters = some (num, rest)) :
      Scans parameters (letter :: format) (.number num) ⟨format, rest⟩
  | unknown {format : List UInt8} (hletter : format.headD NUL ∉ [LETTER_c, LETTER_s, LETTER_l])
      (hconv : intConv (format.headD NUL) = none) :
      Scans parameters format .unknown ⟨[], parameters⟩

theorem scanConv_scans {format : List UInt8} {parameters : List Arg} {conv : Conv} {c : Cursor}
    (h : scanConv format parameters = some (conv, c)) : Scans parameters format conv c := by
  cases format with
  | nil =>
    cases h
    exact .unknown (by decide) rfl
  | cons letter format =>
    unfold scanConv at h
    dsimp only at h
    split at h
    · next hc =>
      subst hc
      split at h
      · cases h
        exact .char rfl
      · cases h
    · next hc =>
      split at h
      · next hs =>
        subst hs
        split at h
        · cases h
          exact .str rfl
        · cases h
      · next hs =>
        split at h
        · next hl =>
          subst hl
          split at h
          · next hl' =>
            obtain ⟨format, rfl⟩ := List.head?_eq_some_iff.mp hl'
            obtain ⟨⟨num, c⟩, hnum, heq⟩ := Option.map_eq_some_iff.mp h
            cases heq
            exact .longLong hnum
          · next hl' =>
            obtain ⟨⟨num, c⟩, hnum, heq⟩ := Option.map_eq_some_iff.mp h
            cases heq
            exact .long hl' hnum
        · next hl =>
          have hletter : letter ∉ [LETTER_c, LETTER_s, LETTER_l] := by
            simp [hc, hs, hl]
          split at h
          · next conv hconv =>
            obtain ⟨⟨num, rest⟩, hnum, heq⟩ := Option.map_eq_some_iff.mp h
            cases heq
            exact .plain hletter hconv hnum
          · next hconv =>
            cases h
            exact .unknown hletter hconv

/-- `%c` -/
def printChar (cpyFun : CopyFun σ) (n maxrem : Nat) (c : UInt8) (o : Output σ) :
    Output σ × Exit :=
  if maxrem = 0 then (o, .error) else emitByte cpyFun n c o

/-- Padding of `%s`: a string at least as wide as its field is padded with the
whole width. -/
def padCount (width len : Nat) : Nat := if len < width then width - len else width

/-- `exit` stays set once a part has set it. -/
def keepStop (exit : Exit) (r : Output σ × Exit) : Output σ × Exit :=
  match exit, r.2 with
  | .stop, .go => (r.1, .stop)
  | _, _ => r

/-- `%s`: where the padding runs out of room, the string still goes through its
own test. -/
def printStr (cpyFun : CopyFun σ) (n maxrem width : Nat) (s : List UInt8) (o : Output σ) :
    Option (Output σ × Exit) :=
  let padded := padLoop cpyFun n SPACE (padCount width s.length) o
  thenRun (breaks padded) fun o => (emitRun cpyFun n maxrem s o).map (keepStop padded.2)

/-- The text up to the next `%` that starts a conversion; `%%` is the second `%`
and what follows it. -/
def literalRun (format : List UInt8) : List UInt8 × List UInt8 :=
  let run := if format.head? = some PERCENT then format.tail else format
  (run.take 1 ++ run.tail.takeWhile (· != PERCENT), run.tail.dropWhile (· != PERCENT))

/-- Whether the format goes on with plain text. -/
def startsLiteral (format : List UInt8) : Bool :=
  format.head? != some PERCENT || format.tail.head? == some PERCENT

/-- One turn of the main loop. -/
def genStep (cpyFun : CopyFun σ) (beyond n : Nat) (c : Cursor) (o : Output σ) :
    Option (Cursor × Output σ × Exit) :=
  let maxrem := UINT_MAX - o.written
  if startsLiteral c.format then
    (emitRun cpyFun n maxrem (literalRun c.format).1 o).map
      fun r => (⟨(literalRun c.format).2, c.parameters⟩, r)
  else
    let spec := scanSpec beyond c.format.tail
    (scanConv spec.2 c.parameters).bind fun conv =>
      (match conv.1 with
      | .char ch => some (printChar cpyFun n maxrem ch o)
      | .str s => printStr cpyFun n maxrem spec.1.width s o
      | .number strNum =>
        printNumber cpyFun strNum spec.1.precision spec.1.width spec.1.zeroPad n maxrem o
      | .unknown => emitRun cpyFun n maxrem c.format o).map fun r => (conv.2, r)

/-- The main loop; every turn reads at least one character of the format. -/
def genLoop (cpyFun : CopyFun σ) (beyond n : Nat) :
    Nat → Cursor → Output σ → Option (Output σ × Exit)
  | 0, _, _ => none
  | fuel + 1, c, o =>
    if c.format = [] then some (o, .go)
    else (genStep cpyFun beyond n c o).bind fun r =>
      if r.2.2 = .go then genLoop cpyFun beyond n fuel r.1 r.2.1 else some r.2

/-- `gen_printf` with a buffer, or without one when `buffOut` is false: what is
behind `buff_out` afterwards and the returned value. -/
def genPrintf (cpyFun : CopyFun σ) (terminate : Option (σ → Nat → σ)) (beyond n : Nat)
    (format : List UInt8) (parameters : List Arg) (s : σ) : Option (σ × Int) :=
  (genLoop cpyFun beyond n (format.length + 1) ⟨format, parameters⟩ ⟨s, 0⟩).map fun r =>
    if r.2 = .error then (r.1.sink, -1)
    else
      match terminate with
      | some terminate => (terminate r.1.sink r.1.written, int32 (u32 (r.1.written + 1)))
      | none => (r.1.sink, int32 r.1.written)

/-- `buff_out[written] = '\0'` -/
def terminateString (mem : Nat → UInt8) (written : Nat) : Nat → UInt8 :=
  Memory.writeAt mem written [NUL]

/-- `vsnprintf` -/
def vsnprintf (beyond : Nat) (str : Nat → UInt8) (size : Nat) (format : List UInt8)
    (ap : List Arg) : Option ((Nat → UInt8) × Int) :=
  genPrintf memcpyFun (some terminateString) beyond size format ap str

/-- `vsprintf` -/
def vsprintf (beyond : Nat) (str : Nat → UInt8) (format : List UInt8) (ap : List Arg) :
    Option ((Nat → UInt8) × Int) :=
  genPrintf memcpyFun (some terminateString) beyond INT_MAX format ap str

end TalOS
