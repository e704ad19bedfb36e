-- SUMMARY: The formatter as it moves a pointer over the format: which of its characters it reads.
import Mathlib.Data.List.TakeWhile
import Mathlib.Logic.Relation
import TalOS.Libk.Numbers
import TalOS.Libk.SizeBounds

/-!
# Reads of the format

`gen_printf` reads its format through a pointer that it moves forward by one, by two
or by a run of characters. Here the pointer is a position, a read behind the NUL has no
result, and the arguments are the words on the stack, so that a format and arguments that
do not match are run as well. The list of what is still to be read, over which the text of a
format is defined, stands at the position as long as nothing behind the NUL is read.
-/

open MachineInt Bounded

namespace TalOS

/-! ## The pointer -/

/-- `format[pos]` -/
def charAt (format : List UInt8) (pos : Nat) : Option UInt8 := (format ++ [NUL])[pos]?

/-- `len` bytes from `format + pos` on, as a copy reads them. -/
def readChars (format : List UInt8) (pos len : Nat) : Option (List UInt8) :=
  if pos + len ≤ format.length + 1 then some (((format ++ [NUL]).drop pos).take len) else none

/-- `while (p(*format)) format++`, at most `fuel` times. -/
def skipLoop (format : List UInt8) (p : UInt8 → Bool) : Nat → Nat → Option Nat
  | 0, _ => none
  | fuel + 1, pos =>
    (charAt format pos).bind fun c => if p c then skipLoop format p fuel (pos + 1) else some pos

/-- The whole loop: after as many turns as there are characters the NUL is behind it. -/
def skipWhile (format : List UInt8) (p : UInt8 → Bool) (pos : Nat) : Option Nat :=
  skipLoop format p (format.length + 1) pos

/-- The digit-counting loop of `atou`; the character behind the last possible digit is read too. -/
def countDigitsAt (input : List UInt8) : Nat → Nat → Option Nat
  | 0, pos => (charAt input pos).map fun _ => 0
  | limit + 1, pos =>
    (charAt input pos).bind fun c =>
      if isDigit c then (countDigitsAt input limit (pos + 1)).map (· + 1) else some 0

/-- `atou(format + pos)` -/
def atouAt (beyond : Nat) (input : List UInt8) (pos : Nat) : Option Nat :=
  (countDigitsAt input 11 pos).bind fun digits =>
    (List.range digits).foldlM
      (fun toRet i => (charAt input (pos + (digits - i - 1))).map fun c =>
        u32 (toRet + (c.toNat - ASCII_0.toNat) * decPow beyond i)) 0

/-- Zeros and width of a conversion, and the position behind them. -/
def scanWidthAt (beyond : Nat) (format : List UInt8) (pos : Nat) : Option (Nat × Nat × Nat) :=
  (charAt format pos).bind fun c =>
    if isDigit c then
      (skipWhile format (· == ASCII_0) pos).bind fun afterZeros =>
        (atouAt beyond format afterZeros).bind fun width =>
          (skipWhile format isDigit afterZeros).map fun behind => (afterZeros - pos, width, behind)
    else some (0, 0, pos)

def scanPrecisionAt (beyond : Nat) (format : List UInt8) (pos : Nat) : Option (Nat × Nat) :=
  (charAt format pos).bind fun c =>
    if c = DOT then
      (atouAt beyond format (pos + 1)).bind fun precision =>
        (skipWhile format isDigit (pos + 1)).map fun behind => (precision, behind)
    else some (0, pos)

/-- The conversion prefix behind `%`, and the position of the conversion letter. -/
def scanSpecAt (beyond : Nat) (format : List UInt8) (pos : Nat) : Option (Spec × Nat) :=
  (scanWidthAt beyond format pos).bind fun w =>
    (scanPrecisionAt beyond format w.2.2).map fun p => (⟨w.1, w.2.1, p.1⟩, p.2)

/-! ## The arguments -/

/-- The words behind `va_list`, and the string at an address. -/
structure Stack where
  words : Nat → UInt32
  string : UInt32 → List UInt8

/-- Two words, the lower one first. -/
def Stack.dword (st : Stack) (next : Nat) : UInt64 :=
  (st.words next).toUInt64 ||| (st.words (next + 1)).toUInt64 <<< 32

/-- The number of an `int` or `long` conversion; without a conversion letter nothing is fetched. -/
def Stack.wordNumber (st : Stack) (letter : UInt8) (next : Nat) : List UInt8 × Nat :=
  match intConv letter with
  | some conv => (wordText conv (st.words next), next + 1)
  | none => ([], next)

/-- The number of a `long long` conversion. -/
def Stack.dwordNumber (st : Stack) (letter : UInt8) (next : Nat) : List UInt8 × Nat :=
  match intConv letter with
  | some conv => (dwordText conv (st.dword next), next + 2)
  | none => ([], next)

/-! ## The main loop -/

variable {σ : Type}

/-- Where the formatter is: in the format, in the arguments, and in its output. -/
structure Scan (σ : Type) where
  pos : Nat
  next : Nat
  out : Output σ

/-- Copying from the format, cut to what is left of `n`: the pointer moves over what is copied. -/
def copyFormat (cpyFun : CopyFun σ) (n maxrem : Nat) (format : List UInt8) (amount : Nat) (s : Scan σ) :
    Option (Scan σ × Exit) :=
  if maxrem < amount then some (s, .error)
  else if u32 (s.out.written + amount + 1) > n then
    let amount := sub32 (sub32 n s.out.written) 1
    (readChars format s.pos amount).map fun bytes =>
      let r := copyOut cpyFun bytes s.out .stop
      (⟨s.pos + amount, s.next, r.1⟩, r.2)
  else
    (readChars format s.pos amount).map fun bytes =>
      let r := copyOut cpyFun bytes s.out .go
      (⟨s.pos + amount, s.next, r.1⟩, r.2)

/-- Plain text up to the next `%`; the first character belongs to it whatever it is. -/
def literalAt (cpyFun : CopyFun σ) (n maxrem : Nat) (format : List UInt8) (s : Scan σ) :
    Option (Scan σ × Exit) :=
  (skipWhile format (fun c => c != NUL && c != PERCENT) (s.pos + 1)).bind fun behind =>
    copyFormat cpyFun n maxrem format (behind - s.pos) s

/-- A conversion whose letter is at `pos`; `s` stands at its `%`. -/
def convAt (cpyFun : CopyFun σ) (n maxrem : Nat) (format : List UInt8) (st : Stack) (spec : Spec) (pos : Nat)
    (s : Scan σ) : Option (Scan σ × Exit) :=
  let number := fun (num : List UInt8 × Nat) (behind : Nat) =>
    (printNumber cpyFun num.1 spec.precision spec.width spec.zeroPad n maxrem s.out).map fun r =>
      ((⟨behind, num.2, r.1⟩ : Scan σ), r.2)
  (charAt format pos).bind fun c =>
    if c = LETTER_c then
      let r := printChar cpyFun n maxrem (st.words s.next).toNat.toUInt8 s.out
      some (⟨pos + 1, s.next + 1, r.1⟩, r.2)
    else if c = LETTER_s then
      (printStr cpyFun n maxrem spec.width (st.string (st.words s.next)) s.out).map fun r =>
        (⟨pos + 1, s.next + 1, r.1⟩, r.2)
    else if c = LETTER_l then
      (charAt format (pos + 1)).bind fun letter =>
        if letter = LETTER_l then
          -- The pointer is moved over the character behind `ll` whatever it is.
          (charAt format (pos + 2)).bind fun letter => number (st.dwordNumber letter s.next) (pos + 3)
        else number (st.wordNumber letter s.next) (pos + 2)
    else
      match intConv c with
      | some conv => number (wordText conv (st.words s.next), s.next + 1) (pos + 1)
      | none =>
        (skipWhile format (· != NUL) s.pos).bind fun behind =>
          copyFormat cpyFun n maxrem format (behind - s.pos) s

/-- One turn of the main loop. -/
def turnAt (cpyFun : CopyFun σ) (beyond n : Nat) (format : List UInt8) (st : Stack) (s : Scan σ) :
    Option (Scan σ × Exit) :=
  let maxrem := UINT_MAX - s.out.written
  (charAt format s.pos).bind fun c =>
    if c ≠ PERCENT then literalAt cpyFun n maxrem format s
    else
      (charAt format (s.pos + 1)).bind fun c =>
        if c = PERCENT then literalAt cpyFun n maxrem format { s with pos := s.pos + 1 }
        else
          (scanSpecAt beyond format (s.pos + 1)).bind fun spec =>
            convAt cpyFun n maxrem format st spec.1 spec.2 s

/-- `while ((*format != '\\0') && !exit)`: the format is read before `exit` is looked at. -/
def loopAt (cpyFun : CopyFun σ) (beyond n : Nat) (format : List UInt8) (st : Stack) :
    Nat → Scan σ → Exit → Option (Output σ × Exit)
  | 0, _, _ => none
  | fuel + 1, s, exit =>
    (charAt format s.pos).bind fun c =>
      if c = NUL ∨ exit ≠ .go then some (s.out, exit)
      else
        (turnAt cpyFun beyond n format st s).bind fun r =>
          if r.2 = .error then some (r.1.out, .error) else loopAt cpyFun beyond n format st fuel r.1 r.2

/-- `gen_printf` with a buffer, or without one when `buffOut` is false. -/
def genPrintfAt (cpyFun : CopyFun σ) (terminate : Option (σ → Nat → σ)) (beyond n : Nat) (format : List UInt8)
    (st : Stack) (fuel : Nat) (s : σ) : Option (σ × Int) :=
  (loopAt cpyFun beyond n format st fuel ⟨0, 0, ⟨s, 0⟩⟩ .go).map fun r =>
    if r.2 = .error then (r.1.sink, -1)
    else
      match terminate with
      | some terminate => (terminate r.1.sink r.1.written, int32 (u32 (r.1.written + 1)))
      | none => (r.1.sink, int32 r.1.written)

/-- The call ends, and nothing behind the NUL of the format has been read. -/
def ReadsInside (cpyFun : CopyFun σ) (terminate : Option (σ → Nat → σ)) (beyond n : Nat) (format : List UInt8)
    (st : Stack) (s : σ) : Prop :=
  ∃ fuel r, genPrintfAt cpyFun terminate beyond n format st fuel s = some r

/-! ## Standing at a rest of the format -/

/-- What is read from `pos` on is `rest`. -/
def StandsAt (format : List UInt8) (pos : Nat) (rest : List UInt8) : Prop :=
  ∃ behind, format = behind ++ rest ∧ pos = behind.length

section
variable {format rest : List UInt8} {pos : Nat}

theorem standsAt_drop (h : pos ≤ format.length) : StandsAt format pos (format.drop pos) :=
  ⟨format.take pos, (List.take_append_drop pos format).symm, (List.length_take_of_le h).symm⟩

theorem StandsAt.drop_eq (h : StandsAt format pos rest) : format.drop pos = rest := by
  obtain ⟨behind, rfl, rfl⟩ := h
  exact List.drop_left

theorem StandsAt.length_eq (h : StandsAt format pos rest) : pos + rest.length = format.length := by
  obtain ⟨behind, rfl, rfl⟩ := h
  exact List.length_append.symm

theorem StandsAt.pos_le (h : StandsAt format pos rest) : pos ≤ format.length := by
  rw [← h.length_eq]
  exact Nat.le_add_right _ _

theorem StandsAt.charAt_eq (h : StandsAt format pos rest) : charAt format pos = some (rest.headD NUL) := by
  obtain ⟨behind, rfl, rfl⟩ := h
  rw [charAt, List.append_assoc, List.getElem?_append_right (Nat.le_refl _), Nat.sub_self]
  cases rest <;> rfl

/-- Over a run of characters to what follows it. -/
theorem StandsAt.append {run : List UInt8} (h : StandsAt format pos (run ++ rest)) :
    StandsAt format (pos + run.length) rest := by
  obtain ⟨behind, rfl, rfl⟩ := h
  exact ⟨behind ++ run, (List.append_assoc _ _ _).symm, List.length_append.symm⟩

theorem StandsAt.tail {c : UInt8} (h : StandsAt format pos (c :: rest)) : StandsAt format (pos + 1) rest :=
  @StandsAt.append format rest pos [c] h

/-- Behind the NUL there is nothing. -/
theorem charAt_of_lt (h : format.length < pos) : charAt format pos = none := by
  rw [charAt, List.getElem?_eq_none_iff, List.length_append]
  exact h

theorem StandsAt.readChars_eq {run : List UInt8} (h : StandsAt format pos (run ++ rest)) :
    readChars format pos run.length = some run := by
  have hlength := h.length_eq
  obtain ⟨behind, rfl, rfl⟩ := h
  rw [List.length_append] at hlength
  rw [readChars, if_pos (by omega), List.append_assoc, List.drop_left, List.append_assoc, List.take_left]

theorem skipLoop_eq {p : UInt8 → Bool} (hp : p NUL = false) {fuel : Nat} (h : StandsAt format pos rest)
    (hfuel : rest.length < fuel) :
    skipLoop format p fuel pos = some (pos + (rest.takeWhile p).length) := by
  induction fuel generalizing rest pos with
  | zero => cases hfuel
  | succ fuel ih =>
    rw [skipLoop, h.charAt_eq]
    cases rest with
    | nil =>
      show (if p NUL then _ else some pos) = some pos
      rw [hp]
      rfl
    | cons c rest =>
      show (if p c then skipLoop format p fuel (pos + 1) else some pos) = _
      cases hc : p c with
      | false => simp [hc]
      | true =>
        rw [if_pos rfl, ih h.tail (Nat.lt_of_succ_lt_succ hfuel), List.takeWhile_cons_of_pos hc,
          List.length_cons, Nat.add_right_comm, Nat.add_assoc]

/-- A loop over characters other than NUL ends inside the format. -/
theorem skipWhile_eq {p : UInt8 → Bool} (hp : p NUL = false) (h : StandsAt format pos rest) :
    skipWhile format p pos = some (pos + (rest.takeWhile p).length) := by
  have hlength := h.length_eq
  exact skipLoop_eq hp h (by omega)

theorem StandsAt.skip (p : UInt8 → Bool) (h : StandsAt format pos rest) :
    StandsAt format (pos + (rest.takeWhile p).length) (rest.dropWhile p) := by
  refine StandsAt.append ?_
  rw [List.takeWhile_append_dropWhile]
  exact h

/-! ## Reading a conversion -/

theorem countDigitsAt_eq {limit : Nat} (h : StandsAt format pos rest) :
    countDigitsAt format limit pos = some (countDigits limit rest) := by
  induction limit generalizing rest pos with
  | zero =>
    rw [countDigitsAt, h.charAt_eq]
    rfl
  | succ limit ih =>
    rw [countDigitsAt, h.charAt_eq, Option.bind_some]
    cases rest with
    | nil => rfl
    | cons c rest =>
      rw [List.headD_cons, ih h.tail, countDigits]
      split <;> rfl

theorem foldlM_eq_foldl {α β γ : Type} {read : α → Option γ} {value : α → γ} {f : β → α → γ → β} {l : List α}
    (hread : ∀ i ∈ l, read i = some (value i)) (b : β) :
    l.foldlM (fun b i => (read i).map (f b i)) b = some (l.foldl (fun b i => f b i (value i)) b) := by
  induction l generalizing b with
  | nil => rfl
  | cons i l ih =>
    rw [List.foldlM_cons, hread i List.mem_cons_self, List.foldl_cons]
    exact ih (fun j hj => hread j (List.mem_cons_of_mem _ hj)) _

theorem StandsAt.charAt_add {i : Nat} (h : StandsAt format pos rest) (hi : i < rest.length) :
    charAt format (pos + i) = some (rest.getD i 0) := by
  obtain ⟨behind, rfl, rfl⟩ := h
  rw [charAt, List.append_assoc, List.getElem?_append_right (Nat.le_add_right _ _), Nat.add_sub_cancel_left,
    List.getElem?_append_left hi, List.getElem?_eq_getElem hi, List.getD_eq_getElem _ _ hi]

theorem atouAt_eq (beyond : Nat) (h : StandsAt format pos rest) :
    atouAt beyond format pos = some (atou beyond rest) := by
  unfold atou
  rw [atouAt, countDigitsAt_eq h, Option.bind_some]
  have hle := countDigits_le 11 rest
  generalize countDigits 11 rest = digits at hle
  have hread : ∀ i ∈ List.range digits, charAt format (pos + (digits - i - 1)) =
      some (rest.getD (digits - i - 1) 0) := by
    intro i hi
    have hlt := List.mem_range.mp hi
    exact h.charAt_add (by omega)
  exact foldlM_eq_foldl hread 0

theorem StandsAt.charAt_isDigit (h : StandsAt format pos rest) :
    ∃ c, charAt format pos = some c ∧ isDigit c = (rest.head?.map isDigit).getD false :=
  ⟨_, h.charAt_eq, by cases rest <;> rfl⟩

/-- Width, precision and letter are read from the rest of the format. -/
theorem scanWidthAt_eq (beyond : Nat) (h : StandsAt format pos rest) :
    ∃ q, scanWidthAt beyond format pos =
        some ((scanWidth beyond rest).1, (scanWidth beyond rest).2.1, q) ∧
      pos ≤ q ∧ StandsAt format q (scanWidth beyond rest).2.2 := by
  obtain ⟨c, hc, hdigit⟩ := h.charAt_isDigit
  have hzeros := h.skip (· == ASCII_0)
  unfold scanWidthAt scanWidth
  rw [hc, Option.bind_some, hdigit]
  split
  · rw [skipWhile_eq rfl h, Option.bind_some, atouAt_eq beyond hzeros, Option.bind_some, skipWhile_eq rfl hzeros,
      Option.map_some, Nat.add_sub_cancel_left]
    exact ⟨_, rfl, by omega, hzeros.skip isDigit⟩
  · exact ⟨pos, rfl, Nat.le_refl _, h⟩

theorem scanPrecisionAt_eq (beyond : Nat) (h : StandsAt format pos rest) :
    ∃ q, scanPrecisionAt beyond format pos = some ((scanPrecision beyond rest).1, q) ∧
      pos ≤ q ∧ StandsAt format q (scanPrecision beyond rest).2 := by
  unfold scanPrecisionAt scanPrecision
  rw [h.charAt_eq, Option.bind_some]
  cases rest with
  | nil =>
    rw [if_neg (by decide), if_neg nofun]
    exact ⟨pos, rfl, Nat.le_refl _, h⟩
  | cons c rest =>
    rw [List.headD_cons, List.head?_cons, List.tail_cons]
    split
    · next hdot =>
      rw [if_pos (congrArg some hdot), atouAt_eq beyond h.tail, Option.bind_some, skipWhile_eq rfl h.tail]
      exact ⟨_, rfl, by omega, h.tail.skip isDigit⟩
    · next hdot =>
      rw [if_neg fun heq => hdot (Option.some.inj heq)]
      exact ⟨pos, rfl, Nat.le_refl _, h⟩

theorem scanSpecAt_eq (beyond : Nat) (h : StandsAt format pos rest) :
    ∃ q, scanSpecAt beyond format pos = some ((scanSpec beyond rest).1, q) ∧
      pos ≤ q ∧ StandsAt format q (scanSpec beyond rest).2 := by
  obtain ⟨w, hw, hle, hstands⟩ := scanWidthAt_eq beyond h
  obtain ⟨q, hq, hle', hstands'⟩ := scanPrecisionAt_eq beyond hstands
  unfold scanSpecAt
  rw [hw, Option.bind_some]
  dsimp only
  rw [hq]
  exact ⟨q, rfl, Nat.le_trans hle hle', hstands'⟩

end

/-! ## What a turn reads -/

section
variable {cpyFun : CopyFun σ} {n : Nat} {o : Output σ}

/-- There is room for a NUL, or the size is so large that no sum is above it. -/
def Room (n : Nat) (o : Output σ) : Prop := o.written < n ∨ n = UINT_MAX

theorem copyOut_snd (cpyFun : CopyFun σ) (bytes : List UInt8) (o : Output σ) (exit : Exit) :
    (copyOut cpyFun bytes o exit).2 = exit ∨ (copyOut cpyFun bytes o exit).2 = .error := by
  unfold copyOut
  dsimp only
  split
  · exact .inl rfl
  · exact .inr rfl

theorem Room.emitByte (h : Room n o) (hn : n < 2 ^ 32) (byte : UInt8) :
    Room n (emitByte cpyFun n byte o).1 := by
  rcases h with h | h
  · by_cases hmax : n = UINT_MAX
    · exact .inr hmax
    · have hwrap : u32 (o.written + 2) = o.written + 2 := u32_of_lt (by simp only [UINT_MAX] at hmax; omega)
      unfold TalOS.emitByte
      rw [hwrap]
      split
      · exact .inl h
      · unfold copyOut
        dsimp only
        split
        · refine .inl (?_ : u32 _ < n)
          rw [List.length_singleton, u32_of_lt (by omega)]
          omega
        · exact .inl h
  · exact .inr h

theorem Room.padLoop (hn : n < 2 ^ 32) (byte : UInt8) (count : Nat) :
    ∀ {o : Output σ}, Room n o → Room n (padLoop cpyFun n byte count o).1 :=
  fun {o} h => padLoop_keeps (fun _ h => h.emitByte hn byte) count o h

theorem Room.emitSign (h : Room n o) (hn : n < 2 ^ 32) (strNum : List UInt8) :
    Room n (emitSign cpyFun n strNum o).1 :=
  emitSign_keeps h (h.emitByte hn _) strNum

theorem Room.breaks {r : Output σ × Exit} (h : Room n r.1) : Room n (breaks r).1 := by
  rwa [breaks_fst]

/-- The clamp of a run is not more than there is to copy. -/
theorem Room.emitRun (h : Room n o) (hn : n < 2 ^ 32) (maxrem : Nat) (bytes : List UInt8) :
    (emitRun cpyFun n maxrem bytes o).isSome := by
  have hle : u32 (o.written + bytes.length + 1) ≤ o.written + bytes.length + 1 := Nat.mod_le _ _
  have hlt := u32_lt (o.written + bytes.length + 1)
  unfold TalOS.emitRun
  dsimp only
  split
  · rfl
  · split
    · next hcut =>
      have hwritten : o.written < n := by
        rcases h with h | h
        · exact h
        · simp only [UINT_MAX] at h
          omega
      rw [sub32_room (by omega) hn (Nat.le_sub_one_of_lt hwritten), if_pos (by omega)]
      rfl
    · rfl

theorem Room.thenRun {r : Output σ × Exit} {rest : Output σ → Option (Output σ × Exit)} (h : Room n r.1)
    (hrest : ∀ o : Output σ, Room n o → (rest o).isSome) : (thenRun r rest).isSome := by
  unfold TalOS.thenRun
  split
  · exact hrest _ h
  · rfl
  · rfl

theorem Room.printNumber (h : Room n o) (hn : n < 2 ^ 32) (strNum : List UInt8)
    (precision width zeroPad maxrem : Nat) :
    (printNumber cpyFun strNum precision width zeroPad n maxrem o).isSome := by
  unfold TalOS.printNumber
  dsimp only
  refine Room.thenRun (Room.padLoop hn _ _ h) fun o h => ?_
  refine Room.thenRun (Room.padLoop hn _ _ h) fun o h => ?_
  split
  · refine Room.thenRun (h.emitSign hn _) fun o h => ?_
    exact Room.thenRun (Room.padLoop hn _ _ h).breaks fun o h => h.emitRun hn _ _
  · exact h.emitRun hn _ _

theorem Room.printStr (h : Room n o) (hn : n < 2 ^ 32) (maxrem width : Nat) (s : List UInt8) :
    (printStr cpyFun n maxrem width s o).isSome := by
  unfold TalOS.printStr
  refine Room.thenRun (Room.padLoop hn _ _ h).breaks fun o h => ?_
  rw [Option.isSome_map]
  exact h.emitRun hn _ _

/-- A turn fails, or it ends inside the format, further on if the loop goes on. -/
def Lands (format : List UInt8) (s : Scan σ) (r : Scan σ × Exit) : Prop :=
  r.2 = .error ∨ r.1.pos ≤ format.length ∧ (r.2 = .go → s.pos < r.1.pos)

variable {format run rest : List UInt8} {s : Scan σ} {beyond : Nat}

/-- A copy from the format with room in the output reads nothing but the run. -/
theorem copyFormat_lands (hn : n < 2 ^ 32) (hw : s.out.written < n) (hrun : run ≠ [])
    (h : StandsAt format s.pos (run ++ rest)) (maxrem : Nat) :
    ∃ r, copyFormat cpyFun n maxrem format run.length s = some r ∧ Lands format s r := by
  have hlength := h.length_eq
  have hpos := List.length_pos_of_ne_nil hrun
  rw [List.length_append] at hlength
  have hle : u32 (s.out.written + run.length + 1) ≤ s.out.written + run.length + 1 := Nat.mod_le _ _
  unfold copyFormat
  split
  · exact ⟨_, rfl, .inl rfl⟩
  · split
    · next hcut =>
      rw [sub32_room (by omega) hn (Nat.le_sub_one_of_lt hw)]
      have hamount : n - 1 - s.out.written ≤ run.length := by omega
      have hread : readChars format s.pos (n - 1 - s.out.written) =
          some (run.take (n - 1 - s.out.written)) := by
        have h' : StandsAt format s.pos
            (run.take (n - 1 - s.out.written) ++ (run.drop (n - 1 - s.out.written) ++ rest)) := by
          rw [← List.append_assoc, List.take_append_drop]
          exact h
        have hread := h'.readChars_eq
        rwa [List.length_take_of_le hamount] at hread
      dsimp only
      rw [hread, Option.map_some]
      refine ⟨_, rfl, ?_⟩
      rcases copyOut_snd cpyFun (run.take (n - 1 - s.out.written)) s.out .stop with hexit | hexit
      · exact .inr ⟨by dsimp only; omega, fun hgo => nomatch hgo.symm.trans hexit⟩
      · exact .inl hexit
    · rw [h.readChars_eq, Option.map_some]
      exact ⟨_, rfl, .inr ⟨by dsimp only; omega, fun _ => by dsimp only; omega⟩⟩

theorem literalAt_lands {c : UInt8} (hn : n < 2 ^ 32) (hw : s.out.written < n)
    (h : StandsAt format s.pos (c :: rest)) (maxrem : Nat) :
    ∃ r, literalAt cpyFun n maxrem format s = some r ∧ Lands format s r := by
  have hsplit : c :: rest = (c :: rest.takeWhile fun c => c != NUL && c != PERCENT) ++
      rest.dropWhile fun c => c != NUL && c != PERCENT := by
    rw [List.cons_append, List.takeWhile_append_dropWhile]
  have hrun := h
  rw [hsplit] at hrun
  have hamount : s.pos + 1 + (rest.takeWhile fun c => c != NUL && c != PERCENT).length - s.pos =
      (c :: rest.takeWhile fun c => c != NUL && c != PERCENT).length := by
    rw [List.length_cons]
    omega
  unfold literalAt
  rw [skipWhile_eq rfl h.tail, Option.bind_some, hamount]
  exact copyFormat_lands hn hw (List.cons_ne_nil _ _) hrun maxrem

/-- A conversion that ends inside the format. -/
theorem Lands.conversion {behind next : Nat} {r : Option (Output σ × Exit)} (hr : r.isSome)
    (hpos : s.pos < behind) (hbehind : behind ≤ format.length) :
    ∃ q, r.map (fun r => ((⟨behind, next, r.1⟩ : Scan σ), r.2)) = some q ∧ Lands format s q := by
  obtain ⟨r, rfl⟩ := Option.isSome_iff_exists.mp hr
  exact ⟨_, rfl, .inr ⟨hbehind, fun _ => hpos⟩⟩

/-- The number of a conversion that the format ends behind `l` or `ll` is printed as nothing with its padding. -/
def cutNumber (cpyFun : CopyFun σ) (n : Nat) (spec : Spec) (s : Scan σ) : Option (Output σ × Exit) :=
  printNumber cpyFun [] spec.precision spec.width spec.zeroPad n (UINT_MAX - s.out.written) s.out

/-- What follows width and precision is cut short. -/
def CutLetters (letters : List UInt8) : Prop := letters = [LETTER_l] ∨ letters = [LETTER_l, LETTER_l]

variable {st : Stack} {spec : Spec} {letters : List UInt8} {q : Nat}

/-- The conversion of a letter at `q`; its `%` is at `s.pos`. -/
theorem convAt_lands (hn : n < 2 ^ 32) (hw : s.out.written < n) (hq : s.pos < q)
    (hletters : StandsAt format q letters) (hbegun : StandsAt format s.pos rest) (hne : rest ≠ [])
    (hnul : NUL ∉ rest) (hcut : CutLetters letters → ∀ r ∈ cutNumber cpyFun n spec s, r.2 = .error) :
    ∃ r, convAt cpyFun n (UINT_MAX - s.out.written) format st spec q s = some r ∧ Lands format s r := by
  have hroom : Room n s.out := .inl hw
  have hlength := hletters.length_eq
  have hnumber : ∀ strNum, (printNumber cpyFun strNum spec.precision spec.width spec.zeroPad n
      (UINT_MAX - s.out.written) s.out).isSome := fun strNum => hroom.printNumber hn strNum _ _ _ _
  -- An unknown conversion is copied from its `%` on to the end.
  have hunknown : ∃ r, ((skipWhile format (· != NUL) s.pos).bind fun behind =>
      copyFormat cpyFun n (UINT_MAX - s.out.written) format (behind - s.pos) s) = some r ∧ Lands format s r := by
    have hall : rest.takeWhile (· != NUL) = rest := by
      refine List.takeWhile_eq_self_iff.mpr fun c hc => bne_iff_ne.mpr ?_
      rintro rfl
      exact hnul hc
    rw [skipWhile_eq rfl hbegun, Option.bind_some, hall, Nat.add_sub_cancel_left]
    exact copyFormat_lands hn hw hne (by rw [List.append_nil]; exact hbegun) _
  unfold convAt
  dsimp only
  rw [hletters.charAt_eq, Option.bind_some]
  cases letters with
  | nil => exact hunknown
  | cons c letters =>
    rw [List.length_cons] at hlength
    rw [List.headD_cons]
    split
    · exact ⟨_, rfl, .inr ⟨by dsimp only; omega, fun _ => by dsimp only; omega⟩⟩
    · split
      · exact Lands.conversion (hroom.printStr hn _ _ _) (by omega) (by omega)
      · split
        · next hl =>
          rw [hletters.tail.charAt_eq, Option.bind_some]
          cases letters with
          | nil =>
            obtain ⟨r, hr⟩ := Option.isSome_iff_exists.mp (hnumber [])
            have herror := hcut (.inl (by rw [hl])) r hr
            exact ⟨(⟨q + 2, s.next, r.1⟩, r.2), by rw [if_neg (by decide)]; exact congrArg (Option.map _) hr,
              .inl herror⟩
          | cons c' letters =>
            rw [List.length_cons] at hlength
            rw [List.headD_cons]
            split
            · next hl' =>
              rw [hletters.tail.tail.charAt_eq, Option.bind_some]
              cases letters with
              | nil =>
                obtain ⟨r, hr⟩ := Option.isSome_iff_exists.mp (hnumber [])
                have herror := hcut (.inr (by rw [hl, hl'])) r hr
                exact ⟨(⟨q + 3, s.next, r.1⟩, r.2), congrArg (Option.map _) hr, .inl herror⟩
              | cons c'' letters =>
                rw [List.length_cons] at hlength
                exact Lands.conversion (hnumber _) (by omega) (by omega)
            · exact Lands.conversion (hnumber _) (by omega) (by omega)
        · split
          · exact Lands.conversion (hnumber _) (by omega) (by omega)
          · exact hunknown

/-- A conversion that is cut short leaves the pointer behind the NUL. -/
theorem convAt_cutShort (st : Stack) (hletters : StandsAt format q letters) (hcut : CutLetters letters)
    {r : Output σ × Exit} (hr : cutNumber cpyFun n spec s = some r) :
    ∃ next, convAt cpyFun n (UINT_MAX - s.out.written) format st spec q s =
      some (⟨format.length + 1, next, r.1⟩, r.2) := by
  have hlength := hletters.length_eq
  unfold convAt
  dsimp only
  rcases hcut with rfl | rfl
  · rw [List.length_singleton] at hlength
    rw [← hlength, hletters.charAt_eq, Option.bind_some, List.headD_cons, if_neg (by decide),
      if_neg (by decide), if_pos rfl,
      hletters.tail.charAt_eq]
    exact ⟨s.next, congrArg (Option.map _) hr⟩
  · rw [show [LETTER_l, LETTER_l].length = 2 from rfl] at hlength
    rw [← hlength, hletters.charAt_eq, Option.bind_some, List.headD_cons, if_neg (by decide),
      if_neg (by decide), if_pos rfl,
      hletters.tail.charAt_eq, Option.bind_some, List.headD_cons, if_pos rfl, hletters.tail.tail.charAt_eq]
    exact ⟨s.next, congrArg (Option.map _) hr⟩

/-- The turn at `s` takes a conversion that the format ends behind `l` or `ll`, and its padding is copied. -/
def CutShort (cpyFun : CopyFun σ) (beyond n : Nat) (format : List UInt8) (s : Scan σ) : Prop :=
  ∃ rest, StandsAt format s.pos (PERCENT :: rest) ∧ rest.head? ≠ some PERCENT ∧
    CutLetters (scanSpec beyond rest).2 ∧
    ∃ r, cutNumber cpyFun n (scanSpec beyond rest).1 s = some r ∧ r.2 ≠ .error

theorem turnAt_cutShort (st : Stack) (h : CutShort cpyFun beyond n format s) :
    ∃ r, turnAt cpyFun beyond n format st s = some r ∧ r.2 ≠ .error ∧ r.1.pos = format.length + 1 := by
  obtain ⟨rest, hstands, hhead, hcut, r, hr, hexit⟩ := h
  obtain ⟨q, hspec, -, hletters⟩ := scanSpecAt_eq beyond hstands.tail
  obtain ⟨next, hconv⟩ := convAt_cutShort st hletters hcut hr
  have hne : rest.headD NUL ≠ PERCENT := by
    cases rest with
    | nil => exact show NUL ≠ PERCENT by decide
    | cons c rest => exact fun heq => hhead (congrArg some heq)
  refine ⟨(⟨format.length + 1, next, r.1⟩, r.2), ?_, hexit, rfl⟩
  unfold turnAt
  dsimp only
  rw [hstands.charAt_eq, Option.bind_some, List.headD_cons, if_neg (not_not_intro rfl), hstands.tail.charAt_eq,
    Option.bind_some, if_neg hne, hspec, Option.bind_some, hconv]

theorem turnAt_lands (st : Stack) (hn : n < 2 ^ 32) (hw : s.out.written < n) (hnul : NUL ∉ format)
    (hpos : s.pos < format.length) (hcut : ¬ CutShort cpyFun beyond n format s) :
    ∃ r, turnAt cpyFun beyond n format st s = some r ∧ Lands format s r := by
  obtain ⟨c, rest, hrest⟩ : ∃ c rest, format.drop s.pos = c :: rest :=
    List.exists_cons_of_ne_nil fun hnil => absurd (List.drop_eq_nil_iff.mp hnil) (Nat.not_le.mpr hpos)
  have hstands := standsAt_drop (Nat.le_of_lt hpos)
  have hnul' : NUL ∉ c :: rest := hrest ▸ fun hmem => hnul (List.mem_of_mem_drop hmem)
  rw [hrest] at hstands
  unfold turnAt
  dsimp only
  rw [hstands.charAt_eq, Option.bind_some, List.headD_cons]
  by_cases hc : c = PERCENT
  · subst hc
    rw [if_neg (not_not_intro rfl), hstands.tail.charAt_eq, Option.bind_some]
    split
    · next hpercent =>
      obtain ⟨rest', rfl⟩ : ∃ rest', rest = PERCENT :: rest' := by
        cases rest with
        | nil => exact absurd hpercent (by decide)
        | cons c rest' => exact ⟨rest', congrArg (· :: rest') hpercent⟩
      have hw' : ({ s with pos := s.pos + 1 } : Scan σ).out.written < n := hw
      obtain ⟨r, hr, hlands⟩ : ∃ r, literalAt cpyFun n (UINT_MAX - s.out.written) format { s with pos := s.pos + 1 } =
          some r ∧ Lands format { s with pos := s.pos + 1 } r := literalAt_lands hn hw' hstands.tail _
      refine ⟨r, hr, hlands.imp_right fun h => ⟨h.1, fun hgo => ?_⟩⟩
      have hafter := h.2 hgo
      dsimp only at hafter
      omega
    · next hpercent =>
      obtain ⟨q, hspec, hle, hletters⟩ := scanSpecAt_eq beyond hstands.tail
      rw [hspec, Option.bind_some]
      refine convAt_lands hn hw (Nat.lt_of_lt_of_le (Nat.lt_succ_self _) hle) hletters hstands
        (List.cons_ne_nil _ _) hnul' fun hletters' r hr => ?_
      -- Only a conversion cut short by the end of the format steps over the NUL.
      refine by_contra fun hexit => hcut ⟨rest, hstands, fun hhead => hpercent ?_, hletters', r, hr, hexit⟩
      rw [List.headD_eq_head?_getD, hhead]
      rfl
  · rw [if_pos hc]
    exact literalAt_lands hn hw hstands _

/-! ## Runs -/

/-- A turn after which the loop goes on. -/
def Turn (cpyFun : CopyFun σ) (beyond n : Nat) (format : List UInt8) (st : Stack) (s s' : Scan σ) : Prop :=
  s.pos < format.length ∧ turnAt cpyFun beyond n format st s = some (s', .go)

/-- A turn starts at `s` in the run from `start`. -/
def Reached (cpyFun : CopyFun σ) (beyond n : Nat) (format : List UInt8) (st : Stack) (start s : Scan σ) : Prop :=
  Relation.ReflTransGen (Turn cpyFun beyond n format st) start s ∧ s.pos < format.length

variable {start : Scan σ}

theorem charAt_ne_nul (hnul : NUL ∉ format) {pos : Nat} (hpos : pos < format.length) :
    ∃ c, charAt format pos = some c ∧ c ≠ NUL := by
  have hstands := standsAt_drop (Nat.le_of_lt hpos)
  have hcell := hstands.charAt_eq
  rw [List.drop_eq_getElem_cons hpos, List.headD_cons] at hcell
  refine ⟨_, hcell, fun heq => hnul ?_⟩
  rw [← heq]
  exact List.getElem_mem hpos

/-- A result from the start is a result from every turn that is reached. -/
theorem loopAt_of_reached (hnul : NUL ∉ format) {fuel : Nat} {r : Output σ × Exit}
    (h : loopAt cpyFun beyond n format st fuel start .go = some r)
    (hreach : Relation.ReflTransGen (Turn cpyFun beyond n format st) start s) :
    ∃ fuel, loopAt cpyFun beyond n format st fuel s .go = some r := by
  induction hreach with
  | refl => exact ⟨fuel, h⟩
  | @tail s s' _ hturn ih =>
    obtain ⟨fuel, hloop⟩ := ih
    obtain ⟨c, hc, hne⟩ := charAt_ne_nul hnul hturn.1
    cases fuel with
    | zero => cases hloop
    | succ fuel =>
      rw [loopAt, hc, Option.bind_some, if_neg (not_or_intro hne (not_not_intro rfl)), hturn.2, Option.bind_some,
        if_neg nofun] at hloop
      exact ⟨fuel, hloop⟩

/-- Behind the NUL the loop cannot even be left. -/
theorem loopAt_behind {fuel : Nat} {exit : Exit} (h : format.length < s.pos) :
    loopAt cpyFun beyond n format st fuel s exit = none := by
  cases fuel with
  | zero => rfl
  | succ fuel =>
    rw [loopAt, charAt_of_lt h]
    rfl

/-- As long as every turn lands in the format the loop ends: what is left of the format decreases. -/
theorem loopAt_of_lands (hn : n < 2 ^ 32) (hnul : NUL ∉ format)
    (hroom : ∀ s, Reached cpyFun beyond n format st start s → s.out.written < n)
    (hcut : ∀ s, Reached cpyFun beyond n format st start s → ¬ CutShort cpyFun beyond n format s) {k : Nat} :
    ∀ {s : Scan σ}, Relation.ReflTransGen (Turn cpyFun beyond n format st) start s → s.pos + k = format.length →
      ∃ fuel r, loopAt cpyFun beyond n format st fuel s .go = some r := by
  induction k using Nat.strong_induction_on with
  | _ k ih =>
    intro s hreach hk
    rcases Nat.eq_zero_or_pos k with rfl | hpos
    · rw [Nat.add_zero] at hk
      have hend : charAt format s.pos = some NUL := by
        have hstands := standsAt_drop (Nat.le_of_eq hk)
        rw [hstands.charAt_eq, List.drop_eq_nil_of_le (Nat.le_of_eq hk.symm)]
        rfl
      exact ⟨1, _, by rw [loopAt, hend, Option.bind_some, if_pos (.inl rfl)]⟩
    have hlt : s.pos < format.length := by omega
    have hreached : Reached cpyFun beyond n format st start s := ⟨hreach, hlt⟩
    obtain ⟨c, hc, hne⟩ := charAt_ne_nul hnul hlt
    obtain ⟨⟨s', exit⟩, hturn, hlands⟩ := turnAt_lands st hn (hroom s hreached) hnul hlt (hcut s hreached)
    have hone : ∀ fuel, loopAt cpyFun beyond n format st (fuel + 1) s .go =
        if exit = .error then some (s'.out, .error) else loopAt cpyFun beyond n format st fuel s' exit := by
      intro fuel
      rw [loopAt, hc, Option.bind_some, if_neg (not_or_intro hne (not_not_intro rfl)), hturn, Option.bind_some]
    rcases hlands with rfl | ⟨hinside, hafter⟩
    · exact ⟨1, _, (hone 0).trans (if_pos rfl)⟩
    cases exit with
    | error => exact ⟨1, _, (hone 0).trans (if_pos rfl)⟩
    | stop =>
      -- The character the pointer stands at is read before the loop is left.
      have hread := (standsAt_drop hinside).charAt_eq
      refine ⟨2, (s'.out, .stop), (hone 1).trans ?_⟩
      rw [if_neg nofun, loopAt, hread, Option.bind_some, if_pos (.inr nofun)]
    | go =>
      have hlater := hafter rfl
      have hk' : s'.pos + (format.length - s'.pos) = format.length := Nat.add_sub_of_le hinside
      dsimp only at hlater
      obtain ⟨fuel, r, hloop⟩ := ih (format.length - s'.pos) (by omega) (hreach.tail ⟨hlt, hturn⟩) hk'
      exact ⟨fuel + 1, r, (hone fuel).trans ((if_neg nofun).trans hloop)⟩

end

/-! ## Room before every turn -/

section
variable {cpyFun : CopyFun σ} {n beyond : Nat} {o : Output σ} {format : List UInt8} {st : Stack} {s start : Scan σ}

theorem Room.written_lt (h : Room n o) (hn : n ≤ INT_MAX) : o.written < n := by
  rcases h with h | rfl
  · exact h
  · exact absurd hn (by decide)

/-- Whatever result there is, there is room for a NUL behind it. -/
def RoomRun (n : Nat) (r : Option (Output σ × Exit)) : Prop := ∀ q ∈ r, q.1.written < n

theorem copyOut_written (bytes : List UInt8) (exit : Exit) (h : o.written + bytes.length < n) (hn : n ≤ INT_MAX) :
    (copyOut cpyFun bytes o exit).1.written < n := by
  simp only [INT_MAX] at hn
  unfold copyOut
  dsimp only
  split
  · dsimp only
    rwa [u32_of_lt (by omega)]
  · exact Nat.lt_of_le_of_lt (Nat.le_add_right _ _) h

theorem roomRun_emitRun {maxrem : Nat} {bytes : List UInt8} (h : o.written < n) (hn : n ≤ INT_MAX)
    (hlen : bytes.length < 2 ^ 31) : RoomRun n (emitRun cpyFun n maxrem bytes o) := by
  have hmax := hn
  simp only [INT_MAX] at hmax
  intro q hq
  unfold emitRun at hq
  dsimp only at hq
  rw [u32_of_lt (by omega), sub32_room (by omega) (by omega) (Nat.le_sub_one_of_lt h)] at hq
  split at hq
  · cases hq
    exact h
  · split at hq
    · split at hq
      · cases hq
        exact copyOut_written _ _ (by rw [List.length_take]; omega) hn
      · cases hq
    · cases hq
      exact copyOut_written _ _ (by omega) hn

theorem padLoop_written (h : o.written < n) (hn : n ≤ INT_MAX) (byte : UInt8) (count : Nat) :
    (padLoop cpyFun n byte count o).1.written < n := by
  have hroom : Room n o := .inl h
  exact (Room.padLoop (Nat.lt_of_le_of_lt hn (by decide)) byte count hroom).written_lt hn

theorem roomRun_printNumber (h : o.written < n) (hn : n ≤ INT_MAX) (strNum : List UInt8)
    (precision width zeroPad maxrem : Nat) :
    RoomRun n (printNumber cpyFun strNum precision width zeroPad n maxrem o) := by
  have hlt : n < 2 ^ 32 := Nat.lt_of_le_of_lt hn (by decide)
  have hlen : (strNum.take MAX_STR_NUM).length < 2 ^ 31 :=
    Nat.lt_of_le_of_lt (List.length_take_le _ _) (by decide)
  unfold printNumber
  dsimp only
  refine thenRun_keeps (Q := fun o => o.written < n) (padLoop_written h hn _ _) fun o h => ?_
  refine thenRun_keeps (Q := fun o => o.written < n) (padLoop_written h hn _ _) fun o h => ?_
  split
  · have hroom : Room n o := .inl h
    refine thenRun_keeps (Q := fun o => o.written < n) ((hroom.emitSign hlt _).written_lt hn) fun o h => ?_
    refine thenRun_keeps (Q := fun o => o.written < n) (by rw [breaks_fst]; exact padLoop_written h hn _ _)
      fun o h => ?_
    exact roomRun_emitRun h hn (Nat.lt_of_le_of_lt (length_skipSign_le _) hlen)
  · exact roomRun_emitRun h hn hlen

theorem roomRun_printStr (h : o.written < n) (hn : n ≤ INT_MAX) {s : List UInt8} (hs : s.length < 2 ^ 31)
    (maxrem width : Nat) : RoomRun n (printStr cpyFun n maxrem width s o) := by
  unfold printStr
  refine thenRun_keeps (Q := fun o => o.written < n) (by rw [breaks_fst]; exact padLoop_written h hn _ _) fun o h => ?_
  intro q hq
  obtain ⟨r, hr, rfl⟩ := Option.map_eq_some_iff.mp hq
  rw [keepStop_fst]
  exact roomRun_emitRun h hn hs r hr

theorem copyFormat_written {maxrem amount : Nat} {r : Scan σ × Exit} (h : s.out.written < n) (hn : n ≤ INT_MAX)
    (hr : copyFormat cpyFun n maxrem format amount s = some r) (hamount : amount < 2 ^ 31) :
    r.1.out.written < n := by
  have hmax := hn
  simp only [INT_MAX] at hmax
  have hread : ∀ {pos len : Nat} {bytes : List UInt8}, readChars format pos len = some bytes →
      bytes.length ≤ len := by
    intro pos len bytes hbytes
    unfold readChars at hbytes
    split at hbytes
    · obtain rfl := Option.some.inj hbytes
      exact List.length_take_le _ _
    · cases hbytes
  unfold copyFormat at hr
  dsimp only at hr
  rw [u32_of_lt (by omega), sub32_room (by omega) (by omega) (Nat.le_sub_one_of_lt h)] at hr
  split at hr
  · cases hr
    exact h
  · split at hr
    · obtain ⟨bytes, hbytes, rfl⟩ := Option.map_eq_some_iff.mp hr
      have hle := hread hbytes
      exact copyOut_written _ _ (by omega) hn
    · obtain ⟨bytes, hbytes, rfl⟩ := Option.map_eq_some_iff.mp hr
      have hle := hread hbytes
      exact copyOut_written _ _ (by omega) hn

theorem charAt_le {pos : Nat} {c : UInt8} (h : charAt format pos = some c) : pos ≤ format.length := by
  refine Nat.le_of_not_lt fun hlt => ?_
  rw [charAt_of_lt hlt] at h
  cases h

theorem skipWhile_le {p : UInt8 → Bool} {pos q : Nat} (h : skipWhile format p pos = some q) :
    q ≤ format.length := by
  unfold skipWhile at h
  generalize format.length + 1 = fuel at h
  induction fuel generalizing pos with
  | zero => cases h
  | succ fuel ih =>
    obtain ⟨c, hc, hrest⟩ := Option.bind_eq_some_iff.mp h
    split at hrest
    · exact ih hrest
    · obtain rfl := Option.some.inj hrest
      exact charAt_le hc

theorem literalAt_written {maxrem : Nat} {r : Scan σ × Exit} (h : s.out.written < n) (hn : n ≤ INT_MAX)
    (hformat : format.length < 2 ^ 31) (hr : literalAt cpyFun n maxrem format s = some r) :
    r.1.out.written < n := by
  obtain ⟨q, hq, hcopy⟩ := Option.bind_eq_some_iff.mp hr
  have hle := skipWhile_le hq
  exact copyFormat_written h hn hcopy (by omega)

theorem convAt_written {spec : Spec} {pos : Nat} {maxrem : Nat} {r : Scan σ × Exit} (h : s.out.written < n)
    (hn : n ≤ INT_MAX) (hformat : format.length < 2 ^ 31) (hstring : ∀ a, (st.string a).length < 2 ^ 31)
    (hr : convAt cpyFun n maxrem format st spec pos s = some r) : r.1.out.written < n := by
  have hnumber : ∀ {num : List UInt8 × Nat} {behind : Nat},
      (printNumber cpyFun num.1 spec.precision spec.width spec.zeroPad n maxrem s.out).map
        (fun r => ((⟨behind, num.2, r.1⟩ : Scan σ), r.2)) = some r → r.1.out.written < n := by
    intro num behind hmap
    obtain ⟨q, hq, rfl⟩ := Option.map_eq_some_iff.mp hmap
    exact roomRun_printNumber h hn _ _ _ _ _ q hq
  unfold convAt at hr
  dsimp only at hr
  obtain ⟨c, -, hr⟩ := Option.bind_eq_some_iff.mp hr
  split at hr
  · cases hr
    have hroom : Room n s.out := .inl h
    dsimp only
    unfold printChar
    split
    · exact h
    · exact (hroom.emitByte (Nat.lt_of_le_of_lt hn (by decide)) _).written_lt hn
  · split at hr
    · obtain ⟨q, hq, rfl⟩ := Option.map_eq_some_iff.mp hr
      exact roomRun_printStr h hn (hstring _) _ _ q hq
    · split at hr
      · obtain ⟨letter, -, hr⟩ := Option.bind_eq_some_iff.mp hr
        split at hr
        · obtain ⟨letter, -, hr⟩ := Option.bind_eq_some_iff.mp hr
          exact hnumber hr
        · exact hnumber hr
      · split at hr
        · exact @hnumber (_, s.next + 1) _ hr
        · obtain ⟨q, hq, hcopy⟩ := Option.bind_eq_some_iff.mp hr
          have hle := skipWhile_le hq
          exact copyFormat_written h hn hcopy (by omega)

theorem turnAt_written {r : Scan σ × Exit} (h : s.out.written < n) (hn : n ≤ INT_MAX)
    (hformat : format.length < 2 ^ 31) (hstring : ∀ a, (st.string a).length < 2 ^ 31)
    (hr : turnAt cpyFun beyond n format st s = some r) : r.1.out.written < n := by
  obtain ⟨c, -, hr⟩ := Option.bind_eq_some_iff.mp hr
  split at hr
  · exact literalAt_written h hn hformat hr
  · obtain ⟨c, -, hr⟩ := Option.bind_eq_some_iff.mp hr
    split at hr
    · exact @literalAt_written _ cpyFun n format { s with pos := s.pos + 1 } _ r h hn hformat hr
    · obtain ⟨spec, -, hr⟩ := Option.bind_eq_some_iff.mp hr
      exact convAt_written h hn hformat hstring hr

/-- With a size that an `int` holds there is room before every turn. -/
theorem reached_written (h : start.out.written < n) (hn : n ≤ INT_MAX) (hformat : format.length < 2 ^ 31)
    (hstring : ∀ a, (st.string a).length < 2 ^ 31) (hreached : Reached cpyFun beyond n format st start s) :
    s.out.written < n := by
  obtain ⟨hreach, -⟩ := hreached
  induction hreach with
  | refl => exact h
  | tail _ hturn ih => exact turnAt_written ih hn hformat hstring hturn.2

end

/-! ## The end of the format -/

/-- A turn that is reached and cut short reads on behind the NUL. -/
theorem CutShort.not_readsInside {cpyFun : CopyFun σ} {terminate : Option (σ → Nat → σ)} {beyond n : Nat}
    {format : List UInt8} {st : Stack} {sink : σ} {s : Scan σ} (hcut : CutShort cpyFun beyond n format s)
    (hnul : NUL ∉ format) (hreached : Reached cpyFun beyond n format st ⟨0, 0, ⟨sink, 0⟩⟩ s) :
    ¬ ReadsInside cpyFun terminate beyond n format st sink := by
  rintro ⟨fuel, r, hrun⟩
  obtain ⟨q, hloop, -⟩ := Option.map_eq_some_iff.mp hrun
  obtain ⟨fuel', hloop'⟩ := loopAt_of_reached hnul hloop hreached.1
  obtain ⟨r', hturn, hexit, hpos⟩ := turnAt_cutShort st hcut
  obtain ⟨c, hc, hne⟩ := charAt_ne_nul hnul hreached.2
  cases fuel' with
  | zero => cases hloop'
  | succ fuel' =>
    rw [loopAt, hc, Option.bind_some, if_neg (not_or_intro hne (not_not_intro rfl)), hturn, Option.bind_some,
      if_neg hexit, loopAt_behind (by rw [hpos]; exact Nat.lt_succ_self _)] at hloop'
    cases hloop'

end TalOS
