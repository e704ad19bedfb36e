-- SUMMARY: How far `sprintf` and `snprintf` store: where their text ends, and for which sizes that is inside the buffer.
import TalOS.Libk.Stdout

/-!
# Bounds of the stores

A call stores within a size when no byte of the buffer at that index or behind it
changes. For `sprintf` the length of the text decides that; `snprintf` is given the
size, and keeps it unless it is 0: every piece of the formatter leaves one byte free
for the NUL, which is then stored without a test.
-/

open MachineInt Bounded

namespace TalOS

/-- There is a result, and the bytes from `size` on are as before. -/
def StoresWithin (size : Nat) (str : Nat → UInt8) (r : Option ((Nat → UInt8) × Int)) : Prop :=
  ∃ mem ret, r = some (mem, ret) ∧ ∀ i, size ≤ i → mem i = str i

/-- `snprintf` into a buffer -/
def snprintf (beyond : Nat) (str : Nat → UInt8) (size : Nat) (format : List UInt8)
    (parameters : List Arg) : Option ((Nat → UInt8) × Int) :=
  genPrintf memcpyFun (some terminateString) beyond size format parameters str

/-! ## `sprintf` -/

/-- `sprintf` stays inside a buffer that holds the text and its NUL. -/
theorem sprintf_storesWithin {beyond : Nat} {format : List UInt8} {parameters : List Arg} {text : List UInt8}
    (hfull : rendering beyond format parameters = some text) (htext : text.length < INT_MAX - 1) (size : Nat) :
    (∀ str, StoresWithin size str (sprintf beyond str format parameters)) ↔ text.length + 1 ≤ size := by
  have hrun : ∀ str, sprintf beyond str format parameters = _ :=
    fun str => vsprintf_rendering str hfull htext
  have hlen : (text ++ [NUL]).length = text.length + 1 := List.length_append
  constructor
  · intro hwithin
    refine Nat.succ_le_of_lt (Nat.lt_of_not_le fun hle => ?_)
    obtain ⟨mem, ret, hmem, hsame⟩ := hwithin fun _ => 7
    rw [hrun] at hmem
    obtain ⟨rfl, -⟩ := Prod.mk.inj (Option.some.inj hmem)
    have hnul := hsame text.length hle
    have hstored : Memory.writeAt (fun _ => (7 : UInt8)) 0 (text ++ [NUL]) (0 + text.length) = _ :=
      Memory.writeAt_getElem (hlen ▸ Nat.lt_succ_self _)
    rw [Nat.zero_add, List.getElem_concat_length rfl] at hstored
    rw [hstored] at hnul
    exact absurd hnul (show NUL ≠ 7 by decide)
  · intro hsize str
    exact ⟨_, _, hrun str, fun i hi => Memory.writeAt_of_ge (by rw [hlen, Nat.zero_add]; omega)⟩

/-! ## What is left to read -/

/-- A turn reads on in the same format and the same arguments. -/
theorem literalRun_suffix (format : List UInt8) : (literalRun format).2 <:+ format := by
  have htail : (if format.head? = some PERCENT then format.tail else format) <:+ format := by
    split
    · exact List.tail_suffix format
    · exact List.suffix_refl format
  exact ((List.dropWhile_suffix _).trans (List.tail_suffix _)).trans htail

theorem scanWidth_suffix (beyond : Nat) (format : List UInt8) : (scanWidth beyond format).2.2 <:+ format := by
  unfold scanWidth
  split
  · exact (List.dropWhile_suffix _).trans (List.dropWhile_suffix _)
  · exact List.suffix_refl format

theorem scanPrecision_suffix (beyond : Nat) (format : List UInt8) :
    (scanPrecision beyond format).2 <:+ format := by
  unfold scanPrecision
  split
  · exact (List.dropWhile_suffix _).trans (List.tail_suffix _)
  · exact List.suffix_refl format

theorem scanSpec_suffix (beyond : Nat) (format : List UInt8) : (scanSpec beyond format).2 <:+ format :=
  (scanPrecision_suffix beyond _).trans (scanWidth_suffix beyond format)

theorem fetchWord_suffix {conv : IntConv} {parameters : List Arg} {r : List UInt8 × List Arg}
    (h : fetchWord conv parameters = some r) : r.2 <:+ parameters := by
  unfold fetchWord at h
  split at h
  · obtain rfl := Option.some.inj h
    exact List.suffix_cons _ _
  · cases h

theorem fetchDword_suffix {conv : IntConv} {parameters : List Arg} {r : List UInt8 × List Arg}
    (h : fetchDword conv parameters = some r) : r.2 <:+ parameters := by
  unfold fetchDword at h
  split at h
  · obtain rfl := Option.some.inj h
    exact List.suffix_cons _ _
  · cases h

theorem scanNumber_suffix {fetch : IntConv → List Arg → Option (List UInt8 × List Arg)}
    (hfetch : ∀ conv parameters r, fetch conv parameters = some r → r.2 <:+ parameters) {format : List UInt8}
    {parameters : List Arg} {r : List UInt8 × Cursor} (h : scanNumber fetch format parameters = some r) :
    r.2.format <:+ format ∧ r.2.parameters <:+ parameters := by
  cases format with
  | nil => cases h
  | cons letter format =>
    unfold scanNumber at h
    dsimp only at h
    split at h
    · obtain ⟨q, hq, rfl⟩ := Option.map_eq_some_iff.mp h
      exact ⟨List.suffix_cons _ _, hfetch _ _ _ hq⟩
    · obtain rfl := Option.some.inj h
      exact ⟨List.suffix_cons _ _, List.suffix_refl _⟩

/-- A string that is printed is one of the arguments. -/
theorem scanConv_suffix {format : List UInt8} {parameters : List Arg} {conv : Conv} {c : Cursor}
    (h : scanConv format parameters = some (conv, c)) :
    c.format <:+ format ∧ c.parameters <:+ parameters ∧ ∀ s, conv = .str s → .str s ∈ parameters := by
  cases scanConv_scans h with
  | char hargs =>
    rw [hargs]
    exact ⟨List.suffix_cons _ _, List.suffix_cons _ _, by simp⟩
  | str hargs =>
    rw [hargs]
    refine ⟨List.suffix_cons _ _, List.suffix_cons _ _, ?_⟩
    rintro s ⟨⟩
    exact List.mem_cons_self
  | longLong hnum =>
    obtain ⟨hformat, hparameters⟩ := scanNumber_suffix (fun _ _ _ => fetchDword_suffix) hnum
    exact ⟨(hformat.trans (List.suffix_cons _ _)).trans (List.suffix_cons _ _), hparameters, by simp⟩
  | long _ hnum =>
    obtain ⟨hformat, hparameters⟩ := scanNumber_suffix (fun _ _ _ => fetchWord_suffix) hnum
    exact ⟨hformat.trans (List.suffix_cons _ _), hparameters, by simp⟩
  | plain _ _ hnum => exact ⟨List.suffix_cons _ _, fetchWord_suffix hnum, by simp⟩
  | unknown => exact ⟨List.nil_suffix, List.suffix_refl _, by simp⟩

theorem stepText_suffix {beyond : Nat} {c c' : Cursor} {text : List UInt8}
    (h : stepText beyond c = some (text, c')) :
    c'.format <:+ c.format ∧ c'.parameters <:+ c.parameters := by
  unfold stepText at h
  dsimp only at h
  split at h
  · cases h
    exact ⟨literalRun_suffix c.format, List.suffix_refl _⟩
  · obtain ⟨⟨conv, cursor⟩, hconv, heq⟩ := Option.map_eq_some_iff.mp h
    obtain ⟨-, rfl⟩ := Prod.mk.inj heq
    obtain ⟨hformat, hparameters, -⟩ := scanConv_suffix hconv
    exact ⟨(hformat.trans (scanSpec_suffix beyond _)).trans (List.tail_suffix _), hparameters⟩

/-! ## `snprintf` -/

/-- The `n` bytes of the buffer lie in the 32-bit address space beside the format, the digits of a number and
the strings among the arguments, address 0 apart. -/
structure Addressable (n : Nat) (c : Cursor) : Prop where
  format : n + c.format.length + 1 < 2 ^ 32
  number : n + MAX_STR_NUM + 1 < 2 ^ 32
  string : ∀ s, .str s ∈ c.parameters → n + s.length + 1 < 2 ^ 32

theorem Addressable.suffix {n : Nat} {c c' : Cursor} (h : Addressable n c) (hformat : c'.format <:+ c.format)
    (hparameters : c'.parameters <:+ c.parameters) : Addressable n c' where
  format := by
    have hle := hformat.length_le
    have hfits := h.format
    omega
  number := h.number
  string s hs := h.string s (hparameters.subset hs)

theorem length_literalRun_le (format : List UInt8) : (literalRun format).1.length ≤ format.length := by
  have hrun : ∀ run : List UInt8, (run.take 1 ++ run.tail.takeWhile (· != PERCENT)).length ≤ run.length := by
    intro run
    cases run with
    | nil => exact Nat.le_refl 0
    | cons c run =>
      show (run.takeWhile (· != PERCENT)).length + 1 ≤ run.length + 1
      exact Nat.succ_le_succ (List.takeWhile_prefix _).length_le
  unfold literalRun
  dsimp only
  split
  · exact Nat.le_trans (hrun _) (List.tail_suffix _).length_le
  · exact hrun _

/-- What a turn copies at once fits beside the buffer. -/
theorem Addressable.turnRun_lt {n : Nat} {c : Cursor} (h : Addressable n c) (beyond : Nat) :
    n + turnRun beyond c + 1 < 2 ^ 32 := by
  have hformat := h.format
  have hnumber := h.number
  unfold turnRun
  split
  · have hle := length_literalRun_le c.format
    omega
  · cases hconv : scanConv (scanSpec beyond c.format.tail).2 c.parameters with
    | none => exact Nat.lt_of_le_of_lt (by simp) hformat
    | some conv =>
      obtain ⟨conv, cursor⟩ := conv
      rw [Option.map_some, Option.getD_some]
      cases conv with
      | char ch => exact Nat.lt_of_le_of_lt (by simp [convRun]) hformat
      | str s => exact h.string s ((scanConv_suffix hconv).2.2 s rfl)
      | number strNum => exact hnumber
      | unknown => exact hformat

section
variable {σ : Type} {S : Sink σ UInt8} {n beyond : Nat}

/-- With a size of 1 or more the main loop appends the text as far as there is room. -/
theorem genLoop_put {fuel : Nat} (hone : 1 ≤ n) (hn : n < 2 ^ 32) :
    ∀ {c : Cursor} {o : Output σ} {text : List UInt8}, textLoop beyond fuel c = some text →
      (Addressable n c ∨ o.written + text.length + 1 < 2 ^ 32) → o.written ≤ n - 1 →
      ∃ e, genLoop (sinkFun S) beyond n fuel c o = some (o.put S n text, e) ∧ e ≠ .error := by
  induction fuel with
  | zero =>
    intro c o text h
    simp [textLoop] at h
  | succ fuel ih =>
    intro c o text h hfits ho
    unfold textLoop at h
    split at h
    case isTrue hend =>
      cases h
      exact ⟨.go, by rw [genLoop, if_pos hend, Output.put_nil], by simp⟩
    case isFalse hend =>
      obtain ⟨⟨text₁, c₁⟩, hstep, hrest⟩ := Option.bind_eq_some_iff.mp h
      obtain ⟨text₂, htext₂, rfl⟩ := Option.map_eq_some_iff.mp hrest
      dsimp only at htext₂ hfits
      rw [List.length_append] at hfits
      have hw : NoWrap n o.written text₁.length (turnRun beyond c) :=
        hfits.imp (fun h => h.turnRun_lt beyond) fun h => by omega
      obtain ⟨q, hq, hprints⟩ := genStep_noWrap (S := S) hstep hone hn hw ho
      rw [genLoop, if_neg hend, hq]
      dsimp only [Option.bind_some]
      cases hexit : q.2 with
      | go =>
        obtain ⟨hformat, hparameters⟩ := stepText_suffix hstep
        -- What is left of the format and of the room carries over to the rest.
        have hwritten := hprints.written_le_add
        have hfits' : Addressable n c₁ ∨ q.1.written + text₂.length + 1 < 2 ^ 32 :=
          hfits.imp (fun h => h.suffix hformat hparameters) fun h => by omega
        obtain ⟨e, he, hnoError⟩ := ih htext₂ hfits' (hprints.written_le ho)
        refine ⟨e, ?_, hnoError⟩
        rw [if_pos rfl, he, hprints.output, Output.put_append]
      | stop =>
        refine ⟨q.2, ?_, hprints.noError⟩
        rw [if_neg (by simp), ← (hprints.stopped hexit text₂).output]
      | error => exact absurd hexit hprints.noError

/-! ### Size 0 -/

/-- With size 0 a turn comes to nothing, or it ends the loop before the first byte. -/
def Refuses (o : Output σ) (r : Option (Output σ × Exit)) : Prop := ∀ q ∈ r, q = (o, .stop)

variable {cpyFun : CopyFun σ} {o : Output σ}

theorem emitByte_zero (byte : UInt8) (ho : o.written = 0) : emitByte cpyFun 0 byte o = (o, .stop) := by
  rw [emitByte, ho]
  rfl

theorem padLoop_zero (byte : UInt8) (count : Nat) (ho : o.written = 0) :
    padLoop cpyFun 0 byte count o = (o, .stop) ∨ padLoop cpyFun 0 byte count o = (o, .go) := by
  cases count with
  | zero => exact .inr rfl
  | succ count =>
    rw [padLoop, emitByte_zero byte ho]
    exact .inl rfl

/-- The clamp of a run wraps around to more than there is to copy. -/
theorem emitRun_zero {maxrem : Nat} {bytes : List UInt8} (hlen : bytes.length + 1 < 2 ^ 32)
    (hrem : bytes.length ≤ maxrem) (ho : o.written = 0) : emitRun cpyFun 0 maxrem bytes o = none := by
  have hclamp : sub32 (sub32 0 0) 1 = 2 ^ 32 - 1 := rfl
  rw [emitRun, if_neg (Nat.not_lt.mpr hrem), ho, Nat.zero_add, u32_of_lt hlen, if_pos (Nat.succ_pos _), hclamp]
  exact if_neg (by omega)

theorem Refuses.thenRun {r : Output σ × Exit} {rest : Output σ → Option (Output σ × Exit)}
    (h : r = (o, .stop) ∨ r = (o, .go)) (hrest : Refuses o (rest o)) : Refuses o (thenRun r rest) := by
  rcases h with rfl | rfl
  · rintro q ⟨⟩
    rfl
  · exact hrest

theorem refuses_emitRun {maxrem : Nat} {bytes : List UInt8} (hlen : bytes.length + 1 < 2 ^ 32)
    (hrem : bytes.length ≤ maxrem) (ho : o.written = 0) : Refuses o (emitRun cpyFun 0 maxrem bytes o) := by
  rw [emitRun_zero hlen hrem ho]
  exact fun q hq => nomatch hq

theorem refuses_printNumber (strNum : List UInt8) (precision width zeroPad : Nat) (ho : o.written = 0) :
    Refuses o (printNumber cpyFun strNum precision width zeroPad 0 UINT_MAX o) := by
  have hlen : (strNum.take MAX_STR_NUM).length ≤ MAX_STR_NUM := List.length_take_le _ _
  have hrun : ∀ bytes : List UInt8, bytes.length ≤ MAX_STR_NUM →
      Refuses o (emitRun cpyFun 0 UINT_MAX bytes o) := fun bytes h =>
    refuses_emitRun (Nat.lt_of_le_of_lt (Nat.succ_le_succ h) (by decide)) (Nat.le_trans h (by decide)) ho
  unfold printNumber
  dsimp only
  refine Refuses.thenRun (padLoop_zero _ _ ho) (Refuses.thenRun (padLoop_zero _ _ ho) ?_)
  split
  · refine Refuses.thenRun ?_ (Refuses.thenRun ?_ (hrun _ (Nat.le_trans (length_skipSign_le _) hlen)))
    · unfold emitSign
      split
      · exact .inl (emitByte_zero _ ho)
      · exact .inr rfl
    · -- The loop of the precision does not end the conversion.
      refine .inr ?_
      rcases padLoop_zero ASCII_0 _ ho with h | h <;> rw [h] <;> rfl
  · exact hrun _ hlen

theorem refuses_printStr (width : Nat) {s : List UInt8} (hs : s.length + 1 < 2 ^ 32) (ho : o.written = 0) :
    Refuses o (printStr cpyFun 0 UINT_MAX width s o) := by
  have hrem : s.length ≤ UINT_MAX := by
    simp only [UINT_MAX]
    omega
  have hgo : breaks (padLoop cpyFun 0 SPACE (padCount width s.length) o) = (o, .go) := by
    rcases padLoop_zero SPACE (padCount width s.length) ho with h | h <;> rw [h] <;> rfl
  unfold printStr
  dsimp only
  refine Refuses.thenRun (.inr hgo) ?_
  rw [emitRun_zero hs hrem ho]
  intro q hq
  simp at hq

theorem genStep_zero {beyond : Nat} {c : Cursor} (hrun : turnRun beyond c + 1 < 2 ^ 32) (ho : o.written = 0)
    {r : Cursor × Output σ × Exit} (h : genStep cpyFun beyond 0 c o = some r) : r.2 = (o, .stop) := by
  have hrem : ∀ {len : Nat}, len + 1 < 2 ^ 32 → len ≤ UINT_MAX := by
    intro len hlen
    simp only [UINT_MAX]
    omega
  unfold turnRun at hrun
  unfold genStep at h
  dsimp only at h
  rw [ho, Nat.sub_zero] at h
  split at h
  case isTrue hliteral =>
    rw [if_pos hliteral] at hrun
    obtain ⟨q, hq, rfl⟩ := Option.map_eq_some_iff.mp h
    exact refuses_emitRun hrun (hrem hrun) ho q hq
  case isFalse hliteral =>
    rw [if_neg hliteral] at hrun
    obtain ⟨⟨conv, cursor⟩, hconv, hmap⟩ := Option.bind_eq_some_iff.mp h
    obtain ⟨q, hq, rfl⟩ := Option.map_eq_some_iff.mp hmap
    rw [hconv, Option.map_some, Option.getD_some] at hrun
    cases conv with
    | char ch =>
      obtain rfl := Option.some.inj hq
      rw [printChar, if_neg (by decide)]
      exact emitByte_zero ch ho
    | str s => exact refuses_printStr _ hrun ho q hq
    | number strNum => exact refuses_printNumber strNum _ _ _ ho q hq
    | unknown => exact refuses_emitRun hrun (hrem hrun) ho q hq

end

/-- With size 0 nothing is printed, and the NUL is stored all the same. -/
theorem vsnprintf_zero {beyond : Nat} {format : List UInt8} {ap : List Arg} {str mem : Nat → UInt8} {ret : Int}
    (hrun : turnRun beyond ⟨format, ap⟩ + 1 < 2 ^ 32)
    (h : vsnprintf beyond str 0 format ap = some (mem, ret)) : mem = Memory.writeAt str 0 [NUL] := by
  obtain ⟨r, hloop, hr⟩ := Option.map_eq_some_iff.mp h
  have hend : r.1 = ⟨str, 0⟩ ∧ r.2 ≠ .error := by
    unfold genLoop at hloop
    split at hloop
    · obtain rfl := Option.some.inj hloop
      exact ⟨rfl, by simp⟩
    · obtain ⟨q, hq, hrest⟩ := Option.bind_eq_some_iff.mp hloop
      have hstop := genStep_zero hrun rfl hq
      rw [hstop, if_neg (by simp)] at hrest
      obtain rfl := Option.some.inj hrest
      exact ⟨rfl, by simp⟩
  rw [if_neg hend.2, hend.1] at hr
  exact (Prod.mk.inj hr).1.symm

theorem turnRun_of_textLoop {beyond fuel : Nat} {c : Cursor} {text : List UInt8}
    (h : textLoop beyond fuel c = some text) (htext : text.length + 1 < 2 ^ 32) :
    turnRun beyond c + 1 < 2 ^ 32 := by
  cases fuel with
  | zero => cases h
  | succ fuel =>
    unfold textLoop at h
    split at h
    · next hend =>
      rw [turnRun, hend]
      exact Nat.one_lt_two_pow (by decide)
    · obtain ⟨⟨text₁, c₁⟩, hstep, hrest⟩ := Option.bind_eq_some_iff.mp h
      obtain ⟨text₂, -, rfl⟩ := Option.map_eq_some_iff.mp hrest
      have hle := turnRun_le hstep
      rw [List.length_append] at htext
      dsimp only [MAX_STR_NUM] at hle htext
      omega

/-! ### All sizes -/

/-- `snprintf` and `vsnprintf` store only below the size they are given, unless that is 0. The text of the format
is there for matching arguments; its length or the address space keeps the sums in 32 bits. -/
theorem snprintf_storesWithin (beyond : Nat) {n : Nat} (hn : n < 2 ^ 32) {format : List UInt8} {ap : List Arg}
    {text : List UInt8} (htext : textLoop beyond (format.length + 1) ⟨format, ap⟩ = some text)
    (hfits : Addressable n ⟨format, ap⟩ ∨ text.length + 1 < 2 ^ 32) :
    (∀ str, StoresWithin n str (snprintf beyond str n format ap) ∧
      StoresWithin n str (vsnprintf beyond str n format ap)) ↔ 1 ≤ n := by
  constructor
  · intro hwithin
    refine Nat.pos_of_ne_zero ?_
    rintro rfl
    obtain ⟨mem, ret, hmem, hsame⟩ := (hwithin fun _ => 7).2
    have hrun : turnRun beyond ⟨format, ap⟩ + 1 < 2 ^ 32 := by
      rcases hfits with hfits | hfits
      · have hlt := hfits.turnRun_lt beyond
        rwa [Nat.zero_add] at hlt
      · exact turnRun_of_textLoop htext hfits
    have hnul := hsame 0 (Nat.le_refl 0)
    rw [vsnprintf_zero hrun hmem] at hnul
    exact absurd hnul (show NUL ≠ 7 by decide)
  · intro hone str
    have hstores : StoresWithin n str (vsnprintf beyond str n format ap) := by
      have hfits' : Addressable n ⟨format, ap⟩ ∨ (⟨str, 0⟩ : Output _).written + text.length + 1 < 2 ^ 32 :=
        hfits.imp id fun h => by rwa [Nat.zero_add]
      obtain ⟨e, hloop, he⟩ := genLoop_put (S := memory) hone hn htext hfits' (Nat.zero_le (n - 1))
      have hmemcpy : memcpyFun = sinkFun memory := rfl
      have hwritten := Output.put_written_le (S := memory) (o := ⟨str, 0⟩) text (Nat.zero_le (n - 1))
      rw [vsnprintf, genPrintf, hmemcpy, hloop, Option.map_some, if_neg he]
      refine ⟨_, _, rfl, fun i hi => ?_⟩
      -- The NUL lies below the size, and the text below the NUL.
      have hnul : (Output.put memory n ⟨str, 0⟩ text).written + [NUL].length ≤ i := by
        rw [List.length_singleton]
        omega
      have htake : 0 + (text.take (n - 1 - 0)).length ≤ i := by
        have hlen : (text.take (n - 1 - 0)).length ≤ n - 1 := List.length_take_le _ _
        omega
      exact (Memory.writeAt_of_ge hnul).trans (Memory.writeAt_of_ge htake)
    exact ⟨hstores, hstores⟩

/-- `%5d|` with 42 into three bytes. -/
theorem snprintf_storesWithin_width :
    (∀ str, StoresWithin 3 str (snprintf 0 str 3 [0x25, 0x35, 0x64, 0x7c] [.word 42]) ∧
      StoresWithin 3 str (vsnprintf 0 str 3 [0x25, 0x35, 0x64, 0x7c] [.word 42])) ↔ 1 ≤ 3 :=
  snprintf_storesWithin 0 (by decide)
    (show textLoop 0 5 ⟨[0x25, 0x35, 0x64, 0x7c], [.word 42]⟩ =
      some [0x20, 0x20, 0x20, 0x34, 0x32, 0x7c] by decide) (.inr (by decide))

/-- The empty format with size 0. -/
theorem not_storesWithin_zero :
    ¬ StoresWithin 0 (fun _ => 7) (snprintf 0 (fun _ => 7) 0 [] []) := by
  rintro ⟨mem, ret, hmem, hsame⟩
  have hrun : snprintf 0 (fun _ => 7) 0 [] [] = some (Memory.writeAt (fun _ => 7) 0 [NUL], 1) := rfl
  rw [hrun] at hmem
  obtain ⟨rfl, -⟩ := Prod.mk.inj (Option.some.inj hmem)
  exact absurd (hsame 0 (Nat.le_refl 0)) (by decide)

end TalOS
