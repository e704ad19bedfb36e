-- SUMMARY: The text a format stands for, and bounded printing as its truncation.
import TalOS.Libk.Printf

/-!
# Rendering

`convText` is the text of one turn of the formatter without any limit. With a
limit, each piece of the formatter appends to the output what is left of its own
text; since appending composes, the whole call leaves what is left of the whole
text. The pieces are followed over an arbitrary sink, so that the run that
records the complete text and the run into a buffer of limited size are two
instances of one statement.
-/

open MachineInt Bounded

namespace TalOS

variable {σ : Type}

/-! ## What the pieces keep -/

section

variable {cpyFun : CopyFun σ} {Q : Output σ → Prop} {r : Output σ × Exit}

theorem andThen_keeps {rest : Output σ → Output σ × Exit} (h : Q r.1) (hrest : ∀ o, Q o → Q (rest o).1) :
    Q (andThen r rest).1 := by
  unfold andThen
  split
  · exact hrest _ h
  · exact h
  · exact h

theorem thenRun_keeps {rest : Output σ → Option (Output σ × Exit)} (h : Q r.1)
    (hrest : ∀ o, Q o → ∀ q ∈ rest o, Q q.1) : ∀ q ∈ thenRun r rest, Q q.1 := by
  intro q hq
  unfold thenRun at hq
  split at hq
  · exact hrest _ h q hq
  · cases hq
    exact h
  · cases hq
    exact h

theorem padLoop_keeps {maxWrite : Nat} {byte : UInt8}
    (hbyte : ∀ o, Q o → Q (emitByte cpyFun maxWrite byte o).1) (count : Nat) :
    ∀ o, Q o → Q (padLoop cpyFun maxWrite byte count o).1 := by
  induction count with
  | zero => exact fun _ h => h
  | succ count ih => exact fun o h => andThen_keeps (hbyte o h) ih

theorem emitSign_keeps {maxWrite : Nat} {o : Output σ} (h : Q o)
    (hbyte : Q (emitByte cpyFun maxWrite ASCII_MINUS o).1) (strNum : List UInt8) :
    Q (emitSign cpyFun maxWrite strNum o).1 := by
  unfold emitSign
  split
  · exact hbyte
  · exact h

theorem breaks_fst (r : Output σ × Exit) : (breaks r).1 = r.1 := by
  unfold breaks
  split <;> rfl

end

/-! ## Properties of what is behind the copy function -/

section Keeps

variable {cpyFun : CopyFun σ} {P : σ → Prop}

/-- The copy function does not leave `P`. -/
def Keeps (cpyFun : CopyFun σ) (P : σ → Prop) : Prop :=
  ∀ s start bytes, P s → P (cpyFun s start bytes).1

theorem Keeps.copyOut (hP : Keeps cpyFun P) (bytes : List UInt8) {o : Output σ} (exit : Exit)
    (h : P o.sink) : P (copyOut cpyFun bytes o exit).1.sink := by
  unfold TalOS.copyOut
  dsimp only
  split <;> exact hP _ _ _ h

theorem Keeps.emitByte (hP : Keeps cpyFun P) (maxWrite : Nat) (byte : UInt8) {o : Output σ}
    (h : P o.sink) : P (emitByte cpyFun maxWrite byte o).1.sink := by
  unfold TalOS.emitByte
  split
  · exact h
  · exact hP.copyOut _ _ h

theorem Keeps.padLoop (hP : Keeps cpyFun P) (maxWrite : Nat) (byte : UInt8) (count : Nat) :
    ∀ {o : Output σ}, P o.sink → P (padLoop cpyFun maxWrite byte count o).1.sink :=
  fun {o} h => padLoop_keeps (Q := fun o => P o.sink) (fun _ => hP.emitByte maxWrite byte) count o h

/-- `P` holds of whatever result there is. -/
def KeepsRun (P : σ → Prop) (r : Option (Output σ × Exit)) : Prop := ∀ q ∈ r, P q.1.sink

theorem Keeps.emitRun (hP : Keeps cpyFun P) (n maxrem : Nat) (bytes : List UInt8) {o : Output σ}
    (h : P o.sink) : KeepsRun P (emitRun cpyFun n maxrem bytes o) := by
  intro q hq
  unfold TalOS.emitRun at hq
  dsimp only at hq
  split at hq
  · cases hq
    exact h
  · split at hq
    · split at hq
      · cases hq
        exact hP.copyOut _ _ h
      · cases hq
    · cases hq
      exact hP.copyOut _ _ h

theorem Keeps.emitSign (hP : Keeps cpyFun P) (maxWrite : Nat) (strNum : List UInt8) {o : Output σ}
    (h : P o.sink) : P (emitSign cpyFun maxWrite strNum o).1.sink :=
  emitSign_keeps (Q := fun o => P o.sink) h (hP.emitByte _ _ h) strNum

theorem Keeps.printNumber (hP : Keeps cpyFun P) (strNum : List UInt8)
    (precision width zeroPad maxWrite maxrem : Nat) {o : Output σ} (h : P o.sink) :
    KeepsRun P (printNumber cpyFun strNum precision width zeroPad maxWrite maxrem o) := by
  unfold TalOS.printNumber
  dsimp only
  refine thenRun_keeps (Q := fun o => P o.sink) (hP.padLoop _ _ _ h) fun o h => ?_
  refine thenRun_keeps (Q := fun o => P o.sink) (hP.padLoop _ _ _ h) fun o h => ?_
  split
  · refine thenRun_keeps (Q := fun o => P o.sink) (hP.emitSign _ _ h) fun o h => ?_
    refine thenRun_keeps (Q := fun o => P o.sink) (by rw [breaks_fst]; exact hP.padLoop _ _ _ h) fun o h => ?_
    exact hP.emitRun _ _ _ h
  · exact hP.emitRun _ _ _ h

theorem Keeps.printChar (hP : Keeps cpyFun P) (n maxrem : Nat) (c : UInt8) {o : Output σ}
    (h : P o.sink) : P (printChar cpyFun n maxrem c o).1.sink := by
  unfold TalOS.printChar
  split
  · exact h
  · exact hP.emitByte _ _ h

theorem keepStop_fst (exit : Exit) (r : Output σ × Exit) : (keepStop exit r).1 = r.1 := by
  unfold keepStop
  split <;> rfl

theorem Keeps.printStr (hP : Keeps cpyFun P) (n maxrem width : Nat) (s : List UInt8)
    {o : Output σ} (h : P o.sink) : KeepsRun P (printStr cpyFun n maxrem width s o) := by
  unfold TalOS.printStr
  refine thenRun_keeps (Q := fun o => P o.sink) (by rw [breaks_fst]; exact hP.padLoop _ _ _ h) fun o h q hq => ?_
  obtain ⟨r, hr, rfl⟩ := Option.map_eq_some_iff.mp hq
  rw [keepStop_fst]
  exact hP.emitRun _ _ _ h r hr

theorem Keeps.genStep (hP : Keeps cpyFun P) (beyond n : Nat) (c : Cursor) {o : Output σ}
    (h : P o.sink) {r : Cursor × Output σ × Exit} (hr : genStep cpyFun beyond n c o = some r) :
    P r.2.1.sink := by
  unfold TalOS.genStep at hr
  dsimp only at hr
  split at hr
  · obtain ⟨q, hq, rfl⟩ := Option.map_eq_some_iff.mp hr
    exact hP.emitRun _ _ _ h q hq
  · obtain ⟨⟨conv, c'⟩, -, hconv⟩ := Option.bind_eq_some_iff.mp hr
    obtain ⟨q, hq, rfl⟩ := Option.map_eq_some_iff.mp hconv
    cases conv with
    | char ch =>
      cases hq
      exact hP.printChar _ _ _ h
    | str s => exact hP.printStr _ _ _ _ h q hq
    | number strNum => exact hP.printNumber _ _ _ _ _ _ h q hq
    | unknown => exact hP.emitRun _ _ _ h q hq

theorem Keeps.genLoop (hP : Keeps cpyFun P) (beyond n fuel : Nat) :
    ∀ {c : Cursor} {o : Output σ}, P o.sink →
      KeepsRun P (genLoop cpyFun beyond n fuel c o) := by
  induction fuel with
  | zero => exact fun _ q hq => nomatch hq
  | succ fuel ih =>
    intro c o h q hq
    unfold TalOS.genLoop at hq
    split at hq
    · cases hq
      exact h
    · obtain ⟨r, hr, hrest⟩ := Option.bind_eq_some_iff.mp hq
      split at hrest
      · exact ih (hP.genStep beyond n c h hr) q hrest
      · cases hrest
        exact hP.genStep beyond n c h hr

end Keeps

/-! ## Texts without a limit -/

/-- What `print_number` prints. -/
def numberText (strNum : List UInt8) (precision width zeroPad : Nat) : List UInt8 :=
  let strNum := strNum.take MAX_STR_NUM
  let len := strNum.length
  let intWidth := clampSigned width
  let intPrecision := clampSigned precision
  let zeroPad := if len ≥ intWidth then 0 else zeroPad
  List.replicate zeroPad ASCII_0 ++
    (List.replicate (spaceCount (intWidth - zeroPad) intPrecision len strNum) SPACE ++
      if needsZeros intPrecision len strNum then
        (if strNum.head? = some ASCII_MINUS then [ASCII_MINUS] else []) ++
          (List.replicate (intPrecision - (skipSign strNum).length).toNat ASCII_0 ++
            skipSign strNum)
      else strNum)

/-- What a conversion prints; an unknown one prints the format from its `%` on. -/
def convText (format : List UInt8) (spec : Spec) : Conv → List UInt8
  | .char c => [c]
  | .str s => List.replicate (padCount spec.width s.length) SPACE ++ s
  | .number strNum => numberText strNum spec.precision spec.width spec.zeroPad
  | .unknown => format

/-- The text of one turn of the main loop and the cursor behind it. -/
def stepText (beyond : Nat) (c : Cursor) : Option (List UInt8 × Cursor) :=
  if startsLiteral c.format then
    some ((literalRun c.format).1, ⟨(literalRun c.format).2, c.parameters⟩)
  else
    let spec := scanSpec beyond c.format.tail
    (scanConv spec.2 c.parameters).map fun conv => (convText c.format spec.1 conv.1, conv.2)

/-- The text of a whole format, turn by turn. -/
def textLoop (beyond : Nat) : Nat → Cursor → Option (List UInt8)
  | 0, _ => none
  | fuel + 1, c =>
    if c.format = [] then some []
    else (stepText beyond c).bind fun r => (textLoop beyond fuel r.2).map (r.1 ++ ·)

/-! ## Pieces append their text -/

section Prints

variable {S : Sink σ UInt8} {n : Nat} {o : Output σ}

/-- Copying into a sink that takes everything. -/
def sinkFun (S : Sink σ UInt8) : CopyFun σ := fun s start bytes => (S.copy s start bytes, true)

/-- A piece has appended `text` as far as there was room, and it ends the main
loop only when there is no room left. -/
structure Prints (S : Sink σ UInt8) (n : Nat) (o : Output σ) (text : List UInt8)
    (r : Output σ × Exit) : Prop where
  output : r.1 = o.put S n text
  noError : r.2 ≠ .error
  full : r.2 = .stop → r.1.written = n - 1

/-- There is a result, and it has appended `text`. -/
def PrintsRun (S : Sink σ UInt8) (n : Nat) (o : Output σ) (text : List UInt8)
    (r : Option (Output σ × Exit)) : Prop := ∃ q, r = some q ∧ Prints S n o text q

theorem Prints.written_le {text : List UInt8} {r : Output σ × Exit} (h : Prints S n o text r)
    (ho : o.written ≤ n - 1) : r.1.written ≤ n - 1 := by
  rw [h.output]
  exact Output.put_written_le text ho

theorem prints_nothing : Prints S n o [] (o, .go) := ⟨Output.put_nil.symm, nofun, nofun⟩

/-- A piece that leaves the loop has also appended whatever might have followed. -/
theorem Prints.stopped {text : List UInt8} {r : Output σ × Exit} (h : Prints S n o text r)
    (hstop : r.2 = .stop) (rest : List UInt8) : Prints S n o (text ++ rest) r := by
  refine ⟨?_, h.noError, h.full⟩
  have hfull := h.full hstop
  rw [h.output] at hfull ⊢
  exact (Output.put_append_of_full rest hfull).symm

/-- Two pieces, one after the other. -/
theorem Prints.trans {text text' : List UInt8} {r r' : Output σ × Exit} (h : Prints S n o text r)
    (h' : Prints S n r.1 text' r') : Prints S n o (text ++ text') r' := by
  refine ⟨?_, h'.noError, h'.full⟩
  rw [h'.output, h.output, Output.put_append]

theorem Prints.andThen {text text' : List UInt8} {r : Output σ × Exit}
    {rest : Output σ → Output σ × Exit} (h : Prints S n o text r)
    (hrest : Prints S n r.1 text' (rest r.1)) : Prints S n o (text ++ text') (andThen r rest) := by
  unfold TalOS.andThen
  split
  case h_1 => exact h.trans hrest
  case h_2 hstop => exact h.stopped hstop text'
  case h_3 herror => exact absurd herror h.noError

theorem Prints.thenRun {text text' : List UInt8} {r : Output σ × Exit}
    {rest : Output σ → Option (Output σ × Exit)} (h : Prints S n o text r)
    (hrest : PrintsRun S n r.1 text' (rest r.1)) :
    PrintsRun S n o (text ++ text') (thenRun r rest) := by
  unfold TalOS.thenRun
  split
  case h_1 =>
    obtain ⟨q, hq, hprints⟩ := hrest
    exact ⟨q, hq, h.trans hprints⟩
  case h_2 hstop => exact ⟨r, rfl, h.stopped hstop text'⟩
  case h_3 herror => exact absurd herror h.noError

theorem Prints.breaks {text : List UInt8} {r : Output σ × Exit} (h : Prints S n o text r) :
    Prints S n o text (breaks r) := by
  unfold TalOS.breaks
  split
  case h_1 => exact ⟨h.output, nofun, nofun⟩
  case h_2 => exact h
  case h_3 herror => exact absurd herror h.noError

theorem copyOut_sinkFun (S : Sink σ UInt8) (bytes : List UInt8) (exit : Exit)
    (h : o.written + bytes.length < 2 ^ 32) :
    copyOut (sinkFun S) bytes o exit =
      (⟨S.copy o.sink o.written bytes, o.written + bytes.length⟩, exit) := by
  rw [copyOut, u32_of_lt h]
  rfl

/-- No sum of positions and lengths wraps while a text of length `len` is appended, of which at most
`run` bytes are copied at once: behind the limit there is room for a run, or behind the position for
the whole text. -/
def NoWrap (n written len run : Nat) : Prop := n + run + 1 < 2 ^ 32 ∨ written + len + 1 < 2 ^ 32

theorem NoWrap.mono {written len run written' len' run' : Nat} (h : NoWrap n written len run)
    (hlen : written' + len' ≤ written + len) (hrun : run' ≤ run) : NoWrap n written' len' run' := by
  rcases h with h | h
  · exact .inl (by omega)
  · exact .inr (by omega)

theorem noWrap_of_le {run : Nat} (hn : n ≤ INT_MAX) (hrun : run < 2 ^ 31) (written len : Nat) :
    NoWrap n written len run := by
  simp only [INT_MAX] at hn
  exact .inl (by omega)

theorem Prints.written_le_add {text : List UInt8} {r : Output σ × Exit} (h : Prints S n o text r) :
    r.1.written ≤ o.written + text.length := by
  rw [h.output, Output.put_written]
  exact Nat.add_le_add_left (Nat.min_le_right _ _) _

/-- What is left of the text behind a piece of it still does not wrap. -/
theorem NoWrap.behind {text rest : List UInt8} {run run' : Nat} {r : Output σ × Exit}
    (h : NoWrap n o.written (text ++ rest).length run) (hr : Prints S n o text r) (hrun : run' ≤ run) :
    NoWrap n r.1.written rest.length run' := by
  have hwritten := hr.written_le_add
  rw [List.length_append] at h
  exact h.mono (by omega) hrun

theorem NoWrap.front {text rest : List UInt8} {run run' : Nat}
    (h : NoWrap n o.written (text ++ rest).length run) (hrun : run' ≤ run) :
    NoWrap n o.written text.length run' := by
  rw [List.length_append] at h
  exact h.mono (by omega) hrun

/-- A run that fits is appended, and the formatter goes on. -/
theorem prints_copyOut {bytes : List UInt8} (hn : n < 2 ^ 32)
    (hfit : o.written + bytes.length ≤ n - 1) :
    Prints S n o bytes (copyOut (sinkFun S) bytes o .go) := by
  rw [copyOut_sinkFun S bytes .go (by omega)]
  exact ⟨(Output.put_of_le (Nat.le_sub_of_add_le' hfit)).symm, nofun, nofun⟩

theorem prints_emitByte (byte : UInt8) (hn : n < 2 ^ 32) (hw : NoWrap n o.written 1 0)
    (ho : o.written ≤ n - 1) : Prints S n o [byte] (emitByte (sinkFun S) n byte o) := by
  have hlt : o.written + 2 < 2 ^ 32 := by
    rcases hw with h | h
    · omega
    · exact h
  rw [emitByte, u32_of_lt hlt]
  split
  case isTrue hroom =>
    have hfull : o.written = n - 1 := by omega
    exact ⟨(Output.put_of_full _ hfull).symm, nofun, fun _ => hfull⟩
  case isFalse hroom => exact prints_copyOut hn (by simp only [List.length_singleton]; omega)

theorem prints_padLoop (byte : UInt8) (count : Nat) (hn : n < 2 ^ 32) :
    ∀ {o : Output σ}, NoWrap n o.written (List.replicate count byte).length 0 → o.written ≤ n - 1 →
      Prints S n o (List.replicate count byte) (padLoop (sinkFun S) n byte count o) := by
  induction count with
  | zero => exact fun _ _ => prints_nothing
  | succ count ih =>
    intro o hw ho
    have hbyte := prints_emitByte (S := S) byte hn
      (hw.mono (by rw [List.length_replicate]; omega) (Nat.le_refl 0)) ho
    have hw' : NoWrap n o.written ([byte] ++ List.replicate count byte).length 0 := hw
    have hrest := hw'.behind hbyte (Nat.le_refl 0)
    exact hbyte.andThen (ih hrest (hbyte.written_le ho))

/-- `n - written - sizeof(char)` -/
theorem sub32_room {written : Nat} (hone : 1 ≤ n) (hn : n < 2 ^ 32) (hw : written ≤ n - 1) :
    sub32 (sub32 n written) 1 = n - 1 - written := by
  have hle : written ≤ n := Nat.le_trans hw (Nat.sub_le _ _)
  have hlt : n - written < 2 ^ 32 := Nat.lt_of_le_of_lt (Nat.sub_le _ _) hn
  rw [sub32_of_le hle hn, sub32_of_le (by omega) hlt]
  omega

/-- A run of text is appended as far as there is room. -/
theorem printsRun_emitRun {maxrem : Nat} {bytes : List UInt8} (hone : 1 ≤ n) (hn : n < 2 ^ 32)
    (hw : NoWrap n o.written bytes.length bytes.length) (ho : o.written ≤ n - 1)
    (hrem : bytes.length ≤ maxrem) :
    PrintsRun S n o bytes (emitRun (sinkFun S) n maxrem bytes o) := by
  have hlt : o.written + bytes.length + 1 < 2 ^ 32 := by
    rcases hw with h | h
    · omega
    · exact h
  have hroom := sub32_room hone hn ho
  rw [emitRun, if_neg (Nat.not_lt.mpr hrem), u32_of_lt hlt]
  split
  case isTrue hcut =>
    have hle : n - 1 - o.written ≤ bytes.length := by omega
    dsimp only
    rw [hroom, if_pos hle]
    have htake : (bytes.take (n - 1 - o.written)).length = n - 1 - o.written :=
      List.length_take_of_le hle
    refine ⟨_, rfl, ?_⟩
    rw [copyOut_sinkFun S _ _ (by rw [htake]; omega)]
    refine ⟨rfl, nofun, fun _ => ?_⟩
    dsimp only
    rw [htake]
    exact Nat.add_sub_of_le ho
  case isFalse hfit => exact ⟨_, rfl, prints_copyOut hn (by omega)⟩

/-- The sign of a number, where it has one. -/
def signText (strNum : List UInt8) : List UInt8 :=
  if strNum.head? = some ASCII_MINUS then [ASCII_MINUS] else []

theorem prints_emitSign (strNum : List UInt8) (hn : n < 2 ^ 32)
    (hw : NoWrap n o.written (signText strNum).length 0) (ho : o.written ≤ n - 1) :
    Prints S n o (signText strNum) (emitSign (sinkFun S) n strNum o) := by
  unfold emitSign signText at *
  split
  · next hsign =>
    rw [if_pos hsign] at hw
    exact prints_emitByte _ hn hw ho
  · exact prints_nothing

theorem length_skipSign_le (strNum : List UInt8) : (skipSign strNum).length ≤ strNum.length := by
  unfold skipSign
  split
  · rw [List.length_tail]
    exact Nat.sub_le _ _
  · exact Nat.le_refl _

theorem printsRun_printNumber (strNum : List UInt8) (precision width zeroPad maxrem : Nat)
    (hone : 1 ≤ n) (hn : n < 2 ^ 32)
    (hw : NoWrap n o.written (numberText strNum precision width zeroPad).length MAX_STR_NUM)
    (hrem : (strNum.take MAX_STR_NUM).length ≤ maxrem) (ho : o.written ≤ n - 1) :
    PrintsRun S n o (numberText strNum precision width zeroPad)
      (printNumber (sinkFun S) strNum precision width zeroPad n maxrem o) := by
  have hlen : (strNum.take MAX_STR_NUM).length ≤ MAX_STR_NUM := List.length_take_le _ _
  have hzero : 0 ≤ MAX_STR_NUM := Nat.zero_le _
  unfold printNumber
  unfold numberText at hw ⊢
  dsimp only at hw ⊢
  generalize strNum.take MAX_STR_NUM = strNum at hlen hrem hw
  generalize (if (strNum.length : Int) ≥ clampSigned width then 0 else zeroPad) = zeroPad at hw
  have hzeros := prints_padLoop (S := S) ASCII_0 zeroPad hn (hw.front hzero) ho
  refine hzeros.thenRun ?_
  have ho₁ := hzeros.written_le ho
  have hw₁ := hw.behind hzeros (Nat.le_refl _)
  generalize (padLoop (sinkFun S) n ASCII_0 zeroPad o).1 = o₁ at ho₁ hw₁
  have hspaces := prints_padLoop (S := S) SPACE
    (spaceCount (clampSigned width - zeroPad) (clampSigned precision) strNum.length strNum) hn
    (hw₁.front hzero) ho₁
  refine hspaces.thenRun ?_
  have ho₂ := hspaces.written_le ho₁
  have hw₂ := hw₁.behind hspaces (Nat.le_refl _)
  generalize (padLoop (sinkFun S) n SPACE _ o₁).1 = o₂ at ho₂ hw₂
  -- The digits are at most `MAX_STR_NUM` bytes.
  have hrun : ∀ {o : Output σ} {digits : List UInt8}, o.written ≤ n - 1 →
      digits.length ≤ strNum.length → NoWrap n o.written digits.length MAX_STR_NUM →
      PrintsRun S n o digits (emitRun (sinkFun S) n maxrem digits o) := by
    intro o digits ho hdigits hw
    exact printsRun_emitRun hone hn (hw.mono (Nat.le_refl _) (Nat.le_trans hdigits hlen)) ho
      (Nat.le_trans hdigits hrem)
  split at hw₂
  · next hneeds =>
    rw [if_pos hneeds, if_pos hneeds]
    have hsign := prints_emitSign (S := S) strNum hn (hw₂.front hzero) ho₂
    refine hsign.thenRun ?_
    have ho₃ := hsign.written_le ho₂
    have hw₃ := hw₂.behind hsign (Nat.le_refl _)
    generalize (emitSign (sinkFun S) n strNum o₂).1 = o₃ at ho₃ hw₃
    have hfill := (prints_padLoop (S := S) ASCII_0
      (clampSigned precision - (skipSign strNum).length).toNat hn (hw₃.front hzero) ho₃).breaks
    exact hfill.thenRun (hrun (hfill.written_le ho₃) (length_skipSign_le strNum)
      (hw₃.behind hfill (Nat.le_refl _)))
  · next hplain =>
    rw [if_neg hplain, if_neg hplain]
    exact hrun ho₂ (Nat.le_refl _) hw₂

theorem prints_printChar (c : UInt8) {maxrem : Nat} (hn : n < 2 ^ 32) (hw : NoWrap n o.written 1 0)
    (hrem : maxrem ≠ 0) (ho : o.written ≤ n - 1) :
    Prints S n o [c] (printChar (sinkFun S) n maxrem c o) := by
  rw [printChar, if_neg hrem]
  exact prints_emitByte c hn hw ho

/-- Setting `exit` for a part that had no room left. -/
theorem Prints.keepStop {text : List UInt8} {exit : Exit} {r : Output σ × Exit}
    (h : Prints S n o text r) (hexit : exit = .stop → o.written = n - 1) :
    Prints S n o text (keepStop exit r) := by
  unfold TalOS.keepStop
  split
  case h_1 =>
    refine ⟨h.output, nofun, fun _ => ?_⟩
    show r.1.written = n - 1
    rw [h.output, Output.put_of_full text (hexit rfl)]
    exact hexit rfl
  case h_2 => exact h

theorem printsRun_printStr (maxrem width : Nat) {s : List UInt8} (hone : 1 ≤ n) (hn : n < 2 ^ 32)
    (hw : NoWrap n o.written (List.replicate (padCount width s.length) SPACE ++ s).length s.length)
    (hrem : s.length ≤ maxrem) (ho : o.written ≤ n - 1) :
    PrintsRun S n o (List.replicate (padCount width s.length) SPACE ++ s)
      (printStr (sinkFun S) n maxrem width s o) := by
  have hpad := prints_padLoop (S := S) SPACE (padCount width s.length) hn
    (hw.front (Nat.zero_le _)) ho
  have hw' := hw.behind hpad (Nat.le_refl _)
  unfold printStr
  dsimp only
  generalize padLoop (sinkFun S) n SPACE (padCount width s.length) o = padded at hpad hw'
  refine hpad.breaks.thenRun ?_
  have hfst : (breaks padded).1 = padded.1 := by
    unfold breaks
    split <;> rfl
  rw [hfst]
  obtain ⟨q, hq, hprints⟩ := printsRun_emitRun hone hn hw' (hpad.written_le ho) hrem
  exact ⟨TalOS.keepStop padded.2 q, by rw [hq]; rfl, hprints.keepStop hpad.full⟩

/-- The longest run of bytes that a conversion copies at once. -/
def convRun (format : List UInt8) : Conv → Nat
  | .char _ => 0
  | .str s => s.length
  | .number _ => MAX_STR_NUM
  | .unknown => format.length

/-- The longest run of bytes that a turn of the main loop copies at once. -/
def turnRun (beyond : Nat) (c : Cursor) : Nat :=
  if startsLiteral c.format then (literalRun c.format).1.length
  else ((scanConv (scanSpec beyond c.format.tail).2 c.parameters).map
    fun conv => convRun c.format conv.1).getD 0

theorem length_take_le_numberText (strNum : List UInt8) (precision width zeroPad : Nat) :
    (strNum.take MAX_STR_NUM).length ≤ (numberText strNum precision width zeroPad).length := by
  unfold numberText
  dsimp only
  generalize strNum.take MAX_STR_NUM = strNum
  rw [List.length_append, List.length_append]
  refine Nat.le_trans ?_ (Nat.le_add_left _ _)
  refine Nat.le_trans ?_ (Nat.le_add_left _ _)
  split
  · have hsplit : strNum.length = (signText strNum).length + (skipSign strNum).length := by
      unfold signText skipSign
      split
      · next hsign =>
        obtain ⟨tail, rfl⟩ := List.head?_eq_some_iff.mp hsign
        rw [List.length_cons, List.tail_cons, List.length_singleton, Nat.add_comm]
      · rw [List.length_nil, Nat.zero_add]
    rw [← signText, List.length_append, List.length_append, hsplit]
    omega
  · exact Nat.le_refl _

/-- One turn of the main loop appends its text. -/
theorem genStep_noWrap {beyond : Nat} {c c' : Cursor} {text : List UInt8}
    (htext : stepText beyond c = some (text, c')) (hone : 1 ≤ n) (hn : n < 2 ^ 32)
    (hw : NoWrap n o.written text.length (turnRun beyond c)) (ho : o.written ≤ n - 1) :
    ∃ q, genStep (sinkFun S) beyond n c o = some (c', q) ∧ Prints S n o text q := by
  have hrem {len run : Nat} (hw : NoWrap n o.written text.length run) (hlen : len ≤ text.length)
      (hrun : len ≤ run) : len ≤ UINT_MAX - o.written := by
    simp only [UINT_MAX]
    rcases hw with h | h <;> omega
  unfold stepText at htext
  unfold genStep
  unfold turnRun at hw
  dsimp only at htext ⊢
  split at htext
  case isTrue hliteral =>
    obtain ⟨rfl, rfl⟩ := Prod.mk.inj (Option.some.inj htext)
    rw [if_pos hliteral] at hw
    obtain ⟨q, hq, hprints⟩ := printsRun_emitRun (S := S) hone hn hw ho
      (hrem hw (Nat.le_refl _) (Nat.le_refl _))
    exact ⟨q, by rw [if_pos hliteral, hq]; rfl, hprints⟩
  case isFalse hliteral =>
    rw [if_neg hliteral] at hw ⊢
    obtain ⟨⟨conv, cursor⟩, hconv, heq⟩ := Option.map_eq_some_iff.mp htext
    obtain ⟨rfl, rfl⟩ := Prod.mk.inj heq
    rw [hconv] at hw ⊢
    rw [Option.map_some, Option.getD_some] at hw
    cases conv with
    | char ch =>
      have hroom : 1 ≤ UINT_MAX - o.written := by
        have hw' : NoWrap n o.written 1 0 := hw
        simp only [UINT_MAX]
        rcases hw' with h | h <;> omega
      exact ⟨_, rfl, prints_printChar ch hn hw (Nat.ne_of_gt hroom) ho⟩
    | str s =>
      have hlen : s.length ≤ (convText c.format (scanSpec beyond c.format.tail).1 (.str s)).length := by
        rw [convText, List.length_append]
        exact Nat.le_add_left _ _
      obtain ⟨q, hq, hprints⟩ := printsRun_printStr (S := S) (o := o) (UINT_MAX - o.written)
        (scanSpec beyond c.format.tail).1.width hone hn hw (hrem hw hlen (Nat.le_refl _)) ho
      exact ⟨q, by simp only [Option.bind_some, hq, Option.map_some], hprints⟩
    | number strNum =>
      obtain ⟨q, hq, hprints⟩ := printsRun_printNumber (S := S) (o := o) strNum
        (scanSpec beyond c.format.tail).1.precision (scanSpec beyond c.format.tail).1.width
        (scanSpec beyond c.format.tail).1.zeroPad (UINT_MAX - o.written) hone hn hw
        (hrem hw (length_take_le_numberText _ _ _ _) (List.length_take_le _ _)) ho
      exact ⟨q, by simp only [Option.bind_some, hq, Option.map_some], hprints⟩
    | unknown =>
      have hw' : NoWrap n o.written c.format.length c.format.length := hw
      obtain ⟨q, hq, hprints⟩ := printsRun_emitRun (S := S) hone hn hw' ho
        (hrem hw (Nat.le_refl _) (Nat.le_refl _))
      exact ⟨q, by simp only [Option.bind_some, hq, Option.map_some], hprints⟩

/-- Nothing but a number is longer than the text of its turn. -/
theorem turnRun_le {beyond : Nat} {c c' : Cursor} {text : List UInt8}
    (htext : stepText beyond c = some (text, c')) : turnRun beyond c ≤ max text.length MAX_STR_NUM := by
  unfold stepText at htext
  unfold turnRun
  dsimp only at htext
  split at htext
  case isTrue hliteral =>
    obtain ⟨rfl, -⟩ := Prod.mk.inj (Option.some.inj htext)
    rw [if_pos hliteral]
    exact Nat.le_max_left _ _
  case isFalse hliteral =>
    obtain ⟨⟨conv, cursor⟩, hconv, heq⟩ := Option.map_eq_some_iff.mp htext
    obtain ⟨rfl, -⟩ := Prod.mk.inj heq
    rw [if_neg hliteral, hconv, Option.map_some, Option.getD_some]
    cases conv with
    | char ch => exact Nat.zero_le _
    | str s =>
      rw [convRun, convText, List.length_append]
      omega
    | number strNum => exact Nat.le_max_right _ _
    | unknown => exact Nat.le_max_left _ _

/-- One turn with a limit that an `int` can hold. -/
theorem genStep_prints {beyond : Nat} {c c' : Cursor} {text : List UInt8}
    (htext : stepText beyond c = some (text, c')) (hone : 1 ≤ n) (hn : n ≤ INT_MAX)
    (hlen : text.length < 2 ^ 31) (ho : o.written ≤ n - 1) :
    ∃ q, genStep (sinkFun S) beyond n c o = some (c', q) ∧ Prints S n o text q := by
  have hrun : turnRun beyond c < 2 ^ 31 :=
    Nat.lt_of_le_of_lt (turnRun_le htext) (Nat.max_lt.mpr ⟨hlen, by decide⟩)
  exact genStep_noWrap htext hone (Nat.lt_of_le_of_lt hn (by decide)) (noWrap_of_le hn hrun _ _) ho

end Prints

/-! ## The run that records everything -/

/-- The recorder holds as many bytes as were written. -/
def Recorded (o : Output (List UInt8)) : Prop := o.sink.length = o.written

theorem Recorded.put {o : Output (List UInt8)} (h : Recorded o) (n : Nat) (text : List UInt8) :
    Recorded (o.put recorder n text) := by
  unfold Recorded at h ⊢
  rw [Output.put_written, Output.put]
  simp only [recorder, List.length_append, List.length_take, h]

/-- A recorded text that does not fit fills the record up. -/
theorem Prints.recorded_full {n : Nat} {o : Output (List UInt8)} {text : List UInt8}
    {r : Output (List UInt8) × Exit} (h : Prints recorder n o text r) (hrec : Recorded o)
    (ho : o.written ≤ n - 1) (hlong : n - 1 ≤ text.length) : n - 1 ≤ r.1.sink.length := by
  have hrec' : (o.put recorder n text).sink.length = _ := hrec.put n text
  have hfull : r.1.sink.length = n - 1 := by
    rw [h.output, hrec', Output.put_written_of_ge ho (Nat.le_trans (Nat.sub_le _ _) hlong)]
  exact Nat.le_of_eq hfull.symm

/-- A run of 2 GiB or more fails, or it is recorded up to the limit: even where
the sum with the bytes already written wraps, the whole run is copied. -/
theorem emitRun_recorder_long {n maxrem : Nat} {bytes : List UInt8} {o : Output (List UInt8)}
    {q : Output (List UInt8) × Exit} (hone : 1 ≤ n) (hn : n ≤ INT_MAX) (ho : o.written ≤ n - 1)
    (hrec : Recorded o) (hlong : 2 ^ 31 ≤ bytes.length)
    (h : emitRun (sinkFun recorder) n maxrem bytes o = some q) (hq : q.2 ≠ .error) :
    n - 1 ≤ q.1.sink.length := by
  have hlimit : n < 2 ^ 31 := by
    simp only [INT_MAX] at hn
    omega
  have hroom := sub32_room hone (Nat.lt_trans hlimit (by decide)) ho
  have hsink : ∀ (l : List UInt8) (e : Exit),
      (copyOut (sinkFun recorder) l o e).1.sink = o.sink ++ l := fun _ _ => rfl
  unfold emitRun at h
  dsimp only at h
  rw [hroom] at h
  split at h
  · cases h
    exact absurd rfl hq
  · split at h
    · rw [if_pos (by omega)] at h
      cases h
      rw [hsink, List.length_append, hrec, List.length_take_of_le (by omega)]
      omega
    · cases h
      rw [hsink, List.length_append]
      omega

theorem keepStop_snd_ne_error {exit : Exit} {r : Output σ × Exit}
    (h : (keepStop exit r).2 ≠ .error) : r.2 ≠ .error := by
  unfold keepStop at h
  intro herror
  rw [herror] at h
  split at h
  case h_1 hgo => cases hgo
  case h_2 => exact h herror

/-- A string of 2 GiB or more, behind its padding. -/
theorem printStr_recorder_long {n maxrem width : Nat} {s : List UInt8} {o : Output (List UInt8)}
    {q : Output (List UInt8) × Exit} (hone : 1 ≤ n) (hn : n ≤ INT_MAX) (ho : o.written ≤ n - 1)
    (hrec : Recorded o) (hlong : 2 ^ 31 ≤ s.length)
    (h : printStr (sinkFun recorder) n maxrem width s o = some q) (hq : q.2 ≠ .error) :
    n - 1 ≤ q.1.sink.length := by
  have hpad := prints_padLoop (S := recorder) SPACE (padCount width s.length)
    (Nat.lt_of_le_of_lt hn (by decide)) (noWrap_of_le hn (by decide) _ _) ho
  unfold printStr at h
  dsimp only at h
  generalize padLoop (sinkFun recorder) n SPACE (padCount width s.length) o = padded at hpad h
  have hgo : breaks padded = (padded.1, .go) := by
    unfold breaks
    split
    case h_1 => rfl
    case h_2 hexit => rw [← hexit]
    case h_3 hexit => exact absurd hexit hpad.noError
  rw [hgo] at h
  obtain ⟨r, hr, rfl⟩ := Option.map_eq_some_iff.mp h
  have hrec' : Recorded padded.1 := by
    rw [hpad.output]
    exact hrec.put n _
  rw [keepStop_fst]
  exact emitRun_recorder_long hone hn (hpad.written_le ho) hrec' hlong hr
    (keepStop_snd_ne_error hq)

/-- One recorded turn: its text is short, or the record is full. -/
theorem genStep_recorder {n beyond : Nat} {c : Cursor} {o : Output (List UInt8)}
    {r : Cursor × Output (List UInt8) × Exit} (hone : 1 ≤ n) (hn : n ≤ INT_MAX)
    (ho : o.written ≤ n - 1) (hrec : Recorded o)
    (h : genStep (sinkFun recorder) beyond n c o = some r) (hr : r.2.2 ≠ .error) :
    ∃ text, stepText beyond c = some (text, r.1) ∧
      (text.length < 2 ^ 31 ∨ n - 1 ≤ r.2.1.sink.length) := by
  have hlimit : n < 2 ^ 31 := by
    simp only [INT_MAX] at hn
    omega
  unfold genStep at h
  unfold stepText
  dsimp only at h ⊢
  split at h
  case isTrue hliteral =>
    rw [if_pos hliteral]
    obtain ⟨q, hq, rfl⟩ := Option.map_eq_some_iff.mp h
    refine ⟨_, rfl, ?_⟩
    rcases Nat.lt_or_ge (literalRun c.format).1.length (2 ^ 31) with hshort | hlong
    · exact .inl hshort
    · exact .inr (emitRun_recorder_long hone hn ho hrec hlong hq hr)
  case isFalse hliteral =>
    rw [if_neg hliteral]
    obtain ⟨⟨conv, cursor⟩, hconv, hmap⟩ := Option.bind_eq_some_iff.mp h
    obtain ⟨q, hq, rfl⟩ := Option.map_eq_some_iff.mp hmap
    rw [hconv]
    refine ⟨_, rfl, ?_⟩
    rcases Nat.lt_or_ge (convText c.format (scanSpec beyond c.format.tail).1 conv).length (2 ^ 31)
      with hshort | hlong
    · exact .inl hshort
    refine .inr ?_
    cases conv with
    | char ch => exact absurd hlong (by simp [convText])
    | str s =>
      rcases Nat.lt_or_ge s.length (2 ^ 31) with hs | hs
      · obtain ⟨q', hq', hprints⟩ := printsRun_printStr (S := recorder) (o := o)
          (UINT_MAX - o.written) (scanSpec beyond c.format.tail).1.width hone
          (Nat.lt_trans hlimit (by decide)) (noWrap_of_le hn hs _ _) (by simp only [UINT_MAX]; omega) ho
        cases hq'.symm.trans hq
        exact hprints.recorded_full hrec ho (by rw [convText] at hlong; omega)
      · exact printStr_recorder_long hone hn ho hrec hs hq hr
    | number strNum =>
      obtain ⟨q', hq', hprints⟩ := printsRun_printNumber (S := recorder) (o := o) strNum
        (scanSpec beyond c.format.tail).1.precision (scanSpec beyond c.format.tail).1.width
        (scanSpec beyond c.format.tail).1.zeroPad (UINT_MAX - o.written) hone
        (Nat.lt_trans hlimit (by decide)) (noWrap_of_le hn (by decide) _ _)
        (Nat.le_trans (List.length_take_le _ _) (by simp only [MAX_STR_NUM, UINT_MAX]; omega)) ho
      cases hq'.symm.trans hq
      exact hprints.recorded_full hrec ho (by rw [convText] at hlong; omega)
    | unknown => exact emitRun_recorder_long hone hn ho hrec hlong hq hr

/-- The recorder only grows. -/
theorem keeps_recorder (n : Nat) : Keeps (sinkFun recorder) fun s : List UInt8 => n ≤ s.length := by
  intro s start bytes h
  show n ≤ (s ++ bytes).length
  rw [List.length_append]
  exact Nat.le_trans h (Nat.le_add_right _ _)

/-- One recorded turn that leaves room: it goes on, and the record has gained its text. -/
theorem genStep_recorded {limit beyond : Nat} {c c₁ : Cursor} {o : Output (List UInt8)}
    {r₁ : Output (List UInt8) × Exit} (hone : 1 ≤ limit) (hlimit : limit ≤ INT_MAX) (ho : o.written ≤ limit - 1)
    (hrec : Recorded o) (hstep : genStep (sinkFun recorder) beyond limit c o = some (c₁, r₁))
    (hr₁ : r₁.2 ≠ .error) (hroom : r₁.1.sink.length < limit - 1) :
    ∃ text, stepText beyond c = some (text, c₁) ∧ text.length < 2 ^ 31 ∧ r₁.2 = .go ∧ Recorded r₁.1 ∧
      r₁.1.written ≤ limit - 1 ∧ r₁.1.sink = o.sink ++ text := by
  obtain ⟨text, htext, hlen⟩ := genStep_recorder hone hlimit ho hrec hstep hr₁
  have hshort : text.length < 2 ^ 31 := hlen.resolve_right (Nat.not_le.mpr hroom)
  obtain ⟨q, hq, hprints⟩ := genStep_prints (S := recorder) htext hone hlimit hshort ho
  obtain ⟨-, rfl⟩ := Prod.mk.inj (Option.some.inj (hq.symm.trans hstep))
  have hrec₁ : Recorded q.1 := by
    rw [hprints.output]
    exact hrec.put limit text
  have hgo : q.2 = .go := by
    cases hexit : q.2 with
    | go => rfl
    | stop => exact absurd (hrec₁.trans (hprints.full hexit)) (Nat.ne_of_lt hroom)
    | error => exact absurd hexit hr₁
  have hfits : text.length ≤ limit - 1 - o.written := by
    refine Nat.le_of_not_lt fun hlong => ?_
    have hwritten := Output.put_written_of_ge (S := recorder) ho (Nat.le_of_lt hlong)
    rw [← hprints.output, ← hrec₁] at hwritten
    exact absurd hwritten (Nat.ne_of_lt hroom)
  have hput : (o.put recorder limit text).sink = o.sink ++ text.take _ := rfl
  refine ⟨text, htext, hshort, hgo, hrec₁, hprints.written_le ho, ?_⟩
  rw [hprints.output, hput, List.take_of_length_le hfits]

/-! ## Bounded printing truncates -/

/-- A recorded run that stays below its limit fixes a text; with any smaller
limit and into any sink the same run leaves what there is room for of that text. -/
theorem genLoop_truncates {limit beyond fuel : Nat} (hone : 1 ≤ limit) (hlimit : limit ≤ INT_MAX) :
    ∀ {c : Cursor} {o : Output (List UInt8)} {r : Output (List UInt8) × Exit},
      o.written ≤ limit - 1 → Recorded o →
      genLoop (sinkFun recorder) beyond limit fuel c o = some r → r.2 ≠ .error →
      r.1.sink.length < limit - 1 →
      ∃ text, r.1.sink = o.sink ++ text ∧
        ∀ {σ : Type} (S : Sink σ UInt8) {n : Nat}, 1 ≤ n → n ≤ INT_MAX →
          ∀ q : Output σ, q.written ≤ n - 1 →
            ∃ e, genLoop (sinkFun S) beyond n fuel c q = some (q.put S n text, e) ∧
              e ≠ .error := by
  induction fuel with
  | zero => exact fun _ _ h => nomatch h
  | succ fuel ih =>
    intro c o r ho hrec h hr hshort
    unfold genLoop at h
    split at h
    case isTrue hend =>
      cases h
      refine ⟨[], (List.append_nil _).symm, fun S n _ _ q _ => ⟨.go, ?_, nofun⟩⟩
      rw [genLoop, if_pos hend, Output.put_nil]
    case isFalse hend =>
      obtain ⟨⟨c₁, r₁⟩, hstep, hrest⟩ := Option.bind_eq_some_iff.mp h
      dsimp only at hrest
      have hr₁ : r₁.2 ≠ .error := by
        intro herror
        rw [herror, if_neg nofun] at hrest
        cases hrest
        exact hr herror
      -- The record never shrinks, so the first turn has not filled it.
      have hroom : r₁.1.sink.length < limit - 1 := by
        refine Nat.lt_of_not_le fun hfull => ?_
        have hkeep := keeps_recorder (limit - 1)
        split at hrest
        · exact absurd (hkeep.genLoop beyond limit fuel hfull r hrest) (Nat.not_le.mpr hshort)
        · cases hrest
          exact absurd hfull (Nat.not_le.mpr hshort)
      obtain ⟨text₁, htext₁, hlen₁, hgo, hrec₁, ho₁, hsink⟩ :=
        genStep_recorded hone hlimit ho hrec hstep hr₁ hroom
      rw [if_pos hgo] at hrest
      obtain ⟨text₂, htext₂, htail⟩ := ih ho₁ hrec₁ hrest hr hshort
      refine ⟨text₁ ++ text₂, by rw [htext₂, hsink, List.append_assoc], ?_⟩
      intro σ S n hn hn' q hq
      obtain ⟨q', hq', hprints'⟩ := genStep_prints (S := S) (o := q) htext₁ hn hn' hlen₁ hq
      rw [genLoop, if_neg hend, hq']
      dsimp only [Option.bind_some]
      cases hexit : q'.2 with
      | go =>
        obtain ⟨e, he, hnoError⟩ := htail S hn hn' q'.1 (hprints'.written_le hq)
        refine ⟨e, ?_, hnoError⟩
        rw [if_pos rfl, he, hprints'.output, Output.put_append]
      | stop =>
        refine ⟨q'.2, ?_, hprints'.noError⟩
        rw [if_neg nofun, ← (hprints'.stopped hexit text₂).output]
      | error => exact absurd hexit hprints'.noError

/-- The complete rendering of a format: the bytes `gen_printf` copies with the
limit `INT_MAX`, all of them in order, unless it fails. -/
def rendering (beyond : Nat) (format : List UInt8) (ap : List Arg) : Option (List UInt8) :=
  (genPrintf (sinkFun recorder) none beyond INT_MAX format ap []).bind fun r =>
    if r.2 = -1 then none else some r.1

/-- A text with room to spare is copied as it is. -/
theorem genLoop_textLoop {S : Sink σ UInt8} {beyond n fuel : Nat} (hone : 1 ≤ n)
    (hn : n ≤ INT_MAX) :
    ∀ {c : Cursor} {o : Output σ} {text : List UInt8}, textLoop beyond fuel c = some text →
      o.written + text.length < n - 1 →
      genLoop (sinkFun S) beyond n fuel c o =
        some (⟨S.copy o.sink o.written text, o.written + text.length⟩, .go) := by
  induction fuel with
  | zero => exact fun h => nomatch h
  | succ fuel ih =>
    intro c o text h hroom
    unfold textLoop at h
    split at h
    case isTrue hend =>
      cases h
      rw [genLoop, if_pos hend, S.copy_nil]
      rfl
    case isFalse hend =>
      obtain ⟨⟨text₁, c₁⟩, hstep, hrest⟩ := Option.bind_eq_some_iff.mp h
      obtain ⟨text₂, htext₂, rfl⟩ := Option.map_eq_some_iff.mp hrest
      dsimp only at htext₂ hroom
      rw [List.length_append, ← Nat.add_assoc] at hroom
      have hfit : o.written + text₁.length < n - 1 :=
        Nat.lt_of_le_of_lt (Nat.le_add_right _ _) hroom
      have hlen : text₁.length < 2 ^ 31 := by
        simp only [INT_MAX] at hn
        omega
      have ho : o.written ≤ n - 1 := by omega
      obtain ⟨q, hq, hprints⟩ := genStep_prints (S := S) hstep hone hn hlen ho
      have hput : q.1 = ⟨S.copy o.sink o.written text₁, o.written + text₁.length⟩ := by
        rw [hprints.output, Output.put_of_le (by omega)]
      have hgo : q.2 = .go := by
        cases hexit : q.2 with
        | go => rfl
        | stop =>
          have hfull := hprints.full hexit
          rw [hput] at hfull
          exact absurd hfull (Nat.ne_of_lt hfit)
        | error => exact absurd hexit hprints.noError
      rw [genLoop, if_neg hend, hq]
      dsimp only [Option.bind_some]
      rw [if_pos hgo, hput, ih htext₂ hroom, S.copy_append, List.length_append, Nat.add_assoc]

/-- Putting the texts of all turns together gives the rendering. -/
theorem rendering_of_textLoop {beyond : Nat} {format : List UInt8} {ap : List Arg}
    {text : List UInt8} (h : textLoop beyond (format.length + 1) ⟨format, ap⟩ = some text)
    (htext : text.length < INT_MAX - 1) : rendering beyond format ap = some text := by
  have hlt : text.length < 2 ^ 31 := Nat.lt_trans htext (by decide)
  have hloop := genLoop_textLoop (S := recorder) (o := ⟨[], 0⟩) (by decide) (Nat.le_refl INT_MAX) h
    (by rw [Nat.zero_add]; exact htext)
  rw [rendering, genPrintf, hloop]
  dsimp only [Option.map_some, Option.bind_some]
  rw [if_neg (show Exit.go ≠ Exit.error by decide), Nat.zero_add, int32_of_lt hlt,
    if_neg (by omega)]
  rfl

/-- The main loop leaves what there is room for of the rendering, whatever takes it. -/
theorem genLoop_rendering {beyond : Nat} {format : List UInt8} {ap : List Arg}
    {text : List UInt8} (hfull : rendering beyond format ap = some text)
    (htext : text.length < INT_MAX - 1) (S : Sink σ UInt8) (s : σ) {n : Nat} (hone : 1 ≤ n)
    (hn : n ≤ INT_MAX) :
    ∃ e, genLoop (sinkFun S) beyond n (format.length + 1) ⟨format, ap⟩ ⟨s, 0⟩ =
        some (Output.put S n ⟨s, 0⟩ text, e) ∧ e ≠ .error := by
  obtain ⟨⟨recorded, ret⟩, hrun, hret⟩ := Option.bind_eq_some_iff.mp hfull
  split at hret
  · cases hret
  case isFalse hok =>
    cases hret
    obtain ⟨r, hloop, hr⟩ := Option.map_eq_some_iff.mp hrun
    split at hr
    · exact absurd (congrArg Prod.snd hr).symm hok
    case isFalse hnoError =>
      obtain ⟨rfl, rfl⟩ := Prod.mk.inj hr
      have hempty : Recorded ⟨[], 0⟩ := rfl
      obtain ⟨text, hsink, htrunc⟩ := genLoop_truncates (by decide) (Nat.le_refl _)
        (Nat.zero_le _) hempty hloop hnoError htext
      rw [List.nil_append] at hsink
      rw [hsink]
      exact htrunc S hone hn ⟨s, 0⟩ (Nat.zero_le _)

/-- Printing into memory leaves what there is room for of the rendering, and a NUL. -/
theorem genPrintf_memcpy {beyond size : Nat} {format : List UInt8} {ap : List Arg}
    {text : List UInt8} (str : Nat → UInt8) (hfull : rendering beyond format ap = some text)
    (htext : text.length < INT_MAX - 1) (hone : 1 ≤ size) (hsize : size ≤ INT_MAX) :
    genPrintf memcpyFun (some terminateString) beyond size format ap str =
      some (Memory.writeAt str 0 (text.take (size - 1) ++ [NUL]),
        ((min text.length (size - 1) + 1 : Nat) : Int)) := by
  obtain ⟨e, hloop, he⟩ := genLoop_rendering hfull htext memory str hone hsize
  have hlen : (text.take (size - 1)).length = min text.length (size - 1) := by
    rw [List.length_take, Nat.min_comm]
  have hput : Output.put memory size ⟨str, 0⟩ text =
      ⟨Memory.writeAt str 0 (text.take (size - 1)), (text.take (size - 1)).length⟩ := by
    rw [Output.put, Nat.sub_zero, Nat.zero_add]
    rfl
  have hret : (text.take (size - 1)).length + 1 < 2 ^ 31 := by
    simp only [INT_MAX] at htext
    omega
  have hnul : terminateString (Memory.writeAt str 0 (text.take (size - 1)))
      (text.take (size - 1)).length = Memory.writeAt str 0 (text.take (size - 1) ++ [NUL]) := by
    rw [← Memory.writeAt_append, Nat.zero_add]
    rfl
  have hmemcpy : memcpyFun = sinkFun memory := rfl
  rw [genPrintf, hmemcpy, hloop, hput, Option.map_some, if_neg he]
  dsimp only
  rw [hnul, u32_of_lt (Nat.lt_trans hret (by decide)), int32_of_lt hret, hlen]

/-- `vsprintf` stores the whole rendering and a NUL. -/
theorem vsprintf_rendering {beyond : Nat} {format : List UInt8} {ap : List Arg}
    {text : List UInt8} (str : Nat → UInt8) (hfull : rendering beyond format ap = some text)
    (htext : text.length < INT_MAX - 1) :
    vsprintf beyond str format ap =
      some (Memory.writeAt str 0 (text ++ [NUL]), ((text.length + 1 : Nat) : Int)) := by
  have hle : text.length ≤ INT_MAX - 1 := Nat.le_of_lt htext
  rw [vsprintf, genPrintf_memcpy str hfull htext (by decide) (Nat.le_refl _),
    List.take_of_length_le hle, Nat.min_eq_left hle]

/-- Bounded printing is the truncation of unbounded printing. -/
theorem vsnprintf_truncates {beyond size : Nat} {format : List UInt8} {ap : List Arg}
    {text : List UInt8} (str : Nat → UInt8) (hfull : rendering beyond format ap = some text)
    (htext : text.length < INT_MAX - 1) (hone : 1 ≤ size) (hsize : size ≤ INT_MAX) :
    ∃ mem, vsnprintf beyond str size format ap =
        some (mem, ((min text.length (size - 1) + 1 : Nat) : Int)) ∧
      Memory.readAt mem 0 (min text.length (size - 1) + 1) = text.take (size - 1) ++ [NUL] ∧
      ∀ i, min text.length (size - 1) + 1 ≤ i → mem i = str i := by
  have hlen : (text.take (size - 1) ++ [NUL]).length = min text.length (size - 1) + 1 := by
    rw [List.length_append, List.length_take, Nat.min_comm]
    rfl
  refine ⟨_, genPrintf_memcpy str hfull htext hone hsize, ?_, fun i hi => ?_⟩
  · rw [← hlen]
    exact Memory.readAt_writeAt str 0 _
  · exact Memory.writeAt_of_ge (by rw [hlen, Nat.zero_add]; exact hi)

/-- `%5d|` with 42 into three bytes. -/
theorem vsnprintf_truncates_width :
    ∃ mem, vsnprintf 0 (fun _ => 7) 3 [0x25, 0x35, 0x64, 0x7c] [.word 42] = some (mem, 3) ∧
      Memory.readAt mem 0 3 = [0x20, 0x20, NUL] ∧ ∀ i, 3 ≤ i → mem i = 7 :=
  vsnprintf_truncates (fun _ => 7)
    (show rendering 0 [0x25, 0x35, 0x64, 0x7c] [.word 42] = some [0x20, 0x20, 0x20, 0x34, 0x32, 0x7c]
      by decide)
    (by decide) (by decide) (by decide)

end TalOS
