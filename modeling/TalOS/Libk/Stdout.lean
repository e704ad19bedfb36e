-- SUMMARY: Printing to stdout, and how it agrees with printing into memory.
import TalOS.Libk.Rendering

/-!
# Printing to stdout

`printf` runs the formatter without a buffer: the copy function hands each piece to the
function registered for stdout. Such a function may keep a state of its own, so it is no
sink; but what it has been sent is one, and forgetting the rest turns a run of the
formatter into a run that records its text.
-/

open MachineInt Bounded

namespace TalOS

/-! ## The same run over another sink -/

section Views

variable {σ τ : Type} {f : σ → τ} {cpyFun : CopyFun σ} {cpyFun' : CopyFun τ}

/-- Seen through `f`, the one copy function does what the other does. -/
def Views (f : σ → τ) (cpyFun : CopyFun σ) (cpyFun' : CopyFun τ) : Prop :=
  ∀ s start bytes, cpyFun' (f s) start bytes = (f (cpyFun s start bytes).1, (cpyFun s start bytes).2)

def viewOut (f : σ → τ) (o : Output σ) : Output τ := ⟨f o.sink, o.written⟩

@[simp] theorem viewOut_written (f : σ → τ) (o : Output σ) : (viewOut f o).written = o.written := rfl

def viewExit (f : σ → τ) (r : Output σ × Exit) : Output τ × Exit := (viewOut f r.1, r.2)

theorem Views.copyOut (h : Views f cpyFun cpyFun') (bytes : List UInt8) (o : Output σ) (exit : Exit) :
    copyOut cpyFun' bytes (viewOut f o) exit = viewExit f (copyOut cpyFun bytes o exit) := by
  unfold TalOS.copyOut viewOut
  dsimp only
  rw [h]
  cases (cpyFun o.sink o.written bytes).2 <;> rfl

theorem viewExit_andThen (r : Output σ × Exit) {rest : Output σ → Output σ × Exit}
    {rest' : Output τ → Output τ × Exit} (h : ∀ o, rest' (viewOut f o) = viewExit f (rest o)) :
    andThen (viewExit f r) rest' = viewExit f (andThen r rest) := by
  obtain ⟨o, exit⟩ := r
  cases exit with
  | go => exact h o
  | stop => rfl
  | error => rfl

theorem viewExit_thenRun (r : Output σ × Exit) {rest : Output σ → Option (Output σ × Exit)}
    {rest' : Output τ → Option (Output τ × Exit)}
    (h : ∀ o, rest' (viewOut f o) = (rest o).map (viewExit f)) :
    thenRun (viewExit f r) rest' = (thenRun r rest).map (viewExit f) := by
  obtain ⟨o, exit⟩ := r
  cases exit with
  | go => exact h o
  | stop => rfl
  | error => rfl

theorem viewExit_breaks (r : Output σ × Exit) : breaks (viewExit f r) = viewExit f (breaks r) := by
  obtain ⟨o, exit⟩ := r
  cases exit <;> rfl

theorem viewExit_keepStop (exit : Exit) (r : Output σ × Exit) :
    keepStop exit (viewExit f r) = viewExit f (keepStop exit r) := by
  obtain ⟨o, exit'⟩ := r
  cases exit <;> cases exit' <;> rfl

theorem Views.emitByte (h : Views f cpyFun cpyFun') (maxWrite : Nat) (byte : UInt8) (o : Output σ) :
    emitByte cpyFun' maxWrite byte (viewOut f o) = viewExit f (emitByte cpyFun maxWrite byte o) := by
  unfold TalOS.emitByte
  rw [h.copyOut, viewOut_written]
  split <;> rfl

theorem Views.padLoop (h : Views f cpyFun cpyFun') (maxWrite : Nat) (byte : UInt8) (count : Nat) :
    ∀ o : Output σ,
      padLoop cpyFun' maxWrite byte count (viewOut f o) =
        viewExit f (padLoop cpyFun maxWrite byte count o) := by
  induction count with
  | zero => exact fun _ => rfl
  | succ count ih =>
    intro o
    rw [TalOS.padLoop, TalOS.padLoop, h.emitByte]
    exact viewExit_andThen _ ih

theorem Views.emitRun (h : Views f cpyFun cpyFun') (n maxrem : Nat) (bytes : List UInt8)
    (o : Output σ) :
    emitRun cpyFun' n maxrem bytes (viewOut f o) =
      (emitRun cpyFun n maxrem bytes o).map (viewExit f) := by
  unfold TalOS.emitRun
  dsimp only
  rw [h.copyOut, h.copyOut, viewOut_written]
  split
  · rfl
  · split
    · split <;> rfl
    · rfl

theorem Views.emitSign (h : Views f cpyFun cpyFun') (maxWrite : Nat) (strNum : List UInt8)
    (o : Output σ) :
    emitSign cpyFun' maxWrite strNum (viewOut f o) =
      viewExit f (emitSign cpyFun maxWrite strNum o) := by
  unfold TalOS.emitSign
  rw [h.emitByte]
  split <;> rfl

theorem Views.printNumber (h : Views f cpyFun cpyFun') (strNum : List UInt8)
    (precision width zeroPad maxWrite maxrem : Nat) (o : Output σ) :
    printNumber cpyFun' strNum precision width zeroPad maxWrite maxrem (viewOut f o) =
      (printNumber cpyFun strNum precision width zeroPad maxWrite maxrem o).map (viewExit f) := by
  unfold TalOS.printNumber
  dsimp only
  rw [h.padLoop]
  refine viewExit_thenRun _ fun o => ?_
  rw [h.padLoop]
  refine viewExit_thenRun _ fun o => ?_
  split
  · rw [h.emitSign]
    refine viewExit_thenRun _ fun o => ?_
    rw [h.padLoop, viewExit_breaks]
    exact viewExit_thenRun _ fun o => h.emitRun _ _ _ o
  · exact h.emitRun _ _ _ o

theorem Views.printChar (h : Views f cpyFun cpyFun') (n maxrem : Nat) (c : UInt8) (o : Output σ) :
    printChar cpyFun' n maxrem c (viewOut f o) = viewExit f (printChar cpyFun n maxrem c o) := by
  unfold TalOS.printChar
  rw [h.emitByte]
  split <;> rfl

theorem Views.printStr (h : Views f cpyFun cpyFun') (n maxrem width : Nat) (s : List UInt8)
    (o : Output σ) :
    printStr cpyFun' n maxrem width s (viewOut f o) =
      (printStr cpyFun n maxrem width s o).map (viewExit f) := by
  unfold TalOS.printStr
  dsimp only
  rw [h.padLoop, viewExit_breaks]
  refine viewExit_thenRun _ fun o => ?_
  rw [h.emitRun, Option.map_map, Option.map_map]
  exact congrArg (Option.map · _) (funext fun r => viewExit_keepStop _ r)

theorem Views.genStep (h : Views f cpyFun cpyFun') (beyond n : Nat) (c : Cursor) (o : Output σ) :
    genStep cpyFun' beyond n c (viewOut f o) =
      (genStep cpyFun beyond n c o).map fun r => (r.1, viewExit f r.2) := by
  unfold TalOS.genStep
  dsimp only
  rw [viewOut_written]
  split
  · rw [h.emitRun, Option.map_map, Option.map_map]
    rfl
  · cases scanConv (scanSpec beyond c.format.tail).2 c.parameters with
    | none => rfl
    | some r =>
      obtain ⟨conv, cursor⟩ := r
      cases conv with
      | char ch =>
        dsimp only [Option.bind_some]
        rw [h.printChar]
        rfl
      | str s =>
        dsimp only [Option.bind_some]
        rw [h.printStr, Option.map_map, Option.map_map]
        rfl
      | number strNum =>
        dsimp only [Option.bind_some]
        rw [h.printNumber, Option.map_map, Option.map_map]
        rfl
      | unknown =>
        dsimp only [Option.bind_some]
        rw [h.emitRun, Option.map_map, Option.map_map]
        rfl

/-- A run over the one copy function, seen through `f`, is the run over the other. -/
theorem Views.genLoop (h : Views f cpyFun cpyFun') (beyond n fuel : Nat) :
    ∀ (c : Cursor) (o : Output σ),
      genLoop cpyFun' beyond n fuel c (viewOut f o) =
        (genLoop cpyFun beyond n fuel c o).map (viewExit f) := by
  induction fuel with
  | zero => exact fun _ _ => rfl
  | succ fuel ih =>
    intro c o
    rw [TalOS.genLoop, TalOS.genLoop, h.genStep]
    split
    · rfl
    · cases TalOS.genStep cpyFun beyond n c o with
      | none => rfl
      | some r =>
        obtain ⟨c', o', exit⟩ := r
        cases exit with
        | go => exact ih c' o'
        | stop => rfl
        | error => rfl

end Views

/-! ## `printf` -/

variable {τ : Type}

/-- The device behind stdout and, for the record, the bytes it was sent. -/
structure Stdout (τ : Type) where
  device : τ
  sent : List UInt8

/-- `copy_to_stdout`: the destination, or the address behind it if the function for stdout fails. -/
def copyToStdout (stdoutFun : τ → List UInt8 → τ × Int) : CopyFun (Stdout τ) := fun o _ src =>
  let r := stdoutFun o.device src
  (⟨r.1, o.sent ++ src⟩, !decide (r.2 < 0))

/-- `printf` -/
def printf (stdoutFun : τ → List UInt8 → τ × Int) (beyond : Nat) (format : List UInt8)
    (parameters : List Arg) (o : Stdout τ) : Option (Stdout τ × Int) :=
  genPrintf (copyToStdout stdoutFun) none beyond INT_MAX format parameters o

/-- `sprintf` into a buffer -/
def sprintf (beyond : Nat) (str : Nat → UInt8) (format : List UInt8) (parameters : List Arg) :
    Option ((Nat → UInt8) × Int) :=
  genPrintf memcpyFun (some terminateString) beyond INT_MAX format parameters str

/-- Where every byte is accepted, what is sent is recorded. -/
theorem views_copyToStdout {stdoutFun : τ → List UInt8 → τ × Int}
    (haccepts : ∀ d bytes, 0 ≤ (stdoutFun d bytes).2) :
    Views Stdout.sent (copyToStdout stdoutFun) (sinkFun recorder) := by
  intro o start bytes
  have hok := decide_eq_false (Int.not_lt.mpr (haccepts o.device bytes))
  unfold copyToStdout
  dsimp only
  rw [hok]
  rfl

/-- `printf` sends the whole rendering, and returns its length. -/
theorem printf_rendering {stdoutFun : τ → List UInt8 → τ × Int}
    (haccepts : ∀ d bytes, 0 ≤ (stdoutFun d bytes).2) {beyond : Nat} {format : List UInt8}
    {parameters : List Arg} {text : List UInt8}
    (hfull : rendering beyond format parameters = some text) (htext : text.length < INT_MAX - 1)
    (o : Stdout τ) :
    ∃ device, printf stdoutFun beyond format parameters o =
      some (⟨device, o.sent ++ text⟩, (text.length : Int)) := by
  obtain ⟨e, hrecord, he⟩ := genLoop_rendering hfull htext recorder o.sent (by decide)
    (Nat.le_refl INT_MAX)
  have hlt : text.length < 2 ^ 31 := Nat.lt_trans htext (by decide)
  have hput : Output.put recorder INT_MAX ⟨o.sent, 0⟩ text = ⟨o.sent ++ text, text.length⟩ := by
    rw [Output.put_of_le (by dsimp only; omega), Nat.zero_add]
    rfl
  have hview := (views_copyToStdout haccepts).genLoop beyond INT_MAX (format.length + 1)
    ⟨format, parameters⟩ ⟨o, 0⟩
  rw [show viewOut Stdout.sent ⟨o, 0⟩ = ⟨o.sent, 0⟩ from rfl, hrecord, hput] at hview
  obtain ⟨⟨⟨⟨device, sent⟩, written⟩, exit⟩, hloop, hr⟩ := Option.map_eq_some_iff.mp hview.symm
  obtain ⟨hout, rfl⟩ := Prod.mk.inj hr
  obtain ⟨rfl, rfl⟩ : sent = o.sent ++ text ∧ written = text.length := by
    injection hout with hsent hwritten
    exact ⟨hsent, hwritten⟩
  refine ⟨device, ?_⟩
  rw [printf, genPrintf, hloop, Option.map_some, if_neg he]
  dsimp only
  rw [int32_of_lt hlt]

/-- A device that takes two pieces as it takes them at once is left as if it had taken the whole rendering. -/
theorem printf_device {stdoutFun : τ → List UInt8 → τ × Int}
    (haccepts : ∀ d bytes, 0 ≤ (stdoutFun d bytes).2) {S : Sink τ UInt8}
    (hsink : ∀ d start bytes, S.copy d start bytes = (stdoutFun d bytes).1) {beyond : Nat}
    {format : List UInt8} {parameters : List Arg} {text : List UInt8}
    (hfull : rendering beyond format parameters = some text) (htext : text.length < INT_MAX - 1)
    (o : Stdout τ) :
    ∃ sent, printf stdoutFun beyond format parameters o =
      some (⟨(stdoutFun o.device text).1, sent⟩, (text.length : Int)) := by
  have hviews : Views Stdout.device (copyToStdout stdoutFun) (sinkFun S) := by
    intro o start bytes
    have hok := decide_eq_false (Int.not_lt.mpr (haccepts o.device bytes))
    unfold copyToStdout sinkFun
    dsimp only
    rw [hok, hsink]
    rfl
  obtain ⟨e, hdevice, he⟩ := genLoop_rendering hfull htext S o.device (by decide) (Nat.le_refl INT_MAX)
  have hlt : text.length < 2 ^ 31 := Nat.lt_trans htext (by decide)
  have hview := hviews.genLoop beyond INT_MAX (format.length + 1) ⟨format, parameters⟩ ⟨o, 0⟩
  rw [show viewOut Stdout.device ⟨o, 0⟩ = ⟨o.device, 0⟩ from rfl, hdevice,
    Output.put_of_le (by dsimp only; omega), Nat.zero_add, hsink] at hview
  obtain ⟨⟨⟨⟨device, sent⟩, written⟩, exit⟩, hloop, hr⟩ := Option.map_eq_some_iff.mp hview.symm
  obtain ⟨hout, rfl⟩ := Prod.mk.inj hr
  obtain ⟨rfl, rfl⟩ : device = (stdoutFun o.device text).1 ∧ written = text.length := by
    injection hout with hsink' hwritten
    exact ⟨hsink', hwritten⟩
  refine ⟨sent, ?_⟩
  rw [printf, genPrintf, hloop, Option.map_some, if_neg he]
  dsimp only
  rw [int32_of_lt hlt]

/-- What `printf` sends to a stdout that accepts every byte is what `sprintf` stores before its NUL;
`printf` returns the number of these bytes, `sprintf` counts the NUL as well. -/
theorem printf_sprintf (stdoutFun : τ → List UInt8 → τ × Int)
    (haccepts : ∀ d bytes, 0 ≤ (stdoutFun d bytes).2) (beyond : Nat) (format : List UInt8)
    (parameters : List Arg) (text : List UInt8)
    (hfull : rendering beyond format parameters = some text) (htext : text.length < INT_MAX - 1)
    (o : Stdout τ) (str : Nat → UInt8) :
    ∃ o' mem, printf stdoutFun beyond format parameters o = some (o', (text.length : Int)) ∧
      sprintf beyond str format parameters = some (mem, (text.length + 1 : Int)) ∧
      o'.sent = o.sent ++ Memory.readAt mem 0 text.length ∧ mem text.length = NUL ∧
      ∀ i, text.length < i → mem i = str i := by
  obtain ⟨device, hprintf⟩ := printf_rendering haccepts hfull htext o
  have hsprintf := vsprintf_rendering str hfull htext
  refine ⟨_, _, hprintf, hsprintf, ?_, ?_, fun i hi => ?_⟩
  · rw [← Memory.writeAt_append, Nat.zero_add]
    have hread : Memory.readAt (Memory.writeAt (Memory.writeAt str 0 text) text.length [NUL]) 0
        text.length = Memory.readAt (Memory.writeAt str 0 text) 0 text.length :=
      Memory.readAt_congr fun i hi => Memory.writeAt_of_lt _ (by omega)
    rw [hread, Memory.readAt_writeAt]
  · have hlast : text.length < (text ++ [NUL]).length := by
      rw [List.length_append]
      exact Nat.lt_succ_self _
    have hnul : Memory.writeAt str 0 (text ++ [NUL]) (0 + text.length) = _ :=
      Memory.writeAt_getElem hlast
    rw [Nat.zero_add] at hnul
    rw [hnul, List.getElem_concat_length rfl]
  · refine Memory.writeAt_of_ge ?_
    rw [List.length_append, Nat.zero_add]
    exact hi

/-- `%d!` with 42. -/
theorem printf_sprintf_number :
    ∃ o' mem, printf (fun n bytes => (n + bytes.length, bytes.length)) 0 [0x25, 0x64, 0x21] [.word 42]
        ⟨0, []⟩ = some (o', 3) ∧
      sprintf 0 (fun _ => 7) [0x25, 0x64, 0x21] [.word 42] = some (mem, 4) ∧
      o'.sent = Memory.readAt mem 0 3 ∧ mem 3 = NUL ∧ ∀ i, 3 < i → mem i = 7 :=
  printf_sprintf (fun n bytes => (n + bytes.length, (bytes.length : Int)))
    (fun _ bytes => Int.natCast_nonneg bytes.length) 0 [0x25, 0x64, 0x21] [.word 42] [0x34, 0x32, 0x21]
    (by decide) (by decide) ⟨0, []⟩ (fun _ => 7)

/-- The two values returned for the format `!`. -/
theorem printf_sprintf_returns :
    (printf (fun n bytes => (n + bytes.length, (bytes.length : Int))) 0 [0x21] [] ⟨0, []⟩).map
        (fun r => r.2) = some 1 ∧
      (sprintf 0 (fun _ => 7) [0x21] []).map (fun r => r.2) = some 2 := by
  decide

end TalOS
