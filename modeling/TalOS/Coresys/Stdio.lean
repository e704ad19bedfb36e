-- SUMMARY: The kernel's stdin and stdout over the first serial port, from `printf` and `gets` down to the ports.
import TalOS.Coresys.Vfs
import TalOS.Devs.Serial
import TalOS.Libk.Stdout

/-!
# Standard input and output

`InitStdio` makes the node `stdio` stand for the first serial port. What the kernel
prints goes through `stdout_fun` and the node's callback to the ports, byte by byte; what
it reads comes back the same way, and every byte read is sent back at once.
-/

namespace TalOS

open Ports MachineInt Bounded

/-! ## The node `stdio` -/

/-- What `fs_read` and `fs_write` use of the node of a device, which is no symbolic link. A callback gets the
`impl_def` of the node, if there is a node. -/
structure DevNode where
  implDef : UInt64
  readFn : Option (Option UInt64 → Nat → IoDriver (List UInt8 × Int))
  writeFn : Option (Option UInt64 → List UInt8 → IoDriver Int)

/-- `fs_read`: the bytes that are stored into the buffer, and the result. -/
def fsRead (node : DevNode) (nbyte : Nat) : IoDriver (List UInt8 × Int) :=
  match node.readFn with
  | some read => read (some node.implDef) nbyte
  | none => pure ([], VFS_T_NOK)

/-- `fs_write` -/
def fsWrite (node : DevNode) (buf : List UInt8) : IoDriver Int :=
  match node.writeFn with
  | some write => write (some node.implDef) buf
  | none => pure VFS_T_NOK

/-- `stdio`, as `InitStdio` leaves it. -/
def stdio : DevNode := ⟨COM1.toUInt64, some serialFsRead, some serialFsWrite⟩

/-- `stdout_fun` -/
def stdoutFun (dataIn : List UInt8) : IoDriver Int := fsWrite stdio dataIn

/-- `stdin_fun` -/
def stdinFun (len : Nat) : IoDriver (List UInt8 × Int) := fsRead stdio len

theorem stdoutFun_eq (dataIn : List UInt8) :
    stdoutFun dataIn = serialWriteBuffer COM1 dataIn >>= fun _ => pure serialOk := rfl

/-! ## Printing -/

/-- The port as the console of a kernel that prints; once it waits for the port it goes on waiting. -/
structure Console where
  bus : Bus UInt16 UInt8
  waits : Bool
  deriving Repr, DecidableEq

/-- `libk_stdout_fun`, with the state of the console. -/
def consoleOut (d : Console) (bytes : List UInt8) : Console × Int :=
  if d.waits then (d, serialOk)
  else
    match stdoutFun bytes d.bus with
    | .ok r bus => (⟨bus, false⟩, r)
    | .error _ bus => (⟨bus, true⟩, serialOk)

/-- A call that prints. -/
inductive Print where
  | printf (format : List UInt8) (parameters : List Arg)
  | putchar (ic : Nat)
  | puts (string : List UInt8)
  deriving Repr, DecidableEq

/-- The format of `puts`, `%s\n`. -/
def PUTS_FORMAT : List UInt8 := [0x25, 0x73, 0x0A]

def Print.run (beyond : Nat) (o : Stdout Console) : Print → Option (Stdout Console)
  | .printf format parameters => (TalOS.printf consoleOut beyond format parameters o).map Prod.fst
  | .putchar ic => some { o with device := (consoleOut o.device [ic.toUInt8]).1 }
  | .puts string => (TalOS.printf consoleOut beyond PUTS_FORMAT [.str string] o).map Prod.fst

/-- The console after some calls, one after the other. -/
def printAll (beyond : Nat) : List Print → Stdout Console → Option (Stdout Console)
  | [], o => some o
  | p :: prints, o => (p.run beyond o).bind (printAll beyond prints)

/-- What a call has to print. -/
def Print.text (beyond : Nat) : Print → Option (List UInt8)
  | .printf format parameters => rendering beyond format parameters
  | .putchar ic => some [ic.toUInt8]
  | .puts string => rendering beyond PUTS_FORMAT [.str string]

theorem consoleOut_waits (bus : Bus UInt16 UInt8) (bytes : List UInt8) :
    consoleOut ⟨bus, true⟩ bytes = (⟨bus, true⟩, serialOk) := rfl

theorem consoleOut_ok {bus bus' : Bus UInt16 UInt8} {bytes : List UInt8} {u : Unit}
    (h : serialWriteBuffer COM1 bytes bus = .ok u bus') :
    consoleOut ⟨bus, false⟩ bytes = (⟨bus', false⟩, serialOk) := by
  have hout : stdoutFun bytes bus = .ok serialOk bus' := by
    rw [stdoutFun_eq, bind_eq_ok]
    exact ⟨u, bus', h, rfl⟩
  unfold consoleOut
  dsimp only
  rw [hout]
  rfl

theorem consoleOut_error {bus bus' : Bus UInt16 UInt8} {bytes : List UInt8} {e : Unit}
    (h : serialWriteBuffer COM1 bytes bus = .error e bus') :
    consoleOut ⟨bus, false⟩ bytes = (⟨bus', true⟩, serialOk) := by
  have hout : stdoutFun bytes bus = .error e bus' := by
    rw [stdoutFun_eq, bind_eq_error]
    exact .inl h
  unfold consoleOut
  dsimp only
  rw [hout]
  rfl

theorem consoleOut_accepts (d : Console) (bytes : List UInt8) : 0 ≤ (consoleOut d bytes).2 := by
  obtain ⟨bus, waits⟩ := d
  cases waits with
  | true => exact Int.le_refl 0
  | false =>
    cases h : serialWriteBuffer COM1 bytes bus with
    | ok u bus' =>
      rw [consoleOut_ok h]
      exact Int.le_refl 0
    | error e bus' =>
      rw [consoleOut_error h]
      exact Int.le_refl 0

theorem consoleOut_append (d : Console) (bytes bytes' : List UInt8) :
    (consoleOut (consoleOut d bytes).1 bytes').1 = (consoleOut d (bytes ++ bytes')).1 := by
  obtain ⟨bus, waits⟩ := d
  cases waits with
  | true => rfl
  | false =>
    cases h : serialWriteBuffer COM1 bytes bus with
    | error e bus' =>
      have hboth : serialWriteBuffer COM1 (bytes ++ bytes') bus = .error e bus' := by
        rw [serialWriteBuffer_append, bind_eq_error]
        exact .inl h
      rw [consoleOut_error h, consoleOut_error hboth, consoleOut_waits]
    | ok u bus' =>
      rw [consoleOut_ok h]
      cases h' : serialWriteBuffer COM1 bytes' bus' with
      | error e bus'' =>
        have hboth : serialWriteBuffer COM1 (bytes ++ bytes') bus = .error e bus'' := by
          rw [serialWriteBuffer_append, bind_eq_error]
          exact .inr ⟨u, bus', h, h'⟩
        rw [consoleOut_error h', consoleOut_error hboth]
      | ok u' bus'' =>
        have hboth : serialWriteBuffer COM1 (bytes ++ bytes') bus = .ok u' bus'' := by
          rw [serialWriteBuffer_append, bind_eq_ok]
          exact ⟨u, bus', h, h'⟩
        rw [consoleOut_ok h', consoleOut_ok hboth]

/-- The console as a place to which the formatter copies its pieces. -/
def consoleSink : Sink Console UInt8 where
  copy d _ bytes := (consoleOut d bytes).1
  copy_nil d _ := by
    obtain ⟨bus, waits⟩ := d
    cases waits <;> rfl
  copy_append d _ bytes bytes' := consoleOut_append d bytes bytes'

/-- A call leaves the console as its text leaves it, sent at once. -/
theorem Print.run_text {beyond : Nat} {p : Print} {text : List UInt8} (htext : p.text beyond = some text)
    (hshort : text.length < INT_MAX - 1) (o : Stdout Console) :
    ∃ sent, p.run beyond o = some ⟨(consoleOut o.device text).1, sent⟩ := by
  have hprintf : ∀ {format : List UInt8} {parameters : List Arg},
      rendering beyond format parameters = some text →
        ∃ sent, (TalOS.printf consoleOut beyond format parameters o).map Prod.fst =
          some ⟨(consoleOut o.device text).1, sent⟩ := by
    intro format parameters hfull
    obtain ⟨sent, h⟩ := printf_device consoleOut_accepts (S := consoleSink) (fun _ _ _ => rfl) hfull hshort o
    exact ⟨sent, by rw [h]; rfl⟩
  cases p with
  | printf format parameters => exact hprintf htext
  | putchar ic =>
    cases htext
    exact ⟨o.sent, rfl⟩
  | puts string => exact hprintf htext

theorem printAll_texts {beyond : Nat} {prints : List Print} {texts : List (List UInt8)}
    (htexts : prints.mapM (Print.text beyond) = some texts)
    (hshort : ∀ text ∈ texts, text.length < INT_MAX - 1) (o : Stdout Console) :
    ∃ sent, printAll beyond prints o = some ⟨(consoleOut o.device texts.flatten).1, sent⟩ := by
  induction prints generalizing texts o with
  | nil =>
    cases htexts
    have hnil : (consoleOut o.device []).1 = o.device := consoleSink.copy_nil o.device 0
    refine ⟨o.sent, ?_⟩
    show some o = some ⟨(consoleOut o.device []).1, o.sent⟩
    rw [hnil]
  | cons p prints ih =>
    rw [List.mapM_cons] at htexts
    obtain ⟨text, htext, hrest⟩ := Option.bind_eq_some_iff.mp htexts
    obtain ⟨texts', htexts', hpure⟩ := Option.bind_eq_some_iff.mp hrest
    cases hpure
    obtain ⟨hlt, hshort⟩ := List.forall_mem_cons.mp hshort
    obtain ⟨sent, hrun⟩ := Print.run_text htext hlt o
    obtain ⟨sent', hall⟩ := ih htexts' hshort ⟨(consoleOut o.device text).1, sent⟩
    refine ⟨sent', ?_⟩
    rw [printAll, hrun, Option.bind_some, hall, List.flatten_cons, consoleOut_append]

/-- Whatever the line status answers, the calls of a run send the bytes of their texts in order, each of them once
and directly behind an answer that shows an empty transmitter; they return exactly when there are as many such
answers as bytes. -/
theorem prints_transmission (beyond : Nat) (prints : List Print) (texts : List (List UInt8)) (answers : List UInt8)
    (htexts : prints.mapM (Print.text beyond) = some texts)
    (hshort : ∀ text ∈ texts, text.length < INT_MAX - 1) :
    ∃ o, printAll beyond prints ⟨⟨⟨answers, []⟩, false⟩, []⟩ = some o ∧
      o.device.bus.accesses = transmission COM1 answers texts.flatten ∧
      outputsTo (COM1 + SERIAL_DATA_REG) o.device.bus.accesses =
        texts.flatten.take (answers.countP isTransmitEmpty) ∧
      (o.device.waits = false ↔ texts.flatten.length ≤ answers.countP isTransmitEmpty) := by
  obtain ⟨sent, hall⟩ := printAll_texts htexts hshort ⟨⟨⟨answers, []⟩, false⟩, []⟩
  refine ⟨_, hall, ?_⟩
  dsimp only
  rcases Nat.lt_or_ge (answers.countP isTransmitEmpty) texts.flatten.length with hfew | henough
  · obtain ⟨hwaits, hanswers⟩ := @waits_transmission COM1 answers texts.flatten hfew
    have hrun := hwaits []
    rw [hanswers, List.nil_append] at hrun
    rw [consoleOut_error hrun]
    refine ⟨rfl, outputsTo_transmission answers _, ?_⟩
    exact iff_of_false (fun h => nomatch h) (Nat.not_le.mpr hfew)
  · obtain ⟨hruns, rest, hrest⟩ := @runs_transmission COM1 answers texts.flatten henough
    have hrun := hruns rest []
    rw [← hrest, List.nil_append] at hrun
    rw [consoleOut_ok hrun]
    refine ⟨rfl, outputsTo_transmission answers _, ?_⟩
    exact iff_of_true rfl henough

/-- `%d` with 42, then `!`, while the line status is 0, 20, 60 and 20. -/
theorem prints_transmission_number :
    ∃ o, printAll 0 [.printf [0x25, 0x64] [.word 42], .putchar 0x21] ⟨⟨⟨[0x00, 0x20, 0x60, 0x20], []⟩, false⟩, []⟩ =
        some o ∧
      o.device.bus.accesses = transmission COM1 [0x00, 0x20, 0x60, 0x20] [0x34, 0x32, 0x21] ∧
      outputsTo (COM1 + SERIAL_DATA_REG) o.device.bus.accesses = [0x34, 0x32, 0x21] ∧
      (o.device.waits = false ↔ 3 ≤ 3) :=
  prints_transmission 0 [.printf [0x25, 0x64] [.word 42], .putchar 0x21] [[0x34, 0x32], [0x21]]
    [0x00, 0x20, 0x60, 0x20] (by decide) (by decide)

/-! ## Reading a line -/

/-- `getchar` -/
def getchar : IoDriver UInt8 := do
  let r ← stdinFun 1
  pure (if r.2 ≠ -1 then r.1.headD 0 else 0)

/-- One turn of `gets`. -/
def getsTurn (r : (Nat → UInt8) × Nat) : IoDriver (((Nat → UInt8) × Nat) ⊕ (Nat → UInt8)) := do
  let c ← getchar
  let r' := storeChar r c
  pure (if c ≠ 0 ∧ c ≠ 0x0A then .inl r' else .inr r'.1)

/-- `gets` -/
def gets (s : Nat → UInt8) : IoDriver (Nat → UInt8) := loop getsTurn (s, 0)

/-- What ends a line for `gets`. -/
def endsLine (c : UInt8) : Bool := c = 0 ∨ c = 0x0A

/-- A line as `gets` stores it, its end included. -/
def IsInputLine (line : List UInt8) : Prop :=
  ∃ before c, line = before ++ [c] ∧ endsLine c = true ∧ ∀ b ∈ before, endsLine b = false

variable {s s' : Nat → UInt8} {t : List IoAccess}

theorem stdinFun_eq (len : Nat) : stdinFun len = readEcho COM1 len >>= fun buf => pure (buf, serialOk) := rfl

theorem determined_getchar : Determined getchar :=
  (determined_readEcho.bind fun _ => Determined.pure _).bind fun _ => Determined.pure _

theorem runs_getchar {c : UInt8} : Runs getchar t c ↔ Echoes COM1 c t := by
  unfold getchar
  rw [stdinFun_eq, runs_bind (determined_readEcho.bind fun _ => Determined.pure _) fun _ => Determined.pure _]
  simp only [runs_bind determined_readEcho fun _ => Determined.pure _, runs_pure, runs_readEcho]
  constructor
  · rintro ⟨t₁, r, t₂, ⟨t₃, buf, t₄, ⟨hlen, hitems⟩, ⟨rfl, rfl⟩, rfl⟩, ⟨rfl, rfl⟩, rfl⟩
    obtain ⟨b, rfl⟩ := List.length_eq_one_iff.mp hlen
    cases hitems with
    | cons hitem hnil =>
      cases hnil
      simpa [serialOk] using hitem
  · intro h
    have hitems : Items (Echoes COM1) [c] t := by simpa using Items.cons h .nil
    exact ⟨t, ([c], serialOk), [], ⟨t, [c], [], ⟨rfl, hitems⟩, ⟨rfl, rfl⟩, by simp⟩, ⟨rfl, rfl⟩, by simp⟩

theorem determined_getsTurn (r : (Nat → UInt8) × Nat) : Determined (getsTurn r) :=
  determined_getchar.bind fun _ => Determined.pure _

theorem takesItems_getsTurn :
    TakesItems getsTurn (Echoes COM1) (untilStop endsLine storeChar fun r c => (storeChar r c).1) := by
  intro r t x
  unfold getsTurn
  rw [runs_bind determined_getchar fun _ => Determined.pure _]
  simp only [runs_getchar, runs_pure]
  have hturn : ∀ c, (if c ≠ 0 ∧ c ≠ 0x0A then .inl (storeChar r c) else .inr (storeChar r c).1) =
      untilStop endsLine storeChar (fun r c => (storeChar r c).1) r c := by
    intro c
    unfold untilStop endsLine
    by_cases h0 : c = 0 <;> by_cases hA : c = 0x0A <;> simp [h0, hA]
  constructor
  · rintro ⟨t₁, c, t₂, hechoes, ⟨rfl, rfl⟩, rfl⟩
    exact ⟨c, by simpa using hechoes, (hturn c).symm⟩
  · rintro ⟨c, hechoes, rfl⟩
    exact ⟨t, c, [], hechoes, ⟨rfl, hturn c⟩, by simp⟩

theorem readsOn_getsTurn : ReadsOn getsTurn := by
  intro r t r' h
  obtain ⟨c, ⟨t₁, t₂, hreceives, -, rfl⟩, -⟩ := (takesItems_getsTurn r t _).mp h
  rw [answersOf_append]
  exact List.append_ne_nil_of_left_ne_nil hreceives.answers_ne_nil _

theorem determined_gets (s : Nat → UInt8) : Determined (gets s) :=
  Determined.loop readsOn_getsTurn determined_getsTurn _

/-- `gets` ends with the first end of a line. -/
theorem runs_gets :
    Runs (gets s) t s' ↔
      ∃ line, Items (Echoes COM1) line t ∧ IsInputLine line ∧ s' = (line.foldl storeChar (s, 0)).1 := by
  unfold gets
  rw [runs_loop_items readsOn_getsTurn determined_getsTurn takesItems_getsTurn]
  simp only [feeds_untilStop_result]
  constructor
  · rintro ⟨cs, hitems, before, c, rfl, hc, hbefore, rfl⟩
    exact ⟨_, hitems, ⟨before, c, rfl, hc, hbefore⟩, by rw [List.foldl_concat]⟩
  · rintro ⟨line, hitems, ⟨before, c, rfl, hc, hbefore⟩, rfl⟩
    exact ⟨_, hitems, before, c, rfl, hc, hbefore, by rw [List.foldl_concat]⟩

theorem waits_getsTurn {r : (Nat → UInt8) × Nat} (h : Waits (getsTurn r) t) : EchoPending COM1 t := by
  rcases (waits_bind determined_getchar fun _ => Determined.pure _).mp h with hchar | ⟨_, _, _, _, hpure, _⟩
  · unfold getchar at hchar
    rw [stdinFun_eq] at hchar
    rcases (waits_bind (determined_readEcho.bind fun _ => Determined.pure _) fun _ => Determined.pure _).mp hchar with
      hin | ⟨_, _, _, _, hpure, _⟩
    · rcases (waits_bind determined_readEcho fun _ => Determined.pure _).mp hin with hread | ⟨_, _, _, _, hpure, _⟩
      · obtain ⟨buf, t₁, t₂, hlen, hitems, hpending, rfl⟩ := waits_readEcho hread
        obtain rfl := List.eq_nil_of_length_eq_zero (Nat.lt_one_iff.mp hlen)
        cases hitems
        exact hpending
      · exact absurd hpure not_waits_pure
    · exact absurd hpure not_waits_pure
  · exact absurd hpure not_waits_pure

theorem waits_gets (h : Waits (gets s) t) :
    ∃ line t₁ t₂, Items (Echoes COM1) line t₁ ∧ (∀ b ∈ line, endsLine b = false) ∧ EchoPending COM1 t₂ ∧
      t = t₁ ++ t₂ := by
  obtain ⟨line, r, t₁, t₂, hitems, hfeeds, hwaits, rfl⟩ :=
    (waits_loop_items readsOn_getsTurn determined_getsTurn takesItems_getsTurn).mp h
  exact ⟨line, t₁, t₂, hitems, (feeds_untilStop_more.mp hfeeds).1, waits_getsTurn hwaits, rfl⟩

/-- `gets` takes one line from the port, up to and with its newline or NUL: it receives and sends back each
character of the line once, in order, and stores the line as it is, without a NUL behind it. Every such exchange
is one that `gets` makes. While it waits, it has received and sent back characters that end no line, and has
received at most one more. -/
theorem gets_line (s : Nat → UInt8) (bus bus' : Bus UInt16 UInt8) :
    (∀ s', gets s bus = .ok s' bus' →
      ∃ line t, bus'.accesses = bus.accesses ++ t ∧ Items (Echoes COM1) line t ∧ IsInputLine line ∧
        inputsFrom (COM1 + SERIAL_DATA_REG) t = line ∧ outputsTo (COM1 + SERIAL_DATA_REG) t = line ∧
        (line.length < 2 ^ 32 → s' = Memory.writeAt s 0 line)) ∧
    (∀ e, gets s bus = .error e bus' →
      bus'.answers = [] ∧ ∃ line t t', bus'.accesses = bus.accesses ++ (t ++ t') ∧ Items (Echoes COM1) line t ∧
        (∀ b ∈ line, endsLine b = false) ∧ EchoPending COM1 t') ∧
    ∀ line t, Items (Echoes COM1) line t → IsInputLine line → line.length < 2 ^ 32 →
      Runs (gets s) t (Memory.writeAt s 0 line) := by
  have hstored : ∀ {line : List UInt8}, line.length < 2 ^ 32 →
      (line.foldl storeChar (s, 0)).1 = Memory.writeAt s 0 line := by
    intro line hline
    rw [foldl_storeChar s (by omega)]
  refine ⟨fun s' h => ?_, fun e h => ?_, fun line t hitems hline hlen => ?_⟩
  · obtain ⟨t, -, haccesses, hruns⟩ := (determined_gets s).ok h
    obtain ⟨line, hitems, hline, rfl⟩ := runs_gets.mp hruns
    exact ⟨line, t, haccesses, hitems, hline, echoes_inputs hitems, echoes_outputs hitems, hstored⟩
  · obtain ⟨t, -, hbus, hwaits⟩ := (determined_gets s).error h
    obtain ⟨line, t₁, t₂, hitems, hline, hpending, rfl⟩ := waits_gets hwaits
    rw [hbus]
    exact ⟨rfl, line, t₁, t₂, rfl, hitems, hline, hpending⟩
  · exact runs_gets.mpr ⟨line, hitems, hline, (hstored hlen).symm⟩

end TalOS
