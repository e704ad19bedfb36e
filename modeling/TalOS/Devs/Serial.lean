-- SUMMARY: The serial port driver `devs/serial.c`: setup, polled reading and writing, and what goes over its ports.
import TalOS.Lib.MachineInt
import TalOS.Lib.Memory
import TalOS.Lib.Ports

/-!
# `devs/serial.c`

The driver sees the port only through its eight registers. Reading and writing a byte
polls the line status first, so the accesses of every transfer are a handshake.
-/

namespace TalOS

open Ports MachineInt

/-- A driver for byte-wide input and output ports. -/
abbrev IoDriver (α : Type) := Driver UInt16 UInt8 α

abbrev IoAccess := Access UInt16 UInt8

/-! ## Registers -/

def SERIAL_DATA_REG : UInt16 := 0
def SERIAL_INT_EN_REG : UInt16 := 1
def SERIAL_BAUD_HIGH_REG : UInt16 := 1
def SERIAL_BAUD_LOW_REG : UInt16 := 0
def SERIAL_INT_ID_FIFO_CTL_REG : UInt16 := 2
def SERIAL_LINE_CTL_REG : UInt16 := 3
def SERIAL_MODEM_CTL_REG : UInt16 := 4
def SERIAL_LINE_STATUS_REG : UInt16 := 5

def SERIAL_LCR_DLAB_BIT : UInt8 := 0x80
def SERIAL_LCR_NO_PARITY : UInt8 := 0x00
def SERIAL_LCR_ODD_PARITY : UInt8 := 0x08
def SERIAL_LCR_EVEN_PARITY : UInt8 := 0x18
def SERIAL_LCR_ONE_STOP_BIT : UInt8 := 0x00
def SERIAL_LCR_TWO_STOP_BITS : UInt8 := 0x04
def SERIAL_LCR_WORD8_BITS : UInt8 := 0x03

def SERIAL_MODEM_DTR_BIT : UInt8 := 0x01
def SERIAL_MODEM_RTS_BIT : UInt8 := 0x02
def SERIAL_MODEM_AUX_OUT_2 : UInt8 := 0x08
def SERIAL_MODEM_LOOPBACK_MODE : UInt8 := 0x10

def SERIAL_LSR_DR : UInt8 := 0x01
def SERIAL_LSR_THRE : UInt8 := 0x20

def COM1 : UInt16 := 0x3F8

def SERIAL_PARITY_ODD : UInt8 := 2
def SERIAL_PARITY_EVEN : UInt8 := 1
def SERIAL_NO_PARITY : UInt8 := 0

def SERIAL_FLOW_CTL_NONE : UInt8 := 1
def SERIAL_FLOW_CTL_DSR_DTR : UInt8 := 2
def SERIAL_FLOW_CTL_RTS_CTS : UInt8 := 3

def SERIAL_SET_BAUD_38400 : UInt16 := 0x0003

/-- `serial_conf_t` -/
structure SerialConf where
  serialPort : UInt16
  irqEn : Bool
  baudRateDiv : UInt16
  fifoModeEn : Bool
  stopBits : UInt8
  parity : UInt8
  flowControl : UInt8
  deriving Repr, DecidableEq

/-! ## Setup -/

/-- Word length, parity and stop bits, as `serial_init` puts them together. -/
def lineControl (conf : SerialConf) : UInt8 :=
  (if conf.parity = SERIAL_PARITY_EVEN then SERIAL_LCR_EVEN_PARITY
    else if conf.parity = SERIAL_PARITY_ODD then SERIAL_LCR_ODD_PARITY
    else SERIAL_LCR_NO_PARITY) |||
  SERIAL_LCR_WORD8_BITS |||
  (if conf.stopBits = 2 then SERIAL_LCR_TWO_STOP_BITS else SERIAL_LCR_ONE_STOP_BIT)

def flowControlBits (conf : SerialConf) : UInt8 :=
  if conf.flowControl = SERIAL_FLOW_CTL_RTS_CTS then SERIAL_MODEM_RTS_BIT
  else if conf.flowControl = SERIAL_FLOW_CTL_DSR_DTR then SERIAL_MODEM_DTR_BIT
  else 0

/-- `serial_init` -/
def serialInit (conf : SerialConf) : IoDriver Bool := do
  outp (conf.serialPort + SERIAL_LINE_CTL_REG) SERIAL_LCR_DLAB_BIT
  outp (conf.serialPort + SERIAL_BAUD_LOW_REG) (conf.baudRateDiv &&& 0x0F).toUInt8
  outp (conf.serialPort + SERIAL_BAUD_HIGH_REG) (conf.baudRateDiv >>> 8).toUInt8
  outp (conf.serialPort + SERIAL_LINE_CTL_REG) 0
  outp (conf.serialPort + SERIAL_LINE_CTL_REG) (lineControl conf)
  outp (conf.serialPort + SERIAL_INT_ID_FIFO_CTL_REG) (if conf.fifoModeEn then 0xC7 else 0x00)
  -- a byte sent in loopback mode has to come back
  outp (conf.serialPort + SERIAL_MODEM_CTL_REG) (SERIAL_MODEM_LOOPBACK_MODE ||| SERIAL_MODEM_RTS_BIT)
  outp (conf.serialPort + SERIAL_DATA_REG) 0xAE
  let back ← inp (conf.serialPort + SERIAL_DATA_REG)
  if back ≠ 0xAE then
    return false
  if !conf.irqEn then
    outp (conf.serialPort + SERIAL_MODEM_CTL_REG) (flowControlBits conf)
    outp (conf.serialPort + SERIAL_INT_EN_REG) 0x00
  else
    outp (conf.serialPort + SERIAL_MODEM_CTL_REG) (SERIAL_MODEM_AUX_OUT_2 ||| flowControlBits conf)
    let onmask ← inp 0x21
    outp 0x21 (onmask ||| ~~~0x10)
    outp (conf.serialPort + SERIAL_INT_EN_REG) 0x01
    outp (conf.serialPort + SERIAL_MODEM_CTL_REG) 0x80
  let _ ← inp (conf.serialPort + SERIAL_DATA_REG)
  return true

/-! ## Reading and writing -/

/-- The test of `serial_received` on the line status. -/
def serialReceived (lineStatus : UInt8) : Bool := lineStatus &&& SERIAL_LSR_DR ≠ 0

/-- The test of `is_transmit_empty` on the line status. -/
def isTransmitEmpty (lineStatus : UInt8) : Bool := lineStatus &&& SERIAL_LSR_THRE ≠ 0

/-- `serial_read` -/
def serialRead (serialPort : UInt16) : IoDriver UInt8 := do
  let _ ← poll (serialPort + SERIAL_LINE_STATUS_REG) serialReceived
  inp (serialPort + SERIAL_DATA_REG)

/-- `serial_write` -/
def serialWrite (serialPort : UInt16) (charout : UInt8) : IoDriver Unit := do
  let _ ← poll (serialPort + SERIAL_LINE_STATUS_REG) isTransmitEmpty
  outp (serialPort + SERIAL_DATA_REG) charout

/-- `serial_write_buffer`, and `serial_write_string` for a string without its NUL. -/
def serialWriteBuffer (serialPort : UInt16) : List UInt8 → IoDriver Unit
  | [] => pure ()
  | c :: buf => do
    serialWrite serialPort c
    serialWriteBuffer serialPort buf

/-- `string[count] = c; count++` -/
def storeChar (r : (Nat → UInt8) × Nat) (c : UInt8) : (Nat → UInt8) × Nat :=
  (Memory.writeAt r.1 r.2 [c], u32 (r.2 + 1))

/-- One turn of `serial_read_line`. -/
def readLineTurn (serialPort : UInt16) (r : (Nat → UInt8) × Nat) :
    IoDriver (((Nat → UInt8) × Nat) ⊕ ((Nat → UInt8) × Nat)) := do
  let readChar ← serialRead serialPort
  pure (if readChar ≠ 0x0D then .inl (storeChar r readChar) else .inr r)

/-- `serial_read_line` -/
def serialReadLine (serialPort : UInt16) (string : Nat → UInt8) : IoDriver (Nat → UInt8) := do
  let r ← loop (readLineTurn serialPort) (string, 0)
  pure (Memory.writeAt r.1 r.2 [0])

/-- `RET_T_OK` as a number of bytes. -/
def serialOk : Int := 0

/-- `RET_T_NOK` as a number of bytes. -/
def serialNok : Int := -1

/-- `serial_fs_write` for the node with this `impl_def`, if there is one. -/
def serialFsWrite (node : Option UInt64) (buf : List UInt8) : IoDriver Int :=
  match node with
  | none => pure serialNok
  | some implDef => do
    serialWriteBuffer implDef.toUInt16 buf
    pure serialOk

/-- The loop of `serial_fs_read`, which sends back what it receives: the bytes that it stores. -/
def readEcho (serialPort : UInt16) : Nat → IoDriver (List UInt8)
  | 0 => pure []
  | nbyte + 1 => do
    let c ← serialRead serialPort
    serialWrite serialPort c
    let buf ← readEcho serialPort nbyte
    pure (c :: buf)

/-- `serial_fs_read`: the bytes that it stores into the buffer, and its result. -/
def serialFsRead (node : Option UInt64) (nbyte : Nat) : IoDriver (List UInt8 × Int) :=
  match node with
  | none => pure ([], serialNok)
  | some implDef => do
    let buf ← readEcho implDef.toUInt16 nbyte
    pure (buf, serialOk)

/-! ## What goes over the ports -/

/-- The accesses of `serial_read` for a byte: the line status until it shows received data, then the byte. -/
def Receives (serialPort : UInt16) (c : UInt8) (t : List IoAccess) : Prop :=
  ∃ waiting lineStatus, (∀ w ∈ waiting, serialReceived w = false) ∧ serialReceived lineStatus = true ∧
    t = idle (serialPort + SERIAL_LINE_STATUS_REG) waiting ++
      [.input (serialPort + SERIAL_LINE_STATUS_REG) lineStatus, .input (serialPort + SERIAL_DATA_REG) c]

/-- The accesses of `serial_write` for a byte: the line status until it shows an empty transmitter, then the
byte. -/
def Transmits (serialPort : UInt16) (c : UInt8) (t : List IoAccess) : Prop :=
  ∃ waiting lineStatus, (∀ w ∈ waiting, isTransmitEmpty w = false) ∧ isTransmitEmpty lineStatus = true ∧
    t = idle (serialPort + SERIAL_LINE_STATUS_REG) waiting ++
      [.input (serialPort + SERIAL_LINE_STATUS_REG) lineStatus, .output (serialPort + SERIAL_DATA_REG) c]

/-- The accesses of `serial_fs_read` for a byte: it is received and sent back. -/
def Echoes (serialPort : UInt16) (c : UInt8) (t : List IoAccess) : Prop :=
  ∃ t₁ t₂, Receives serialPort c t₁ ∧ Transmits serialPort c t₂ ∧ t = t₁ ++ t₂

/-- What is sent while the line status has these answers: each byte directly behind the first answer, from the
byte before on, that shows an empty transmitter. -/
def transmission (serialPort : UInt16) : List UInt8 → List UInt8 → List IoAccess
  | _, [] => []
  | [], _ :: _ => []
  | v :: answers, c :: bytes =>
    .input (serialPort + SERIAL_LINE_STATUS_REG) v ::
      if isTransmitEmpty v then .output (serialPort + SERIAL_DATA_REG) c :: transmission serialPort answers bytes
      else transmission serialPort answers (c :: bytes)

variable {serialPort : UInt16} {c : UInt8} {bytes bytes' answers : List UInt8} {t : List IoAccess}

theorem status_ne_data : serialPort + SERIAL_LINE_STATUS_REG ≠ serialPort + SERIAL_DATA_REG := by
  rw [Ne, UInt16.add_right_inj]
  decide

theorem Receives.inputs (h : Receives serialPort c t) : inputsFrom (serialPort + SERIAL_DATA_REG) t = [c] := by
  obtain ⟨waiting, lineStatus, -, -, rfl⟩ := h
  rw [inputsFrom_append, inputsFrom_idle waiting status_ne_data, inputsFrom_input, if_neg status_ne_data,
    inputsFrom_input, if_pos rfl]
  rfl

theorem Receives.outputs (h : Receives serialPort c t) : outputsTo (serialPort + SERIAL_DATA_REG) t = [] := by
  obtain ⟨waiting, lineStatus, -, -, rfl⟩ := h
  rw [outputsTo_append, outputsTo_idle]
  rfl

theorem Transmits.inputs (h : Transmits serialPort c t) : inputsFrom (serialPort + SERIAL_DATA_REG) t = [] := by
  obtain ⟨waiting, lineStatus, -, -, rfl⟩ := h
  rw [inputsFrom_append, inputsFrom_idle waiting status_ne_data, inputsFrom_input, if_neg status_ne_data]
  rfl

theorem Transmits.outputs (h : Transmits serialPort c t) : outputsTo (serialPort + SERIAL_DATA_REG) t = [c] := by
  obtain ⟨waiting, lineStatus, -, -, rfl⟩ := h
  rw [outputsTo_append, outputsTo_idle, outputsTo_input, outputsTo_output, if_pos rfl]
  rfl

theorem Echoes.inputs (h : Echoes serialPort c t) : inputsFrom (serialPort + SERIAL_DATA_REG) t = [c] := by
  obtain ⟨t₁, t₂, h₁, h₂, rfl⟩ := h
  rw [inputsFrom_append, h₁.inputs, h₂.inputs]
  rfl

theorem Echoes.outputs (h : Echoes serialPort c t) : outputsTo (serialPort + SERIAL_DATA_REG) t = [c] := by
  obtain ⟨t₁, t₂, h₁, h₂, rfl⟩ := h
  rw [outputsTo_append, h₁.outputs, h₂.outputs]
  rfl

theorem determined_serialRead : Determined (serialRead serialPort) :=
  (Determined.poll _ _).bind fun _ => Determined.inp _

theorem determined_serialWrite : Determined (serialWrite serialPort c) :=
  (Determined.poll _ _).bind fun _ => Determined.outp _ _

theorem runs_serialRead : Runs (serialRead serialPort) t c ↔ Receives serialPort c t := by
  unfold serialRead
  rw [runs_bind (Determined.poll _ _) fun _ => Determined.inp _]
  simp only [runs_poll, runs_inp]
  constructor
  · rintro ⟨t₁, v, t₂, ⟨waiting, hwaiting, hv, rfl⟩, rfl, rfl⟩
    exact ⟨waiting, v, hwaiting, hv, by simp⟩
  · rintro ⟨waiting, v, hwaiting, hv, rfl⟩
    exact ⟨_, v, _, ⟨waiting, hwaiting, hv, rfl⟩, rfl, by simp⟩

theorem runs_serialWrite {u : Unit} : Runs (serialWrite serialPort c) t u ↔ Transmits serialPort c t := by
  unfold serialWrite
  rw [runs_bind (Determined.poll _ _) fun _ => Determined.outp _ _]
  simp only [runs_poll, runs_outp]
  constructor
  · rintro ⟨t₁, v, t₂, ⟨waiting, hwaiting, hv, rfl⟩, rfl, rfl⟩
    exact ⟨waiting, v, hwaiting, hv, by simp⟩
  · rintro ⟨waiting, v, hwaiting, hv, rfl⟩
    exact ⟨_, v, _, ⟨waiting, hwaiting, hv, rfl⟩, rfl, by simp⟩

theorem waits_serialWrite :
    Waits (serialWrite serialPort c) t ↔
      ∃ waiting, (∀ w ∈ waiting, isTransmitEmpty w = false) ∧
        t = idle (serialPort + SERIAL_LINE_STATUS_REG) waiting := by
  unfold serialWrite
  rw [waits_bind (Determined.poll _ _) fun _ => Determined.outp _ _, waits_poll]
  exact or_iff_left fun ⟨_, _, _, _, hwaits, _⟩ => not_waits_outp hwaits

/-- While `serial_read` waits, it has read the line status only, or it has seen received data and waits for
the byte itself. -/
theorem waits_serialRead :
    Waits (serialRead serialPort) t ↔
      ∃ waiting, (∀ w ∈ waiting, serialReceived w = false) ∧
        (t = idle (serialPort + SERIAL_LINE_STATUS_REG) waiting ∨
          ∃ lineStatus, serialReceived lineStatus = true ∧
            t = idle (serialPort + SERIAL_LINE_STATUS_REG) waiting ++
              [.input (serialPort + SERIAL_LINE_STATUS_REG) lineStatus]) := by
  unfold serialRead
  rw [waits_bind (Determined.poll _ _) fun _ => Determined.inp _]
  simp only [waits_poll, runs_poll, waits_inp]
  constructor
  · rintro (⟨waiting, hwaiting, rfl⟩ | ⟨t₁, v, t₂, ⟨waiting, hwaiting, hv, rfl⟩, rfl, rfl⟩)
    · exact ⟨waiting, hwaiting, .inl rfl⟩
    · exact ⟨waiting, hwaiting, .inr ⟨v, hv, by simp⟩⟩
  · rintro ⟨waiting, hwaiting, rfl | ⟨v, hv, rfl⟩⟩
    · exact .inl ⟨waiting, hwaiting, rfl⟩
    · exact .inr ⟨_, v, _, ⟨waiting, hwaiting, hv, rfl⟩, rfl, by simp⟩

/-! ## Sending a buffer -/

theorem determined_serialWriteBuffer : Determined (serialWriteBuffer serialPort bytes) := by
  induction bytes with
  | nil => exact Determined.pure _
  | cons c bytes ih => exact determined_serialWrite.bind fun _ => ih

/-- One more look at the line status while the transmitter is full. -/
theorem runs_serialWriteBuffer_full {v : UInt8} (hfull : isTransmitEmpty v = false)
    (h : Runs (serialWriteBuffer serialPort (c :: bytes)) t ()) :
    Runs (serialWriteBuffer serialPort (c :: bytes)) (.input (serialPort + SERIAL_LINE_STATUS_REG) v :: t) () := by
  obtain ⟨t₁, u, t₂, h₁, h₂, rfl⟩ :=
    (runs_bind determined_serialWrite fun _ => determined_serialWriteBuffer).mp h
  obtain ⟨waiting, lineStatus, hwaiting, hstatus, rfl⟩ := runs_serialWrite.mp h₁
  have hmore : Transmits serialPort c _ :=
    ⟨v :: waiting, lineStatus, List.forall_mem_cons.mpr ⟨hfull, hwaiting⟩, hstatus, rfl⟩
  exact (runs_serialWrite (u := u)).mpr hmore |>.bind h₂

theorem waits_serialWriteBuffer_full {v : UInt8} (hfull : isTransmitEmpty v = false)
    (h : Waits (serialWriteBuffer serialPort (c :: bytes)) t) :
    Waits (serialWriteBuffer serialPort (c :: bytes)) (.input (serialPort + SERIAL_LINE_STATUS_REG) v :: t) := by
  rcases (waits_bind determined_serialWrite fun _ => determined_serialWriteBuffer).mp h with
    hwait | ⟨t₁, u, t₂, h₁, h₂, rfl⟩
  · obtain ⟨waiting, hwaiting, rfl⟩ := waits_serialWrite.mp hwait
    exact (waits_serialWrite.mpr ⟨v :: waiting, List.forall_mem_cons.mpr ⟨hfull, hwaiting⟩, rfl⟩).bind
  · obtain ⟨waiting, lineStatus, hwaiting, hstatus, rfl⟩ := runs_serialWrite.mp h₁
    have hmore : Transmits serialPort c _ :=
      ⟨v :: waiting, lineStatus, List.forall_mem_cons.mpr ⟨hfull, hwaiting⟩, hstatus, rfl⟩
    exact (runs_serialWrite (u := u)).mpr hmore |>.bind_waits h₂

theorem runs_serialWriteBuffer_empty {v : UInt8} (hempty : isTransmitEmpty v = true) :
    Runs (serialWrite serialPort c)
      [.input (serialPort + SERIAL_LINE_STATUS_REG) v, .output (serialPort + SERIAL_DATA_REG) c] () :=
  runs_serialWrite.mpr ⟨[], v, by simp, hempty, rfl⟩

/-- With enough answers that show an empty transmitter the whole buffer is sent. -/
theorem runs_transmission :
    ∀ (answers bytes : List UInt8), bytes.length ≤ answers.countP isTransmitEmpty →
      Runs (serialWriteBuffer serialPort bytes) (transmission serialPort answers bytes) () ∧
        ∃ rest, answers = answersOf (transmission serialPort answers bytes) ++ rest
  | answers, [], _ => by
    have hnil : transmission serialPort answers [] = [] := by cases answers <;> rfl
    rw [hnil]
    exact ⟨runs_pure.mpr ⟨rfl, rfl⟩, answers, rfl⟩
  | [], _ :: _, h => absurd h (by simp)
  | v :: answers, c :: bytes, h => by
    rw [List.countP_cons, List.length_cons] at h
    rw [transmission]
    cases hv : isTransmitEmpty v with
    | true =>
      rw [if_pos hv] at h
      obtain ⟨hruns, rest, hrest⟩ := runs_transmission answers bytes (by omega)
      refine ⟨(runs_serialWriteBuffer_empty hv).bind hruns, rest, ?_⟩
      rw [if_pos rfl, answersOf_input, answersOf_output, List.cons_append, ← hrest]
    | false =>
      rw [if_neg (by simp [hv])] at h
      obtain ⟨hruns, rest, hrest⟩ := runs_transmission answers (c :: bytes) h
      refine ⟨runs_serialWriteBuffer_full hv hruns, rest, ?_⟩
      rw [if_neg (by simp), answersOf_input, List.cons_append, ← hrest]

/-- With too few of them the driver sends what it can and waits. -/
theorem waits_transmission :
    ∀ (answers bytes : List UInt8), answers.countP isTransmitEmpty < bytes.length →
      Waits (serialWriteBuffer serialPort bytes) (transmission serialPort answers bytes) ∧
        answersOf (transmission serialPort answers bytes) = answers
  | _, [], h => absurd h (Nat.not_lt_zero _)
  | [], c :: bytes, _ => ⟨(waits_serialWrite.mpr ⟨[], by simp, rfl⟩).bind, rfl⟩
  | v :: answers, c :: bytes, h => by
    rw [List.countP_cons, List.length_cons] at h
    rw [transmission]
    cases hv : isTransmitEmpty v with
    | true =>
      rw [if_pos hv] at h
      obtain ⟨hwaits, hanswers⟩ := waits_transmission answers bytes (by omega)
      refine ⟨(runs_serialWriteBuffer_empty hv).bind_waits hwaits, ?_⟩
      rw [if_pos rfl, answersOf_input, answersOf_output, hanswers]
    | false =>
      rw [if_neg (by simp [hv])] at h
      obtain ⟨hwaits, hanswers⟩ := waits_transmission answers (c :: bytes) h
      refine ⟨waits_serialWriteBuffer_full hv hwaits, ?_⟩
      rw [if_neg (by simp), answersOf_input, hanswers]

/-- One byte is sent for each answer that shows an empty transmitter. -/
theorem outputsTo_transmission :
    ∀ (answers bytes : List UInt8), outputsTo (serialPort + SERIAL_DATA_REG) (transmission serialPort answers bytes) =
      bytes.take (answers.countP isTransmitEmpty)
  | answers, [] => by
    have hnil : transmission serialPort answers [] = [] := by cases answers <;> rfl
    rw [hnil, List.take_nil]
    rfl
  | [], c :: bytes => rfl
  | v :: answers, c :: bytes => by
    rw [transmission, outputsTo_input, List.countP_cons]
    cases hv : isTransmitEmpty v with
    | true =>
      rw [if_pos rfl, if_pos rfl, outputsTo_output, if_pos rfl, outputsTo_transmission answers bytes,
        List.take_succ_cons]
    | false =>
      rw [if_neg (by simp), if_neg (by simp), outputsTo_transmission answers (c :: bytes), Nat.add_zero]

/-- Sending a buffer in two parts is sending it at once. -/
theorem serialWriteBuffer_append :
    serialWriteBuffer serialPort (bytes ++ bytes') =
      serialWriteBuffer serialPort bytes >>= fun _ => serialWriteBuffer serialPort bytes' := by
  induction bytes with
  | nil => rfl
  | cons c bytes ih =>
    rw [List.cons_append, serialWriteBuffer, ih, serialWriteBuffer, bind_assoc]

/-! ## Receiving -/

theorem determined_readEcho {nbyte : Nat} : Determined (readEcho serialPort nbyte) := by
  induction nbyte with
  | zero => exact Determined.pure _
  | succ nbyte ih =>
    exact determined_serialRead.bind fun _ => determined_serialWrite.bind fun _ => ih.bind fun _ =>
      Determined.pure _

/-- The loop of `serial_fs_read` receives and sends back the bytes that it stores, one by one. -/
theorem runs_readEcho {nbyte : Nat} {buf : List UInt8} :
    Runs (readEcho serialPort nbyte) t buf ↔ buf.length = nbyte ∧ Items (Echoes serialPort) buf t := by
  induction nbyte generalizing buf t with
  | zero =>
    rw [readEcho, runs_pure]
    constructor
    · rintro ⟨rfl, rfl⟩
      exact ⟨rfl, .nil⟩
    · rintro ⟨hlen, hitems⟩
      obtain rfl := List.eq_nil_of_length_eq_zero hlen
      cases hitems
      exact ⟨rfl, rfl⟩
  | succ nbyte ih =>
    rw [readEcho, runs_bind determined_serialRead fun _ => determined_serialWrite.bind fun _ =>
      determined_readEcho.bind fun _ => Determined.pure _]
    simp only [runs_bind determined_serialWrite fun _ => determined_readEcho.bind fun _ => Determined.pure _,
      runs_bind determined_readEcho fun _ => Determined.pure _, runs_pure, runs_serialRead, runs_serialWrite, ih]
    constructor
    · rintro ⟨t₁, c, t₂, hreceives, ⟨t₃, u, t₄, htransmits, ⟨t₅, buf, t₆, ⟨hlen, hitems⟩, ⟨rfl, rfl⟩, rfl⟩, rfl⟩, rfl⟩
      refine ⟨by rw [List.length_cons, hlen], ?_⟩
      have hitem : Echoes serialPort c (t₁ ++ t₃) := ⟨t₁, t₃, hreceives, htransmits, rfl⟩
      simpa using Items.cons hitem hitems
    · rintro ⟨hlen, hitems⟩
      cases hitems with
      | nil => cases hlen
      | @cons c buf t t' hitem hitems =>
        obtain ⟨t₁, t₂, hreceives, htransmits, rfl⟩ := hitem
        exact ⟨t₁, c, _, hreceives,
          ⟨t₂, (), _, htransmits, ⟨t', buf, [], ⟨Nat.succ.inj hlen, hitems⟩, ⟨rfl, rfl⟩, rfl⟩, rfl⟩, by simp⟩

/-- An echo that is not complete: nothing has been sent back, and at most one byte has been received. -/
def EchoPending (serialPort : UInt16) (t : List IoAccess) : Prop :=
  outputsTo (serialPort + SERIAL_DATA_REG) t = [] ∧ (inputsFrom (serialPort + SERIAL_DATA_REG) t).length ≤ 1

theorem echoPending_waits_read (h : Waits (serialRead serialPort) t) : EchoPending serialPort t := by
  obtain ⟨waiting, -, rfl | ⟨lineStatus, -, rfl⟩⟩ := waits_serialRead.mp h
  · exact ⟨outputsTo_idle waiting, by rw [inputsFrom_idle waiting status_ne_data]; exact Nat.zero_le 1⟩
  · refine ⟨by rw [outputsTo_append, outputsTo_idle]; rfl, ?_⟩
    rw [inputsFrom_append, inputsFrom_idle waiting status_ne_data, inputsFrom_input, if_neg status_ne_data]
    exact Nat.zero_le 1

theorem echoPending_waits_write {t' : List IoAccess} (h : Receives serialPort c t)
    (h' : Waits (serialWrite serialPort c) t') : EchoPending serialPort (t ++ t') := by
  obtain ⟨waiting, -, rfl⟩ := waits_serialWrite.mp h'
  constructor
  · rw [outputsTo_append, h.outputs, outputsTo_idle]
    rfl
  · rw [inputsFrom_append, h.inputs, inputsFrom_idle waiting status_ne_data]
    exact Nat.le_refl 1

/-- While `serial_fs_read` waits, it is at the echo of one of its bytes. -/
theorem waits_readEcho {nbyte : Nat} (h : Waits (readEcho serialPort nbyte) t) :
    ∃ buf t₁ t₂, buf.length < nbyte ∧ Items (Echoes serialPort) buf t₁ ∧ EchoPending serialPort t₂ ∧
      t = t₁ ++ t₂ := by
  induction nbyte generalizing t with
  | zero => exact absurd h not_waits_pure
  | succ nbyte ih =>
    have hrest : Determined (readEcho serialPort nbyte) := determined_readEcho
    rcases (waits_bind determined_serialRead fun _ => determined_serialWrite.bind fun _ =>
      hrest.bind fun _ => Determined.pure _).mp h with hread | ⟨t₁, c, t₂, hreads, hmore, rfl⟩
    · exact ⟨[], [], t, Nat.succ_pos _, .nil, echoPending_waits_read hread, rfl⟩
    have hreceives := runs_serialRead.mp hreads
    rcases (waits_bind determined_serialWrite fun _ => hrest.bind fun _ => Determined.pure _).mp hmore with
      hwrite | ⟨t₃, u, t₄, hwrites, hlast, rfl⟩
    · exact ⟨[], [], _, Nat.succ_pos _, .nil, echoPending_waits_write hreceives hwrite, rfl⟩
    rcases (waits_bind hrest fun _ => Determined.pure _).mp hlast with hloop | ⟨_, _, _, _, hpure, _⟩
    · obtain ⟨buf, t₅, t₆, hlen, hitems, hpending, rfl⟩ := ih hloop
      have hitem : Echoes serialPort c (t₁ ++ t₃) := ⟨t₁, t₃, hreceives, runs_serialWrite.mp hwrites, rfl⟩
      exact ⟨c :: buf, _, t₆, Nat.succ_lt_succ hlen, .cons hitem hitems, hpending, by simp⟩
    · exact absurd hpure not_waits_pure

theorem echoes_inputs {cs : List UInt8} (h : Items (Echoes serialPort) cs t) :
    inputsFrom (serialPort + SERIAL_DATA_REG) t = cs := by
  induction h with
  | nil => rfl
  | cons hitem _ ih => rw [inputsFrom_append, hitem.inputs, ih, List.singleton_append]

theorem echoes_outputs {cs : List UInt8} (h : Items (Echoes serialPort) cs t) :
    outputsTo (serialPort + SERIAL_DATA_REG) t = cs := by
  induction h with
  | nil => rfl
  | cons hitem _ ih => rw [outputsTo_append, hitem.outputs, ih, List.singleton_append]

/-- As long as the index does not wrap, the characters are stored one behind the other. -/
theorem foldl_storeChar (s : Nat → UInt8) {n : Nat} {cs : List UInt8} (hn : n + cs.length ≤ 2 ^ 32 - 1) :
    cs.foldl storeChar (s, n) = (Memory.writeAt s n cs, n + cs.length) := by
  induction cs generalizing s n with
  | nil => rw [List.foldl_nil, Memory.writeAt_nil, List.length_nil, Nat.add_zero]
  | cons c cs ih =>
    rw [List.length_cons] at hn
    have hnext : storeChar (s, n) c = (Memory.writeAt s n [c], n + 1) := by
      rw [storeChar, u32_of_lt (by omega)]
    rw [List.foldl_cons, hnext, ih _ (by omega), List.length_cons]
    have happend := Memory.writeAt_append s n [c] cs
    rw [List.length_singleton, List.singleton_append] at happend
    rw [happend]
    congr 1
    omega

theorem determined_readLineTurn (r : (Nat → UInt8) × Nat) : Determined (readLineTurn serialPort r) :=
  determined_serialRead.bind fun _ => Determined.pure _

theorem takesItems_readLineTurn :
    TakesItems (readLineTurn serialPort) (Receives serialPort)
      (untilStop (fun c => c = 0x0D) storeChar fun r _ => r) := by
  intro r t x
  unfold readLineTurn
  rw [runs_bind determined_serialRead fun _ => Determined.pure _]
  simp only [runs_serialRead, runs_pure]
  constructor
  · rintro ⟨t₁, c, t₂, hreceives, ⟨rfl, rfl⟩, rfl⟩
    refine ⟨c, by simpa using hreceives, ?_⟩
    by_cases hc : c = 0x0D <;> simp [untilStop, hc]
  · rintro ⟨c, hreceives, rfl⟩
    refine ⟨t, c, [], hreceives, ⟨rfl, ?_⟩, by simp⟩
    by_cases hc : c = 0x0D <;> simp [untilStop, hc]

theorem Receives.answers_ne_nil (h : Receives serialPort c t) : answersOf t ≠ [] := by
  obtain ⟨waiting, lineStatus, -, -, rfl⟩ := h
  simp

theorem readsOn_readLineTurn : ReadsOn (readLineTurn serialPort) := by
  intro r t r' h
  obtain ⟨c, hreceives, -⟩ := (takesItems_readLineTurn r t _).mp h
  exact hreceives.answers_ne_nil

/-- `serial_read_line` ends with the first carriage return; it has stored what came before it, and a NUL. -/
theorem runs_serialReadLine {string string' : Nat → UInt8} :
    Runs (serialReadLine serialPort string) t string' ↔
      ∃ line, Items (Receives serialPort) (line ++ [0x0D]) t ∧ 0x0D ∉ line ∧
        string' = Memory.writeAt (line.foldl storeChar (string, 0)).1 (line.foldl storeChar (string, 0)).2 [0] := by
  have hreads : ReadsOn (readLineTurn serialPort) := readsOn_readLineTurn
  have hloop := Determined.loop hreads determined_readLineTurn
  unfold serialReadLine
  rw [runs_bind (hloop _) fun _ => Determined.pure _]
  simp only [runs_pure, runs_loop_items hreads determined_readLineTurn takesItems_readLineTurn,
    feeds_untilStop_result]
  constructor
  · rintro ⟨t₁, r, t₂, ⟨cs, hitems, line, c, rfl, hc, hline, rfl⟩, ⟨rfl, rfl⟩, rfl⟩
    obtain rfl : c = 0x0D := by simpa using hc
    exact ⟨line, by simpa using hitems, fun hmem => by simpa using hline _ hmem, rfl⟩
  · rintro ⟨line, hitems, hline, rfl⟩
    refine ⟨t, _, [], ⟨_, hitems, line, 0x0D, rfl, by simp, ?_, rfl⟩, ⟨rfl, rfl⟩, by simp⟩
    intro b hb
    simpa using fun h : b = 0x0D => hline (h ▸ hb)

end TalOS
