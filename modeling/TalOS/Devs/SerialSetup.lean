-- SUMMARY: What `serial_init` leaves in the registers of the serial port, and which baud rate divisors it sets.
import TalOS.Devs.Serial

/-!
# The serial port after `serial_init`

The port is the receiver of what `serial_init` writes: the first two registers are the
divisor of the baud rate while the highest bit of the line control is set.
-/

namespace TalOS

open Ports

/-- The registers of the port that are written, and the bytes written to its data register. -/
structure Uart where
  divisorLow : UInt8
  divisorHigh : UInt8
  intEnable : UInt8
  fifoCtl : UInt8
  lineCtl : UInt8
  modemCtl : UInt8
  sent : List UInt8
  deriving Repr, DecidableEq

def Uart.dlab (u : Uart) : Bool := u.lineCtl &&& SERIAL_LCR_DLAB_BIT ≠ 0

def Uart.writeReg (reg : UInt16) (v : UInt8) (u : Uart) : Uart :=
  if reg = SERIAL_DATA_REG then if u.dlab then { u with divisorLow := v } else { u with sent := u.sent ++ [v] }
  else if reg = SERIAL_INT_EN_REG then if u.dlab then { u with divisorHigh := v } else { u with intEnable := v }
  else if reg = SERIAL_INT_ID_FIFO_CTL_REG then { u with fifoCtl := v }
  else if reg = SERIAL_LINE_CTL_REG then { u with lineCtl := v }
  else if reg = SERIAL_MODEM_CTL_REG then { u with modemCtl := v }
  else u

/-- A value written to a port of the computer; the registers are the ports from `serialPort` on. -/
def Uart.write (serialPort port : UInt16) (v : UInt8) (u : Uart) : Uart := u.writeReg (port - serialPort) v

/-- The divisor of the baud rate. -/
def Uart.divisor (u : Uart) : Nat := 256 * u.divisorHigh.toNat + u.divisorLow.toNat

/-- What `serial_init` sets before its test. -/
def Uart.configured (conf : SerialConf) (u : Uart) : Uart :=
  { u with
    divisorLow := (conf.baudRateDiv &&& 0x0F).toUInt8
    divisorHigh := (conf.baudRateDiv >>> 8).toUInt8
    lineCtl := lineControl conf
    fifoCtl := if conf.fifoModeEn then 0xC7 else 0x00
    modemCtl := SERIAL_MODEM_LOOPBACK_MODE ||| SERIAL_MODEM_RTS_BIT
    sent := u.sent ++ [0xAE] }

/-- What it sets after it. -/
def Uart.released (conf : SerialConf) (u : Uart) : Uart :=
  if conf.irqEn then { u with modemCtl := 0x80, intEnable := 0x01 }
  else { u with modemCtl := flowControlBits conf, intEnable := 0x00 }

theorem dlab_lineControl (conf : SerialConf) : lineControl conf &&& 0x80 = 0 := by
  unfold lineControl
  split <;> split <;> (try split) <;> decide

theorem write_register (serialPort reg : UInt16) (v : UInt8) (u : Uart) :
    Uart.write serialPort (serialPort + reg) v u = u.writeReg reg v := by
  unfold Uart.write
  rw [UInt16.add_comm, UInt16.add_sub_cancel]

theorem divisor_configured (conf : SerialConf) (u : Uart) :
    (u.configured conf).divisor = 256 * (conf.baudRateDiv.toNat / 256) + conf.baudRateDiv.toNat % 16 := by
  have hlow : (conf.baudRateDiv &&& 0x0F).toUInt8.toNat = conf.baudRateDiv.toNat % 16 := by
    rw [UInt16.toNat_toUInt8, UInt16.toNat_and]
    have hand : conf.baudRateDiv.toNat &&& 15 = conf.baudRateDiv.toNat % 16 :=
      Nat.and_two_pow_sub_one_eq_mod _ 4
    show (conf.baudRateDiv.toNat &&& 15) % 2 ^ 8 = _
    rw [hand]
    omega
  have hhigh : (conf.baudRateDiv >>> 8).toUInt8.toNat = conf.baudRateDiv.toNat / 256 := by
    have hlt := conf.baudRateDiv.toNat_lt
    rw [UInt16.toNat_toUInt8, UInt16.toNat_shiftRight]
    show conf.baudRateDiv.toNat >>> 8 % 2 ^ 8 = _
    rw [Nat.shiftRight_eq_div_pow]
    omega
  show 256 * (conf.baudRateDiv >>> 8).toUInt8.toNat + (conf.baudRateDiv &&& 0x0F).toUInt8.toNat = _
  rw [hlow, hhigh]

/-- The writes of `serial_init` up to the test. -/
def setupAccesses (conf : SerialConf) : List IoAccess :=
  [.output (conf.serialPort + SERIAL_LINE_CTL_REG) SERIAL_LCR_DLAB_BIT,
    .output (conf.serialPort + SERIAL_BAUD_LOW_REG) (conf.baudRateDiv &&& 0x0F).toUInt8,
    .output (conf.serialPort + SERIAL_BAUD_HIGH_REG) (conf.baudRateDiv >>> 8).toUInt8,
    .output (conf.serialPort + SERIAL_LINE_CTL_REG) 0,
    .output (conf.serialPort + SERIAL_LINE_CTL_REG) (lineControl conf),
    .output (conf.serialPort + SERIAL_INT_ID_FIFO_CTL_REG) (if conf.fifoModeEn then 0xC7 else 0x00),
    .output (conf.serialPort + SERIAL_MODEM_CTL_REG) (SERIAL_MODEM_LOOPBACK_MODE ||| SERIAL_MODEM_RTS_BIT),
    .output (conf.serialPort + SERIAL_DATA_REG) 0xAE]

/-- The accesses of `serial_init` after a test that succeeds; `onmask` is the mask of the first PIC. -/
def releaseAccesses (conf : SerialConf) (onmask last : UInt8) : List IoAccess :=
  (if conf.irqEn then
      [.output (conf.serialPort + SERIAL_MODEM_CTL_REG) (SERIAL_MODEM_AUX_OUT_2 ||| flowControlBits conf),
        .input 0x21 onmask,
        .output 0x21 (onmask ||| ~~~0x10),
        .output (conf.serialPort + SERIAL_INT_EN_REG) 0x01,
        .output (conf.serialPort + SERIAL_MODEM_CTL_REG) 0x80]
    else
      [.output (conf.serialPort + SERIAL_MODEM_CTL_REG) (flowControlBits conf),
        .output (conf.serialPort + SERIAL_INT_EN_REG) 0x00]) ++
  [.input (conf.serialPort + SERIAL_DATA_REG) last]

theorem replay_setupAccesses (conf : SerialConf) (t : List IoAccess) (u : Uart) :
    replay (Uart.write conf.serialPort) (setupAccesses conf ++ t) u =
      replay (Uart.write conf.serialPort) t (u.configured conf) := by
  have hdlab := dlab_lineControl conf
  simp only [setupAccesses, List.cons_append, List.nil_append, replay, write_register]
  congr 1
  simp [Uart.writeReg, Uart.configured, Uart.dlab, SERIAL_DATA_REG, SERIAL_INT_EN_REG, SERIAL_BAUD_LOW_REG,
    SERIAL_BAUD_HIGH_REG, SERIAL_LINE_CTL_REG, SERIAL_INT_ID_FIFO_CTL_REG, SERIAL_MODEM_CTL_REG, hdlab,
    SERIAL_LCR_DLAB_BIT]

theorem replay_releaseAccesses (conf : SerialConf) (onmask last : UInt8) {u : Uart} (hdlab : u.dlab = false)
    (hport : 5 ≤ 0x21 - conf.serialPort) :
    replay (Uart.write conf.serialPort) (releaseAccesses conf onmask last) u = u.released conf := by
  have hpic : ∀ v (u : Uart), Uart.write conf.serialPort 0x21 v u = u := by
    intro v u
    have hreg : ∀ reg < (5 : UInt16), 0x21 - conf.serialPort ≠ reg := by
      intro reg hlt heq
      rw [heq] at hport
      exact absurd hlt (UInt16.not_lt.mpr hport)
    unfold Uart.write Uart.writeReg
    rw [if_neg (hreg _ (by decide)), if_neg (hreg _ (by decide)), if_neg (hreg _ (by decide)),
      if_neg (hreg _ (by decide)), if_neg (hreg _ (by decide))]
  have hlow : u.lineCtl &&& SERIAL_LCR_DLAB_BIT = 0 := by simpa [Uart.dlab] using hdlab
  unfold releaseAccesses Uart.released
  split
  · simp only [List.cons_append, List.nil_append, replay, write_register, hpic]
    simp [Uart.writeReg, Uart.dlab, hlow, SERIAL_DATA_REG, SERIAL_INT_EN_REG, SERIAL_LINE_CTL_REG,
      SERIAL_INT_ID_FIFO_CTL_REG, SERIAL_MODEM_CTL_REG]
  · simp only [List.cons_append, List.nil_append, replay, write_register]
    simp [Uart.writeReg, Uart.dlab, hlow, SERIAL_DATA_REG, SERIAL_INT_EN_REG, SERIAL_LINE_CTL_REG,
      SERIAL_INT_ID_FIFO_CTL_REG, SERIAL_MODEM_CTL_REG]

/-- `serial_init` ends after a test that fails, or it goes through. -/
theorem serialInit_cases {conf : SerialConf} {bus bus' : Bus UInt16 UInt8} {r : Bool}
    (h : serialInit conf bus = .ok r bus') :
    (r = false ∧ ∃ back, back ≠ 0xAE ∧ bus'.accesses =
      bus.accesses ++ (setupAccesses conf ++ [.input (conf.serialPort + SERIAL_DATA_REG) back])) ∨
    (r = true ∧ ∃ onmask last, bus'.accesses =
      bus.accesses ++ (setupAccesses conf ++ .input (conf.serialPort + SERIAL_DATA_REG) 0xAE ::
        releaseAccesses conf onmask last)) := by
  simp only [serialInit, outp_bind_apply, inp_bind_eq_ok] at h
  obtain ⟨back, answers, -, h⟩ := h
  by_cases hback : back = 0xAE
  case neg =>
    rw [if_pos hback] at h
    cases h
    exact .inl ⟨rfl, back, hback, by simp [setupAccesses]⟩
  case pos =>
    rw [if_neg (not_not.mpr hback)] at h
    subst hback
    refine .inr ?_
    cases hirq : conf.irqEn with
    | false =>
      simp only [hirq, Bool.not_false, if_true, outp_bind_apply, inp_bind_eq_ok] at h
      obtain ⟨last, answers', -, h⟩ := h
      cases h
      exact ⟨rfl, 0, last, by simp [setupAccesses, releaseAccesses, hirq]⟩
    | true =>
      simp only [hirq, Bool.not_true, Bool.false_eq_true, if_false, outp_bind_apply, inp_bind_eq_ok] at h
      obtain ⟨onmask, answers', -, last, answers'', -, h⟩ := h
      cases h
      exact ⟨rfl, onmask, last, by simp [setupAccesses, releaseAccesses, hirq]⟩

theorem dlab_configured (conf : SerialConf) (u : Uart) : (u.configured conf).dlab = false := by
  have hdlab := dlab_lineControl conf
  show decide (lineControl conf &&& 0x80 ≠ 0) = false
  simp [hdlab]

/-- `serial0`, as `InitStdio` sets it. -/
def serial0 : SerialConf :=
  { serialPort := COM1
    irqEn := true
    baudRateDiv := SERIAL_SET_BAUD_38400
    fifoModeEn := true
    stopBits := 1
    parity := SERIAL_NO_PARITY
    flowControl := SERIAL_FLOW_CTL_RTS_CTS }

/-- After `serial_init` the port is set up as configured, with the divisor out of reach; it is released from the
loopback mode exactly when the test succeeds, but with interrupts enabled the flow control is lost again. The divisor
is the configured one exactly when that has no bit in 4 to 7. -/
theorem serialInit_settings (conf : SerialConf) (u : Uart) (bus bus' : Bus UInt16 UInt8) (r : Bool)
    (hport : 5 ≤ 0x21 - conf.serialPort) (h : serialInit conf bus = .ok r bus') :
    ∃ t, bus'.accesses = bus.accesses ++ t ∧
      (r = true ↔ (answersOf t).head? = some 0xAE) ∧
      replay (Uart.write conf.serialPort) t u =
        (if r then (u.configured conf).released conf else u.configured conf) ∧
      (replay (Uart.write conf.serialPort) t u).dlab = false ∧
      ((replay (Uart.write conf.serialPort) t u).divisor = conf.baudRateDiv.toNat ↔
        conf.baudRateDiv.toNat / 16 % 16 = 0) := by
  have hreleased : ((u.configured conf).released conf).divisor = (u.configured conf).divisor ∧
      ((u.configured conf).released conf).dlab = (u.configured conf).dlab := by
    unfold Uart.released
    split <;> exact ⟨rfl, rfl⟩
  have hdivisor : (u.configured conf).divisor = conf.baudRateDiv.toNat ↔ conf.baudRateDiv.toNat / 16 % 16 = 0 := by
    rw [divisor_configured]
    omega
  rcases serialInit_cases h with ⟨rfl, back, hback, haccesses⟩ | ⟨rfl, onmask, last, haccesses⟩
  · have hreplay := replay_setupAccesses conf [.input (conf.serialPort + SERIAL_DATA_REG) back] u
    refine ⟨_, haccesses, ?_, hreplay, ?_⟩
    · simp [setupAccesses, hback]
    · rw [hreplay]
      exact ⟨dlab_configured conf u, hdivisor⟩
  · have hreplay := replay_setupAccesses conf (.input (conf.serialPort + SERIAL_DATA_REG) 0xAE ::
      releaseAccesses conf onmask last) u
    rw [replay, replay_releaseAccesses conf onmask last (dlab_configured conf u) hport] at hreplay
    refine ⟨_, haccesses, ?_, hreplay, ?_⟩
    · simp [setupAccesses]
    · rw [hreplay, hreleased.1, hreleased.2]
      exact ⟨dlab_configured conf u, hdivisor⟩

/-- A UART with every register cleared and nothing sent. -/
def uartOff : Uart := ⟨0, 0, 0, 0, 0, 0, []⟩

/-- `InitStdio` with a port that sends the test byte back. -/
theorem serialInit_settings_serial0 :
    ∃ t, setupAccesses serial0 ++ .input COM1 0xAE :: releaseAccesses serial0 0xFF 0 = [] ++ t ∧
      (true = true ↔ (answersOf t).head? = some 0xAE) ∧
      replay (Uart.write COM1) t uartOff = (uartOff.configured serial0).released serial0 ∧
      (replay (Uart.write COM1) t uartOff).dlab = false ∧
      ((replay (Uart.write COM1) t uartOff).divisor = 3 ↔ 3 / 16 % 16 = 0) :=
  serialInit_settings serial0 uartOff ⟨[0xAE, 0xFF, 0], []⟩
    ⟨[], setupAccesses serial0 ++ .input COM1 0xAE :: releaseAccesses serial0 0xFF 0⟩ true (by decide) rfl

end TalOS
