-- SUMMARY: The pair of 8259 interrupt controllers: what the chips make of a write, and the functions of `pic.c`.
import TalOS.Arch.Interrupts

/-!
# `arch/IA32/pic.c`

Two chips, the second one behind line 2 of the first. A chip sees what is written to its
command port and to its data port; after an initialization command the data port takes
the words of the initialization, and otherwise the mask.
-/

namespace TalOS

/-! ## One chip -/

/-- The word of the initialization that the chip expects next at its data port. -/
inductive InitPhase where
  | icw2
  | icw3
  | icw4
  | ready
  deriving Repr, DecidableEq

structure Pic where
  phase : InitPhase
  single : Bool
  needIcw4 : Bool
  vectorBase : BitVec 8
  cascade : BitVec 8
  mode : BitVec 8
  imr : BitVec 8
  irr : BitVec 8
  isr : BitVec 8
  /-- whether the command port reads as the in-service register -/
  readIsr : Bool
  deriving Repr, DecidableEq

/-- The lines whose bits are set in a register, the one of highest priority first. -/
def picLines (reg : BitVec 8) : List Nat := (List.range 8).filter fun i => reg.getLsbD i

/-- The bit of a line. -/
def lineBit (i : Nat) : BitVec 8 := BitVec.twoPow 8 i

/-- The nonspecific end of interrupt: the line of highest priority is no longer in service. -/
def Pic.endOfInterrupt (c : Pic) : Pic :=
  match picLines c.isr with
  | [] => c
  | i :: _ => { c with isr := c.isr &&& ~~~lineBit i }

/-- A write to the command port: an initialization command, one that selects the register to read, or one that ends
an interrupt, of which there is only the nonspecific one here. -/
def Pic.writeCommand (v : BitVec 8) (c : Pic) : Pic :=
  if v &&& 0x10 ≠ 0 then
    { c with
      phase := .icw2
      single := v &&& 0x02 ≠ 0
      needIcw4 := v &&& 0x01 ≠ 0
      mode := if v &&& 0x01 ≠ 0 then c.mode else 0
      imr := 0
      irr := 0
      isr := 0
      readIsr := false }
  else if v &&& 0x08 ≠ 0 then if v &&& 0x02 ≠ 0 then { c with readIsr := v &&& 0x01 ≠ 0 } else c
  else if v >>> 5 = 1 then c.endOfInterrupt
  else c

/-- A write to the data port. -/
def Pic.writeData (v : BitVec 8) (c : Pic) : Pic :=
  match c.phase with
  | .icw2 =>
    { c with vectorBase := v &&& 0xF8, phase := if ¬ c.single then .icw3 else if c.needIcw4 then .icw4 else .ready }
  | .icw3 => { c with cascade := v, phase := if c.needIcw4 then .icw4 else .ready }
  | .icw4 => { c with mode := v, phase := .ready }
  | .ready => { c with imr := v }

def Pic.readCommand (c : Pic) : BitVec 8 := if c.readIsr then c.isr else c.irr

/-- The request that a chip presents, when `irr` is what is requested: the one of highest priority that is not
masked, if no line of that priority or a higher one is in service. -/
def Pic.presents (c : Pic) (irr : BitVec 8) : Option Nat :=
  match c.phase, picLines (irr &&& ~~~c.imr) with
  | .ready, i :: _ => if (picLines c.isr).all (i < ·) then some i else none
  | _, _ => none

/-- The chip learns that the CPU takes a request. With automatic end of interrupt the line is not in service. -/
def Pic.acknowledge (i : Nat) (c : Pic) : Pic :=
  { c with
    irr := c.irr &&& ~~~lineBit i
    isr := if c.mode &&& 0x02 = 0 then c.isr ||| lineBit i else c.isr }

/-! ## The two chips -/

/-- The chips, and `IRQ_start_offset`. -/
structure PicSystem where
  master : Pic
  slave : Pic
  irqStartOffset : BitVec 16
  deriving Repr, DecidableEq

abbrev PicM := StateM PicSystem

def PIC1_COMMAND : BitVec 16 := 0x20
def PIC1_DATA : BitVec 16 := 0x21
def PIC2_COMMAND : BitVec 16 := 0xA0
def PIC2_DATA : BitVec 16 := 0xA1
def PIC_READ_IRR : BitVec 8 := 0x0a
def PIC_READ_ISR : BitVec 8 := 0x0b
def PIC_EOI : BitVec 8 := 0x20
def ICW1_ICW4 : BitVec 8 := 0x01
def ICW1_INIT : BitVec 8 := 0x10
def ICW4_8086 : BitVec 8 := 0x01

/-- `outb`; the chips see no other port. -/
def picOutb (value : BitVec 8) (port : BitVec 16) : PicM Unit := modify fun s =>
  if port = PIC1_COMMAND then { s with master := s.master.writeCommand value }
  else if port = PIC1_DATA then { s with master := s.master.writeData value }
  else if port = PIC2_COMMAND then { s with slave := s.slave.writeCommand value }
  else if port = PIC2_DATA then { s with slave := s.slave.writeData value }
  else s

/-- `inb` at one of the four ports. -/
def picInb (port : BitVec 16) : PicM (BitVec 8) := do
  let s ← get
  pure (if port = PIC1_COMMAND then s.master.readCommand
    else if port = PIC1_DATA then s.master.imr
    else if port = PIC2_COMMAND then s.slave.readCommand
    else s.slave.imr)

/-- `io_wait` -/
def ioWait : PicM Unit := picOutb 0 0x80

/-! ## The functions -/

/-- `PIC_disable` -/
def picDisable : PicM Unit := do
  picOutb 0x20 PIC1_COMMAND
  picOutb 0x20 PIC2_COMMAND
  picOutb 0xFF PIC1_DATA
  picOutb 0xFF PIC2_DATA

/-- `PIC_SendEOI` -/
def picSendEOI (irq : BitVec 32) : PicM Unit := do
  let s ← get
  let irq := if s.irqStartOffset > 0 then (irq &&& 0x000000FF) - s.irqStartOffset.setWidth 32 else irq
  if irq ≤ 15 then
    if irq ≥ 8 then
      picOutb PIC_EOI PIC2_COMMAND
    picOutb PIC_EOI PIC1_COMMAND

/-- `PIC_remap` -/
def picRemap (offset1 offset2 : BitVec 16) : PicM Unit := do
  modify fun s => { s with irqStartOffset := offset1 }
  let a1 ← picInb PIC1_DATA
  let a2 ← picInb PIC2_DATA
  picOutb (ICW1_INIT ||| ICW1_ICW4) PIC1_COMMAND
  ioWait
  picOutb (ICW1_INIT ||| ICW1_ICW4) PIC2_COMMAND
  ioWait
  picOutb (offset1.setWidth 8) PIC1_DATA
  ioWait
  picOutb (offset2.setWidth 8) PIC2_DATA
  ioWait
  picOutb 4 PIC1_DATA
  ioWait
  picOutb 2 PIC2_DATA
  ioWait
  picOutb ICW4_8086 PIC1_DATA
  ioWait
  picOutb ICW4_8086 PIC2_DATA
  ioWait
  picOutb a1 PIC1_DATA
  picOutb a2 PIC2_DATA

/-- `__pic_get_irq_reg` -/
def picGetIrqReg (ocw3 : BitVec 8) : PicM (BitVec 16) := do
  picOutb ocw3 PIC1_COMMAND
  picOutb ocw3 PIC2_COMMAND
  let high ← picInb PIC2_COMMAND
  let low ← picInb PIC1_COMMAND
  pure ((high.setWidth 16 <<< 8) ||| low.setWidth 16)

/-- `PIC_get_irr` -/
def picGetIrr : PicM (BitVec 16) := picGetIrqReg PIC_READ_IRR

/-- `PIC_get_isr` -/
def picGetIsr : PicM (BitVec 16) := picGetIrqReg PIC_READ_ISR

/-- The masks that `PIC_IRQ_set_mask` and `PIC_IRQ_clear_mask` read at the data ports. -/
def PicSystem.masks (s : PicSystem) : PicMasks := ⟨s.master.imr, s.slave.imr⟩

/-- The masks are written back to the data ports. -/
def PicSystem.writeMasks (s : PicSystem) (masks : PicMasks) : PicSystem :=
  { s with master := s.master.writeData masks.pic1, slave := s.slave.writeData masks.pic2 }

/-! ## Interrupts -/

/-- The second chip is known behind a line to both chips. -/
def PicSystem.cascades (s : PicSystem) (i : Nat) : Bool := s.master.cascade.getLsbD i && s.slave.cascade.toNat = i

/-- What is requested of the first chip: its own lines, and line 2 while the second chip presents a request. -/
def PicSystem.masterRequests (s : PicSystem) : BitVec 8 :=
  if (s.slave.presents s.slave.irr).isSome then s.master.irr ||| lineBit 2 else s.master.irr &&& ~~~lineBit 2

/-- The CPU takes the request that the first chip presents: its vector, and the chips afterwards. -/
def PicSystem.takeRequest (s : PicSystem) : Option (Nat × PicSystem) := do
  let i ← s.master.presents s.masterRequests
  let s' := { s with master := s.master.acknowledge i }
  if s.cascades i then
    let j ← s.slave.presents s.slave.irr
    return (s.slave.vectorBase.toNat + j, { s' with slave := s.slave.acknowledge j })
  else return (s.master.vectorBase.toNat + i, s')

/-- The CPU takes a request that is gone: the chip that finds none gives the vector of its last line, which is not
in service. -/
def PicSystem.takeSpurious (s : PicSystem) (slave : Bool) : Option (Nat × PicSystem) :=
  if slave then do
    let i ← s.master.presents (lineBit 2)
    return (s.slave.vectorBase.toNat + 7, { s with master := s.master.acknowledge i })
  else some (s.master.vectorBase.toNat + 7, s)

/-- `EnableIRQ` and `DisableIRQ` without ACPI. -/
def PicSystem.changeMasks (s : PicSystem) (f : PicMasks → BitVec 32 → Option PicMasks) (irqN : BitVec 32) :
    Option PicSystem :=
  if isHwVector irqN then (f s.masks irqN).map s.writeMasks else some s

/-- The chips, and the vectors of the handlers that run, the innermost first. -/
structure PicState where
  system : PicSystem
  running : List Nat
  deriving Repr, DecidableEq

inductive PicEvent where
  /-- the devices change what they request -/
  | request (master slave : BitVec 8)
  | takeRequest
  | takeSpurious (slave : Bool)
  /-- an exception or a software interrupt -/
  | trap (vector : Nat)
  /-- the innermost handler returns to its stub, which sends the EOI -/
  | finish
  | enable (irqN : BitVec 32)
  | disable (irqN : BitVec 32)
  deriving Repr, DecidableEq

/-- What the stub of a vector sends; there is no EOI for the NMI and for the spurious vector of the local APIC. -/
def stubEOI (vector : Nat) : PicM Unit :=
  if vector = 2 ∨ vector = SPURIOUS_INT_VECTOR then pure () else picSendEOI (BitVec.ofNat 32 vector)

def picStep : PicEvent → PicState → Option PicState
  | .request master slave, s =>
    some { s with system :=
      { s.system with
        master := { s.system.master with irr := master }
        slave := { s.system.slave with irr := slave } } }
  | .takeRequest, s => s.system.takeRequest.map fun r => ⟨r.2, r.1 :: s.running⟩
  | .takeSpurious slave, s => (s.system.takeSpurious slave).map fun r => ⟨r.2, r.1 :: s.running⟩
  | .trap vector, s =>
    if vector < HW_INT_START ∨ HW_INT_START + 16 ≤ vector ∧ vector < INT_NUM then
      some { s with running := vector :: s.running }
    else none
  | .finish, s =>
    match s.running with
    | [] => none
    | vector :: running => some ⟨((stubEOI vector).run s.system).2, running⟩
  | .enable irqN, s => (s.system.changeMasks picEnableIrq irqN).map fun system => { s with system := system }
  | .disable irqN, s => (s.system.changeMasks picDisableIrq irqN).map fun system => { s with system := system }

/-! ## Registers -/

@[simp] theorem picLines_zero : picLines 0 = [] := rfl

/-- A line above all those in a register is put in front of them. -/
theorem picLines_or : ∀ reg : BitVec 8, ∀ i < 8, (∀ j ∈ picLines reg, i < j) →
    picLines (reg ||| lineBit i) = i :: picLines reg := by
  decide +kernel

/-- The end of an interrupt drops the line in front. -/
theorem picLines_endOfInterrupt (c : Pic) : picLines c.endOfInterrupt.isr = (picLines c.isr).tail := by
  have hdrop : ∀ reg : BitVec 8, ∀ i rest, picLines reg = i :: rest → picLines (reg &&& ~~~lineBit i) = rest := by
    intro reg i rest hreg
    have hfilter : picLines (reg &&& ~~~lineBit i) = (picLines reg).filter (· ≠ i) := by
      unfold picLines lineBit
      rw [List.filter_filter]
      refine List.filter_congr fun j hj => ?_
      have hlt := List.mem_range.mp hj
      simp [hlt, eq_comm, Bool.and_comm]
    have hnodup : (i :: rest).Nodup := hreg ▸ List.Nodup.filter _ List.nodup_range
    rw [hfilter, hreg, List.filter_cons_of_neg (by simp), List.filter_eq_self]
    intro j hj
    simpa using fun h : j = i => (List.nodup_cons.mp hnodup).1 (h ▸ hj)
  unfold Pic.endOfInterrupt
  split
  · next hnone => rw [hnone]; rfl
  · next i rest hlines => rw [hlines, hdrop _ i rest hlines, List.tail_cons]

/-- A chip presents an unmasked request only above everything that is in service. -/
theorem presents_spec {c : Pic} {irr : BitVec 8} {i : Nat} (h : c.presents irr = some i) :
    i < 8 ∧ irr.getLsbD i = true ∧ c.imr.getLsbD i = false ∧ ∀ j ∈ picLines c.isr, i < j := by
  unfold Pic.presents at h
  split at h
  · next k rest hphase hlines =>
    split at h
    · next hall =>
      obtain rfl : k = i := Option.some.inj h
      have hmem : k ∈ picLines (irr &&& ~~~c.imr) := hlines ▸ List.mem_cons_self
      obtain ⟨hlt, hbits⟩ := List.mem_filter.mp hmem
      have hlt' : k < 8 := List.mem_range.mp hlt
      have hboth : irr.getLsbD k = true ∧ c.imr.getLsbD k = false := by
        simpa [hlt'] using hbits
      exact ⟨hlt', hboth.1, hboth.2, by simpa using hall⟩
    · cases h
  · cases h

/-! ## The chips once they are initialized -/

/-- What `PIC_remap` makes of a chip and nothing but another initialization changes. -/
structure Pic.Initialized (vectorBase cascade : BitVec 8) (c : Pic) : Prop where
  phase : c.phase = .ready
  vectorBase : c.vectorBase = vectorBase
  cascade : c.cascade = cascade
  mode : c.mode = ICW4_8086

variable {c : Pic} {base cascade : BitVec 8} {s : PicSystem}

theorem Pic.Initialized.acknowledge (h : c.Initialized base cascade) (i : Nat) :
    (c.acknowledge i).Initialized base cascade :=
  ⟨h.phase, h.vectorBase, h.cascade, h.mode⟩

theorem Pic.Initialized.endOfInterrupt (h : c.Initialized base cascade) :
    c.endOfInterrupt.Initialized base cascade := by
  unfold Pic.endOfInterrupt
  split
  · exact h
  · exact ⟨h.phase, h.vectorBase, h.cascade, h.mode⟩

theorem Pic.Initialized.writeData (h : c.Initialized base cascade) (v : BitVec 8) :
    c.writeData v = { c with imr := v } := by
  unfold Pic.writeData
  rw [h.phase]

theorem Pic.Initialized.setMask (h : c.Initialized base cascade) (v : BitVec 8) :
    ({ c with imr := v } : Pic).Initialized base cascade :=
  ⟨h.phase, h.vectorBase, h.cascade, h.mode⟩

theorem Pic.Initialized.setRequests (h : c.Initialized base cascade) (v : BitVec 8) :
    ({ c with irr := v } : Pic).Initialized base cascade :=
  ⟨h.phase, h.vectorBase, h.cascade, h.mode⟩

/-- A request that the chip presents is in service in front of the others once it is acknowledged. -/
theorem Pic.Initialized.acknowledge_lines (h : c.Initialized base cascade) {irr : BitVec 8} {i : Nat}
    (hi : c.presents irr = some i) : picLines (c.acknowledge i).isr = i :: picLines c.isr := by
  obtain ⟨hlt, -, -, habove⟩ := presents_spec hi
  have hmode : c.mode &&& 0x02 = 0 := by
    rw [h.mode]
    rfl
  show picLines (if c.mode &&& 0x02 = 0 then c.isr ||| lineBit i else c.isr) = _
  rw [if_pos hmode]
  exact picLines_or c.isr i hlt habove

/-- Whatever state the chips are in, `PIC_remap` initializes them and leaves their masks as they were. -/
theorem picRemap_spec (offset1 offset2 : BitVec 16) (s : PicSystem) :
    let s' := ((picRemap offset1 offset2).run s).2
    s'.irqStartOffset = offset1 ∧ s'.masks = s.masks ∧ s'.master.isr = 0 ∧ s'.slave.isr = 0 ∧
      s'.master.Initialized (offset1.setWidth 8 &&& 0xF8) 4 ∧ s'.slave.Initialized (offset2.setWidth 8 &&& 0xF8) 2 :=
  ⟨rfl, rfl, rfl, rfl, ⟨rfl, rfl, rfl, rfl⟩, ⟨rfl, rfl, rfl, rfl⟩⟩

/-- After `PIC_disable` the chips present no request. -/
theorem picDisable_presents (hmaster : s.master.phase = .ready) (hslave : s.slave.phase = .ready) (irr : BitVec 8) :
    (((picDisable.run s).2).master).presents irr = none ∧ (((picDisable.run s).2).slave).presents irr = none := by
  have hchip (c : Pic) (hready : c.phase = .ready) : (c.endOfInterrupt.writeData 0xFF).presents irr = none := by
    have hphase : c.endOfInterrupt.phase = .ready := by
      unfold Pic.endOfInterrupt
      split <;> exact hready
    have hlines : picLines (irr &&& ~~~(0xFF : BitVec 8)) = [] := by
      have hzero : irr &&& ~~~(0xFF : BitVec 8) = 0 := BitVec.and_zero
      rw [hzero, picLines_zero]
    unfold Pic.writeData Pic.presents
    simp only [hphase, hlines]
  exact ⟨hchip s.master hmaster, hchip s.slave hslave⟩

/-- The registers of both chips are read at once, those of the second chip in the upper half. -/
theorem picGetIrqReg_spec (s : PicSystem) :
    (picGetIsr.run s).1 = (s.slave.isr.setWidth 16 <<< 8) ||| s.master.isr.setWidth 16 ∧
      (picGetIrr.run s).1 = (s.slave.irr.setWidth 16 <<< 8) ||| s.master.irr.setWidth 16 := ⟨rfl, rfl⟩

/-- The commands that `PIC_SendEOI` sends once `PIC_remap` has set its offset. -/
theorem picSendEOI_run (hoffset : s.irqStartOffset = 0x20) (irq : BitVec 32) :
    ((picSendEOI irq).run s).2 =
      if (irq &&& 0x000000FF) - 0x20 ≤ 15 then
        if 8 ≤ (irq &&& 0x000000FF) - 0x20 then
          { s with master := s.master.endOfInterrupt, slave := s.slave.endOfInterrupt }
        else { s with master := s.master.endOfInterrupt }
      else s := by
  have hpos : s.irqStartOffset > 0 := by
    rw [hoffset]
    decide
  have hwide : s.irqStartOffset.setWidth 32 = 0x20 := by
    rw [hoffset]
    rfl
  simp only [picSendEOI, get, getThe, MonadStateOf.get, StateT.get, bind, StateT.bind, StateT.run, pure, hpos, if_true,
    hwide]
  by_cases hle : (irq &&& 0x000000FF) - 0x20 ≤ 15
  · by_cases hge : 8 ≤ (irq &&& 0x000000FF) - 0x20
    · rw [if_pos hle, if_pos hle, if_pos hge, if_pos hge]
      rfl
    · rw [if_pos hle, if_pos hle, if_neg hge, if_neg hge]
      rfl
  · rw [if_neg hle, if_neg hle]
    rfl

/-- The EOI of a vector goes to the chips that its line has passed through. -/
theorem stubEOI_spec (hoffset : s.irqStartOffset = 0x20) {vector : Nat} (hvector : vector < INT_NUM) :
    ((stubEOI vector).run s).2 =
      if HW_INT_START ≤ vector ∧ vector < HW_INT_START + 8 then { s with master := s.master.endOfInterrupt }
      else if HW_INT_START + 8 ≤ vector ∧ vector < HW_INT_START + 16 then
        { s with master := s.master.endOfInterrupt, slave := s.slave.endOfInterrupt }
      else s := by
  unfold INT_NUM at hvector
  have hand : BitVec.ofNat 32 vector &&& 0x000000FF = BitVec.ofNat 32 vector := by
    have hmod : vector &&& 255 = vector % 2 ^ 8 := Nat.and_two_pow_sub_one_eq_mod vector 8
    have hsmall : vector &&& 255 = vector := hmod.trans (Nat.mod_eq_of_lt hvector)
    exact BitVec.ofNat_and.symm.trans (congrArg (BitVec.ofNat 32) hsmall)
  have hle : (BitVec.ofNat 32 vector &&& 0x000000FF) - 0x20 ≤ 15 ↔ 0x20 ≤ vector ∧ vector < 0x30 := by
    rw [hand]
    bv_omega
  have hge : 8 ≤ (BitVec.ofNat 32 vector &&& 0x000000FF) - 0x20 ↔ vector < 0x20 ∨ 0x28 ≤ vector := by
    rw [hand]
    bv_omega
  unfold stubEOI HW_INT_START SPURIOUS_INT_VECTOR
  by_cases hnone : vector = 2 ∨ vector = 0xFF
  · rw [if_pos hnone, if_neg (by omega), if_neg (by omega)]
    rfl
  · rw [if_neg hnone, picSendEOI_run hoffset]
    simp only [hle, hge]
    split_ifs <;> first | rfl | omega

end TalOS
