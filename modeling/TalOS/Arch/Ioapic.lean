-- SUMMARY: The I/O APIC: its registers, the packed redirection entries, and masking and setting up a line.
import Mathlib.Algebra.Order.Ring.Nat
import Mathlib.Tactic.Common

/-!
# I/O APIC

A redirection entry is a 64-bit word of packed fields, kept in two 32-bit
registers. The functions read an entry, change fields of it and write it back.
What is written to a register is read from it again.
-/

namespace TalOS

/-! ## Redirection entries -/

/-- `ioapic_redirect_entry_t` -/
@[ext]
structure IoapicRedirectEntry where
  vector : BitVec 8
  delvMode : BitVec 3
  destMode : BitVec 1
  delvStatus : BitVec 1
  pinPolarity : BitVec 1
  remoteIRR : BitVec 1
  triggerMode : BitVec 1
  mask : BitVec 1
  reserved1 : BitVec 15
  reserved2 : BitVec 24
  destination : BitVec 8
deriving Repr, DecidableEq

namespace IoapicRedirectEntry

/-- A field that starts at bit `i` of its word. -/
def field {w : Nat} (x : BitVec w) (i : Nat) : BitVec 32 := x.setWidth 32 <<< i

/-- The first word of the entry. -/
def lower (e : IoapicRedirectEntry) : BitVec 32 :=
  field e.vector 0 ||| field e.delvMode 8 ||| field e.destMode 11 ||| field e.delvStatus 12 |||
    field e.pinPolarity 13 ||| field e.remoteIRR 14 ||| field e.triggerMode 15 |||
    field e.mask 16 ||| field e.reserved1 17

/-- The second word of the entry. -/
def upper (e : IoapicRedirectEntry) : BitVec 32 := field e.reserved2 0 ||| field e.destination 24

/-- The entry in two words. -/
def ofWords (lower upper : BitVec 32) : IoapicRedirectEntry where
  vector := lower.extractLsb' 0 8
  delvMode := lower.extractLsb' 8 3
  destMode := lower.extractLsb' 11 1
  delvStatus := lower.extractLsb' 12 1
  pinPolarity := lower.extractLsb' 13 1
  remoteIRR := lower.extractLsb' 14 1
  triggerMode := lower.extractLsb' 15 1
  mask := lower.extractLsb' 16 1
  reserved1 := lower.extractLsb' 17 15
  reserved2 := upper.extractLsb' 0 24
  destination := upper.extractLsb' 24 8

/-- The fields of the packed entry do not overlap. -/
@[simp] theorem ofWords_lower_upper (e : IoapicRedirectEntry) : ofWords e.lower e.upper = e := by
  ext i hi <;> simp [ofWords, lower, upper, field] <;> grind

@[simp] theorem lower_ofWords (low high : BitVec 32) : (ofWords low high).lower = low := by
  ext i hi
  simp [ofWords, lower, field]
  grind

@[simp] theorem upper_ofWords (low high : BitVec 32) : (ofWords low high).upper = high := by
  ext i hi
  simp [ofWords, upper, field]
  grind

end IoapicRedirectEntry

/-! ## Registers -/

/-- The registers, by the value that selects them in `IOREGSEL`. -/
abbrev IoapicRegs := BitVec 32 → BitVec 32

/-- `IOAPIC_read_reg` -/
def ioapicReadReg (io : IoapicRegs) (reg : BitVec 32) : BitVec 32 := io reg

/-- `IOAPIC_write_reg` -/
def ioapicWriteReg (io : IoapicRegs) (reg value : BitVec 32) : IoapicRegs :=
  fun r => if r = reg then value else io r

/-- `IOAPIC_ENTRY_LOWER_ADDR` -/
def ioapicEntryLowerAddr (line : BitVec 32) : BitVec 32 := 0x10 + line * 2

/-- `IOAPIC_ENTRY_UPPER_ADDR` -/
def ioapicEntryUpperAddr (line : BitVec 32) : BitVec 32 := 0x11 + line * 2

/-- `IOAPIC_Entry_Read` -/
def ioapicEntryRead (io : IoapicRegs) (line : BitVec 32) : IoapicRedirectEntry :=
  .ofWords (ioapicReadReg io (ioapicEntryLowerAddr line)) (ioapicReadReg io (ioapicEntryUpperAddr line))

/-- `IOAPIC_Entry_Write` -/
def ioapicEntryWrite (io : IoapicRegs) (line : BitVec 32) (entry : IoapicRedirectEntry) : IoapicRegs :=
  ioapicWriteReg (ioapicWriteReg io (ioapicEntryLowerAddr line) entry.lower)
    (ioapicEntryUpperAddr line) entry.upper

/-- The lines whose registers have addresses of their own. -/
def IsLine (line : BitVec 32) : Prop := line.toNat < 2 ^ 31

instance : DecidablePred IsLine := fun line => inferInstanceAs (Decidable (line.toNat < 2 ^ 31))

section Registers

variable {io : IoapicRegs} {line other : BitVec 32}

theorem upperAddr_ne_lowerAddr (line other : BitVec 32) :
    ioapicEntryUpperAddr line ≠ ioapicEntryLowerAddr other := by
  unfold ioapicEntryUpperAddr ioapicEntryLowerAddr
  bv_omega

theorem lowerAddr_inj (hline : IsLine line) (hother : IsLine other)
    (h : ioapicEntryLowerAddr line = ioapicEntryLowerAddr other) : line = other := by
  unfold IsLine at hline hother
  unfold ioapicEntryLowerAddr at h
  bv_omega

theorem upperAddr_inj (hline : IsLine line) (hother : IsLine other)
    (h : ioapicEntryUpperAddr line = ioapicEntryUpperAddr other) : line = other := by
  unfold IsLine at hline hother
  unfold ioapicEntryUpperAddr at h
  bv_omega

@[simp] theorem entryRead_write_self (entry : IoapicRedirectEntry) :
    ioapicEntryRead (ioapicEntryWrite io line entry) line = entry := by
  simp only [ioapicEntryRead, ioapicReadReg, ioapicEntryWrite, ioapicWriteReg, if_pos,
    if_neg (upperAddr_ne_lowerAddr line line).symm, IoapicRedirectEntry.ofWords_lower_upper]

theorem entryRead_write_other (entry : IoapicRedirectEntry) (hline : IsLine line)
    (hother : IsLine other) (hne : other ≠ line) :
    ioapicEntryRead (ioapicEntryWrite io line entry) other = ioapicEntryRead io other := by
  have hlower := fun h => hne (lowerAddr_inj hother hline h)
  have hupper := fun h => hne (upperAddr_inj hother hline h)
  simp only [ioapicEntryRead, ioapicReadReg, ioapicEntryWrite, ioapicWriteReg, if_neg hlower,
    if_neg hupper, if_neg (upperAddr_ne_lowerAddr line other).symm,
    if_neg (upperAddr_ne_lowerAddr other line)]

end Registers

/-! ## Lines -/

def INT_MASKED : BitVec 1 := 1

/-- `IOAPIC_Unmask_IRQ` -/
def ioapicUnmaskIrq (io : IoapicRegs) (irq : BitVec 32) : IoapicRegs :=
  ioapicEntryWrite io irq { ioapicEntryRead io irq with mask := 0 }

/-- `IOAPIC_Mask_IRQ` -/
def ioapicMaskIrq (io : IoapicRegs) (irq : BitVec 32) : IoapicRegs :=
  ioapicEntryWrite io irq { ioapicEntryRead io irq with mask := 1 }

/-- The entry that `IOAPIC_IRQ_Setup` writes: masked, with the low bits of its arguments. -/
def setupEntry (dest : BitVec 8) (intVector trigger polarity : BitVec 16)
    (destMode deliveryMode : BitVec 8) : IoapicRedirectEntry where
  vector := (intVector &&& 0xFF).setWidth 8
  delvMode := deliveryMode.setWidth 3
  destMode := destMode.setWidth 1
  delvStatus := 0
  pinPolarity := (polarity &&& 1).setWidth 1
  remoteIRR := 0
  triggerMode := (trigger &&& 1).setWidth 1
  mask := INT_MASKED
  reserved1 := 0
  reserved2 := 0
  destination := dest &&& 0xFF

/-- `IOAPIC_IRQ_Setup` -/
def ioapicIrqSetup (io : IoapicRegs) (dest : BitVec 8) (intVector : BitVec 16) (line : BitVec 32)
    (trigger polarity : BitVec 16) (destMode deliveryMode : BitVec 8) : IoapicRegs :=
  ioapicEntryWrite io line (setupEntry dest intVector trigger polarity destMode deliveryMode)

end TalOS
