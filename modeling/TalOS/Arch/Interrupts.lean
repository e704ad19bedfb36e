-- SUMMARY: Interrupt routing: the table that `ReadSystemConfig` fills, and enabling and disabling a vector.
import TalOS.Arch.Acpi
import TalOS.Arch.InterruptStub
import TalOS.Arch.Ioapic

/-!
# Interrupts

Three numbers name an interrupt: the vector that the CPU sees, the IRQ, which is the
vector less `HW_INT_START`, and the line of the I/O APIC. `ReadSystemConfig` fills a
table from IRQs to lines, from the overrides that the firmware lists.
-/

namespace TalOS

def INT_NUM : Nat := 256
def HW_INT_START : Nat := 0x20
def INT_INFO_IS_NMI : BitVec 16 := 1
def DEST_MODE_PHY : BitVec 8 := 0
def DELIVERY_MODE_FIXED : BitVec 8 := 0

/-! ## The table of interrupt sources -/

/-- `Int_SysConf_Info_t`, less the fields that nothing reads or writes. -/
structure IntSysConfInfo where
  intVector : BitVec 16
  globalSysInt : BitVec 32
  polarity : BitVec 2
  triggerMode : BitVec 2
  isNMI : BitVec 16
deriving Repr, DecidableEq

/-- `SysConf_Info_t`, the part that is about interrupts. -/
structure SysConfIntInfo where
  interruptSource : Vector IntSysConfInfo MAX_INT_NUM
  acpiInit : Bool
deriving Repr, DecidableEq

/-- `MADT_IOAPIC_int_src_t`, less the bus. -/
structure MadtIoapicIntSrc where
  irqSource : BitVec 8
  globalSysInt : BitVec 32
  flags : BitVec 16
deriving Repr, DecidableEq

/-- `MADT_IOAPIC_NMI_Src_t`, what is read of it. -/
structure MadtIoapicNmiSrc where
  flags : BitVec 8
  globalSysInt : BitVec 32
deriving Repr, DecidableEq

/-- The overrides and the NMIs that `MADT_info_t` points to, no more than its arrays hold. -/
structure MadtInterrupts where
  intSrcOverride : List MadtIoapicIntSrc
  nmiSource : List MadtIoapicNmiSrc
  overridesFit : intSrcOverride.length ≤ MAX_INT_NUM
  nmisFit : nmiSource.length ≤ MAX_NMI_NUM

/-- The slot of the table that an override is for. -/
def MadtIoapicIntSrc.slot (o : MadtIoapicIntSrc) : Fin MAX_INT_NUM := ⟨o.irqSource.toNat, o.irqSource.isLt⟩

/-- The default for slot `i`. -/
def defaultSource (i : Nat) : IntSysConfInfo where
  intVector := .ofNat 16 (HW_INT_START + i)
  globalSysInt := .ofNat 32 i
  polarity := 0
  triggerMode := 0
  isNMI := 0

/-- Body of the loop over the overrides. -/
def applyOverride (table : Vector IntSysConfInfo MAX_INT_NUM) (o : MadtIoapicIntSrc) :
    Vector IntSysConfInfo MAX_INT_NUM :=
  table.set o.slot.val
    { table.get o.slot with
      intVector := .ofNat 16 (o.slot.val + HW_INT_START)
      globalSysInt := o.globalSysInt
      triggerMode := (o.flags >>> 2).setWidth 2
      polarity := (o.flags &&& 0x03).setWidth 2 } o.slot.isLt

/-- Enter an NMI into a slot. -/
def markNmi (table : Vector IntSysConfInfo MAX_INT_NUM) (nmi : MadtIoapicNmiSrc)
    (k : Fin MAX_INT_NUM) : Vector IntSysConfInfo MAX_INT_NUM :=
  table.set k.val
    { table.get k with
      isNMI := INT_INFO_IS_NMI
      triggerMode := (nmi.flags >>> 2).setWidth 2
      polarity := (nmi.flags &&& 0x03).setWidth 2 } k.isLt

/-- The search for the first slot with the line of an NMI, `left` slots before the end. -/
def nmiLoop (nmi : MadtIoapicNmiSrc) :
    Nat → Vector IntSysConfInfo MAX_INT_NUM → Vector IntSysConfInfo MAX_INT_NUM
  | 0, table => table
  | left + 1, table =>
    let k : Fin MAX_INT_NUM := ⟨MAX_INT_NUM - (left + 1), Nat.sub_lt (by decide) (Nat.succ_pos left)⟩
    if nmi.globalSysInt = (table.get k).globalSysInt then markNmi table nmi k
    else nmiLoop nmi left table

/-- Body of the loop over the NMIs. -/
def applyNmi (table : Vector IntSysConfInfo MAX_INT_NUM) (nmi : MadtIoapicNmiSrc) :
    Vector IntSysConfInfo MAX_INT_NUM := nmiLoop nmi INT_NUM table

/-- `ReadSystemConfig`, the part that is about interrupts; without a MADT nothing is written. -/
def readInterruptConfig (conf : SysConfIntInfo) (madt : Option MadtInterrupts) : SysConfIntInfo :=
  match madt with
  | none => conf
  | some madt =>
    let defaults := Vector.ofFn fun i : Fin MAX_INT_NUM => defaultSource i
    let overridden := (madt.intSrcOverride.take INT_NUM).foldl applyOverride defaults
    { conf with interruptSource := (madt.nmiSource.take MAX_NMI_NUM).foldl applyNmi overridden }

/-! ## Enabling and disabling -/

/-- The interrupt masks behind `PIC1_DATA` and `PIC2_DATA`. -/
structure PicMasks where
  pic1 : BitVec 8
  pic2 : BitVec 8
deriving Repr, DecidableEq

/-- The interrupt controllers. -/
structure IrqChips where
  ioapic : IoapicRegs
  pic : PicMasks

/-- `(1 << IRQline) & 0xFF`, undefined where the shift is. -/
def picLineBit (irqLine : BitVec 8) : Option (BitVec 8) :=
  if irqLine.toNat < 31 then some ((1#32 <<< irqLine.toNat).setWidth 8) else none

/-- Change the mask that a line is in, given the bit of the line. -/
def picUpdateMask (pic : PicMasks) (irqLine : BitVec 8) (f : BitVec 8 → BitVec 8 → BitVec 8) :
    Option PicMasks :=
  if irqLine < 8 then (picLineBit irqLine).map fun bit => { pic with pic1 := f pic.pic1 bit }
  else (picLineBit (irqLine - 8)).map fun bit => { pic with pic2 := f pic.pic2 bit }

/-- `PIC_IRQ_set_mask` -/
def picIrqSetMask (pic : PicMasks) (irqLine : BitVec 8) : Option PicMasks :=
  picUpdateMask pic irqLine fun value bit => value ||| bit

/-- `PIC_IRQ_clear_mask` -/
def picIrqClearMask (pic : PicMasks) (irqLine : BitVec 8) : Option PicMasks :=
  picUpdateMask pic irqLine fun value bit => value &&& ~~~bit

/-- `PIC_EnableIRQ` -/
def picEnableIrq (pic : PicMasks) (irqN : BitVec 32) : Option PicMasks :=
  picIrqClearMask pic (irqN.setWidth 8 - .ofNat 8 HW_INT_START)

/-- `PIC_DisableIRQ` -/
def picDisableIrq (pic : PicMasks) (irqN : BitVec 32) : Option PicMasks :=
  picIrqSetMask pic (irqN.setWidth 8 - .ofNat 8 HW_INT_START)

/-- `IRQ(i)` -/
def irqIndex (irqN : BitVec 32) : BitVec 32 := irqN - .ofNat 32 HW_INT_START

/-- The vectors that `EnableIRQ` and `DisableIRQ` do something for. -/
def isHwVector (irqN : BitVec 32) : Bool :=
  HW_INT_START ≤ irqN.toNat && irqN.toNat ≠ SPURIOUS_INT_VECTOR

/-- `EnableIRQ`; reading past the end of the table is undefined. -/
def enableIrq (conf : SysConfIntInfo) (destCpu : BitVec 8) (irqN : BitVec 32) (chips : IrqChips) :
    Option IrqChips :=
  if isHwVector irqN then
    if conf.acpiInit then
      conf.interruptSource[(irqIndex irqN).toNat]?.map fun source =>
        let io := ioapicIrqSetup chips.ioapic destCpu source.intVector source.globalSysInt
          (source.triggerMode.setWidth 16) (source.polarity.setWidth 16) DEST_MODE_PHY
          DELIVERY_MODE_FIXED
        { chips with ioapic := ioapicUnmaskIrq io source.globalSysInt }
    else (picEnableIrq chips.pic irqN).map fun pic => { chips with pic := pic }
  else some chips

/-- `DisableIRQ`: the vector is passed on as the line. -/
def disableIrq (conf : SysConfIntInfo) (irqN : BitVec 32) (chips : IrqChips) : Option IrqChips :=
  if isHwVector irqN then
    if conf.acpiInit then some { chips with ioapic := ioapicMaskIrq chips.ioapic irqN }
    else (picDisableIrq chips.pic irqN).map fun pic => { chips with pic := pic }
  else some chips

/-! ## What the table says -/

/-- The line of an IRQ: that of the last override for it, else the line of the same number. -/
def lineOf (overrides : List MadtIoapicIntSrc) (irq : Nat) : BitVec 32 :=
  ((overrides.filter fun o => o.irqSource.toNat = irq).getLast?.map fun o => o.globalSysInt).getD
    (.ofNat 32 irq)

section Table

variable {table : Vector IntSysConfInfo MAX_INT_NUM} {k : Fin MAX_INT_NUM}

theorem get_set_self (x : IntSysConfInfo) : (table.set k.val x k.isLt).get k = x :=
  Vector.getElem_set_self k.isLt

theorem get_set_ne {j : Fin MAX_INT_NUM} (x : IntSysConfInfo) (hne : j ≠ k) :
    (table.set k.val x k.isLt).get j = table.get j :=
  Vector.getElem_set_ne k.isLt j.isLt fun heq => hne (Fin.ext heq.symm)

theorem applyOverride_line (o : MadtIoapicIntSrc) (table : Vector IntSysConfInfo MAX_INT_NUM)
    (k : Fin MAX_INT_NUM) : ((applyOverride table o).get k).globalSysInt =
      if o.slot = k then o.globalSysInt else (table.get k).globalSysInt := by
  split
  · next hslot =>
    subst hslot
    rw [applyOverride, get_set_self]
  · next hslot => rw [applyOverride, get_set_ne _ (Ne.symm hslot)]

/-- Of several overrides the last one counts. -/
theorem foldl_applyOverride_line (overrides : List MadtIoapicIntSrc)
    (table : Vector IntSysConfInfo MAX_INT_NUM) (k : Fin MAX_INT_NUM) :
    ((overrides.foldl applyOverride table).get k).globalSysInt =
      ((overrides.filter fun o => o.slot = k).getLast?.map fun o => o.globalSysInt).getD
        (table.get k).globalSysInt := by
  induction overrides generalizing table with
  | nil => rfl
  | cons o overrides ih =>
    rw [List.foldl_cons, ih, applyOverride_line]
    by_cases hslot : o.slot = k
    · have hfilter : (o :: overrides).filter (fun o => o.slot = k) =
          o :: overrides.filter fun o => o.slot = k := List.filter_cons_of_pos (decide_eq_true hslot)
      rw [if_pos hslot, hfilter, List.getLast?_cons]
      cases (overrides.filter fun o => o.slot = k).getLast? <;> rfl
    · have hfilter : (o :: overrides).filter (fun o => o.slot = k) =
          overrides.filter fun o => o.slot = k :=
        List.filter_cons_of_neg fun h => hslot (of_decide_eq_true h)
      rw [if_neg hslot, hfilter]

theorem markNmi_keeps (nmi : MadtIoapicNmiSrc) (j k : Fin MAX_INT_NUM) :
    ((markNmi table nmi j).get k).intVector = (table.get k).intVector ∧
      ((markNmi table nmi j).get k).globalSysInt = (table.get k).globalSysInt := by
  rw [markNmi]
  by_cases hkj : k = j
  · subst hkj
    rw [get_set_self]
    exact ⟨rfl, rfl⟩
  · rw [get_set_ne _ hkj]
    exact ⟨rfl, rfl⟩

/-- An NMI changes neither vectors nor lines. -/
theorem nmiLoop_keeps (nmi : MadtIoapicNmiSrc) (left : Nat) (table : Vector IntSysConfInfo MAX_INT_NUM)
    (k : Fin MAX_INT_NUM) :
    ((nmiLoop nmi left table).get k).intVector = (table.get k).intVector ∧
      ((nmiLoop nmi left table).get k).globalSysInt = (table.get k).globalSysInt := by
  induction left with
  | zero => exact ⟨rfl, rfl⟩
  | succ left ih =>
    rw [nmiLoop]
    split
    · exact markNmi_keeps nmi _ k
    · exact ih

theorem foldl_applyNmi_keeps (nmis : List MadtIoapicNmiSrc) (table : Vector IntSysConfInfo MAX_INT_NUM)
    (k : Fin MAX_INT_NUM) :
    ((nmis.foldl applyNmi table).get k).intVector = (table.get k).intVector ∧
      ((nmis.foldl applyNmi table).get k).globalSysInt = (table.get k).globalSysInt := by
  induction nmis generalizing table with
  | nil => exact ⟨rfl, rfl⟩
  | cons nmi nmis ih =>
    obtain ⟨hvector, hline⟩ := nmiLoop_keeps nmi INT_NUM table k
    exact ⟨(ih _).1.trans hvector, (ih _).2.trans hline⟩

/-- An override keeps the vector that belongs to its slot. -/
theorem foldl_applyOverride_vector (overrides : List MadtIoapicIntSrc)
    (h : ∀ k, (table.get k).intVector = .ofNat 16 (HW_INT_START + k.val)) (k : Fin MAX_INT_NUM) :
    ((overrides.foldl applyOverride table).get k).intVector = .ofNat 16 (HW_INT_START + k.val) := by
  induction overrides generalizing table with
  | nil => exact h k
  | cons o overrides ih =>
    refine ih fun j => ?_
    by_cases hslot : o.slot = j
    · subst hslot
      rw [applyOverride, get_set_self, Nat.add_comm]
    · rw [applyOverride, get_set_ne _ (Ne.symm hslot), h j]

end Table

/-- What `ReadSystemConfig` leaves in the table: each IRQ's own vector, and its line. -/
theorem readSystemConfig_source (conf : SysConfIntInfo) (madt : MadtInterrupts) (k : Fin MAX_INT_NUM) :
    (((readInterruptConfig conf (some madt)).interruptSource.get k).intVector =
        .ofNat 16 (HW_INT_START + k.val)) ∧
      ((readInterruptConfig conf (some madt)).interruptSource.get k).globalSysInt =
        lineOf madt.intSrcOverride k := by
  have hdefault (j : Fin MAX_INT_NUM) :
      (Vector.ofFn fun i : Fin MAX_INT_NUM => defaultSource i).get j = defaultSource j :=
    Vector.getElem_ofFn j.isLt
  rw [readInterruptConfig]
  dsimp only
  obtain ⟨hvector, hline⟩ := foldl_applyNmi_keeps (madt.nmiSource.take MAX_NMI_NUM)
    ((madt.intSrcOverride.take INT_NUM).foldl applyOverride
      (Vector.ofFn fun i : Fin MAX_INT_NUM => defaultSource i)) k
  constructor
  · rw [hvector]
    refine foldl_applyOverride_vector _ (fun j => ?_) k
    rw [hdefault]
    rfl
  · have hall : madt.intSrcOverride.take INT_NUM = madt.intSrcOverride :=
      List.take_of_length_le madt.overridesFit
    have hslot : (fun o : MadtIoapicIntSrc => decide (o.slot = k)) =
        fun o : MadtIoapicIntSrc => decide (o.irqSource.toNat = k.val) :=
      funext fun o => decide_eq_decide.mpr Fin.ext_iff
    rw [hline, foldl_applyOverride_line, hall, hdefault, hslot]
    rfl

theorem isLine_lineOf {overrides : List MadtIoapicIntSrc} (h : ∀ o ∈ overrides, IsLine o.globalSysInt)
    {irq : Nat} (hirq : irq < MAX_INT_NUM) : IsLine (lineOf overrides irq) := by
  unfold lineOf
  cases hlast : (overrides.filter fun o => o.irqSource.toNat = irq).getLast? with
  | none =>
    have hmax : MAX_INT_NUM = 256 := rfl
    change (BitVec.ofNat 32 irq).toNat < 2 ^ 31
    rw [BitVec.toNat_ofNat]
    omega
  | some o => exact h o (List.mem_of_mem_filter (List.mem_of_getLast? hlast))

/-! ## What enabling and disabling do -/

/-- A line delivers a vector to a CPU: unmasked, with fixed delivery to a physical destination. -/
structure Delivers (io : IoapicRegs) (line v : BitVec 32) (cpu : BitVec 8) : Prop where
  mask : (ioapicEntryRead io line).mask = 0
  vector : (ioapicEntryRead io line).vector.toNat = v.toNat
  delvMode : (ioapicEntryRead io line).delvMode = DELIVERY_MODE_FIXED.setWidth 3
  destMode : (ioapicEntryRead io line).destMode = DEST_MODE_PHY.setWidth 1
  destination : (ioapicEntryRead io line).destination = cpu

/-- The entries of all lines but one are the same. -/
def KeepsOtherLines (io io' : IoapicRegs) (line : BitVec 32) : Prop :=
  ∀ other, IsLine other → other ≠ line → ioapicEntryRead io' other = ioapicEntryRead io other

section Enable

variable {conf : SysConfIntInfo} {madt : MadtInterrupts} {cpu : BitVec 8} {v line : BitVec 32}
  {io : IoapicRegs} {chips : IrqChips}

theorem KeepsOtherLines.write (hline : IsLine line) (entry : IoapicRedirectEntry) :
    KeepsOtherLines io (ioapicEntryWrite io line entry) line :=
  fun _ hother hne => entryRead_write_other entry hline hother hne

theorem KeepsOtherLines.trans {io₁ io₂ : IoapicRegs} (h : KeepsOtherLines io io₁ line)
    (h' : KeepsOtherLines io₁ io₂ line) : KeepsOtherLines io io₂ line :=
  fun other hother hne => (h' other hother hne).trans (h other hother hne)

theorem isHwVector_of_lt (hlow : HW_INT_START ≤ v.toNat) (hhigh : v.toNat < SPURIOUS_INT_VECTOR) :
    isHwVector v = true := by
  rw [isHwVector, decide_eq_true hlow, decide_eq_true (Nat.ne_of_lt hhigh)]
  rfl

theorem irq_lt (hhigh : v.toNat < SPURIOUS_INT_VECTOR) : v.toNat - HW_INT_START < MAX_INT_NUM :=
  Nat.lt_of_le_of_lt (Nat.sub_le _ _) (Nat.lt_trans hhigh (by decide))

theorem setupEntry_vector {n : Nat} (h : n < 2 ^ 8) (dest : BitVec 8) (trigger polarity : BitVec 16)
    (destMode deliveryMode : BitVec 8) :
    (setupEntry dest (.ofNat 16 n) trigger polarity destMode deliveryMode).vector.toNat = n := by
  rw [setupEntry, BitVec.toNat_setWidth, BitVec.toNat_and, BitVec.toNat_ofNat,
    show (0xFF : BitVec 16).toNat = 2 ^ 8 - 1 from rfl, Nat.and_two_pow_sub_one_eq_mod]
  omega

/-- Enabling a vector sets its line up, masked, and unmasks it. -/
theorem enableIrq_eq (madt : MadtInterrupts) (cpu : BitVec 8) (chips : IrqChips)
    (hacpi : conf.acpiInit = true) (hlow : HW_INT_START ≤ v.toNat)
    (hhigh : v.toNat < SPURIOUS_INT_VECTOR) :
    ∃ trigger polarity, enableIrq (readInterruptConfig conf (some madt)) cpu v chips =
      some { chips with
        ioapic :=
          let line := lineOf madt.intSrcOverride (v.toNat - HW_INT_START)
          ioapicUnmaskIrq (ioapicIrqSetup chips.ioapic cpu (.ofNat 16 v.toNat) line trigger polarity
            DEST_MODE_PHY DELIVERY_MODE_FIXED) line } := by
  have hirq := irq_lt hhigh
  have hindex : (irqIndex v).toNat = v.toNat - HW_INT_START := by
    unfold irqIndex HW_INT_START at *
    bv_omega
  obtain ⟨hvector, hsource⟩ := readSystemConfig_source conf madt ⟨_, hirq⟩
  have hacpi' : (readInterruptConfig conf (some madt)).acpiInit = true := hacpi
  generalize readInterruptConfig conf (some madt) = conf' at hvector hsource hacpi' ⊢
  change (conf'.interruptSource[v.toNat - HW_INT_START]).intVector = _ at hvector
  change (conf'.interruptSource[v.toNat - HW_INT_START]).globalSysInt = _ at hsource
  rw [Nat.add_sub_cancel' hlow] at hvector
  rw [enableIrq, if_pos (isHwVector_of_lt hlow hhigh), if_pos hacpi', hindex,
    Vector.getElem?_eq_getElem hirq, Option.map_some, hvector, hsource]
  exact ⟨_, _, rfl⟩

theorem disableIrq_eq (hacpi : conf.acpiInit = true) (madt : Option MadtInterrupts)
    (hlow : HW_INT_START ≤ v.toNat) (hhigh : v.toNat < SPURIOUS_INT_VECTOR) :
    disableIrq (readInterruptConfig conf madt) v chips =
      some { chips with ioapic := ioapicMaskIrq chips.ioapic v } := by
  have hacpi' : (readInterruptConfig conf madt).acpiInit = true := by
    cases madt <;> exact hacpi
  rw [disableIrq, if_pos (isHwVector_of_lt hlow hhigh), if_pos hacpi']

/-- Disabling masks another line than enabling has unmasked, unless both have one number. -/
theorem unmasked_of_ne (madt : MadtInterrupts) {chips₁ chips₂ : IrqChips} (hacpi : conf.acpiInit = true)
    (hline : IsLine (lineOf madt.intSrcOverride (v.toNat - HW_INT_START)))
    (hlow : HW_INT_START ≤ v.toNat) (hhigh : v.toNat < SPURIOUS_INT_VECTOR)
    (hne : lineOf madt.intSrcOverride (v.toNat - HW_INT_START) ≠ v)
    (henable : enableIrq (readInterruptConfig conf (some madt)) cpu v chips = some chips₁)
    (hdisable : disableIrq (readInterruptConfig conf (some madt)) v chips₁ = some chips₂) :
    (ioapicEntryRead chips₂.ioapic (lineOf madt.intSrcOverride (v.toNat - HW_INT_START))).mask ≠
      INT_MASKED := by
  obtain ⟨trigger, polarity, heq⟩ := enableIrq_eq madt cpu chips hacpi hlow hhigh
  have hv : IsLine v := Nat.lt_trans hhigh (by decide)
  rw [heq] at henable
  rw [disableIrq_eq hacpi _ hlow hhigh] at hdisable
  obtain rfl := Option.some.inj henable
  obtain rfl := Option.some.inj hdisable
  dsimp only
  rw [ioapicMaskIrq, entryRead_write_other _ hv hline hne, ioapicUnmaskIrq, entryRead_write_self]
  show (0 : BitVec 1) ≠ INT_MASKED
  decide

end Enable

/-- `EnableIRQ` delivers a vector through the line that the last override for its IRQ names, and
changes no other line. -/
theorem enableIrq_routes (conf : SysConfIntInfo) (madt : MadtInterrupts) (chips : IrqChips) (cpu : BitVec 8)
    (v : BitVec 32) (hacpi : conf.acpiInit = true)
    (hlines : ∀ o ∈ madt.intSrcOverride, IsLine o.globalSysInt)
    (hlow : HW_INT_START ≤ v.toNat) (hhigh : v.toNat < SPURIOUS_INT_VECTOR) :
    ∃ chips', enableIrq (readInterruptConfig conf (some madt)) cpu v chips = some chips' ∧
      Delivers chips'.ioapic (lineOf madt.intSrcOverride (v.toNat - HW_INT_START)) v cpu ∧
      KeepsOtherLines chips.ioapic chips'.ioapic
        (lineOf madt.intSrcOverride (v.toNat - HW_INT_START)) := by
  obtain ⟨trigger, polarity, henable⟩ := enableIrq_eq madt cpu chips hacpi hlow hhigh
  have hline := isLine_lineOf hlines (irq_lt hhigh)
  refine ⟨_, henable, ?_, ?_⟩
  · dsimp only
    generalize lineOf madt.intSrcOverride (v.toNat - HW_INT_START) = line
    have hread : ioapicEntryRead (ioapicUnmaskIrq (ioapicIrqSetup chips.ioapic cpu
        (.ofNat 16 v.toNat) line trigger polarity DEST_MODE_PHY DELIVERY_MODE_FIXED) line) line =
        { setupEntry cpu (.ofNat 16 v.toNat) trigger polarity DEST_MODE_PHY DELIVERY_MODE_FIXED with
          mask := 0 } := by
      rw [ioapicUnmaskIrq, entryRead_write_self, ioapicIrqSetup, entryRead_write_self]
    constructor
    · rw [hread]
    · rw [hread]
      exact setupEntry_vector (Nat.lt_trans hhigh (by decide)) cpu trigger polarity DEST_MODE_PHY
        DELIVERY_MODE_FIXED
    · rw [hread]
      rfl
    · rw [hread]
      rfl
    · rw [hread]
      exact BitVec.and_allOnes
  · exact (KeepsOtherLines.write hline _).trans (KeepsOtherLines.write hline _)

/-- IRQ 0 goes to line 2. -/
def timerOverride : MadtInterrupts where
  intSrcOverride := [⟨0, 2, 0⟩]
  nmiSource := []
  overridesFit := by decide
  nmisFit := by decide

/-- A table of zeros, with ACPI, and chips with all registers zero. -/
def zeroConf : SysConfIntInfo := ⟨Vector.replicate MAX_INT_NUM ⟨0, 0, 0, 0, 0⟩, true⟩
def zeroChips : IrqChips := ⟨fun _ => 0, ⟨0, 0⟩⟩

/-- The timer interrupt goes to CPU 3 through line 2. -/
theorem enableIrq_routes_timer :
    ∃ chips, enableIrq (readInterruptConfig zeroConf (some timerOverride)) 3 0x20 zeroChips = some chips ∧
      Delivers chips.ioapic 2 0x20 3 ∧ KeepsOtherLines zeroChips.ioapic chips.ioapic 2 :=
  enableIrq_routes zeroConf timerOverride zeroChips 3 0x20 rfl (by decide) (by decide) (by decide)

/-! ## Enabling and then disabling -/

/-- What disabling a vector after enabling it should do: mask the line that delivers it, and leave all
other lines as they were before both calls. -/
def DisableUndoesEnable (conf : SysConfIntInfo) (cpu : BitVec 8) (v line : BitVec 32) (chips : IrqChips) :
    Prop :=
  ∃ chips₁ chips₂, enableIrq conf cpu v chips = some chips₁ ∧ disableIrq conf v chips₁ = some chips₂ ∧
    (ioapicEntryRead chips₂.ioapic line).mask = INT_MASKED ∧
    KeepsOtherLines chips.ioapic chips₂.ioapic line

/-- `DisableIRQ` masks the line with the vector's number, so it undoes `EnableIRQ` exactly where the
firmware maps an IRQ to the line with the number of its vector. -/
theorem disableIrq_undoes_iff (conf : SysConfIntInfo) (madt : MadtInterrupts) (chips : IrqChips)
    (cpu : BitVec 8) (v : BitVec 32) (hacpi : conf.acpiInit = true)
    (hlines : ∀ o ∈ madt.intSrcOverride, IsLine o.globalSysInt)
    (hlow : HW_INT_START ≤ v.toNat) (hhigh : v.toNat < SPURIOUS_INT_VECTOR) :
    DisableUndoesEnable (readInterruptConfig conf (some madt)) cpu v
        (lineOf madt.intSrcOverride (v.toNat - HW_INT_START)) chips ↔
      lineOf madt.intSrcOverride (v.toNat - HW_INT_START) = v := by
  have hline := isLine_lineOf hlines (irq_lt hhigh)
  constructor
  · rintro ⟨chips₁, chips₂, henable, hdisable, hmask, -⟩
    by_contra hne
    exact unmasked_of_ne madt hacpi hline hlow hhigh hne henable hdisable hmask
  · intro heq
    obtain ⟨trigger, polarity, henable⟩ := enableIrq_eq madt cpu chips hacpi hlow hhigh
    refine ⟨_, _, henable, disableIrq_eq hacpi _ hlow hhigh, ?_, ?_⟩
    · rw [heq, ioapicMaskIrq, entryRead_write_self]
      rfl
    · dsimp only
      rw [heq] at hline ⊢
      exact ((KeepsOtherLines.write hline _).trans (KeepsOtherLines.write hline _)).trans
        (KeepsOtherLines.write hline _)

/-- IRQ 1 goes to line 0x21. -/
def keyboardOverride : MadtInterrupts where
  intSrcOverride := [⟨1, 0x21, 0⟩]
  nmiSource := []
  overridesFit := by decide
  nmisFit := by decide

theorem disableIrq_undoes_keyboard :
    DisableUndoesEnable (readInterruptConfig zeroConf (some keyboardOverride)) 0 0x21 0x21 zeroChips :=
  (disableIrq_undoes_iff zeroConf keyboardOverride zeroChips 0 0x21 rfl (by decide) (by decide)
    (by decide)).mpr rfl

/-- With the timer on line 2, disabling its vector 0x20 leaves line 2 unmasked. -/
theorem disableIrq_misses_timer :
    ¬ DisableUndoesEnable (readInterruptConfig zeroConf (some timerOverride)) 0 0x20
        (lineOf timerOverride.intSrcOverride 0) zeroChips := by
  rintro ⟨chips₁, chips₂, henable, hdisable, hmask, -⟩
  exact unmasked_of_ne timerOverride (v := 0x20) rfl (by decide) (by decide) (by decide)
    (by decide) henable hdisable hmask

end TalOS
