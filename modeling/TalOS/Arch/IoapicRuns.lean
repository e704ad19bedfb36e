-- SUMMARY: Runs of calls on the I/O APIC: each redirection entry is what the last calls for its line wrote.
import TalOS.Arch.Interrupts
import TalOS.Lib.Run

/-!
# Calls on the I/O APIC

The functions share one pair of registers per line, and change a field of an entry
by writing all of it. Over a run the mask, the destination and the rest of an entry
have each been written last by a call of their own.
-/

namespace TalOS

/-! ## The calls -/

def IOAPIC_ID_REG : BitVec 32 := 0
def IOAPIC_VERSION_REG : BitVec 32 := 1

/-- `IOAPIC_GET_ID` -/
def ioapicGetId (id : BitVec 8) : BitVec 32 := (0x03 &&& id.setWidth 32) <<< 24

/-- `IOAPIC_GET_IRQ_NUM`; the hardware keeps the number of the last line there. -/
def ioapicGetIrqNum (version : BitVec 32) : Nat := ((version >>> 16) &&& 0xFF).toNat

/-- The loop of `IOAPIC_enable` over the lines. -/
def maskLines (io : IoapicRegs) (count : Nat) : IoapicRegs :=
  (List.range count).foldl (fun io i => ioapicMaskIrq io (.ofNat 32 i)) io

/-- `IOAPIC_enable` -/
def ioapicEnable (io : IoapicRegs) (id : BitVec 8) : IoapicRegs :=
  let io := ioapicWriteReg io IOAPIC_ID_REG (ioapicGetId id)
  let verReg := ioapicReadReg io IOAPIC_VERSION_REG
  maskLines io (ioapicGetIrqNum verReg)

/-- `IOAPIC_IRQ_Change_Dest` -/
def ioapicIrqChangeDest (io : IoapicRegs) (dest line : BitVec 32) : IoapicRegs :=
  ioapicEntryWrite io line { ioapicEntryRead io line with destination := (dest &&& 0xFF).setWidth 8 }

inductive IoapicCall where
  | enable (id : BitVec 8)
  | unmask (irq : BitVec 32)
  | mask (irq : BitVec 32)
  | setup (dest : BitVec 8) (intVector : BitVec 16) (line : BitVec 32) (trigger polarity : BitVec 16)
      (destMode deliveryMode : BitVec 8)
  | changeDest (dest line : BitVec 32)
deriving Repr, DecidableEq

namespace IoapicCall

def apply (io : IoapicRegs) : IoapicCall → IoapicRegs
  | enable id => ioapicEnable io id
  | unmask irq => ioapicUnmaskIrq io irq
  | mask irq => ioapicMaskIrq io irq
  | setup dest intVector line trigger polarity destMode deliveryMode =>
    ioapicIrqSetup io dest intVector line trigger polarity destMode deliveryMode
  | changeDest dest line => ioapicIrqChangeDest io dest line

/-- The line whose entry the call writes. -/
def line : IoapicCall → Option (BitVec 32)
  | enable _ => none
  | unmask irq => some irq
  | mask irq => some irq
  | setup _ _ line _ _ _ _ => some line
  | changeDest _ line => some line

/-! ### What a call writes -/

/-- The mask that a call leaves in the entry of a line, on a chip whose version register gives `count`. -/
def masks (count : Nat) (line : BitVec 32) : IoapicCall → Option (BitVec 1)
  | enable _ => if line.toNat < count then some 1 else none
  | unmask irq => if irq = line then some 0 else none
  | mask irq => if irq = line then some 1 else none
  | setup _ _ line' _ _ _ _ => if line' = line then some INT_MASKED else none
  | changeDest _ _ => none

/-- The destination. -/
def sends (line : BitVec 32) : IoapicCall → Option (BitVec 8)
  | setup dest _ line' _ _ _ _ => if line' = line then some dest else none
  | changeDest dest line' => if line' = line then some (dest.setWidth 8) else none
  | _ => none

/-- The whole entry, with vector, trigger, polarity and modes. -/
def routes (line : BitVec 32) : IoapicCall → Option IoapicRedirectEntry
  | setup dest intVector line' trigger polarity destMode deliveryMode =>
    if line' = line then some (setupEntry dest intVector trigger polarity destMode deliveryMode) else none
  | _ => none

/-- The identification register. -/
def identifies : IoapicCall → Option (BitVec 32)
  | enable id => some (ioapicGetId id)
  | _ => none

end IoapicCall

/-- The registers after some calls. -/
def ioapicRun (calls : List IoapicCall) (io : IoapicRegs) : IoapicRegs := calls.foldl IoapicCall.apply io

/-! ## The table of entries -/

/-- The lines whose registers lie behind the others, without a wrap of their addresses. -/
def InTable (line : BitVec 32) : Prop := line.toNat < 0x7FFFFFF8

instance : DecidablePred InTable := fun line => inferInstanceAs (Decidable (line.toNat < 0x7FFFFFF8))

/-- The calls that stay in the table. -/
def IoapicCall.InTable (c : IoapicCall) : Prop := ∀ line ∈ c.line, TalOS.InTable line

instance : DecidablePred IoapicCall.InTable := fun c => Option.decidableForallMem c.line

variable {io : IoapicRegs} {line other : BitVec 32}

theorem InTable.isLine (h : InTable line) : IsLine line := Nat.lt_trans h (by decide)

/-- The registers in front of the table. -/
theorem entryWrite_low (io : IoapicRegs) (h : InTable line) (entry : IoapicRedirectEntry) {reg : BitVec 32}
    (hreg : reg < 0x10) : ioapicEntryWrite io line entry reg = io reg := by
  unfold InTable at h
  have hlower : reg ≠ ioapicEntryLowerAddr line := by
    unfold ioapicEntryLowerAddr
    bv_omega
  have hupper : reg ≠ ioapicEntryUpperAddr line := by
    unfold ioapicEntryUpperAddr
    bv_omega
  rw [ioapicEntryWrite, ioapicWriteReg, if_neg hupper, ioapicWriteReg, if_neg hlower]

/-- Writing such a register. -/
theorem entryRead_writeReg (io : IoapicRegs) (h : InTable line) {reg : BitVec 32} (hreg : reg < 0x10)
    (value : BitVec 32) : ioapicEntryRead (ioapicWriteReg io reg value) line = ioapicEntryRead io line := by
  unfold InTable at h
  have hlower : ioapicEntryLowerAddr line ≠ reg := by
    unfold ioapicEntryLowerAddr
    bv_omega
  have hupper : ioapicEntryUpperAddr line ≠ reg := by
    unfold ioapicEntryUpperAddr
    bv_omega
  simp only [ioapicEntryRead, ioapicReadReg, ioapicWriteReg, if_neg hlower, if_neg hupper]

theorem entryRead_write (io : IoapicRegs) (hother : InTable other) (hline : InTable line)
    (entry : IoapicRedirectEntry) : ioapicEntryRead (ioapicEntryWrite io other entry) line =
      if other = line then entry else ioapicEntryRead io line := by
  split
  · next heq =>
    subst heq
    exact entryRead_write_self entry
  · next hne => exact entryRead_write_other entry hother.isLine hline.isLine (Ne.symm hne)

/-! ## One call -/

/-- The loop masks the lines that it counts, and touches no other register. -/
theorem maskLines_spec (io : IoapicRegs) {count : Nat} (hcount : count ≤ 256) :
    (∀ line, InTable line → ioapicEntryRead (maskLines io count) line =
      if line.toNat < count then { ioapicEntryRead io line with mask := 1 } else ioapicEntryRead io line) ∧
      ∀ reg < 0x10, maskLines io count reg = io reg := by
  induction count with
  | zero => exact ⟨fun line _ => (if_neg (Nat.not_lt_zero _)).symm, fun _ _ => rfl⟩
  | succ count ih =>
    obtain ⟨hentries, hlow⟩ := ih (Nat.le_of_succ_le hcount)
    have hlast : (BitVec.ofNat 32 count).toNat = count := by
      rw [BitVec.toNat_ofNat]
      omega
    have htable : InTable (.ofNat 32 count) := by
      unfold InTable
      omega
    have hstep : maskLines io (count + 1) = ioapicMaskIrq (maskLines io count) (.ofNat 32 count) := by
      rw [maskLines, List.range_succ, List.foldl_append]
      rfl
    rw [hstep, ioapicMaskIrq]
    refine ⟨fun line hline => ?_, fun reg hreg => (entryWrite_low _ htable _ hreg).trans (hlow reg hreg)⟩
    rw [entryRead_write _ htable hline]
    by_cases hsame : BitVec.ofNat 32 count = line
    · subst hsame
      rw [if_pos rfl, hentries _ htable, if_neg (by omega), if_pos (by omega)]
    · have hne : line.toNat ≠ count := by
        intro heq
        exact hsame (BitVec.eq_of_toNat_eq (hlast.trans heq.symm))
      rw [if_neg hsame, hentries line hline]
      by_cases hlt : line.toNat < count
      · rw [if_pos hlt, if_pos (by omega)]
      · rw [if_neg hlt, if_neg (by omega)]

/-- An entry after a call. -/
def IoapicCall.writes (count : Nat) (line : BitVec 32) (c : IoapicCall) (entry : IoapicRedirectEntry) :
    IoapicRedirectEntry :=
  { (c.routes line).getD entry with
    mask := (c.masks count line).getD entry.mask
    destination := (c.sends line).getD entry.destination }

theorem and_low_byte (x : BitVec 32) : (x &&& 0xFF).setWidth 8 = x.setWidth 8 := by
  have hones : (0xFF : BitVec 32).setWidth 8 = BitVec.allOnes 8 := by decide
  rw [BitVec.setWidth_and, hones, BitVec.and_allOnes]

theorem ioapicGetIrqNum_le (version : BitVec 32) : ioapicGetIrqNum version ≤ 256 := by
  rw [ioapicGetIrqNum, BitVec.toNat_and]
  exact Nat.and_le_right.trans (by decide)

theorem IoapicCall.apply_entry (io : IoapicRegs) {c : IoapicCall} (hc : c.InTable) (hline : TalOS.InTable line) :
    ioapicEntryRead (c.apply io) line =
      c.writes (ioapicGetIrqNum (io IOAPIC_VERSION_REG)) line (ioapicEntryRead io line) := by
  cases c with
  | enable id =>
    have hversion : ioapicReadReg (ioapicWriteReg io IOAPIC_ID_REG (ioapicGetId id)) IOAPIC_VERSION_REG =
        io IOAPIC_VERSION_REG := by
      have hne : IOAPIC_VERSION_REG ≠ IOAPIC_ID_REG := by decide
      rw [ioapicReadReg, ioapicWriteReg, if_neg hne]
    rw [apply, ioapicEnable, hversion, (maskLines_spec _ (ioapicGetIrqNum_le _)).1 line hline,
      entryRead_writeReg io hline (by decide), writes, masks]
    split <;> rfl
  | unmask irq =>
    rw [apply, ioapicUnmaskIrq, entryRead_write io (hc irq rfl) hline, writes, masks]
    split
    · next heq =>
      subst heq
      rfl
    · rfl
  | mask irq =>
    rw [apply, ioapicMaskIrq, entryRead_write io (hc irq rfl) hline, writes, masks]
    split
    · next heq =>
      subst heq
      rfl
    · rfl
  | setup dest intVector line' trigger polarity destMode deliveryMode =>
    have hdest : dest &&& 0xFF = dest := BitVec.and_allOnes
    rw [apply, ioapicIrqSetup, entryRead_write io (hc line' rfl) hline, writes, masks, sends, routes]
    split
    · rw [Option.getD_some, Option.getD_some, Option.getD_some, setupEntry, hdest]
    · rfl
  | changeDest dest line' =>
    rw [apply, ioapicIrqChangeDest, entryRead_write io (hc line' rfl) hline, and_low_byte, writes, sends]
    split
    · next heq =>
      subst heq
      rfl
    · rfl

theorem IoapicCall.apply_low (io : IoapicRegs) {c : IoapicCall} (hc : c.InTable) {reg : BitVec 32}
    (hreg : reg < 0x10) :
    c.apply io reg = if reg = IOAPIC_ID_REG then c.identifies.getD (io reg) else io reg := by
  have hnone : (if reg = IOAPIC_ID_REG then io reg else io reg) = io reg := ite_self _
  cases c with
  | enable id => exact (maskLines_spec _ (ioapicGetIrqNum_le _)).2 reg hreg
  | unmask irq => exact (entryWrite_low io (hc irq rfl) _ hreg).trans hnone.symm
  | mask irq => exact (entryWrite_low io (hc irq rfl) _ hreg).trans hnone.symm
  | setup dest intVector line' trigger polarity destMode deliveryMode =>
    exact (entryWrite_low io (hc line' rfl) _ hreg).trans hnone.symm
  | changeDest dest line' => exact (entryWrite_low io (hc line' rfl) _ hreg).trans hnone.symm

/-! ## Runs -/

theorem ioapicRun_low (io : IoapicRegs) {calls : List IoapicCall} (hcalls : ∀ c ∈ calls, c.InTable)
    {reg : BitVec 32} (hreg : reg < 0x10) : ioapicRun calls io reg =
      if reg = IOAPIC_ID_REG then Run.lastWrite IoapicCall.identifies calls (io reg) else io reg := by
  induction calls using List.reverseRecOn with
  | nil => exact (ite_self _).symm
  | append_singleton calls c ih =>
    have hc := hcalls c (List.mem_append_right _ List.mem_cons_self)
    have hbefore := ih fun c' hc' => hcalls c' (List.mem_append_left _ hc')
    have hstep : ioapicRun (calls ++ [c]) io = c.apply (ioapicRun calls io) := List.foldl_append
    rw [hstep, IoapicCall.apply_low _ hc hreg, hbefore, Run.lastWrite_concat]
    split <;> rfl

theorem ioapicRun_entry (io : IoapicRegs) {calls : List IoapicCall} (hcalls : ∀ c ∈ calls, c.InTable)
    (hline : InTable line) : ioapicEntryRead (ioapicRun calls io) line =
      { Run.lastWrite (·.routes line) calls (ioapicEntryRead io line) with
        mask := Run.lastWrite (·.masks (ioapicGetIrqNum (io IOAPIC_VERSION_REG)) line) calls
          (ioapicEntryRead io line).mask
        destination := Run.lastWrite (·.sends line) calls (ioapicEntryRead io line).destination } := by
  induction calls using List.reverseRecOn with
  | nil => rfl
  | append_singleton calls c ih =>
    have hc := hcalls c (List.mem_append_right _ List.mem_cons_self)
    have hrest : ∀ c' ∈ calls, c'.InTable := fun c' hc' => hcalls c' (List.mem_append_left _ hc')
    have hversion : ioapicRun calls io IOAPIC_VERSION_REG = io IOAPIC_VERSION_REG :=
      (ioapicRun_low io hrest (by decide)).trans (if_neg (by decide))
    have hstep : ioapicRun (calls ++ [c]) io = c.apply (ioapicRun calls io) := List.foldl_append
    rw [hstep, IoapicCall.apply_entry _ hc hline, hversion, ih hrest]
    simp only [Run.lastWrite_concat, IoapicCall.writes]
    cases c.routes line <;> rfl

/-- Any calls on the lines of the table: each part of an entry is what the last call for it wrote, and of the
registers in front of the table only the identification changes. `IOAPIC_enable` masks the lines below the
number in the version register, which is that of the last line. -/
theorem ioapicRun_writes (io : IoapicRegs) (calls : List IoapicCall) (hcalls : ∀ c ∈ calls, c.InTable) :
    (∀ line, InTable line → ioapicEntryRead (ioapicRun calls io) line =
      { Run.lastWrite (·.routes line) calls (ioapicEntryRead io line) with
        mask := Run.lastWrite (·.masks (ioapicGetIrqNum (io IOAPIC_VERSION_REG)) line) calls
          (ioapicEntryRead io line).mask
        destination := Run.lastWrite (·.sends line) calls (ioapicEntryRead io line).destination }) ∧
      ∀ reg < 0x10, ioapicRun calls io reg =
        if reg = IOAPIC_ID_REG then Run.lastWrite IoapicCall.identifies calls (io reg) else io reg :=
  ⟨fun _ hline => ioapicRun_entry io hcalls hline, fun _ hreg => ioapicRun_low io hcalls hreg⟩

/-- A chip with two lines, neither masked. -/
def twoLines (reg : BitVec 32) : BitVec 32 := if reg = IOAPIC_VERSION_REG then 0x10011 else 0

theorem ioapicRun_writes_two :
    let io := ioapicRun [.enable 3, .setup 2 0x31 0 0 0 0 0, .changeDest 5 0] twoLines
    (ioapicEntryRead io 0).mask = 1 ∧ (ioapicEntryRead io 0).vector = 0x31 ∧
      (ioapicEntryRead io 0).destination = 5 ∧ (ioapicEntryRead io 1).mask = 0 := by
  obtain ⟨hentries, -⟩ := ioapicRun_writes twoLines
    [.enable 3, .setup 2 0x31 0 0 0 0 0, .changeDest 5 0] (by decide)
  have hfirst := hentries 0 (by decide)
  have hlast := hentries 1 (by decide)
  dsimp only
  rw [hfirst, hlast]
  exact ⟨by decide, by decide, by decide, by decide⟩

/-! ## Enabling and disabling interrupts -/

inductive IrqCall where
  | enable (destCpu : BitVec 8) (irqN : BitVec 32)
  | disable (irqN : BitVec 32)
deriving Repr, DecidableEq

namespace IrqCall

def step (conf : SysConfIntInfo) : IrqCall → IrqChips → Option IrqChips
  | enable destCpu irqN => enableIrq conf destCpu irqN
  | disable irqN => disableIrq conf irqN

/-- The entry of the table for a vector. -/
def source (conf : SysConfIntInfo) (irqN : BitVec 32) : Option IntSysConfInfo :=
  if isHwVector irqN then conf.interruptSource[(irqIndex irqN).toNat]? else none

/-- What `EnableIRQ` sets a line up with. -/
def setupOf (destCpu : BitVec 8) (source : IntSysConfInfo) : IoapicRedirectEntry :=
  setupEntry destCpu source.intVector (source.triggerMode.setWidth 16) (source.polarity.setWidth 16)
    DEST_MODE_PHY DELIVERY_MODE_FIXED

/-- The calls on the I/O APIC. -/
def ioapicCalls (conf : SysConfIntInfo) : IrqCall → List IoapicCall
  | enable destCpu irqN =>
    match source conf irqN with
    | none => []
    | some source =>
      [.setup destCpu source.intVector source.globalSysInt (source.triggerMode.setWidth 16)
          (source.polarity.setWidth 16) DEST_MODE_PHY DELIVERY_MODE_FIXED,
        .unmask source.globalSysInt]
  | disable irqN => if isHwVector irqN then [.mask irqN] else []

/-- The entry that a call sets a line up with. -/
def setsUp (conf : SysConfIntInfo) (line : BitVec 32) : IrqCall → Option IoapicRedirectEntry
  | enable destCpu irqN =>
    ((source conf irqN).filter fun source => source.globalSysInt = line).map (setupOf destCpu)
  | disable _ => none

/-- The mask that a call leaves in a line: `EnableIRQ` goes by the table, and `DisableIRQ` takes the vector for
the line. -/
def masks (conf : SysConfIntInfo) (line : BitVec 32) : IrqCall → Option (BitVec 1)
  | enable _ irqN =>
    ((source conf irqN).filter fun source => source.globalSysInt = line).map fun _ => 0
  | disable irqN => if isHwVector irqN ∧ irqN = line then some 1 else none

variable {conf : SysConfIntInfo} {chips chips' : IrqChips} {line : BitVec 32}

theorem step_ioapic (hacpi : conf.acpiInit = true) {c : IrqCall} (h : c.step conf chips = some chips') :
    chips' = { chips with ioapic := ioapicRun (c.ioapicCalls conf) chips.ioapic } := by
  cases c with
  | enable destCpu irqN =>
    rw [step, enableIrq] at h
    rw [ioapicCalls, source]
    by_cases hhw : isHwVector irqN = true
    · rw [if_pos hhw, if_pos hacpi] at h
      obtain ⟨source, hsource, rfl⟩ := Option.map_eq_some_iff.mp h
      rw [if_pos hhw, hsource]
      rfl
    · rw [if_neg hhw] at h
      obtain rfl := Option.some.inj h
      rw [if_neg hhw]
      rfl
  | disable irqN =>
    rw [step, disableIrq] at h
    rw [ioapicCalls]
    by_cases hhw : isHwVector irqN = true
    · rw [if_pos hhw, if_pos hacpi] at h
      obtain rfl := Option.some.inj h
      rw [if_pos hhw]
      rfl
    · rw [if_neg hhw] at h
      obtain rfl := Option.some.inj h
      rw [if_neg hhw]
      rfl

theorem run_ioapic (hacpi : conf.acpiInit = true) {calls : List IrqCall}
    (hrun : Run.run (step conf) calls chips = some chips') :
    chips' = { chips with ioapic := ioapicRun (calls.flatMap (ioapicCalls conf)) chips.ioapic } := by
  refine Run.run_history (P := fun calls chips' => chips' =
    { chips with ioapic := ioapicRun (calls.flatMap (ioapicCalls conf)) chips.ioapic }) rfl ?_ hrun
  rintro calls c chips₁ chips₂ - rfl hstep
  rw [step_ioapic hacpi hstep, List.flatMap_append, List.flatMap_singleton]
  congr 1
  exact List.foldl_append.symm

theorem ioapicCalls_inTable (hlines : ∀ k, InTable (conf.interruptSource.get k).globalSysInt)
    {calls : List IrqCall} (hdisabled : ∀ irqN, disable irqN ∈ calls → InTable irqN) :
    ∀ c ∈ calls.flatMap (ioapicCalls conf), c.InTable := by
  intro c hc
  obtain ⟨call, hcall, hc⟩ := List.mem_flatMap.mp hc
  cases call with
  | enable destCpu irqN =>
    rw [ioapicCalls] at hc
    split at hc
    · exact nomatch hc
    · next source hsource =>
      have hline : InTable source.globalSysInt := by
        rw [IrqCall.source] at hsource
        split at hsource
        · obtain ⟨hlt, rfl⟩ := Vector.getElem?_eq_some_iff.mp hsource
          exact hlines ⟨_, hlt⟩
        · cases hsource
      rcases List.mem_cons.mp hc with rfl | hc
      · exact fun _ h => Option.some.inj h ▸ hline
      · obtain rfl := List.mem_singleton.mp hc
        exact fun _ h => Option.some.inj h ▸ hline
  | disable irqN =>
    rw [ioapicCalls] at hc
    split at hc
    · obtain rfl := List.mem_singleton.mp hc
      exact fun _ h => Option.some.inj h ▸ hdisabled irqN hcall
    · exact nomatch hc

theorem lastWrite_masks (count : Nat) (c : IrqCall) (start : BitVec 1) :
    Run.lastWrite (IoapicCall.masks count line) (c.ioapicCalls conf) start = (c.masks conf line).getD start := by
  cases c with
  | enable destCpu irqN =>
    rw [ioapicCalls, masks]
    cases source conf irqN with
    | none => rfl
    | some source =>
      by_cases hline : source.globalSysInt = line <;> simp [IoapicCall.masks, Option.filter_some, hline]
  | disable irqN =>
    rw [ioapicCalls, masks]
    by_cases hhw : isHwVector irqN = true
    · rw [if_pos hhw]
      simp [IoapicCall.masks, hhw]
    · rw [if_neg hhw, if_neg fun h => hhw h.1]
      rfl

theorem lastWrite_routes (c : IrqCall) (start : IoapicRedirectEntry) :
    Run.lastWrite (IoapicCall.routes line) (c.ioapicCalls conf) start =
      (c.setsUp conf line).getD start := by
  cases c with
  | enable destCpu irqN =>
    rw [ioapicCalls, setsUp]
    cases source conf irqN with
    | none => rfl
    | some source =>
      by_cases hline : source.globalSysInt = line <;> simp [IoapicCall.routes, Option.filter_some, hline, setupOf]
  | disable irqN =>
    rw [ioapicCalls, setsUp]
    split <;> rfl

theorem lastWrite_sends (c : IrqCall) (start : BitVec 8) :
    Run.lastWrite (IoapicCall.sends line) (c.ioapicCalls conf) start =
      ((c.setsUp conf line).map (·.destination)).getD start := by
  cases c with
  | enable destCpu irqN =>
    have hdest (source : IntSysConfInfo) : (setupOf destCpu source).destination = destCpu := BitVec.and_allOnes
    rw [ioapicCalls, setsUp]
    cases source conf irqN with
    | none => rfl
    | some source =>
      by_cases hline : source.globalSysInt = line <;> simp [IoapicCall.sends, Option.filter_some, hline, hdest]
  | disable irqN =>
    rw [ioapicCalls, setsUp]
    split <;> rfl

end IrqCall

/-- Any enabling and disabling of interrupts: a line is set up for the vector that was enabled last of those the
table routes to it, and it is masked when `DisableIRQ` was called after that with the number of the line. -/
theorem irqRun_routes (conf : SysConfIntInfo) (calls : List IrqCall) (chips chips' : IrqChips)
    (line : BitVec 32) (hacpi : conf.acpiInit = true)
    (hlines : ∀ k, InTable (conf.interruptSource.get k).globalSysInt)
    (hdisabled : ∀ irqN, .disable irqN ∈ calls → InTable irqN) (hline : InTable line)
    (hrun : Run.run (IrqCall.step conf) calls chips = some chips') :
    chips'.pic = chips.pic ∧
      ioapicEntryRead chips'.ioapic line =
        { Run.lastWrite (·.setsUp conf line) calls (ioapicEntryRead chips.ioapic line) with
          mask := Run.lastWrite (·.masks conf line) calls (ioapicEntryRead chips.ioapic line).mask } := by
  have hentry := ioapicRun_entry chips.ioapic (IrqCall.ioapicCalls_inTable hlines hdisabled) hline
  rw [IrqCall.run_ioapic hacpi hrun]
  refine ⟨rfl, hentry.trans ?_⟩
  rw [Run.lastWrite_flatMap IrqCall.lastWrite_routes, Run.lastWrite_flatMap (IrqCall.lastWrite_masks _),
    Run.lastWrite_flatMap IrqCall.lastWrite_sends, Run.lastWrite_map (f := fun c : IrqCall => c.setsUp conf line)]

/-- The table without overrides. -/
def defaultRouting : SysConfIntInfo := ⟨.ofFn fun i : Fin MAX_INT_NUM => defaultSource i, true⟩

/-- Disabling vector 0x21 leaves line 1 as enabling it has set it up. -/
theorem irqRun_routes_default :
    ∃ chips', Run.run (IrqCall.step defaultRouting) [.enable 2 0x21, .disable 0x21]
        ⟨fun _ => 0, ⟨0xFF, 0xFF⟩⟩ = some chips' ∧
      ioapicEntryRead chips'.ioapic 1 = { IrqCall.setupOf 2 (defaultSource 1) with mask := 0 } := by
  have hlines (k : Fin MAX_INT_NUM) : InTable (defaultRouting.interruptSource.get k).globalSysInt := by
    have hdefault : defaultRouting.interruptSource.get k = defaultSource k := Vector.getElem_ofFn k.isLt
    have hk := k.isLt
    rw [hdefault, InTable, defaultSource, BitVec.toNat_ofNat]
    unfold MAX_INT_NUM at hk
    omega
  have hsource : defaultRouting.interruptSource[1]? = some (defaultSource 1) := by
    rw [Vector.getElem?_eq_getElem (by decide)]
    exact congrArg some (Vector.getElem_ofFn _)
  have hsource' : IrqCall.source defaultRouting 0x21 = some (defaultSource 1) := hsource
  have hdisabled (irqN : BitVec 32) (h : IrqCall.disable irqN ∈ [.enable 2 0x21, .disable 0x21]) :
      InTable irqN := by
    obtain rfl : irqN = 0x21 := by simpa using h
    decide
  refine ⟨_, rfl, ?_⟩
  refine ((irqRun_routes defaultRouting _ _ _ 1 rfl hlines hdisabled (by decide) rfl).2).trans ?_
  simp only [Run.lastWrite_cons, Run.lastWrite_nil, IrqCall.setsUp, IrqCall.masks, hsource']
  rfl

end TalOS
