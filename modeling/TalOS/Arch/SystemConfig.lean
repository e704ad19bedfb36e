-- SUMMARY: `InitSystemConfig` from the firmware's tables in memory to the system's description.
import TalOS.Arch.ApStartup
import TalOS.Arch.Interrupts
import TalOS.Arch.MadtArrays

/-!
# Reading the system's configuration

`ReadSystemConfig` looks for the RSDP in the memory of the BIOS, follows it to the
MADT and copies what the arrays of `MADT_info_t` point to. The processors and the
interrupts of other modules are parts of what it leaves.
-/

namespace TalOS

open MachineInt Access

/-! ## The RSDP -/

/-- The characters of `RSDP_LABEL`. -/
def RSDP_LABEL : List UInt8 := [0x52, 0x53, 0x44, 0x20, 0x50, 0x54, 0x52, 0x20]

def SIZEOF_RSDP_HDR_DESCR : Nat := 20

def BIOS_START_ADDR : Nat := 0xE0000
def BIOS_END_ADDR : Nat := 0xFFFFF

/-- The loop of `acpi_get_RSDP_ptr` at `addrIndex`, with `left` addresses before the limit. -/
def rsdpLoop (m : Mem) : Nat → Nat → Except Stop Nat
  | 0, _ => return 0
  | left + 1, addrIndex => do
    let label ← loadBytes m addrIndex RSDP_LABEL.length
    if label = RSDP_LABEL then
      if ← acpiTabChecksum m addrIndex SIZEOF_RSDP_HDR_DESCR then return addrIndex
      else rsdpLoop m left (addrIndex + 1)
    else rsdpLoop m left (addrIndex + 1)

/-- `acpi_get_RSDP_ptr`; 0 is `NULL`. -/
def acpiGetRsdpPtr (m : Mem) (addrStart addrLimit : Nat) : Except Stop Nat :=
  rsdpLoop m (addrLimit - addrStart) addrStart

/-! ## The structures that the pointers lead to -/

/-- `n` bytes of a structure from offset `d` on. -/
def fieldOf (bytes : List UInt8) (d n : Nat) : Nat := leBytes ((bytes.drop d).take n)

/-- `MADT_Proc_LAPIC_t` -/
def MadtProcLapic.ofBytes (bytes : List UInt8) : MadtProcLapic where
  procUID := .ofNat (fieldOf bytes 0 1)
  lapicId := .ofNat (fieldOf bytes 1 1)

/-- `IOAPIC_SysConf_Info_t` -/
structure IoapicSysConfInfo where
  ioapicId : UInt8
  ioapicAddr : UInt32
  globalSysInterBase : UInt32
deriving Repr, DecidableEq

/-- The fields of a `MADT_IOAPIC_t` that are copied. -/
def IoapicSysConfInfo.ofBytes (bytes : List UInt8) : IoapicSysConfInfo where
  ioapicId := .ofNat (fieldOf bytes 0 1)
  ioapicAddr := .ofNat (fieldOf bytes 2 4)
  globalSysInterBase := .ofNat (fieldOf bytes 6 4)

/-- `MADT_IOAPIC_int_src_t` -/
def MadtIoapicIntSrc.ofBytes (bytes : List UInt8) : MadtIoapicIntSrc where
  irqSource := .ofNat 8 (fieldOf bytes 1 1)
  globalSysInt := .ofNat 32 (fieldOf bytes 2 4)
  flags := .ofNat 16 (fieldOf bytes 6 2)

/-- `MADT_IOAPIC_NMI_Src_t` -/
def MadtIoapicNmiSrc.ofBytes (bytes : List UInt8) : MadtIoapicNmiSrc where
  flags := .ofNat 8 (fieldOf bytes 2 1)
  globalSysInt := .ofNat 32 (fieldOf bytes 3 4)

/-- `MADT_Info.LAPICs[i]->ProcUID` and `LAPIC_Id` -/
def loadProcLapic (m : Mem) (p : Nat) : Except Stop MadtProcLapic := do
  let procUID ← load m (p + 0) 1
  let lapicId ← load m (p + 1) 1
  return { procUID := .ofNat procUID, lapicId := .ofNat lapicId }

/-- `MADT_Info.IOAPICs[i]->IOAPIC_ID`, `IOAPIC_Addr` and `GlobalSysInterBase` -/
def loadIoapic (m : Mem) (p : Nat) : Except Stop IoapicSysConfInfo := do
  let ioapicId ← load m (p + 0) 1
  let ioapicAddr ← load m (p + 2) 4
  let globalSysInterBase ← load m (p + 6) 4
  return {
    ioapicId := .ofNat ioapicId
    ioapicAddr := .ofNat ioapicAddr
    globalSysInterBase := .ofNat globalSysInterBase }

/-- `MADT_Info.IntSrcOverride[i]->IRQSource`, `GlobalSysInt` and `Flags` -/
def loadIntSrc (m : Mem) (p : Nat) : Except Stop MadtIoapicIntSrc := do
  let irqSource ← load m (p + 1) 1
  let globalSysInt ← load m (p + 2) 4
  let flags ← load m (p + 6) 2
  return { irqSource := .ofNat 8 irqSource, globalSysInt := .ofNat 32 globalSysInt, flags := .ofNat 16 flags }

/-- `MADT_Info.NMI_Source[i]->GlobalSysInt` and `Flags` -/
def loadNmiSrc (m : Mem) (p : Nat) : Except Stop MadtIoapicNmiSrc := do
  let flags ← load m (p + 2) 1
  let globalSysInt ← load m (p + 3) 4
  return { flags := .ofNat 8 flags, globalSysInt := .ofNat 32 globalSysInt }

/-! ## The configuration -/

def MAX_SUPP_IOAPIC_NUM : Nat := 0x10

def SYS_CONF_READ_ERROR : Int := -1
def SYS_CONF_READ_OK : Int := 0

/-- `SysConf_Info_t`, less the CPU's features and the frequency of its timer. -/
structure PlatformConfig where
  cpus : Vector CpuSysConfInfo MAX_SUPP_PROC_NUM
  cpuNum : Nat
  ioapics : Vector IoapicSysConfInfo MAX_SUPP_IOAPIC_NUM
  ioapicNum : Nat
  lapicPtr : Nat
  interrupts : SysConfIntInfo

/-- A loop that copies what pointers lead to into a table, from slot `i` on, and the count it ends with. -/
def copyLoop {α : Type} {size : Nat} (read : Nat → Except Stop α) :
    List Nat → Nat → Vector α size → Except Stop (Vector α size × Nat)
  | [], i, table => return (table, i)
  | p :: ps, i, table =>
    if h : i < size then do
      let x ← read p
      copyLoop read ps (i + 1) (table.set i x h)
    else return (table, i)

/-- Read what each of the pointers leads to. -/
def loadEach {α : Type} (read : Nat → Except Stop α) :
    (ps : List Nat) → Except Stop { xs : List α // xs.length = ps.length }
  | [] => return ⟨[], rfl⟩
  | p :: ps => do
    let x ← read p
    let xs ← loadEach read ps
    return ⟨x :: xs.val, congrArg (· + 1) xs.property⟩

/-- The overrides and NMIs that the loops over `IntSrcOverride` and `NMI_Source` read. -/
def loadInterrupts (m : Mem) (info : MadtInfo) : Except Stop MadtInterrupts := do
  let overrides ← loadEach (loadIntSrc m) (info.intSrcOverride.entries.take INT_NUM)
  let nmis ← loadEach (loadNmiSrc m) (info.nmiSource.entries.take MAX_NMI_NUM)
  return {
    intSrcOverride := overrides.val
    nmiSource := nmis.val
    overridesFit := overrides.property.trans_le (List.length_take_le _ _)
    nmisFit := nmis.property.trans_le (List.length_take_le _ _) }

/-- `ReadSystemConfig` on the tables in memory, with `fuel` for the records of the MADT. -/
def readSystemConfigMem (m : Mem) (fuel : Nat) (conf : PlatformConfig) :
    Except Stop (Int × PlatformConfig) := do
  let rsdp ← acpiGetRsdpPtr m BIOS_START_ADDR BIOS_END_ADDR
  if rsdp = 0 then return (SYS_CONF_READ_OK, conf)
  let (valid, info) ← acpiGetMadtInfo m fuel rsdp
  if valid then
    let (cpus, cpuNum) ← copyLoop
      (fun p => do
        let l ← loadProcLapic m p
        return ⟨l.procUID, l.lapicId.toUInt32⟩) info.lapics.entries 0 conf.cpus
    let (ioapics, ioapicNum) ← copyLoop (loadIoapic m) info.ioapics.entries 0 conf.ioapics
    let madt ← loadInterrupts m info
    return (SYS_CONF_READ_OK, {
      cpus := cpus
      cpuNum := cpuNum
      ioapics := ioapics
      ioapicNum := ioapicNum
      lapicPtr := info.lapicPtr
      interrupts := readInterruptConfig conf.interrupts (some madt) })
  -- an invalid table is no error
  else return (SYS_CONF_READ_OK, conf)

/-- `InitSystemConfig` -/
def initSystemConfig (m : Mem) (fuel : Nat) (conf : PlatformConfig) : Except Stop PlatformConfig := do
  let (ret, conf) ← readSystemConfigMem m fuel conf
  return { conf with interrupts := { conf.interrupts with acpiInit := ret != SYS_CONF_READ_ERROR } }

/-! ## Finding the RSDP -/

variable {byte : Nat → UInt8}

/-- What is looked for: the label, and a sum of the header's bytes that is a multiple of 256. -/
def IsRsdp (byte : Nat → UInt8) (a : Nat) : Prop :=
  bytesAt byte a RSDP_LABEL.length = RSDP_LABEL ∧
    u8 ((bytesAt byte a SIZEOF_RSDP_HDR_DESCR).map UInt8.toNat).sum = 0

instance : DecidablePred (IsRsdp byte) := fun a =>
  inferInstanceAs (Decidable (_ ∧ u8 ((bytesAt byte a SIZEOF_RSDP_HDR_DESCR).map UInt8.toNat).sum = 0))

theorem checksum_all {a size : Nat} (h : a + size < 2 ^ 32) :
    acpiTabChecksum (.all byte) a size = .ok (u8 ((bytesAt byte a size).map UInt8.toNat).sum == 0) := by
  rw [acpiTabChecksum, u32_of_lt h, Nat.add_sub_cancel_left, loadBytes_all]
  rfl

/-- The loop ends at the first address that is one. -/
theorem rsdpLoop_eq {left a : Nat} (h : a + left + SIZEOF_RSDP_HDR_DESCR < 2 ^ 32) :
    rsdpLoop (.all byte) left a =
      .ok (((List.range' a left).find? fun p => IsRsdp byte p).getD 0) := by
  induction left generalizing a with
  | zero => rfl
  | succ left ih =>
    have hrest : rsdpLoop (.all byte) left (a + 1) = _ := ih (by omega)
    rw [rsdpLoop, loadBytes_all, ok_bind, checksum_all (by omega), ok_bind, hrest, List.range'_succ]
    by_cases hrsdp : IsRsdp byte a
    · have hfind : (a :: List.range' (a + 1) left).find? (fun p => IsRsdp byte p) = some a :=
        List.find?_cons_of_pos (decide_eq_true hrsdp)
      rw [hfind]
      exact (if_pos hrsdp.1).trans (if_pos (beq_iff_eq.mpr hrsdp.2))
    · have hfind : (a :: List.range' (a + 1) left).find? (fun p => IsRsdp byte p) =
          (List.range' (a + 1) left).find? fun p => IsRsdp byte p :=
        List.find?_cons_of_neg fun hp => hrsdp (of_decide_eq_true hp)
      rw [hfind]
      by_cases hlabel : bytesAt byte a RSDP_LABEL.length = RSDP_LABEL
      · exact (if_pos hlabel).trans (if_neg fun hsum => hrsdp ⟨hlabel, eq_of_beq hsum⟩)
      · exact if_neg hlabel

/-- The RSDP at the lowest address of the BIOS's memory. -/
structure FirstRsdp (byte : Nat → UInt8) (rsdp : Nat) : Prop where
  above : BIOS_START_ADDR ≤ rsdp
  below : rsdp < BIOS_END_ADDR
  isRsdp : IsRsdp byte rsdp
  first : ∀ a, BIOS_START_ADDR ≤ a → a < rsdp → ¬ IsRsdp byte a

theorem FirstRsdp.found {rsdp : Nat} (h : FirstRsdp byte rsdp) :
    acpiGetRsdpPtr (.all byte) BIOS_START_ADDR BIOS_END_ADDR = .ok rsdp := by
  have hfind : ((List.range' BIOS_START_ADDR (BIOS_END_ADDR - BIOS_START_ADDR)).find?
      fun p => IsRsdp byte p) = some rsdp := by
    rw [List.find?_range'_eq_some]
    refine ⟨decide_eq_true h.isRsdp, ?_, ?_⟩
    · have habove := h.above
      have hbelow := h.below
      rw [List.mem_range'_1]
      unfold BIOS_START_ADDR BIOS_END_ADDR at *
      omega
    · intro a ha hlt
      simp [h.first a ha hlt]
  rw [acpiGetRsdpPtr, rsdpLoop_eq (by decide), hfind]
  rfl

/-- Without an RSDP nothing is read, and still the interrupts count as configured by ACPI. -/
theorem initSystemConfig_without_rsdp (conf : PlatformConfig) (fuel : Nat)
    (hnone : ∀ a, BIOS_START_ADDR ≤ a → a < BIOS_END_ADDR → ¬ IsRsdp byte a) :
    initSystemConfig (.all byte) fuel conf =
      .ok { conf with interrupts := { conf.interrupts with acpiInit := true } } := by
  have hfind : ((List.range' BIOS_START_ADDR (BIOS_END_ADDR - BIOS_START_ADDR)).find?
      fun p => IsRsdp byte p) = none := by
    rw [List.find?_eq_none]
    intro a ha
    obtain ⟨hle, hlt⟩ := List.mem_range'_1.mp ha
    have hin : a < BIOS_END_ADDR := by
      unfold BIOS_START_ADDR BIOS_END_ADDR at *
      omega
    simp [hnone a hle hin]
  rw [initSystemConfig, readSystemConfigMem, acpiGetRsdpPtr, rsdpLoop_eq (by decide), hfind]
  rfl

/-! ## Copying -/

theorem load_field (byte : Nat → UInt8) (p : Nat) {d n len : Nat} (h : d + n ≤ len) :
    load (.all byte) (p + d) n = .ok (fieldOf (bytesAt byte p len) d n) := by
  have hbytes : ((bytesAt byte p len).drop d).take n =
      (List.range n).map fun i => byte (u32 (p + d + i)) := by
    refine List.ext_getElem (by simp [bytesAt]; omega) fun i _ _ => ?_
    simp [bytesAt, Nat.add_assoc]
  rw [load_all, fieldOf, hbytes, leValue_eq_leBytes]

theorem loadProcLapic_all (byte : Nat → UInt8) (p : Nat) :
    loadProcLapic (.all byte) p = .ok (.ofBytes (bytesAt byte p 6)) := by
  rw [loadProcLapic, load_field byte p (by decide : 0 + 1 ≤ 6), ok_bind,
    load_field byte p (by decide : 1 + 1 ≤ 6)]
  rfl

theorem loadIoapic_all (byte : Nat → UInt8) (p : Nat) :
    loadIoapic (.all byte) p = .ok (.ofBytes (bytesAt byte p 10)) := by
  rw [loadIoapic, load_field byte p (by decide : 0 + 1 ≤ 10), ok_bind,
    load_field byte p (by decide : 2 + 4 ≤ 10), ok_bind, load_field byte p (by decide : 6 + 4 ≤ 10)]
  rfl

theorem loadIntSrc_all (byte : Nat → UInt8) (p : Nat) :
    loadIntSrc (.all byte) p = .ok (.ofBytes (bytesAt byte p 8)) := by
  rw [loadIntSrc, load_field byte p (by decide : 1 + 1 ≤ 8), ok_bind,
    load_field byte p (by decide : 2 + 4 ≤ 8), ok_bind, load_field byte p (by decide : 6 + 2 ≤ 8)]
  rfl

theorem loadNmiSrc_all (byte : Nat → UInt8) (p : Nat) :
    loadNmiSrc (.all byte) p = .ok (.ofBytes (bytesAt byte p 7)) := by
  rw [loadNmiSrc, load_field byte p (by decide : 2 + 1 ≤ 7), ok_bind,
    load_field byte p (by decide : 3 + 4 ≤ 7)]
  rfl

section Copying

variable {α : Type} {size : Nat} {read : Nat → Except Stop α} {f : Nat → α}

theorem loadEach_eq (hread : ∀ p, read p = .ok (f p)) (ps : List Nat) :
    loadEach read ps = .ok ⟨ps.map f, List.length_map f⟩ := by
  induction ps with
  | nil => rfl
  | cons p ps ih =>
    rw [loadEach, hread, ok_bind, ih]
    rfl

/-- The loop fills the table with what it has room for, behind what is in it. -/
theorem copyLoop_eq (hread : ∀ p, read p = .ok (f p)) (ps : List Nat) {i : Nat} (table : Vector α size)
    (hi : i ≤ size) :
    ∃ table' num, copyLoop read ps i table = .ok (table', num) ∧
      table'.toList.take num = table.toList.take i ++ (ps.map f).take (size - i) := by
  induction ps generalizing i table with
  | nil => exact ⟨table, i, rfl, by simp⟩
  | cons p ps ih =>
    by_cases hlt : i < size
    · obtain ⟨table', num, hloop, htake⟩ := ih (table.set i (f p) hlt) hlt
      refine ⟨table', num, ?_, ?_⟩
      · rw [copyLoop, dif_pos hlt, hread, ok_bind, hloop]
      · have hlen : i < (table.set i (f p) hlt).toList.length := by rwa [Vector.length_toList]
        have hset : (table.set i (f p) hlt).toList = table.toList.set i (f p) := Vector.toList_set ..
        have hroom : size - i = size - (i + 1) + 1 := by omega
        rw [htake, List.take_succ_eq_append_getElem hlen, hroom, List.map_cons, List.take_succ_cons,
          List.append_assoc]
        simp only [hset, List.take_set_of_le (Nat.le_refl i), List.getElem_set_self, List.singleton_append]
    · refine ⟨table, i, by rw [copyLoop, dif_neg hlt]; rfl, ?_⟩
      rw [Nat.sub_eq_zero_of_le (Nat.le_of_not_lt hlt), List.take_zero, List.append_nil]

end Copying

/-! ## The configuration that the tables describe -/

variable {info : MadtInfo} {headerAddr : Nat} {records : List MadtRecord}

/-- The processors of the configuration. -/
def PlatformConfig.processors (conf : PlatformConfig) : SysConfInfo where
  cpus := conf.cpus.toList.take conf.cpuNum
  acpiInit := conf.interrupts.acpiInit

/-- What the pointers stored for NMIs lead to, five bytes behind the bodies of their records. -/
def nmiSources (byte : Nat → UInt8) (placedRecords : List (Nat × MadtRecord)) : List MadtIoapicNmiSrc :=
  (placedRecords.filter fun q => q.2.listed MADT_ENT_LAPIC_NMI_SRC).map fun q =>
    .ofBytes (bytesAt byte (u32 (q.1 + SIZEOF_MADT_IOAPIC_NMI_SRC)) SIZEOF_MADT_IOAPIC_NMI_SRC)

/-- No array has more entries than slots. -/
theorem Decodes.take_entries (h : Decodes byte headerAddr records info) {t c : Nat} {table : PtrTable}
    (ht : info.tableOf t = some table) (hc : capacity t = some c) : table.entries.take c = table.entries := by
  have hslots : c = table.slots.length := Option.some.inj (hc.symm.trans (h.capacity_eq t table ht))
  rw [hslots]
  exact List.take_of_length_le (List.length_take_le' _ _)

/-- The structures read through the entries are the bodies of the listed records. -/
theorem Decodes.map_entries {α : Type} (h : Decodes byte headerAddr records info) {t n : Nat}
    {table : PtrTable} (ht : info.tableOf t = some table) (hsize : bodySize t = some n)
    (f : List UInt8 → α) :
    (table.entries.map fun p => f (bytesAt byte p n)) = (listedBodies t records).map f := by
  rw [← h.bodies t n table ht hsize, List.map_map]
  rfl

theorem Decodes.loadInterrupts (h : Decodes byte headerAddr records info)
    {placedRecords : List (Nat × MadtRecord)} (hpoints : Points placedRecords info) :
    ∃ madt, TalOS.loadInterrupts (.all byte) info = .ok madt ∧
      madt.intSrcOverride = (listedBodies MADT_ENT_IOAPIC_INT_OVER records).map .ofBytes ∧
      madt.nmiSource = nmiSources byte placedRecords := by
  have hoverride : info.tableOf MADT_ENT_IOAPIC_INT_OVER = some info.intSrcOverride := rfl
  have hnmi : info.tableOf MADT_ENT_LAPIC_NMI_SRC = some info.nmiSource := rfl
  have hoverrides := h.map_entries hoverride rfl MadtIoapicIntSrc.ofBytes
  have hnmis := hpoints.entries MADT_ENT_LAPIC_NMI_SRC info.nmiSource hnmi
  have hall : info.intSrcOverride.entries.take INT_NUM = _ :=
    h.take_entries hoverride (congrArg some List.length_replicate)
  have hall' : info.nmiSource.entries.take MAX_NMI_NUM = _ :=
    h.take_entries hnmi (congrArg some List.length_replicate)
  rw [TalOS.loadInterrupts, loadEach_eq (loadIntSrc_all byte), ok_bind, loadEach_eq (loadNmiSrc_all byte),
    ok_bind]
  refine ⟨_, rfl, ?_, ?_⟩
  · exact (congrArg _ hall).trans hoverrides
  · refine (congrArg _ (hall'.trans hnmis)).trans ?_
    rw [List.map_map]
    rfl

/-- The I/O APICs all fit into their table. -/
theorem length_listedIoapics (hfits : FitsArrays records) :
    (listedBodies MADT_ENT_IOAPIC records).length ≤ MAX_SUPP_IOAPIC_NUM := by
  have hcount := hfits MADT_ENT_IOAPIC 16 rfl
  have hlisted : records.countP (MadtRecord.listed MADT_ENT_IOAPIC) ≤
      records.countP (fun r => r.entryType.toNat == MADT_ENT_IOAPIC) :=
    List.countP_mono_left fun r _ hl => (Bool.and_eq_true_iff.mp hl).1
  rw [listedBodies, List.length_map, ← List.countP_eq_length_filter]
  exact hlisted.trans hcount

/-- A processor, an I/O APIC, and the timer's IRQ 0 on line 2 of it. -/
def bootRecords : List MadtRecord :=
  [⟨0, [0, 0, 1, 0, 0, 0], by decide, by decide⟩,
    ⟨1, [2, 0, 0, 0, 0xC0, 0xFE, 0, 0, 0, 0], by decide, by decide⟩,
    ⟨2, [0, 0, 2, 0, 0, 0, 0, 0], by decide, by decide⟩]

/-- An RSDP at the start of the BIOS's memory, an RSDT at 0x40 and a MADT at 0x80 with these records. -/
def bootMemory (a : Nat) : UInt8 :=
  if 0xE0000 ≤ a then
    [0x52, 0x53, 0x44, 0x20, 0x50, 0x54, 0x52, 0x20, 161, 0, 0, 0, 0, 0, 0, 0, 0x40].getD (a - 0xE0000) 0
  else if 0xAC ≤ a then (encodeRecords bootRecords).getD (a - 0xAC) 0
  else (List.lookup a [(0x44, 40), (0x64, 0x80), (0x80, 0x41), (0x81, 0x50), (0x82, 0x49), (0x83, 0x43),
    (0x84, 74), (0x89, 215), (0xA6, 0xE0), (0xA7, 0xFE)]).getD 0

/-- Before the firmware's tables are read. -/
def unreadConfig : PlatformConfig where
  cpus := .replicate MAX_SUPP_PROC_NUM ⟨0, 0⟩
  cpuNum := 0
  ioapics := .replicate MAX_SUPP_IOAPIC_NUM ⟨0, 0, 0⟩
  ioapicNum := 0
  lapicPtr := 0
  interrupts := ⟨.replicate MAX_INT_NUM (defaultSource 0), false⟩

end TalOS
