-- SUMMARY: The GDT and TSS of each core, and whether `Set_Kernel_TSS_StackPointer` sets the one that a core uses.
import TalOS.Arch.ApStartup

/-!
# The tables of a core

Each core fills a `Core_Tables_t` of its own: the boot core `BSP_Tables`, the others the
element of `AP_Tables` that `AP_init` chooses. The last descriptor of the GDT in it leads
to the TSS, from which the core takes its kernel stack. The gates of the IDT, which lie
behind these tables, are left out.
-/

namespace TalOS

open MachineInt Access Memory

def BSP_INDEX : Nat := 0
def GDT_ENTRY_SIZE : Nat := 8
def GDT_SEG_NUM : Nat := 6
def KERNEL_CODE_SEL : Nat := GDT_ENTRY_SIZE
def KERNEL_DATA_SEL : Nat := KERNEL_CODE_SEL + GDT_ENTRY_SIZE

/-- `sizeof(tss_entry_t)` -/
def TSS_SIZE : Nat := 104

/-! ## Filling the tables -/

/-- A list of stores, each an address and the bytes stored from it on. -/
abbrev ByteStores := List (Nat × List UInt8)

/-- The bytes that `Set_GDT_descriptor` stores. -/
def gdtDescriptor (limit base pDplSType flags : Nat) : List UInt8 :=
  toLeBytes 2 (limit &&& 0xFFFF) ++ toLeBytes 2 (base &&& 0xFFFF) ++
    [UInt8.ofNat ((base >>> 16) &&& 0xFF), UInt8.ofNat pDplSType,
      UInt8.ofNat (((limit >>> 16) &&& 0xF) ||| ((flags <<< 4) &&& 0xFF)), UInt8.ofNat ((base >>> 24) &&& 0xFF)]

/-- `Set_GDT_descriptor` -/
def setGdtDescriptor (gdt vector limit base pDplSType flags : Nat) : ByteStores :=
  [(gdt + vector * GDT_ENTRY_SIZE, gdtDescriptor limit base pDplSType flags)]

/-- `Set_GDT_TSS_descriptor` -/
def setGdtTssDescriptor (gdt tss vector ss0 esp0 : Nat) : ByteStores :=
  setGdtDescriptor gdt vector TSS_SIZE tss 0x89 0x00 ++
    [(tss, List.replicate TSS_SIZE 0),
      (tss + 8, toLeBytes 4 ss0),
      (tss + 4, toLeBytes 4 esp0),
      (tss + 76, toLeBytes 4 KERNEL_CODE_SEL),
      (tss + 80, toLeBytes 4 KERNEL_DATA_SEL),
      (tss + 84, toLeBytes 4 KERNEL_DATA_SEL),
      (tss + 72, toLeBytes 4 KERNEL_DATA_SEL),
      (tss + 88, toLeBytes 4 KERNEL_DATA_SEL),
      (tss + 92, toLeBytes 4 KERNEL_DATA_SEL)]

/-- `Init_GDTi` -/
def initGdti (gdti sGdtri tss : Nat) : ByteStores :=
  setGdtDescriptor gdti 0 0x00000000 0x00000000 0x00 0x00 ++
    setGdtDescriptor gdti 1 0xFFFFFFFF 0x00000000 0x9A 0xCF ++
    setGdtDescriptor gdti 2 0xFFFFFFFF 0x00000000 0x92 0xCF ++
    setGdtDescriptor gdti 3 0xFFFFFFFF 0x00000000 0xFA 0xCF ++
    setGdtDescriptor gdti 4 0xFFFFFFFF 0x00000000 0xF2 0xCF ++
    setGdtTssDescriptor gdti tss 5 KERNEL_DATA_SEL 0 ++
    [(sGdtri + 2, toLeBytes 4 gdti), (sGdtri, toLeBytes 2 (GDT_ENTRY_SIZE * GDT_SEG_NUM - 1))]

/-! ## Where the tables are -/

/-- `&BSP_Tables`, and the block for `CPU_Num` elements that `AP_Tables` points to. -/
structure TablesPlace where
  bspTables : Nat
  apTables : Nat
  cpuNum : Nat
  bsp_le : bspTables + CORE_TABLES_SIZE ≤ 2 ^ 32
  ap_le : apTables + cpuNum * CORE_TABLES_SIZE ≤ 2 ^ 32
  disjoint : bspTables + CORE_TABLES_SIZE ≤ apTables ∨ apTables + cpuNum * CORE_TABLES_SIZE ≤ bspTables

namespace TablesPlace

/-- `AP_Tables[i]` -/
def apTable (p : TablesPlace) (i : Nat) : Nat := p.apTables + i * CORE_TABLES_SIZE

/-- The tables that a core fills: in `InitTables` the boot core, in `AP_init` the others. -/
def coreTables (p : TablesPlace) (coreId : Nat) : Nat :=
  if coreId = BSP_INDEX then p.bspTables else p.apTable coreId

end TablesPlace

/-- `kernelTSS` of the tables at an address. -/
def kernelTss (tables : Nat) : Nat := tables + GDT_SEG_NUM * GDT_ENTRY_SIZE

/-- `sGdtr` of the tables at an address. -/
def sGdtr (tables : Nat) : Nat := kernelTss tables + TSS_SIZE

/-- `InitTables` and `AP_init`, as far as they fill GDT and TSS of a core. -/
def initCore (p : TablesPlace) (coreId : Nat) (mem : Nat → UInt8) : Nat → UInt8 :=
  writeAll mem (initGdti (p.coreTables coreId) (sGdtr (p.coreTables coreId)) (kernelTss (p.coreTables coreId)))

/-- `Set_Kernel_TSS_StackPointer` -/
def setKernelTssStackPointer (p : TablesPlace) (coreId esp : Nat) (mem : Nat → UInt8) : Nat → UInt8 :=
  if coreId = BSP_INDEX then writeAt mem (kernelTss p.bspTables + 4) (toLeBytes 4 esp)
  else writeAt mem (kernelTss (p.apTable (coreId - 1)) + 4) (toLeBytes 4 esp)

/-! ## The TSS of a core -/

/-- The base address in the bytes of a descriptor. -/
def descriptorBase (descriptor : List UInt8) : Nat :=
  leBytes ((descriptor.drop 2).take 3 ++ descriptor.drop 7)

/-- The address of the TSS that a core has installed in its GDT. -/
def coreTss (p : TablesPlace) (mem : Nat → UInt8) (coreId : Nat) : Nat :=
  descriptorBase (readAt mem (p.coreTables coreId + 5 * GDT_ENTRY_SIZE) GDT_ENTRY_SIZE)

/-- `esp0` of the TSS of a core. -/
def coreEsp0 (p : TablesPlace) (mem : Nat → UInt8) (coreId : Nat) : Nat :=
  leBytes (readAt mem (coreTss p mem coreId + 4) 4)

theorem descriptorBase_gdtDescriptor (limit pDplSType flags : Nat) {base : Nat} (h : base < 2 ^ 32) :
    descriptorBase (gdtDescriptor limit base pDplSType flags) = base := by
  have hlow : base &&& 0xFFFF = base % 2 ^ 16 := Nat.and_two_pow_sub_one_eq_mod base 16
  have hmid : (base >>> 16) &&& 0xFF = base / 2 ^ 16 % 2 ^ 8 := by
    rw [Nat.shiftRight_eq_div_pow]
    exact Nat.and_two_pow_sub_one_eq_mod _ 8
  have hhigh : (base >>> 24) &&& 0xFF = base / 2 ^ 24 % 2 ^ 8 := by
    rw [Nat.shiftRight_eq_div_pow]
    exact Nat.and_two_pow_sub_one_eq_mod _ 8
  simp only [descriptorBase, gdtDescriptor, toLeBytes, hlow, hmid, hhigh, List.cons_append, List.nil_append,
    List.drop_succ_cons, List.drop_zero, List.take_succ_cons, List.take_zero, leBytes, UInt8.toNat_ofNat']
  omega

theorem coreTables_add_le (p : TablesPlace) {coreId : Nat} (h : coreId < p.cpuNum) :
    p.coreTables coreId + CORE_TABLES_SIZE ≤ 2 ^ 32 := by
  unfold TablesPlace.coreTables TablesPlace.apTable
  split_ifs
  · exact p.bsp_le
  · have hmul := Nat.mul_le_mul_right CORE_TABLES_SIZE (Nat.succ_le_of_lt h)
    rw [Nat.succ_mul] at hmul
    exact Nat.le_trans (by omega) p.ap_le

/-- The element of an index and the tables of a core with another id lie apart. -/
theorem apTable_disjoint (p : TablesPlace) {i coreId : Nat} (hi : i < p.cpuNum)
    (hne : coreId = BSP_INDEX ∨ coreId ≠ i) :
    p.coreTables coreId + CORE_TABLES_SIZE ≤ p.apTable i ∨ p.apTable i + CORE_TABLES_SIZE ≤ p.coreTables coreId := by
  have hmul {j k : Nat} (h : j < k) : j * CORE_TABLES_SIZE + CORE_TABLES_SIZE ≤ k * CORE_TABLES_SIZE := by
    rw [← Nat.succ_mul]
    exact Nat.mul_le_mul_right _ h
  have hend := hmul hi
  unfold TablesPlace.coreTables TablesPlace.apTable
  split_ifs with hboot
  · rcases p.disjoint with h | h <;> omega
  · rcases hne with h | h
    · exact absurd h hboot
    · rcases Nat.lt_or_gt_of_ne h with hlt | hlt
      · have hle := hmul hlt
        omega
      · have hle := hmul hlt
        omega

theorem coreTables_disjoint (p : TablesPlace) {coreId other : Nat} (hcore : coreId < p.cpuNum)
    (hother : other < p.cpuNum) (hne : other ≠ coreId) :
    p.coreTables other + CORE_TABLES_SIZE ≤ p.coreTables coreId ∨
      p.coreTables coreId + CORE_TABLES_SIZE ≤ p.coreTables other := by
  have hslot {c : Nat} (h : c ≠ BSP_INDEX) : p.coreTables c = p.apTable c := if_neg h
  by_cases hboot : coreId = BSP_INDEX
  · have hother' : other ≠ BSP_INDEX := hboot ▸ hne
    rw [hslot hother']
    exact (apTable_disjoint p hother (.inl hboot)).symm
  · rw [hslot hboot]
    exact apTable_disjoint p hcore (.inr hne)

/-! ## Setting up the cores -/

@[simp] theorem gdtDescriptor_length (limit base pDplSType flags : Nat) :
    (gdtDescriptor limit base pDplSType flags).length = GDT_ENTRY_SIZE := by
  simp [gdtDescriptor, GDT_ENTRY_SIZE]

/-- Everything that is stored for a core lies in its tables. -/
theorem initGdti_inside (tables : Nat) {store : Nat × List UInt8}
    (h : store ∈ initGdti tables (sGdtr tables) (kernelTss tables)) :
    tables ≤ store.1 ∧ store.1 + store.2.length ≤ tables + CORE_TABLES_SIZE := by
  simp only [initGdti, setGdtDescriptor, setGdtTssDescriptor, List.mem_append, List.mem_cons, List.not_mem_nil,
    or_false] at h
  rcases h with ((((((rfl | rfl) | rfl) | rfl) | rfl) | rfl | rfl | rfl | rfl | rfl | rfl | rfl | rfl | rfl | rfl) |
    rfl | rfl) <;>
  simp [sGdtr, kernelTss, GDT_ENTRY_SIZE, GDT_SEG_NUM, TSS_SIZE, CORE_TABLES_SIZE] <;>
  omega

/-- The tables of other cores are left alone. -/
theorem initCore_other (p : TablesPlace) (mem : Nat → UInt8) {coreId other : Nat} (hcore : coreId < p.cpuNum)
    (hother : other < p.cpuNum) (hne : other ≠ coreId) :
    coreTss p (initCore p coreId mem) other = coreTss p mem other := by
  have hapart := coreTables_disjoint p hcore hother hne
  refine congrArg descriptorBase (readAt_writeAll_of_disjoint mem fun store hstore => ?_)
  obtain ⟨hlow, hhigh⟩ := initGdti_inside _ hstore
  unfold CORE_TABLES_SIZE at hapart hhigh
  unfold GDT_ENTRY_SIZE
  omega

/-- The descriptor of the TSS is stored once, and nothing is stored over it. -/
theorem initGdti_descriptor (mem : Nat → UInt8) (tables : Nat) :
    readAt (writeAll mem (initGdti tables (sGdtr tables) (kernelTss tables))) (tables + 5 * GDT_ENTRY_SIZE)
      GDT_ENTRY_SIZE = gdtDescriptor TSS_SIZE (kernelTss tables) 0x89 0x00 := by
  have hsplit : initGdti tables (sGdtr tables) (kernelTss tables) =
      (initGdti tables (sGdtr tables) (kernelTss tables)).take 5 ++
        (tables + 5 * GDT_ENTRY_SIZE, gdtDescriptor TSS_SIZE (kernelTss tables) 0x89 0x00) ::
          (initGdti tables (sGdtr tables) (kernelTss tables)).drop 6 := rfl
  rw [hsplit, ← gdtDescriptor_length TSS_SIZE (kernelTss tables) 0x89 0x00]
  refine readAt_writeAll mem fun store hstore => .inl ?_
  simp only [initGdti, setGdtDescriptor, setGdtTssDescriptor, List.cons_append, List.nil_append,
    List.drop_succ_cons, List.drop_zero, List.mem_cons, List.not_mem_nil, or_false] at hstore
  rw [gdtDescriptor_length]
  rcases hstore with rfl | rfl | rfl | rfl | rfl | rfl | rfl | rfl | rfl | rfl | rfl <;>
  simp [sGdtr, kernelTss, GDT_ENTRY_SIZE, GDT_SEG_NUM, TSS_SIZE]

/-- A core installs the TSS in its own tables. -/
theorem initCore_coreTss (p : TablesPlace) (mem : Nat → UInt8) {coreId : Nat} (hcore : coreId < p.cpuNum) :
    coreTss p (initCore p coreId mem) coreId = kernelTss (p.coreTables coreId) := by
  have hle := coreTables_add_le p hcore
  have hlt : kernelTss (p.coreTables coreId) < 2 ^ 32 := by
    unfold kernelTss GDT_ENTRY_SIZE GDT_SEG_NUM
    unfold CORE_TABLES_SIZE at hle
    omega
  unfold coreTss initCore
  rw [initGdti_descriptor, descriptorBase_gdtDescriptor _ _ _ hlt]

/-- Each core has installed the TSS in its own tables. -/
def Installed (p : TablesPlace) (mem : Nat → UInt8) : Prop :=
  ∀ coreId < p.cpuNum, coreTss p mem coreId = kernelTss (p.coreTables coreId)

/-- In whatever order the cores set up their tables, each has its own TSS afterwards. -/
theorem initCores_installed (p : TablesPlace) (mem : Nat → UInt8) {order : List Nat}
    (horder : ∀ coreId ∈ order, coreId < p.cpuNum) (hall : ∀ coreId < p.cpuNum, coreId ∈ order) :
    Installed p (order.foldl (fun mem coreId => initCore p coreId mem) mem) := by
  intro coreId hcore
  have hrun : coreTss p mem coreId = kernelTss (p.coreTables coreId) ∨ coreId ∈ order := .inr (hall coreId hcore)
  clear hall
  induction order generalizing mem with
  | nil => simpa using hrun
  | cons first order ih =>
    obtain ⟨hfirst, hrest⟩ := List.forall_mem_cons.mp horder
    refine ih (initCore p first mem) hrest ?_
    by_cases hsame : coreId = first
    · exact .inl (hsame ▸ initCore_coreTss p mem (hsame ▸ hcore))
    · rw [initCore_other p mem hfirst hcore hsame]
      exact hrun.imp_right fun hmem => (List.mem_cons.mp hmem).resolve_left hsame

/-! ## Setting the stack pointer -/

/-- The tables that `Set_Kernel_TSS_StackPointer` writes to. -/
def TablesPlace.setTables (p : TablesPlace) (coreId : Nat) : Nat :=
  if coreId = BSP_INDEX then p.bspTables else p.apTable (coreId - 1)

theorem setKernelTssStackPointer_eq (p : TablesPlace) (coreId esp : Nat) (mem : Nat → UInt8) :
    setKernelTssStackPointer p coreId esp mem =
      writeAt mem (kernelTss (p.setTables coreId) + 4) (toLeBytes 4 esp) := by
  unfold setKernelTssStackPointer TablesPlace.setTables
  split_ifs <;> rfl

section
variable {p : TablesPlace} {mem : Nat → UInt8} {coreId other : Nat}

/-- They are the tables of the core before `coreId`, or the boot core's own. -/
theorem setTables_of_ne_one (h : coreId ≠ 1) : p.setTables coreId = p.coreTables (coreId - 1) := by
  unfold TablesPlace.setTables TablesPlace.coreTables BSP_INDEX
  split_ifs
  · rfl
  · omega
  · omega
  · rfl

/-- The tables of all other cores lie apart from them, and `AP_Tables[0]` is used by no core. -/
theorem setTables_disjoint (hcore : coreId < p.cpuNum) (hother : other < p.cpuNum)
    (h : coreId = 1 ∨ other ≠ coreId - 1) :
    p.coreTables other + CORE_TABLES_SIZE ≤ p.setTables coreId ∨
      p.setTables coreId + CORE_TABLES_SIZE ≤ p.coreTables other := by
  by_cases hone : coreId = 1
  · have hslot : p.setTables coreId = p.apTable 0 := by
      rw [hone]
      rfl
    rw [hslot]
    exact apTable_disjoint p (Nat.zero_lt_of_lt hcore) (eq_or_ne other 0)
  · rw [setTables_of_ne_one hone]
    exact coreTables_disjoint p (Nat.lt_of_le_of_lt (Nat.sub_le _ _) hcore) hother (h.resolve_left hone)

/-- The GDTs are left alone. -/
theorem coreTss_set (esp : Nat) (hcore : coreId < p.cpuNum) (hother : other < p.cpuNum) :
    coreTss p (setKernelTssStackPointer p coreId esp mem) other = coreTss p mem other := by
  have hapart : p.setTables coreId = p.coreTables other ∨
      p.coreTables other + CORE_TABLES_SIZE ≤ p.setTables coreId ∨
        p.setTables coreId + CORE_TABLES_SIZE ≤ p.coreTables other := by
    by_cases h : coreId = 1 ∨ other ≠ coreId - 1
    · exact .inr (setTables_disjoint hcore hother h)
    · obtain ⟨hone, hsame⟩ := not_or.mp h
      exact .inl (not_not.mp hsame ▸ setTables_of_ne_one hone)
  rw [setKernelTssStackPointer_eq]
  refine congrArg descriptorBase (readAt_writeAt_of_disjoint mem ?_)
  unfold CORE_TABLES_SIZE at hapart
  unfold kernelTss GDT_SEG_NUM GDT_ENTRY_SIZE
  rw [toLeBytes_length]
  omega

/-- The bytes of the TSS of a core. -/
def tssBytes (p : TablesPlace) (mem : Nat → UInt8) (coreId : Nat) : List UInt8 :=
  readAt mem (coreTss p mem coreId) TSS_SIZE

theorem coreEsp0_of_tssBytes {mem' : Nat → UInt8} (htss : coreTss p mem' coreId = coreTss p mem coreId)
    (h : tssBytes p mem' coreId = tssBytes p mem coreId) : coreEsp0 p mem' coreId = coreEsp0 p mem coreId := by
  unfold tssBytes at h
  rw [htss, readAt_eq_iff] at h
  refine congrArg leBytes (htss ▸ readAt_congr fun i hi => ?_)
  rw [htss, Nat.add_assoc]
  exact h (4 + i) (by unfold TSS_SIZE; omega)

/-- The TSSs of all other cores are left alone. -/
theorem tssBytes_set_other (esp : Nat) (hinst : Installed p mem) (hcore : coreId < p.cpuNum)
    (hother : other < p.cpuNum) (h : coreId = 1 ∨ other ≠ coreId - 1) :
    tssBytes p (setKernelTssStackPointer p coreId esp mem) other = tssBytes p mem other := by
  have hapart := setTables_disjoint hcore hother h
  unfold tssBytes
  rw [coreTss_set esp hcore hother, hinst other hother, setKernelTssStackPointer_eq]
  refine readAt_writeAt_of_disjoint mem ?_
  unfold CORE_TABLES_SIZE at hapart
  unfold kernelTss GDT_SEG_NUM GDT_ENTRY_SIZE TSS_SIZE
  rw [toLeBytes_length]
  omega

/-- What was set is read back from the tables that were written to. -/
theorem coreEsp0_set {esp : Nat} (hesp : esp < 2 ^ 32) (hinst : Installed p mem) (hcore : coreId < p.cpuNum)
    (h : coreId ≠ 1) : coreEsp0 p (setKernelTssStackPointer p coreId esp mem) (coreId - 1) = esp := by
  have hother : coreId - 1 < p.cpuNum := Nat.lt_of_le_of_lt (Nat.sub_le _ _) hcore
  unfold coreEsp0
  rw [coreTss_set esp hcore hother, hinst _ hother, setKernelTssStackPointer_eq, setTables_of_ne_one h]
  have hread := readAt_writeAt mem (kernelTss (p.coreTables (coreId - 1)) + 4) (toLeBytes 4 esp)
  rw [toLeBytes_length] at hread
  rw [hread, leBytes_toLeBytes]
  exact Nat.mod_eq_of_lt hesp

/-- That core's TSS is changed unless the pointer was there before. -/
theorem tssBytes_set_hit {esp : Nat} (hesp : esp < 2 ^ 32) (hinst : Installed p mem) (hcore : coreId < p.cpuNum)
    (h : coreId ≠ 1) :
    tssBytes p (setKernelTssStackPointer p coreId esp mem) (coreId - 1) = tssBytes p mem (coreId - 1) ↔
      coreEsp0 p mem (coreId - 1) = esp := by
  have hother : coreId - 1 < p.cpuNum := Nat.lt_of_le_of_lt (Nat.sub_le _ _) hcore
  constructor
  · intro hsame
    exact (coreEsp0_of_tssBytes (coreTss_set esp hcore hother) hsame).symm.trans (coreEsp0_set hesp hinst hcore h)
  · intro hthere
    have hbytes : toLeBytes 4 esp = readAt mem (kernelTss (p.coreTables (coreId - 1)) + 4) 4 := by
      rw [← hthere, coreEsp0, hinst _ hother]
      have hback := toLeBytes_leBytes (readAt mem (kernelTss (p.coreTables (coreId - 1)) + 4) 4)
      rwa [length_readAt] at hback
    have hmem : setKernelTssStackPointer p coreId esp mem = mem := by
      rw [setKernelTssStackPointer_eq, setTables_of_ne_one h, hbytes, writeAt_readAt]
    rw [hmem]

end

/-- For every number of cores and every core: its stack pointer is set, and no other core's TSS changes, exactly
for the boot core, or if the pointer is already in the TSS of the core and of the one before it. -/
theorem setKernelTssStackPointer_iff (p : TablesPlace) (mem : Nat → UInt8) (hinst : Installed p mem)
    (coreId esp : Nat) (hcore : coreId < p.cpuNum) (hesp : esp < 2 ^ 32) :
    (coreEsp0 p (setKernelTssStackPointer p coreId esp mem) coreId = esp ∧
      ∀ other < p.cpuNum, other ≠ coreId →
        tssBytes p (setKernelTssStackPointer p coreId esp mem) other = tssBytes p mem other) ↔
    coreId = BSP_INDEX ∨ coreEsp0 p mem coreId = esp ∧ (coreId = 1 ∨ coreEsp0 p mem (coreId - 1) = esp) := by
  by_cases hboot : coreId = BSP_INDEX
  · have hone : coreId ≠ 1 := hboot ▸ by decide
    have hpred : coreId - 1 = coreId := by rw [hboot]; rfl
    refine iff_of_true ⟨?_, fun other hother hne => ?_⟩ (.inl hboot)
    · have hset := coreEsp0_set hesp hinst hcore hone
      rwa [hpred] at hset
    · exact tssBytes_set_other esp hinst hcore hother (.inr (hpred.symm ▸ hne))
  -- The core's own tables are never the ones that are written to.
  have hown : coreId = 1 ∨ coreId ≠ coreId - 1 := .inr (by unfold BSP_INDEX at hboot; omega)
  have hesp0 : coreEsp0 p (setKernelTssStackPointer p coreId esp mem) coreId = coreEsp0 p mem coreId :=
    coreEsp0_of_tssBytes (coreTss_set esp hcore hcore) (tssBytes_set_other esp hinst hcore hcore hown)
  rw [hesp0, or_iff_right hboot]
  refine and_congr_right fun _ => ?_
  by_cases hone : coreId = 1
  · exact iff_of_true (fun other hother _ => tssBytes_set_other esp hinst hcore hother (.inl hone)) (.inl hone)
  rw [or_iff_right hone, ← tssBytes_set_hit hesp hinst hcore hone]
  constructor
  · intro hall
    exact hall (coreId - 1) (Nat.lt_of_le_of_lt (Nat.sub_le _ _) hcore) (hown.resolve_left hone).symm
  · intro hhit other hother hne
    by_cases hother' : other = coreId - 1
    · rw [hother']
      exact hhit
    · exact tssBytes_set_other esp hinst hcore hother (.inr hother')

/-- Two cores with their tables at fixed addresses. -/
def twoCores : TablesPlace where
  bspTables := 0x100000
  apTables := 0x200000
  cpuNum := 2
  bsp_le := by decide
  ap_le := by decide
  disjoint := .inl (by decide)

/-- The memory of the two cores when both have set up their tables. -/
def twoCoresMemory : Nat → UInt8 := [0, 1].foldl (fun mem coreId => initCore twoCores coreId mem) fun _ => 0

theorem twoCoresMemory_installed : Installed twoCores twoCoresMemory := by
  refine initCores_installed twoCores _ (by decide) ?_
  decide

/-- The boot core. -/
theorem setKernelTssStackPointer_boot :
    coreEsp0 twoCores (setKernelTssStackPointer twoCores 0 0x9000 twoCoresMemory) 0 = 0x9000 :=
  ((setKernelTssStackPointer_iff twoCores twoCoresMemory twoCoresMemory_installed 0 0x9000 (by decide)
    (by decide)).mpr (.inl rfl)).1

/-- The other one: its stack pointer stays 0. -/
theorem not_setKernelTssStackPointer :
    coreEsp0 twoCores (setKernelTssStackPointer twoCores 1 0x9000 twoCoresMemory) 1 ≠ 0x9000 := by
  decide

end TalOS
