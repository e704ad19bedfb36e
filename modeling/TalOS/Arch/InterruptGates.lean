-- SUMMARY: The IDT of each core: which code the CPU enters at a vector, after any calls of `ISR_Install` and any start of APs.
import TalOS.Arch.CoreTables
import TalOS.Arch.IsrTable

/-!
# The gates of a core

`InitTables` builds the tables of the boot core from `isr_addr_list`, and `AP_init` those
of another core, at any time afterwards. The CPU then finds the code for a vector through
the registers that `Load_GDT` and `Load_IDT` have loaded, and the code calls through
`isr_table`, which `ISR_Install` and `ISR_Uninstall` change at any time.
-/

namespace TalOS

open MachineInt Access Memory

/-! ## Filling the IDT -/

def IDT_ENTRY_SIZE : Nat := 8
def INTGATE : Nat := 0x8E

/-- The bytes that `Set_IDT_descriptor` stores. -/
def idtDescriptor (isr flags : Nat) : List UInt8 :=
  toLeBytes 2 (isr &&& 0xFFFF) ++ toLeBytes 2 0x08 ++ [0, UInt8.ofNat flags] ++ toLeBytes 2 (isr >>> 16)

/-- `Set_IDT_descriptor`; `vector` is a `uint8_t`. -/
def setIdtDescriptor (inIdt vector isr flags : Nat) : ByteStores :=
  [(inIdt + vector % 256 * IDT_ENTRY_SIZE, idtDescriptor isr flags)]

/-- `Init_IDTi` -/
def initIdti (idti sIdtri : Nat) (isrs : Nat → Nat) (isrsLen : Nat) : ByteStores :=
  [(sIdtri + 2, toLeBytes 4 idti), (sIdtri, toLeBytes 2 (IDT_ENTRY_SIZE * INT_NUM - 1))] ++
    (List.range isrsLen).flatMap fun i => setIdtDescriptor idti i (isrs i) INTGATE

/-! ## The cores -/

inductive Core where
  | bsp
  | ap (id : Nat)
  deriving Repr, DecidableEq

/-- The tables that `InitTables` and `AP_init` fill. -/
def TablesPlace.tables (p : TablesPlace) : Core → Nat
  | .bsp => p.bspTables
  | .ap id => p.apTable id

/-- There are tables for a core. -/
def TablesPlace.Has (p : TablesPlace) : Core → Prop
  | .bsp => True
  | .ap id => id < p.cpuNum

instance (p : TablesPlace) : (core : Core) → Decidable (p.Has core)
  | .bsp => inferInstanceAs (Decidable True)
  | .ap id => inferInstanceAs (Decidable (id < p.cpuNum))

/-- `idt` of the tables at an address. -/
def idtOf (tables : Nat) : Nat := sGdtr tables + 6

/-- `sIdtr` of the tables at an address. -/
def sIdtr (tables : Nat) : Nat := idtOf tables + IDT_ENTRY_SIZE * INT_NUM

/-- GDTR or IDTR. -/
structure TableRegister where
  base : Nat
  limit : Nat
  deriving Repr, DecidableEq

/-- What `lgdt` and `lidt` load from an address. -/
def loadRegister (mem : Nat → UInt8) (a : Nat) : TableRegister :=
  ⟨leBytes (readAt mem (a + 2) 4), leBytes (readAt mem a 2)⟩

/-- The handlers, the tables, and the registers of each core once they are loaded. -/
structure TablesState where
  words : IsrWords
  mem : Nat → UInt8
  gdtr : Core → Option TableRegister
  idtr : Core → Option TableRegister

/-- `Init_GDTi`, `Load_GDT` included. -/
def TablesState.initGdt (s : TablesState) (p : TablesPlace) (core : Core) : TablesState :=
  let mem := writeAll s.mem (initGdti (p.tables core) (sGdtr (p.tables core)) (kernelTss (p.tables core)))
  { s with mem := mem, gdtr := Function.update s.gdtr core (some (loadRegister mem (sGdtr (p.tables core)))) }

/-- `Init_IDTi`, `Load_IDT` included. -/
def TablesState.initIdt (s : TablesState) (p : TablesPlace) (core : Core) : TablesState :=
  let mem := writeAll s.mem
    (initIdti (idtOf (p.tables core)) (sIdtr (p.tables core)) (fun i => s.words (isrAddrList i)) INT_NUM)
  { s with mem := mem, idtr := Function.update s.idtr core (some (loadRegister mem (sIdtr (p.tables core)))) }

theorem initGdt_mem (s : TablesState) (p : TablesPlace) (core : Core) : (s.initGdt p core).mem =
    writeAll s.mem (initGdti (p.tables core) (sGdtr (p.tables core)) (kernelTss (p.tables core))) := rfl

theorem initIdt_mem (s : TablesState) (p : TablesPlace) (core : Core) : (s.initIdt p core).mem = writeAll s.mem
    (initIdti (idtOf (p.tables core)) (sIdtr (p.tables core)) (fun i => s.words (isrAddrList i)) INT_NUM) := by
  dsimp only [TablesState.initIdt]

@[simp] theorem initGdt_words (s : TablesState) (p : TablesPlace) (core : Core) :
    (s.initGdt p core).words = s.words := rfl

@[simp] theorem initIdt_words (s : TablesState) (p : TablesPlace) (core : Core) :
    (s.initIdt p core).words = s.words := by
  dsimp only [TablesState.initIdt]

/-- `InitTables` -/
def bootTables (p : TablesPlace) (defaultISR : Nat) (s : TablesState) : TablesState :=
  let s := s.initGdt p .bsp
  { s with words := initTables defaultISR s.words }.initIdt p .bsp

/-- What happens once the boot core has its tables. -/
inductive TableEvent where
  | call (call : IsrCall)
  /-- the tables in `AP_init` of the core with an id -/
  | apInit (id : Nat)
  deriving Repr, DecidableEq

/-- An event; undefined for a core that `AP_Tables` has no element for. -/
def tableStep (p : TablesPlace) : TableEvent → TablesState → Option TablesState
  | .call call, s => some { s with words := call.result.apply s.words }
  | .apInit id, s => if p.Has (.ap id) then some ((s.initGdt p (.ap id)).initIdt p (.ap id)) else none

/-! ## What the CPU finds -/

structure Segment where
  base : Nat
  limit : Nat
  access : Nat
  deriving Repr, DecidableEq

/-- The bytes of a segment descriptor as the CPU reads them: with the granularity bit the limit counts pages. -/
def decodeSegment (d : List UInt8) : Segment :=
  let limit := leBytes (d.take 2) + (d.getD 6 0).toNat % 16 * 2 ^ 16
  ⟨descriptorBase d, if (d.getD 6 0).toNat / 128 = 1 then limit * 4096 + 4095 else limit, (d.getD 5 0).toNat⟩

/-- The segment of a selector; none beyond the limit, and none for the null selector. -/
def readSegment (mem : Nat → UInt8) (gdtr : TableRegister) (selector : Nat) : Option Segment :=
  if selector / 8 = 0 ∨ gdtr.limit < selector / 8 * 8 + 7 then none
  else some (decodeSegment (readAt mem (gdtr.base + selector / 8 * 8) 8))

/-- A present code segment of ring 0. -/
def Segment.isKernelCode (g : Segment) : Prop := g.access / 128 = 1 ∧ g.access / 32 % 4 = 0 ∧ g.access / 8 % 4 = 3

instance (g : Segment) : Decidable g.isKernelCode := inferInstanceAs (Decidable (_ ∧ _ ∧ _))

/-- The address that the CPU of a core enters at a vector: through a present 32-bit interrupt gate, whose segment is
one of kernel code and has the offset inside its limit. -/
def vectorEntry (s : TablesState) (core : Core) (vector : Nat) : Option Nat := do
  let idtr ← s.idtr core
  let gdtr ← s.gdtr core
  if idtr.limit < vector * 8 + 7 then none
  let gate := readAt s.mem (idtr.base + vector * 8) 8
  if (gate.getD 5 0).toNat / 128 ≠ 1 ∨ (gate.getD 5 0).toNat % 32 ≠ 0x0E then none
  let offset := leBytes (gate.take 2 ++ gate.drop 6)
  let segment ← readSegment s.mem gdtr (leBytes ((gate.drop 2).take 2))
  if ¬ segment.isKernelCode ∨ segment.limit < offset then none
  return u32 (segment.base + offset)

/-! ## Descriptors -/

theorem decodeSegment_kernelCode :
    decodeSegment (gdtDescriptor 0xFFFFFFFF 0x00000000 0x9A 0xCF) = ⟨0, 0xFFFFFFFF, 0x9A⟩ := by
  decide

@[simp] theorem idtDescriptor_length (isr flags : Nat) : (idtDescriptor isr flags).length = IDT_ENTRY_SIZE := by
  simp [idtDescriptor, IDT_ENTRY_SIZE]

/-- The two halves of the offset in a gate. -/
theorem idtDescriptor_offset (isr flags : Nat) :
    leBytes ((idtDescriptor isr flags).take 2 ++ (idtDescriptor isr flags).drop 6) = u32 isr := by
  have hlow : isr &&& 0xFFFF = isr % 2 ^ 16 := Nat.and_two_pow_sub_one_eq_mod isr 16
  have hhigh : isr >>> 16 = isr / 2 ^ 16 := Nat.shiftRight_eq_div_pow isr 16
  simp only [idtDescriptor, toLeBytes, hlow, hhigh, List.cons_append, List.nil_append, List.take_succ_cons,
    List.take_zero, List.drop_succ_cons, List.drop_zero, leBytes, UInt8.toNat_ofNat', u32]
  omega

theorem idtDescriptor_selector (isr flags : Nat) :
    leBytes (((idtDescriptor isr flags).drop 2).take 2) = KERNEL_CODE_SEL := rfl

theorem idtDescriptor_attributes (isr flags : Nat) :
    (idtDescriptor isr flags).getD 5 0 = UInt8.ofNat flags := rfl

/-! ## The tables of one core -/

/-- The registers of a core lead to its own tables, where kernel code is flat and the gates hold `gates`. -/
structure HasGates (p : TablesPlace) (core : Core) (gates : Nat → Nat) (s : TablesState) : Prop where
  gdtr : s.gdtr core = some ⟨p.tables core, GDT_ENTRY_SIZE * GDT_SEG_NUM - 1⟩
  idtr : s.idtr core = some ⟨idtOf (p.tables core), IDT_ENTRY_SIZE * INT_NUM - 1⟩
  code : readAt s.mem (p.tables core + GDT_ENTRY_SIZE) GDT_ENTRY_SIZE =
    gdtDescriptor 0xFFFFFFFF 0x00000000 0x9A 0xCF
  gate : ∀ v < INT_NUM,
    readAt s.mem (idtOf (p.tables core) + v * IDT_ENTRY_SIZE) IDT_ENTRY_SIZE = idtDescriptor (gates v) INTGATE

variable {p : TablesPlace} {core other : Core} {gates : Nat → Nat} {s s' : TablesState}

/-- The CPU enters what the gates hold. -/
theorem HasGates.vectorEntry (h : HasGates p core gates s) {v : Nat} (hv : v < INT_NUM) :
    vectorEntry s core v = some (u32 (gates v)) := by
  have hlimit : ¬ IDT_ENTRY_SIZE * INT_NUM - 1 < v * 8 + 7 := by
    unfold IDT_ENTRY_SIZE INT_NUM at *
    omega
  have hgate : readAt s.mem (idtOf (p.tables core) + v * 8) 8 = idtDescriptor (gates v) INTGATE := h.gate v hv
  have hsegment : readSegment s.mem ⟨p.tables core, GDT_ENTRY_SIZE * GDT_SEG_NUM - 1⟩ KERNEL_CODE_SEL =
      some ⟨0, 0xFFFFFFFF, 0x9A⟩ := by
    rw [← decodeSegment_kernelCode, ← h.code]
    rfl
  have hattributes : ¬ ((UInt8.ofNat INTGATE).toNat / 128 ≠ 1 ∨ (UInt8.ofNat INTGATE).toNat % 32 ≠ 0x0E) := by
    decide
  have hkernel : (⟨0, 0xFFFFFFFF, 0x9A⟩ : Segment).isKernelCode := by
    decide
  have hinside : ¬ (¬ (⟨0, 0xFFFFFFFF, 0x9A⟩ : Segment).isKernelCode ∨ 0xFFFFFFFF < u32 (gates v)) := by
    have hlt := u32_lt (gates v)
    exact not_or.mpr ⟨not_not.mpr hkernel, by omega⟩
  simp only [TalOS.vectorEntry, h.idtr, h.gdtr, Option.bind_eq_bind, Option.bind_some, if_neg hlimit, hgate,
    idtDescriptor_attributes, if_neg hattributes, idtDescriptor_selector, idtDescriptor_offset, hsegment,
    if_neg hinside, Nat.zero_add]
  exact congrArg some (u32_of_lt (u32_lt _))

/-- Stores outside the tables of a core do not show to it. -/
theorem HasGates.frame (h : HasGates p core gates s) (hgdtr : s'.gdtr core = s.gdtr core)
    (hidtr : s'.idtr core = s.idtr core)
    (hmem : ∀ i < CORE_TABLES_SIZE, s'.mem (p.tables core + i) = s.mem (p.tables core + i)) :
    HasGates p core gates s' := by
  have hread : ∀ d n, d + n ≤ CORE_TABLES_SIZE →
      readAt s'.mem (p.tables core + d) n = readAt s.mem (p.tables core + d) n := by
    intro d n hd
    refine readAt_congr fun i hi => ?_
    rw [Nat.add_assoc]
    exact hmem (d + i) (by omega)
  refine ⟨hgdtr.trans h.gdtr, hidtr.trans h.idtr, (hread _ _ (by decide)).trans h.code, fun v hv => ?_⟩
  have hgate := hread (158 + v * IDT_ENTRY_SIZE) IDT_ENTRY_SIZE (by
    unfold INT_NUM at hv
    unfold IDT_ENTRY_SIZE CORE_TABLES_SIZE
    omega)
  rw [← Nat.add_assoc] at hgate
  exact hgate.trans (h.gate v hv)

/-! ## Filling the tables of one core -/

/-- Everything that is stored for the IDT of a core lies in its tables, behind the GDT and the TSS. -/
theorem initIdti_inside (tables : Nat) (isrs : Nat → Nat) {store : Nat × List UInt8}
    (h : store ∈ initIdti (idtOf tables) (sIdtr tables) isrs INT_NUM) :
    idtOf tables ≤ store.1 ∧ store.1 + store.2.length ≤ tables + CORE_TABLES_SIZE := by
  have hplace : sIdtr tables = idtOf tables + 2048 ∧ tables + CORE_TABLES_SIZE = idtOf tables + 2054 := ⟨rfl, by
    unfold idtOf sGdtr kernelTss CORE_TABLES_SIZE TSS_SIZE GDT_SEG_NUM GDT_ENTRY_SIZE
    omega⟩
  obtain ⟨hregister, hend⟩ := hplace
  rw [initIdti, List.mem_append, List.mem_flatMap, hregister] at h
  rw [hend]
  rcases h with h | ⟨v, -, hv⟩
  · simp only [List.mem_cons, List.not_mem_nil, or_false] at h
    rcases h with rfl | rfl <;>
    rw [toLeBytes_length] <;>
    omega
  · obtain rfl : store = _ := List.mem_singleton.mp hv
    rw [idtDescriptor_length]
    have hlt := Nat.mod_lt v (show 256 > 0 by decide)
    unfold IDT_ENTRY_SIZE
    omega

/-- Each gate is stored once. -/
theorem gates_stored (mem : Nat → UInt8) (idti : Nat) (isrs : Nat → Nat) {n v : Nat} (hn : n ≤ INT_NUM) (hv : v < n) :
    readAt (writeAll mem ((List.range n).flatMap fun i => setIdtDescriptor idti i (isrs i) INTGATE))
      (idti + v * IDT_ENTRY_SIZE) IDT_ENTRY_SIZE = idtDescriptor (isrs v) INTGATE := by
  induction n with
  | zero => cases hv
  | succ n ih =>
    have hmod : n % 256 = n := Nat.mod_eq_of_lt hn
    rw [List.range_succ, List.flatMap_append, writeAll_append, List.flatMap_singleton, setIdtDescriptor, hmod]
    rcases Nat.lt_or_eq_of_le (Nat.le_of_lt_succ hv) with hlt | rfl
    · refine (readAt_writeAll_of_disjoint _ fun store hstore => .inl ?_).trans (ih (Nat.le_of_succ_le hn) hlt)
      obtain rfl : store = _ := List.mem_singleton.mp hstore
      show _ ≤ idti + n * IDT_ENTRY_SIZE
      unfold IDT_ENTRY_SIZE
      omega
    · rw [← idtDescriptor_length (isrs v) INTGATE]
      exact readAt_writeAt _ _ _

/-- What the last two stores of a register leave there. -/
theorem loadRegister_stored (mem : Nat → UInt8) (before after : ByteStores) (a base limit : Nat)
    (hbase : base < 256 ^ 4) (hlimit : limit < 256 ^ 2)
    (hafter : ∀ store ∈ after, store.1 + store.2.length ≤ a ∨ a + 6 ≤ store.1) :
    loadRegister (writeAll mem (before ++ [(a + 2, toLeBytes 4 base), (a, toLeBytes 2 limit)] ++ after)) a =
      ⟨base, limit⟩ := by
  have hbase' : readAt (writeAll mem (before ++ [(a + 2, toLeBytes 4 base), (a, toLeBytes 2 limit)] ++ after))
      (a + 2) 4 = toLeBytes 4 base := by
    rw [List.append_assoc]
    refine readAt_writeAll (l := toLeBytes 4 base) mem fun store hstore => ?_
    rw [toLeBytes_length]
    rcases List.mem_cons.mp hstore with rfl | hstore
    · exact .inr (by rw [toLeBytes_length])
    · have hapart := hafter store hstore
      omega
  have hlimit' : readAt (writeAll mem (before ++ [(a + 2, toLeBytes 4 base), (a, toLeBytes 2 limit)] ++ after))
      a 2 = toLeBytes 2 limit := by
    have hsplit : before ++ [(a + 2, toLeBytes 4 base), (a, toLeBytes 2 limit)] ++ after =
        (before ++ [(a + 2, toLeBytes 4 base)]) ++ (a, toLeBytes 2 limit) :: after := by
      simp
    rw [hsplit]
    refine readAt_writeAll (l := toLeBytes 2 limit) mem fun store hstore => ?_
    have hapart := hafter store hstore
    rw [toLeBytes_length]
    omega
  rw [loadRegister, hbase', hlimit', leBytes_toLeBytes, leBytes_toLeBytes, Nat.mod_eq_of_lt hbase,
    Nat.mod_eq_of_lt hlimit]

/-- The descriptor of kernel code is stored once. -/
theorem initGdti_code (mem : Nat → UInt8) (tables : Nat) :
    readAt (writeAll mem (initGdti tables (sGdtr tables) (kernelTss tables))) (tables + GDT_ENTRY_SIZE)
      GDT_ENTRY_SIZE = gdtDescriptor 0xFFFFFFFF 0x00000000 0x9A 0xCF := by
  have hsplit : initGdti tables (sGdtr tables) (kernelTss tables) =
      (initGdti tables (sGdtr tables) (kernelTss tables)).take 1 ++
        (tables + 1 * GDT_ENTRY_SIZE, gdtDescriptor 0xFFFFFFFF 0x00000000 0x9A 0xCF) ::
          (initGdti tables (sGdtr tables) (kernelTss tables)).drop 2 := rfl
  rw [hsplit, ← gdtDescriptor_length 0xFFFFFFFF 0x00000000 0x9A 0xCF]
  refine readAt_writeAll mem fun store hstore => .inl ?_
  simp only [initGdti, setGdtDescriptor, setGdtTssDescriptor, List.cons_append, List.nil_append,
    List.drop_succ_cons, List.drop_zero, List.mem_cons, List.not_mem_nil, or_false] at hstore
  rw [gdtDescriptor_length]
  rcases hstore with rfl | rfl | rfl | rfl | rfl | rfl | rfl | rfl | rfl | rfl | rfl | rfl | rfl | rfl | rfl <;>
  simp [sGdtr, kernelTss, GDT_ENTRY_SIZE, GDT_SEG_NUM, TSS_SIZE]

theorem tables_add_le (h : p.Has core) : p.tables core + CORE_TABLES_SIZE ≤ 2 ^ 32 := by
  cases core with
  | bsp => exact p.bsp_le
  | ap id =>
    have hmul := Nat.mul_le_mul_right CORE_TABLES_SIZE (Nat.succ_le_of_lt h)
    have hend := p.ap_le
    rw [Nat.succ_mul] at hmul
    show p.apTables + id * CORE_TABLES_SIZE + CORE_TABLES_SIZE ≤ 2 ^ 32
    omega

/-- `Init_GDTi` and `Init_IDTi` give a core its gates: the addresses that `isr_addr_list` holds. -/
theorem hasGates_init (h : p.Has core) (hgdtr : s'.gdtr = (s.initGdt p core).gdtr)
    (hmem : s'.mem = (s.initGdt p core).mem) :
    HasGates p core (fun v => s'.words (isrAddrList v)) (s'.initIdt p core) := by
  have hle := tables_add_le h
  have hgdtr' : loadRegister (writeAll s.mem (initGdti (p.tables core) (sGdtr (p.tables core))
      (kernelTss (p.tables core)))) (sGdtr (p.tables core)) = ⟨p.tables core, GDT_ENTRY_SIZE * GDT_SEG_NUM - 1⟩ := by
    have hlast := loadRegister_stored s.mem
      ((initGdti (p.tables core) (sGdtr (p.tables core)) (kernelTss (p.tables core))).take 15) []
      (sGdtr (p.tables core)) (p.tables core) (GDT_ENTRY_SIZE * GDT_SEG_NUM - 1) (by
        unfold CORE_TABLES_SIZE at hle
        omega) (by decide) (by simp)
    rwa [List.append_nil] at hlast
  have hidtr (mem : Nat → UInt8) : loadRegister (writeAll mem (initIdti (idtOf (p.tables core))
      (sIdtr (p.tables core)) (fun i => s'.words (isrAddrList i)) INT_NUM)) (sIdtr (p.tables core)) =
      ⟨idtOf (p.tables core), IDT_ENTRY_SIZE * INT_NUM - 1⟩ := by
    rw [initIdti, ← List.nil_append (_ :: _)]
    refine loadRegister_stored mem [] _ (sIdtr (p.tables core)) (idtOf (p.tables core)) _ ?_ (by decide) ?_
    · unfold CORE_TABLES_SIZE at hle
      unfold idtOf sGdtr kernelTss GDT_SEG_NUM GDT_ENTRY_SIZE TSS_SIZE
      omega
    · intro store hstore
      obtain ⟨v, hv, hstore⟩ := List.mem_flatMap.mp hstore
      obtain rfl : store = _ := List.mem_singleton.mp hstore
      have hlt := Nat.mod_lt v (show 256 > 0 by decide)
      refine .inl ?_
      rw [idtDescriptor_length]
      unfold sIdtr IDT_ENTRY_SIZE INT_NUM
      omega
  refine ⟨?_, ?_, ?_, fun v hv => ?_⟩
  · refine (congrFun hgdtr core).trans ?_
    exact (Function.update_self core _ _).trans (congrArg some hgdtr')
  · exact (Function.update_self core _ _).trans (congrArg some (hidtr _))
  · rw [initIdt_mem, hmem, initGdt_mem]
    refine (readAt_writeAll_of_disjoint _ fun store hstore => .inl ?_).trans (initGdti_code s.mem (p.tables core))
    refine Nat.le_trans ?_ (initIdti_inside _ _ hstore).1
    unfold idtOf sGdtr kernelTss GDT_SEG_NUM GDT_ENTRY_SIZE TSS_SIZE
    omega
  · rw [initIdt_mem, initIdti, writeAll_append]
    exact gates_stored _ _ _ (Nat.le_refl INT_NUM) hv

/-! ## The tables of several cores -/

theorem tables_disjoint (hcore : p.Has core) (hother : p.Has other) (hne : other ≠ core) :
    p.tables other + CORE_TABLES_SIZE ≤ p.tables core ∨ p.tables core + CORE_TABLES_SIZE ≤ p.tables other := by
  have hmul {j k : Nat} (h : j < k) : j * CORE_TABLES_SIZE + CORE_TABLES_SIZE ≤ k * CORE_TABLES_SIZE := by
    rw [← Nat.succ_mul]
    exact Nat.mul_le_mul_right _ h
  have happart := p.disjoint
  cases core with
  | bsp =>
    cases other with
    | bsp => exact absurd rfl hne
    | ap j =>
      have hj := hmul hother
      show p.apTables + _ + _ ≤ p.bspTables ∨ p.bspTables + _ ≤ p.apTables + _
      omega
  | ap i =>
    have hi := hmul hcore
    cases other with
    | bsp =>
      show p.bspTables + _ ≤ p.apTables + _ ∨ p.apTables + _ + _ ≤ p.bspTables
      omega
    | ap j =>
      show p.apTables + _ + _ ≤ p.apTables + _ ∨ p.apTables + _ + _ ≤ p.apTables + _
      rcases Nat.lt_or_gt_of_ne (fun h => hne (congrArg Core.ap h) : j ≠ i) with hlt | hlt
      · have hle := hmul hlt
        omega
      · have hle := hmul hlt
        omega

/-- Another core that fills its tables leaves those of a core alone. -/
theorem HasGates.init_other (h : HasGates p core gates s) (hcore : p.Has core) (hother : p.Has other)
    (hne : other ≠ core) : HasGates p core gates ((s.initGdt p other).initIdt p other) := by
  have hapart := tables_disjoint hcore hother hne
  refine h.frame (Function.update_of_ne hne.symm _ _) (Function.update_of_ne hne.symm _ _) fun i hi => ?_
  have hone {mem : Nat → UInt8} {stores : ByteStores}
      (hinside : ∀ store ∈ stores, p.tables other ≤ store.1 ∧
        store.1 + store.2.length ≤ p.tables other + CORE_TABLES_SIZE) :
      writeAll mem stores (p.tables core + i) = mem (p.tables core + i) := by
    have houtside : ∀ store ∈ stores,
        p.tables core + i + 1 ≤ store.1 ∨ store.1 + store.2.length ≤ p.tables core + i := by
      intro store hstore
      obtain ⟨hlow, hhigh⟩ := hinside store hstore
      omega
    have hread := readAt_writeAll_of_disjoint mem houtside
    exact (List.cons.inj hread).1
  have hidt : ∀ isrs, ∀ store ∈ initIdti (idtOf (p.tables other)) (sIdtr (p.tables other)) isrs INT_NUM,
      p.tables other ≤ store.1 ∧ store.1 + store.2.length ≤ p.tables other + CORE_TABLES_SIZE := by
    intro isrs store hstore
    obtain ⟨hlow, hhigh⟩ := initIdti_inside _ _ hstore
    unfold idtOf sGdtr kernelTss at hlow
    exact ⟨by omega, hhigh⟩
  rw [initIdt_mem, hone (hidt _), initGdt_mem, hone fun store hstore => initGdti_inside _ hstore]

/-! ## Runs -/

/-- What an event leaves under a number that held a handler. -/
def TableEvent.stored (num handler : Nat) : TableEvent → Nat
  | .call c => if c.num = num then c.handler else handler
  | .apInit _ => handler

/-- What the last call for a number stored, or what was there at the start. -/
def lastStored (num start : Nat) (events : List TableEvent) : Nat := events.foldl (TableEvent.stored num) start

theorem lastStored_concat (num start : Nat) (events : List TableEvent) (event : TableEvent) :
    lastStored num start (events ++ [event]) = event.stored num (lastStored num start events) :=
  List.foldl_append

theorem tableStep_cases {event : TableEvent} (h : tableStep p event s = some s') :
    (∃ call, event = .call call ∧ s' = { s with words := call.result.apply s.words }) ∨
      ∃ id, event = .apInit id ∧ p.Has (.ap id) ∧ s' = (s.initGdt p (.ap id)).initIdt p (.ap id) := by
  cases event with
  | call call => exact .inl ⟨call, rfl, (Option.some.inj h).symm⟩
  | apInit id =>
    rw [tableStep] at h
    by_cases hhas : p.Has (.ap id)
    · rw [if_pos hhas] at h
      exact .inr ⟨id, rfl, hhas, (Option.some.inj h).symm⟩
    · rw [if_neg hhas] at h
      cases h

/-- A call stores its handler under its number, and nothing under a number that is out of range. -/
theorem apply_words (call : IsrCall) (words : IsrWords) {k : Nat} (hk : k ≤ INT_NUM) :
    call.result.apply words k = if call.num = k then call.handler else words k := by
  rw [result_eq]
  rcases setIsr_cases call.num call.handler with ⟨hlt, hset⟩ | ⟨-, hset⟩
  · rw [hset, if_neg (by omega)]
    rfl
  · rw [hset]
    exact (Function.update_apply words call.num call.handler k).trans (if_congr eq_comm rfl rfl)

theorem apply_words_above (call : IsrCall) (words : IsrWords) {k : Nat} (hk : INT_NUM < k) :
    call.result.apply words k = words k := by
  rw [result_eq]
  rcases setIsr_cases call.num call.handler with ⟨-, hset⟩ | ⟨hle, hset⟩
  · rw [hset]
    rfl
  · rw [hset]
    exact Function.update_of_ne (by omega) _ _

theorem words_run {events : List TableEvent} (hrun : Run.run (tableStep p) events s = some s') {k : Nat}
    (hk : k ≤ INT_NUM) : s'.words k = lastStored k (s.words k) events := by
  refine Run.run_history (P := fun events s' => s'.words k = lastStored k (s.words k) events) rfl ?_ hrun
  intro events event s₁ s₂ _ hbefore hstep
  rw [lastStored_concat, ← hbefore]
  obtain ⟨call, rfl, rfl⟩ | ⟨id, rfl, -, rfl⟩ := tableStep_cases hstep
  · exact apply_words call s₁.words hk
  · rfl

theorem words_run_above {events : List TableEvent} (hrun : Run.run (tableStep p) events s = some s') {k : Nat}
    (hk : INT_NUM < k) : s'.words k = s.words k := by
  refine Run.run_history (P := fun _ s' => s'.words k = s.words k) rfl ?_ hrun
  intro events event s₁ s₂ _ hbefore hstep
  obtain ⟨call, rfl, rfl⟩ | ⟨id, rfl, -, rfl⟩ := tableStep_cases hstep
  · exact (apply_words_above call s₁.words hk).trans hbefore
  · exact hbefore

/-- A core keeps its gates until it fills its tables again. -/
theorem HasGates.run (h : HasGates p core gates s) (hcore : p.Has core) {events : List TableEvent}
    (hevents : ∀ id, core = .ap id → .apInit id ∉ events) (hrun : Run.run (tableStep p) events s = some s') :
    HasGates p core gates s' := by
  have hothers : ∀ event ∈ events, ∀ id, event = .apInit id → Core.ap id ≠ core := by
    rintro event hmem id rfl hsame
    exact hevents id hsame.symm hmem
  have hall : Run.Along (tableStep p) (fun event _ => ∀ id, event = .apInit id → Core.ap id ≠ core) events s :=
    Run.Along.of_forall hothers s
  refine Run.run_preserves ?_ hall hrun h
  intro event s₁ s₂ hcond hgates hstep
  obtain ⟨call, rfl, rfl⟩ | ⟨id, rfl, hid, rfl⟩ := tableStep_cases hstep
  · exact hgates.frame rfl rfl fun _ _ => rfl
  · exact hgates.init_other hcore hid (hcond id rfl)

theorem initTables_eq (defaultISR : Nat) (words : IsrWords) (k : Nat) :
    initTables defaultISR words k = if k < INT_NUM then defaultISR else words k := by
  have hloop (n : Nat) : (List.range n).foldl (fun words i => Function.update words i defaultISR) words k =
      if k < n then defaultISR else words k := by
    induction n with
    | zero => rfl
    | succ n ih =>
      rw [List.range_succ, List.foldl_append, List.foldl_cons, List.foldl_nil, Function.update_apply, ih]
      split_ifs <;> first | rfl | omega
  exact hloop INT_NUM

theorem bootTables_words (p : TablesPlace) (defaultISR : Nat) (s : TablesState) (k : Nat) :
    (bootTables p defaultISR s).words k = if k < INT_NUM then defaultISR else s.words k := by
  simp only [bootTables, initIdt_words, initGdt_words]
  exact initTables_eq defaultISR s.words k

/-- `isr_addr_list` lies behind the words that `InitTables` fills. -/
theorem bootTables_isrAddrList (p : TablesPlace) (defaultISR : Nat) (s : TablesState) (v : Nat) :
    (bootTables p defaultISR s).words (isrAddrList v) = s.words (isrAddrList v) := by
  rw [bootTables_words, if_neg (by unfold isrAddrList; omega)]

section
variable {defaultISR : Nat} {s₀ : TablesState} {events : List TableEvent} {v : Nat}

theorem slot_run (hrun : Run.run (tableStep p) events (bootTables p defaultISR s₀) = some s) (hv : v < INT_NUM) :
    s.words v = lastStored v defaultISR events := by
  rw [words_run hrun hv.le, bootTables_words, if_pos hv]

theorem vectorEntry_bsp (hrun : Run.run (tableStep p) events (bootTables p defaultISR s₀) = some s)
    (hv : v < INT_NUM) : vectorEntry s .bsp v = some (u32 (s₀.words (isrAddrList v))) := by
  have hboot : HasGates p .bsp (fun v => s₀.words (isrAddrList v)) (bootTables p defaultISR s₀) := by
    have hsame : (fun v => s₀.words (isrAddrList v)) =
        fun v => (bootTables p defaultISR s₀).words (isrAddrList v) :=
      funext fun v => (bootTables_isrAddrList p defaultISR s₀ v).symm
    rw [hsame, bootTables, initIdt_words]
    exact hasGates_init trivial rfl rfl
  exact (hboot.run trivial (fun id h => nomatch h) hrun).vectorEntry hv

/-- An AP enters what `isr_addr_list` held when it filled its tables for the last time. -/
theorem vectorEntry_ap {before after : List TableEvent} {id : Nat} (hafter : .apInit id ∉ after)
    (hrun : Run.run (tableStep p) (before ++ .apInit id :: after) (bootTables p defaultISR s₀) = some s)
    (hv : v < INT_NUM) :
    vectorEntry s (.ap id) v = some (u32 (if v = 0 then lastStored INT_NUM (s₀.words (isrAddrList 0)) before
      else s₀.words (isrAddrList v))) := by
  rw [Run.run_append, Option.bind_eq_some_iff] at hrun
  obtain ⟨s₁, hbefore, hrun⟩ := hrun
  obtain ⟨s₂, hstart, hrest⟩ := Run.run_cons_eq_some.mp hrun
  obtain ⟨call, hcall, -⟩ | ⟨id', hid, hhas, rfl⟩ := tableStep_cases hstart
  · cases hcall
  obtain rfl : id = id' := TableEvent.apInit.inj hid
  have hgates := hasGates_init hhas (s := s₁) rfl rfl
  have hafter' : ∀ id', Core.ap id = .ap id' → TableEvent.apInit id' ∉ after :=
    fun id' h => Core.ap.inj h ▸ hafter
  rw [(hgates.run hhas hafter' hrest).vectorEntry hv, initGdt_words]
  refine congrArg (fun isr => some (u32 isr)) ?_
  by_cases hzero : v = 0
  · rw [if_pos hzero, hzero, words_run hbefore (Nat.le_refl (isrAddrList 0)), bootTables_isrAddrList]
    rfl
  · have habove : INT_NUM < isrAddrList v := by
      unfold isrAddrList
      omega
    rw [if_neg hzero, words_run_above hbefore habove, bootTables_isrAddrList]

end

/-- In every run of calls and of APs that start: the slot of a vector holds what the last call for it stored, and
before any the default handler; the boot core enters the stub of the vector, and so does each AP, except at vector
0, where it enters what the last call for number 256 before its start stored. -/
theorem vectorEntry_run (p : TablesPlace) (defaultISR : Nat) (s₀ : TablesState) {events : List TableEvent}
    (hrun : Run.run (tableStep p) events (bootTables p defaultISR s₀) = some s) {v : Nat} (hv : v < INT_NUM) :
    s.words v = lastStored v defaultISR events ∧
      vectorEntry s .bsp v = some (u32 (s₀.words (isrAddrList v))) ∧
      ∀ before id after, events = before ++ .apInit id :: after → .apInit id ∉ after →
        vectorEntry s (.ap id) v = some (u32 (if v = 0 then lastStored INT_NUM (s₀.words (isrAddrList 0)) before
          else s₀.words (isrAddrList v))) := by
  refine ⟨slot_run hrun hv, vectorEntry_bsp hrun hv, ?_⟩
  rintro before id after rfl hafter
  exact vectorEntry_ap hafter hrun hv

/-- The stubs as assembled, 16 bytes each. -/
def assembledTables : TablesState where
  words := fun k => 0x2000 + 16 * (k - INT_NUM)
  mem := fun _ => 0
  gdtr := fun _ => none
  idtr := fun _ => none

/-- A handler at number 256, and then core 1 starts: at vector 0 it enters the handler without the stub. -/
theorem vectorEntry_run_beyond :
    ∃ s, Run.run (tableStep twoCores) [.call (.install 256 0x101000), .apInit 1]
        (bootTables twoCores 0x100000 assembledTables) = some s ∧
      vectorEntry s .bsp 0 = some 0x2000 ∧ vectorEntry s (.ap 1) 0 = some 0x101000 := by
  obtain ⟨s, hrun⟩ : ∃ s, Run.run (tableStep twoCores) [.call (.install 256 0x101000), .apInit 1]
      (bootTables twoCores 0x100000 assembledTables) = some s := by
    have hhas : twoCores.Has (.ap 1) := by decide
    simp only [Run.run, tableStep, if_pos hhas, Option.bind_some, Option.some.injEq, exists_eq']
  obtain ⟨-, hboot, hap⟩ := vectorEntry_run twoCores 0x100000 assembledTables hrun (v := 0) (by decide)
  exact ⟨s, hrun, hboot, hap [.call (.install 256 0x101000)] 1 [] rfl List.not_mem_nil⟩

end TalOS
