-- SUMMARY: Starting the application processors: the IPI sequence, their stacks and their tables.
import Mathlib.Data.List.Perm.Subperm
import TalOS.Arch.Acpi
import TalOS.Libk.Kheap

/-!
# Application processors

`InitAPs` runs a loop over the number of processors the MADT lists. The loop index
serves as LAPIC id, as index of `CPU_State` and, through the processor's own id, as
index of `AP_Tables`; the LAPIC ids of the list itself are never read.
-/

open MachineInt

namespace TalOS

/-! ## The local APIC -/

/-- The interrupt command register, and what was sent by writing its low half. -/
structure Lapic where
  icrHigh : BitVec 32
  icrLow : BitVec 32
  sent : List (BitVec 32 × BitVec 32)

def Lapic.writeIcrHigh (l : Lapic) (value : BitVec 32) : Lapic := { l with icrHigh := value }

/-- Writing the low half sends the interrupt. -/
def Lapic.writeIcrLow (l : Lapic) (value : BitVec 32) : Lapic :=
  { l with icrLow := value, sent := l.sent ++ [(l.icrHigh, value)] }

def DELIVERY_MODE : Nat := 0x08
def DELIVERY_MODE_INIT : BitVec 32 := 0x05
def DELIVERY_MODE_STARTUP : BitVec 32 := 0x06
def TRIGGER_MODE : Nat := 0x0F
def TRIG_MODE_LEVEL : BitVec 32 := 0x01
def ICR_LEVEL : Nat := 0x0E
def ICR_LEVEL_DEASSERT : BitVec 32 := 0x00
def ICR_LEVEL_ASSERT : BitVec 32 := 0x01

/-- `LAPIC_GET_ID` -/
def lapicGetId (id : Nat) : BitVec 32 := BitVec.ofNat 32 id <<< 24

/-- The destination, then the command, each leaving the other bits of its register. -/
def sendIcr (cpuId : Nat) (command : BitVec 32) (l : Lapic) : Lapic :=
  let l := l.writeIcrHigh ((l.icrHigh &&& 0x00ffffff) ||| lapicGetId cpuId)
  l.writeIcrLow ((l.icrLow &&& 0xfff00000) ||| command)

def initCommand (level : BitVec 32) : BitVec 32 :=
  (DELIVERY_MODE_INIT <<< DELIVERY_MODE) ||| (TRIG_MODE_LEVEL <<< TRIGGER_MODE) |||
    (level <<< ICR_LEVEL)

def startupCommand (vector : Nat) : BitVec 32 :=
  (DELIVERY_MODE_STARTUP <<< DELIVERY_MODE) ||| (BitVec.ofNat 32 vector &&& 0x0FF)

/-- `SendInitIPI` -/
def sendInitIPI (cpuId : Nat) : Lapic → Lapic := sendIcr cpuId (initCommand ICR_LEVEL_ASSERT)

/-- `SendInitIPIDeassert` -/
def sendInitIPIDeassert (cpuId : Nat) : Lapic → Lapic :=
  sendIcr cpuId (initCommand ICR_LEVEL_DEASSERT)

/-- `SendStartupIPI` -/
def sendStartupIPI (cpuId vector : Nat) : Lapic → Lapic := sendIcr cpuId (startupCommand vector)

/-- `StartupAP`, its delays left out. -/
def startupAP (apNum vector : Nat) (l : Lapic) : Lapic :=
  sendStartupIPI apNum vector
    (sendStartupIPI apNum vector (sendInitIPIDeassert apNum (sendInitIPI apNum l)))

/-- What the hardware reads off a pair of register values: the id the interrupt goes to, and the
command with vector, delivery mode, level, trigger and shorthand. -/
def icrMessage (w : BitVec 32 × BitVec 32) : Nat × BitVec 20 :=
  ((w.1.extractLsb' 24 8).toNat, w.2.extractLsb' 0 20)

/-- The INIT/STARTUP sequence for one LAPIC id. -/
def startSequence (vector id : Nat) : List (Nat × BitVec 20) :=
  [(id, (initCommand ICR_LEVEL_ASSERT).extractLsb' 0 20),
    (id, (initCommand ICR_LEVEL_DEASSERT).extractLsb' 0 20),
    (id, (startupCommand vector).extractLsb' 0 20), (id, (startupCommand vector).extractLsb' 0 20)]

/-! ## The processors of the system -/

/-- The fields of a local APIC entry of the MADT that are read. -/
structure MadtProcLapic where
  procUID : UInt8
  lapicId : UInt8

structure CpuSysConfInfo where
  coreID : UInt8
  lapicId : UInt32

structure SysConfInfo where
  cpus : List CpuSysConfInfo
  acpiInit : Bool

def SysConfInfo.cpuNum (conf : SysConfInfo) : Nat := conf.cpus.length

def MAX_SUPP_PROC_NUM : Nat := 0x10

/-- The part of `ReadSystemConfig` that lists the processors. -/
def readSystemConfig (lapics : List MadtProcLapic) : SysConfInfo where
  cpus := (lapics.take MAX_SUPP_PROC_NUM).map fun l => ⟨l.procUID, l.lapicId.toUInt32⟩
  acpiInit := true

/-- The LAPIC ids of the listed processors. -/
def SysConfInfo.ids (conf : SysConfInfo) : List Nat := conf.cpus.map fun c => c.lapicId.toNat

/-- `Core_Status_t` -/
structure CoreStatus where
  coreID : Nat
  startedState : Nat
  stackTopAddress : Nat

def CPU_STATE_WAITING_START : Nat := 1
def CORE_STACK_SIZE : Nat := 0x2000
def AP_TRAM_START : Nat := 0x8000

/-- `sizeof(Core_Tables_t)`: 6 segments, a TSS, 256 gates and the two table registers. -/
def CORE_TABLES_SIZE : Nat := 6 * 8 + 104 + 6 + 256 * 8 + 6

/-- What `InitAPs` works on. -/
structure ApState where
  heap : Kheap
  lapic : Lapic
  cpuState : List CoreStatus
  apTables : Nat

/-- The body of the loop of `InitAPs` for a processor other than the boot processor. -/
def initAP (i : Nat) (s : ApState) : ApState :=
  let r := kmalloc s.heap CORE_STACK_SIZE
  { s with
    heap := r.2
    cpuState := s.cpuState.set i
      ⟨i, CPU_STATE_WAITING_START, u32 (r.1 + CORE_STACK_SIZE - 4)⟩
    lapic := startupAP i (AP_TRAM_START >>> 12) s.lapic }

/-- The loop of `InitAPs`. What is checked after the allocation of a stack is `AP_Tables`. -/
def initAPsLoop (bspId : Nat) : List Nat → ApState → Option ApState
  | [], s => some s
  | i :: is, s =>
    if i ≠ bspId then
      if s.apTables = 0 then none else initAPsLoop bspId is (initAP i s)
    else initAPsLoop bspId is s

/-- `InitAPs`; `none` where it does not return. -/
def initAPs (conf : SysConfInfo) (bspId : Nat) (s : ApState) : Option ApState :=
  if conf.acpiInit = true ∧ conf.cpuNum > 1 then
    let r := kmalloc s.heap (u32 (conf.cpuNum * CORE_TABLES_SIZE))
    if r.1 = 0 then none
    else initAPsLoop bspId (List.range conf.cpuNum) { s with heap := r.2, apTables := r.1 }
  else some s

/-- The stack pointer that `_StartAP` loads on the processor with an id. -/
def startAPStack (s : ApState) (id : Nat) : Option Nat :=
  (s.cpuState[id]?).map fun c => c.stackTopAddress

/-- The tables that `AP_init` fills on the processor with an id. -/
def apInitTables (s : ApState) (id : Nat) : Nat := s.apTables + id * CORE_TABLES_SIZE

/-! ## What one sequence sends -/

theorem icrMessage_destination (high : BitVec 32) {id : Nat} (hid : id < 256) :
    ((((high &&& 0x00ffffff) ||| lapicGetId id)).extractLsb' 24 8).toNat = id := by
  have hbyte : ((high &&& 0x00ffffff) ||| lapicGetId id).extractLsb' 24 8 = BitVec.ofNat 8 id := by
    refine BitVec.eq_of_getLsbD_eq fun b hb => ?_
    have hmask : ∀ b < 8, (0x00ffffff : BitVec 32).getLsbD (24 + b) = false := by decide
    have hhigh : 24 + b < 32 := Nat.add_lt_add_left hb 24
    have hword : b < 32 := Nat.lt_trans hb (by decide)
    simp only [lapicGetId, BitVec.getLsbD_extractLsb', BitVec.getLsbD_or, BitVec.getLsbD_and,
      hmask b hb, BitVec.getLsbD_shiftLeft, BitVec.getLsbD_ofNat, hb, hhigh, hword,
      Nat.not_lt.mpr (Nat.le_add_right 24 b), Nat.add_sub_cancel_left, Bool.and_false,
      Bool.false_or, decide_true, decide_false, Bool.not_false, Bool.true_and]
  rw [hbyte, BitVec.toNat_ofNat, Nat.mod_eq_of_lt hid]

theorem icrMessage_command (low command : BitVec 32) :
    ((low &&& 0xfff00000) ||| command).extractLsb' 0 20 = command.extractLsb' 0 20 := by
  ext b hb
  have hmask : ∀ b < 20, (0xfff00000#32).getLsbD b = false := by decide
  simp [hmask b hb]

theorem sendIcr_sent (l : Lapic) (command : BitVec 32) {id : Nat} (hid : id < 256) :
    (sendIcr id command l).sent.map icrMessage =
      l.sent.map icrMessage ++ [(id, command.extractLsb' 0 20)] := by
  have hmessage : icrMessage ((l.icrHigh &&& 0x00ffffff) ||| lapicGetId id,
      (l.icrLow &&& 0xfff00000) ||| command) = (id, command.extractLsb' 0 20) :=
    Prod.ext (icrMessage_destination _ hid) (icrMessage_command _ _)
  simp only [sendIcr, Lapic.writeIcrHigh, Lapic.writeIcrLow, List.map_append, List.map_cons,
    List.map_nil, hmessage]

theorem startupAP_sent (l : Lapic) (vector : Nat) {id : Nat} (hid : id < 256) :
    (startupAP id vector l).sent.map icrMessage =
      l.sent.map icrMessage ++ startSequence vector id := by
  simp only [startupAP, sendStartupIPI, sendInitIPIDeassert, sendInitIPI, sendIcr_sent _ _ hid,
    List.append_assoc]
  rfl

/-! ## The stacks the loop hands out -/

/-- The block that the `k`-th of several requests for a stack gets. -/
def stackBase (h : Kheap) (k : Nat) : Nat :=
  if h.currentPointer + (k + 1) * CORE_STACK_SIZE ≤ h.limit then
    h.currentPointer + k * CORE_STACK_SIZE
  else 0

theorem stackBase_zero {h : Kheap} (hok : h.Ok) : (kmalloc h CORE_STACK_SIZE).1 = stackBase h 0 := by
  rw [(hok.kmalloc _ (by decide) (by decide)).2.2.1, stackBase, Nat.zero_add, Nat.one_mul,
    Nat.zero_mul, Nat.add_zero]

theorem stackBase_succ {h : Kheap} (hok : h.Ok) (k : Nat) :
    stackBase (kmalloc h CORE_STACK_SIZE).2 k = stackBase h (k + 1) := by
  obtain ⟨-, hlimit, -, hptr⟩ := hok.kmalloc CORE_STACK_SIZE (by decide) (by decide)
  have hsucc (c m : Nat) :
      c + CORE_STACK_SIZE + m * CORE_STACK_SIZE = c + (m + 1) * CORE_STACK_SIZE := by
    rw [Nat.succ_mul, Nat.add_assoc, Nat.add_comm CORE_STACK_SIZE]
  rw [stackBase, stackBase, hlimit, hptr]
  rcases Nat.lt_or_ge h.limit (h.currentPointer + CORE_STACK_SIZE) with hfull | hfit
  · have hlong (m : Nat) : ¬ h.currentPointer + (m + 1) * CORE_STACK_SIZE ≤ h.limit := by
      rw [Nat.succ_mul]
      omega
    rw [if_neg (Nat.not_le.mpr hfull), if_neg (hlong k), if_neg (hlong (k + 1))]
  · rw [if_pos hfit, hsucc, hsucc]

theorem stackBase_add_le (h : Kheap) (k : Nat) :
    stackBase h k + CORE_STACK_SIZE ≤ max h.limit CORE_STACK_SIZE := by
  unfold stackBase
  split
  · next hfit =>
    rw [Nat.succ_mul, ← Nat.add_assoc] at hfit
    exact Nat.le_trans hfit (Nat.le_max_left _ _)
  · rw [Nat.zero_add]
    exact Nat.le_max_right _ _

theorem stackTop_eq {h : Kheap} (hok : h.Ok) (k : Nat) :
    u32 (stackBase h k + CORE_STACK_SIZE - 4) = stackBase h k + CORE_STACK_SIZE - 4 := by
  have hle := stackBase_add_le h k
  have hhigh := hok.high
  have hlt : max h.limit CORE_STACK_SIZE < 2 ^ 32 :=
    Nat.max_lt.mpr ⟨by unfold Kheap.limit; omega, by decide⟩
  exact u32_of_lt (Nat.lt_of_le_of_lt (Nat.sub_le _ _) (Nat.lt_of_le_of_lt hle hlt))

/-! ## The loop -/

/-- The indices the loop starts. -/
def started (bspId : Nat) (is : List Nat) : List Nat := is.filter fun i => i ≠ bspId

@[simp] theorem initAP_heap (i : Nat) (s : ApState) :
    (initAP i s).heap = (kmalloc s.heap CORE_STACK_SIZE).2 := by
  dsimp only [initAP]

@[simp] theorem initAP_lapic (i : Nat) (s : ApState) :
    (initAP i s).lapic = startupAP i (AP_TRAM_START >>> 12) s.lapic := by
  dsimp only [initAP]

@[simp] theorem initAP_apTables (i : Nat) (s : ApState) : (initAP i s).apTables = s.apTables := by
  dsimp only [initAP]

@[simp] theorem initAP_length (i : Nat) (s : ApState) :
    (initAP i s).cpuState.length = s.cpuState.length := by
  dsimp only [initAP]
  exact List.length_set

theorem initAPsLoop_eq {bspId : Nat} (is : List Nat) {s : ApState} (htables : s.apTables ≠ 0) :
    initAPsLoop bspId is s = some ((started bspId is).foldl (fun s i => initAP i s) s) := by
  induction is generalizing s with
  | nil => rfl
  | cons i is ih =>
    rw [initAPsLoop]
    by_cases hi : i ≠ bspId
    · have hcons : started bspId (i :: is) = i :: started bspId is :=
        List.filter_cons_of_pos (decide_eq_true hi)
      have htables' : (initAP i s).apTables ≠ 0 := by rwa [initAP_apTables]
      rw [if_pos hi, if_neg htables, hcons, ih htables', List.foldl_cons]
    · have hcons : started bspId (i :: is) = started bspId is :=
        List.filter_cons_of_neg (by simpa using hi)
      rw [if_neg hi, hcons]
      exact ih htables

variable {ts : List Nat} {s : ApState}

theorem foldl_initAP_sent (hts : ∀ i ∈ ts, i < 256) :
    (ts.foldl (fun s i => initAP i s) s).lapic.sent.map icrMessage =
      s.lapic.sent.map icrMessage ++ ts.flatMap (startSequence 8) := by
  induction ts generalizing s with
  | nil => exact (List.append_nil _).symm
  | cons i ts ih =>
    have hi : (initAP i s).lapic.sent.map icrMessage =
        s.lapic.sent.map icrMessage ++ startSequence 8 i := by
      rw [initAP_lapic]
      exact startupAP_sent s.lapic _ (hts i List.mem_cons_self)
    rw [List.foldl_cons, ih fun j hj => hts j (List.mem_cons_of_mem _ hj), hi, List.flatMap_cons,
      List.append_assoc]

theorem initAP_stack_ne {i j : Nat} (h : j ≠ i) : startAPStack (initAP i s) j = startAPStack s j := by
  rw [startAPStack, initAP, List.getElem?_set_ne (Ne.symm h)]
  rfl

theorem foldl_initAP_stack_notMem {j : Nat} (h : j ∉ ts) :
    startAPStack (ts.foldl (fun s i => initAP i s) s) j = startAPStack s j := by
  induction ts generalizing s with
  | nil => rfl
  | cons i ts ih =>
    rw [List.mem_cons, not_or] at h
    rw [List.foldl_cons, ih h.2, initAP_stack_ne h.1]

/-- The processor that is started as the `k`-th one runs on the `k`-th stack. -/
theorem foldl_initAP_stack (hnodup : ts.Nodup) (hts : ∀ i ∈ ts, i < s.cpuState.length)
    (hok : s.heap.Ok) {k id : Nat} (hk : ts[k]? = some id) :
    startAPStack (ts.foldl (fun s i => initAP i s) s) id =
      some (stackBase s.heap k + CORE_STACK_SIZE - 4) := by
  induction ts generalizing s k with
  | nil => cases hk
  | cons i ts ih =>
    rw [List.nodup_cons] at hnodup
    rw [List.foldl_cons]
    cases k with
    | zero =>
      obtain rfl : i = id := Option.some.inj hk
      rw [foldl_initAP_stack_notMem hnodup.1, startAPStack, initAP,
        List.getElem?_set_self (hts i List.mem_cons_self), Option.map_some, stackBase_zero hok,
        stackTop_eq hok]
    | succ k =>
      have hts' : ∀ j ∈ ts, j < (initAP i s).cpuState.length := by
        intro j hj
        rw [initAP_length]
        exact hts j (List.mem_cons_of_mem _ hj)
      have hok' : (initAP i s).heap.Ok := by
        rw [initAP_heap]
        exact (hok.kmalloc _ (by decide) (by decide)).1
      rw [ih hnodup.2 hts' hok' hk, initAP_heap, stackBase_succ hok]

/-! ## Which processors are started -/

theorem startSequence_flatMap_injective {vector : Nat} {ts ts' : List Nat}
    (h : ts.flatMap (startSequence vector) = ts'.flatMap (startSequence vector)) : ts = ts' := by
  induction ts generalizing ts' with
  | nil =>
    cases ts' with
    | nil => rfl
    | cons i ts' => exact absurd (congrArg List.length h) (by simp [startSequence])
  | cons i ts ih =>
    cases ts' with
    | nil => exact absurd (congrArg List.length h) (by simp [startSequence])
    | cons j ts' =>
      rw [List.flatMap_cons, List.flatMap_cons] at h
      obtain ⟨hhead, htail⟩ := List.append_inj h rfl
      have hid : i = j := congrArg Prod.fst (List.cons.inj hhead).1
      rw [hid, ih htail]

/-- The processors to start: every listed one but the boot processor. -/
def SysConfInfo.aps (conf : SysConfInfo) (bspId : Nat) : List Nat :=
  conf.ids.filter fun id => id ≠ bspId

theorem mem_aps {conf : SysConfInfo} {bspId id : Nat} :
    id ∈ conf.aps bspId ↔ id ∈ conf.ids ∧ id ≠ bspId := by
  rw [SysConfInfo.aps, List.mem_filter, decide_eq_true_iff]

theorem mem_started {bspId i n : Nat} :
    i ∈ started bspId (List.range n) ↔ i < n ∧ i ≠ bspId := by
  rw [started, List.mem_filter, decide_eq_true_iff, List.mem_range]

theorem length_filter_ne {ids : List Nat} {bspId : Nat} (hnodup : ids.Nodup) (hbsp : bspId ∈ ids) :
    (ids.filter fun id => id ≠ bspId).length = ids.length - 1 := by
  have herase : ids.erase bspId = ids.filter fun id => id ≠ bspId := by
    rw [hnodup.erase_eq_filter]
    exact List.filter_congr fun id _ => (decide_not (p := id = bspId)).symm
  rw [← herase, List.length_erase_of_mem hbsp]

theorem length_started {bspId n : Nat} :
    (started bspId (List.range n)).length = if bspId < n then n - 1 else n := by
  split
  · next h =>
    have hlength := length_filter_ne List.nodup_range (List.mem_range.mpr h)
    rwa [List.length_range] at hlength
  · next h =>
    have hall : started bspId (List.range n) = List.range n :=
      List.filter_eq_self.mpr fun i hi =>
        decide_eq_true fun heq => h (heq ▸ List.mem_range.mp hi)
    rw [hall, List.length_range]

/-- The loop starts the listed processors exactly if no id reaches their number. -/
theorem started_perm_iff {conf : SysConfInfo} {bspId : Nat} (hnodup : conf.ids.Nodup)
    (hbsp : bspId ∈ conf.ids) :
    (started bspId (List.range conf.cpuNum)).Perm (conf.aps bspId) ↔
      ∀ id ∈ conf.ids, id < conf.cpuNum := by
  have hnum : conf.ids.length = conf.cpuNum := List.length_map _
  have haps : (conf.aps bspId).length = conf.cpuNum - 1 := hnum ▸ length_filter_ne hnodup hbsp
  have hpos : 0 < conf.cpuNum := hnum ▸ List.length_pos_of_mem hbsp
  constructor
  · intro hperm id hid
    have hlength := hperm.length_eq
    rw [length_started, haps] at hlength
    have hlt : bspId < conf.cpuNum := by
      by_contra hge
      rw [if_neg hge] at hlength
      omega
    by_cases heq : id = bspId
    · exact heq ▸ hlt
    · exact (mem_started.mp (hperm.mem_iff.mpr (mem_aps.mpr ⟨hid, heq⟩))).1
  · intro hlt
    have hsub : conf.aps bspId ⊆ started bspId (List.range conf.cpuNum) := by
      intro id hid
      obtain ⟨hid, hne⟩ := mem_aps.mp hid
      exact mem_started.mpr ⟨hlt id hid, hne⟩
    have hlength : (started bspId (List.range conf.cpuNum)).length = (conf.aps bspId).length := by
      rw [length_started, if_pos (hlt bspId hbsp), haps]
    have hsubperm : (conf.aps bspId).Subperm (started bspId (List.range conf.cpuNum)) :=
      List.subperm_of_subset (hnodup.filter _) hsub
    exact (List.Subperm.perm_of_length_le hsubperm (Nat.le_of_eq hlength)).symm

/-! ## Starting every processor by its own identity -/

/-- What `InitAPs` is to achieve: one sequence for every processor but the boot processor, and for
each a fresh stack of its own and a slot in the tables. -/
structure StartsByIdentity (conf : SysConfInfo) (bspId bspStack : Nat) (s r : ApState) : Prop where
  sequences : ∃ order : List Nat, order.Perm (conf.aps bspId) ∧
    r.lapic.sent.map icrMessage =
      s.lapic.sent.map icrMessage ++ order.flatMap (startSequence (AP_TRAM_START >>> 12))
  stack : ∀ id ∈ conf.aps bspId, ∃ base, startAPStack r id = some (base + CORE_STACK_SIZE - 4) ∧
    s.heap.currentPointer ≤ base ∧ base + CORE_STACK_SIZE ≤ s.heap.limit ∧
    (base + CORE_STACK_SIZE ≤ bspStack ∨ bspStack + CORE_STACK_SIZE ≤ base)
  apart : ∀ id ∈ conf.aps bspId, ∀ id' ∈ conf.aps bspId, id ≠ id' →
    ∀ top top', startAPStack r id = some top → startAPStack r id' = some top' →
      top + CORE_STACK_SIZE ≤ top' ∨ top' + CORE_STACK_SIZE ≤ top
  tables : ∀ id ∈ conf.aps bspId, r.apTables ≤ apInitTables r id ∧
    apInitTables r id + CORE_TABLES_SIZE ≤ r.apTables + conf.cpuNum * CORE_TABLES_SIZE

/-- When that works: there is nobody to start, or the ids are smaller than their number and the
heap holds the tables and the stacks. -/
def ApsStartable (conf : SysConfInfo) (h : Kheap) : Prop :=
  conf.cpuNum ≤ 1 ∨
    (∀ id ∈ conf.ids, id < conf.cpuNum) ∧
      h.currentPointer + conf.cpuNum * CORE_TABLES_SIZE + (conf.cpuNum - 1) * CORE_STACK_SIZE ≤
        h.limit

/-- What a run that starts processors leaves behind. -/
structure Startup (conf : SysConfInfo) (bspId : Nat) (s r : ApState) : Prop where
  fits : s.heap.currentPointer + conf.cpuNum * CORE_TABLES_SIZE ≤ s.heap.limit
  sent : r.lapic.sent.map icrMessage = s.lapic.sent.map icrMessage ++
    (started bspId (List.range conf.cpuNum)).flatMap (startSequence (AP_TRAM_START >>> 12))
  stack : ∀ k id, (started bspId (List.range conf.cpuNum))[k]? = some id →
    ∃ base, startAPStack r id = some (base + CORE_STACK_SIZE - 4) ∧
      base = if s.heap.currentPointer + conf.cpuNum * CORE_TABLES_SIZE + (k + 1) * CORE_STACK_SIZE ≤
          s.heap.limit then
        s.heap.currentPointer + conf.cpuNum * CORE_TABLES_SIZE + k * CORE_STACK_SIZE
      else 0

variable {conf : SysConfInfo} {bspId : Nat} {r : ApState}

/-- With more than one processor `InitAPs` returns if the tables fit. -/
theorem initAPs_spec (hacpi : conf.acpiInit = true) (hnum : 1 < conf.cpuNum)
    (hmax : conf.cpuNum ≤ MAX_SUPP_PROC_NUM) (hok : s.heap.Ok)
    (hcpus : s.cpuState.length = MAX_CPU_NUM) :
    (s.heap.limit < s.heap.currentPointer + conf.cpuNum * CORE_TABLES_SIZE →
      initAPs conf bspId s = none) ∧
    (s.heap.currentPointer + conf.cpuNum * CORE_TABLES_SIZE ≤ s.heap.limit →
      ∃ r, initAPs conf bspId s = some r ∧ Startup conf bspId s r) := by
  have hsize : conf.cpuNum * CORE_TABLES_SIZE + MEM_MIN_SIZE ≤ 2 ^ 16 := by
    have hle := Nat.mul_le_mul_right CORE_TABLES_SIZE hmax
    exact Nat.le_trans (Nat.add_le_add_right hle _) (by decide)
  have hdvd : MEM_MIN_SIZE ∣ conf.cpuNum * CORE_TABLES_SIZE :=
    Nat.dvd_mul_left_of_dvd (by decide) _
  have hword : u32 (conf.cpuNum * CORE_TABLES_SIZE) = conf.cpuNum * CORE_TABLES_SIZE :=
    u32_of_lt (Nat.lt_of_le_of_lt (Nat.le_trans (Nat.le_add_right _ _) hsize) (by decide))
  obtain ⟨hok', hlimit, hblock, hptr⟩ := hok.kmalloc _ hdvd hsize
  have hdef : initAPs conf bspId s = _ := if_pos ⟨hacpi, hnum⟩
  rw [hword] at hdef
  constructor
  · intro hfull
    rw [if_neg (Nat.not_le.mpr hfull)] at hblock
    rw [hdef, if_pos hblock]
  · intro hfit
    rw [if_pos hfit] at hblock hptr
    have htables : (kmalloc s.heap (conf.cpuNum * CORE_TABLES_SIZE)).1 ≠ 0 := by
      rw [hblock]
      exact Nat.ne_of_gt (Nat.lt_of_lt_of_le hok.start hok.above)
    rw [hdef, if_neg htables, initAPsLoop_eq _ htables]
    have hlt : ∀ i ∈ started bspId (List.range conf.cpuNum), i < 256 := fun i hi =>
      Nat.lt_of_lt_of_le (mem_started.mp hi).1 (Nat.le_trans hmax (by decide))
    refine ⟨_, rfl, hfit, foldl_initAP_sent hlt, ?_⟩
    intro k id hk
    have hcpus' : ∀ i ∈ started bspId (List.range conf.cpuNum), i < s.cpuState.length :=
      fun i hi => hcpus ▸ hlt i hi
    have hstack := foldl_initAP_stack
      (s := { s with
        heap := (kmalloc s.heap (conf.cpuNum * CORE_TABLES_SIZE)).2
        apTables := (kmalloc s.heap (conf.cpuNum * CORE_TABLES_SIZE)).1 })
      (List.nodup_range.filter _) hcpus' hok' hk
    refine ⟨_, hstack, ?_⟩
    rw [stackBase, hlimit, hptr]

theorem startsByIdentity_of_single {bspStack : Nat} (hbsp : bspId ∈ conf.ids)
    (hnum : conf.cpuNum ≤ 1) : StartsByIdentity conf bspId bspStack s s := by
  have hlength : conf.ids.length ≤ 1 := Nat.le_trans (Nat.le_of_eq (List.length_map _)) hnum
  obtain ⟨id, hids⟩ : ∃ id, conf.ids = [id] :=
    List.length_eq_one_iff.mp (Nat.le_antisymm hlength (List.length_pos_of_mem hbsp))
  have haps : conf.aps bspId = [] := by
    rw [hids, List.mem_singleton] at hbsp
    rw [SysConfInfo.aps, hids, hbsp]
    exact List.filter_cons_of_neg (by simp)
  have hnone {P : Nat → Prop} : ∀ id ∈ conf.aps bspId, P id := by
    rw [haps]
    exact List.forall_mem_nil _
  exact ⟨⟨[], haps ▸ List.Perm.refl [], (List.append_nil _).symm⟩, hnone, hnone, hnone⟩

/-- Blocks of two different requests that both fit do not overlap. -/
theorem stack_apart {a k k' : Nat} (h : k < k') :
    a + k * CORE_STACK_SIZE + CORE_STACK_SIZE ≤ a + k' * CORE_STACK_SIZE := by
  rw [Nat.add_assoc, ← Nat.succ_mul]
  exact Nat.add_le_add_left (Nat.mul_le_mul_right _ h) _

theorem Startup.startsByIdentity {bspStack : Nat} (hr : Startup conf bspId s r)
    (hnodup : conf.ids.Nodup) (hbsp : bspId ∈ conf.ids)
    (hstack : bspStack + CORE_STACK_SIZE ≤ s.heap.currentPointer ∨ s.heap.limit ≤ bspStack)
    (hlt : ∀ id ∈ conf.ids, id < conf.cpuNum)
    (hroom : s.heap.currentPointer + conf.cpuNum * CORE_TABLES_SIZE +
      (conf.cpuNum - 1) * CORE_STACK_SIZE ≤ s.heap.limit) :
    StartsByIdentity conf bspId bspStack s r := by
  have hperm := (started_perm_iff hnodup hbsp).mpr hlt
  have hlength : (started bspId (List.range conf.cpuNum)).length = conf.cpuNum - 1 := by
    rw [length_started, if_pos (hlt bspId hbsp)]
  -- every processor has a number in the order of the starts, and that block fits
  have hblock : ∀ id ∈ conf.aps bspId, ∃ k,
      (started bspId (List.range conf.cpuNum))[k]? = some id ∧
      s.heap.currentPointer + conf.cpuNum * CORE_TABLES_SIZE + k * CORE_STACK_SIZE +
        CORE_STACK_SIZE ≤ s.heap.limit ∧
      startAPStack r id = some (s.heap.currentPointer + conf.cpuNum * CORE_TABLES_SIZE +
        k * CORE_STACK_SIZE + CORE_STACK_SIZE - 4) := by
    intro id hid
    obtain ⟨k, hk, hget⟩ := List.getElem_of_mem (hperm.mem_iff.mpr hid)
    have hk? : (started bspId (List.range conf.cpuNum))[k]? = some id :=
      List.getElem?_eq_some_iff.mpr ⟨hk, hget⟩
    obtain ⟨base, htop, hbase⟩ := hr.stack k id hk?
    have hfit : s.heap.currentPointer + conf.cpuNum * CORE_TABLES_SIZE + (k + 1) * CORE_STACK_SIZE ≤
        s.heap.limit :=
      Nat.le_trans (Nat.add_le_add_left (Nat.mul_le_mul_right _ (hlength ▸ hk)) _) hroom
    rw [if_pos hfit] at hbase
    rw [Nat.succ_mul, ← Nat.add_assoc] at hfit
    exact ⟨k, hk?, hfit, hbase ▸ htop⟩
  constructor
  · exact ⟨_, hperm, hr.sent⟩
  · intro id hid
    obtain ⟨k, -, hfit, htop⟩ := hblock id hid
    refine ⟨_, htop, by omega, hfit, ?_⟩
    rcases hstack with hbelow | habove
    · exact Or.inr (by omega)
    · exact Or.inl (Nat.le_trans hfit habove)
  · intro id hid id' hid' hne top top' htop htop'
    obtain ⟨k, hk, -, hbase⟩ := hblock id hid
    obtain ⟨k', hk', -, hbase'⟩ := hblock id' hid'
    obtain rfl := Option.some.inj (htop.symm.trans hbase)
    obtain rfl := Option.some.inj (htop'.symm.trans hbase')
    have hkne : k ≠ k' := fun heq => hne (Option.some.inj (hk.symm.trans (heq ▸ hk')))
    rcases Nat.lt_or_gt_of_ne hkne with h | h
    · have hapart := stack_apart (a := s.heap.currentPointer + conf.cpuNum * CORE_TABLES_SIZE) h
      exact Or.inl (by simp only [CORE_STACK_SIZE] at *; omega)
    · have hapart := stack_apart (a := s.heap.currentPointer + conf.cpuNum * CORE_TABLES_SIZE) h
      exact Or.inr (by simp only [CORE_STACK_SIZE] at *; omega)
  · intro id hid
    have hslot := Nat.mul_le_mul_right CORE_TABLES_SIZE (hlt id (mem_aps.mp hid).1)
    rw [Nat.succ_mul] at hslot
    rw [apInitTables, Nat.add_assoc]
    exact ⟨Nat.le_add_right _ _, Nat.add_le_add_left hslot _⟩

theorem Startup.of_startsByIdentity {bspStack : Nat} (hr : Startup conf bspId s r)
    (hstarts : StartsByIdentity conf bspId bspStack s r) (hnum : 1 < conf.cpuNum)
    (hnodup : conf.ids.Nodup) (hbsp : bspId ∈ conf.ids) (hok : s.heap.Ok) :
    (∀ id ∈ conf.ids, id < conf.cpuNum) ∧
      s.heap.currentPointer + conf.cpuNum * CORE_TABLES_SIZE +
        (conf.cpuNum - 1) * CORE_STACK_SIZE ≤ s.heap.limit := by
  obtain ⟨order, hperm, hsent⟩ := hstarts.sequences
  have horder : started bspId (List.range conf.cpuNum) = order := by
    rw [hr.sent] at hsent
    exact startSequence_flatMap_injective (List.append_cancel_left hsent)
  rw [← horder] at hperm
  have hlt := (started_perm_iff hnodup hbsp).mp hperm
  refine ⟨hlt, ?_⟩
  -- the last one started has a stack in the heap only if all of them fit
  have hlast : conf.cpuNum - 2 < (started bspId (List.range conf.cpuNum)).length := by
    rw [length_started, if_pos (hlt bspId hbsp)]
    omega
  have hmem := hperm.mem_iff.mp (List.getElem_mem hlast)
  obtain ⟨base, htop, hbase⟩ := hr.stack _ _ (List.getElem?_eq_getElem hlast)
  obtain ⟨base', htop', hfresh, -, -⟩ := hstarts.stack _ hmem
  have htops := Option.some.inj (htop.symm.trans htop')
  have hpos : 0 < s.heap.currentPointer := Nat.lt_of_lt_of_le hok.start hok.above
  by_contra hfull
  have hlong : ¬ s.heap.currentPointer + conf.cpuNum * CORE_TABLES_SIZE +
      (conf.cpuNum - 2 + 1) * CORE_STACK_SIZE ≤ s.heap.limit := by
    rwa [show conf.cpuNum - 2 + 1 = conf.cpuNum - 1 by omega]
  rw [if_neg hlong] at hbase
  simp only [CORE_STACK_SIZE] at htops
  omega

/-! ## The list of the MADT -/

theorem readSystemConfig_cpuNum_le (lapics : List MadtProcLapic) :
    (readSystemConfig lapics).cpuNum ≤ MAX_SUPP_PROC_NUM := by
  rw [SysConfInfo.cpuNum, readSystemConfig, List.length_map]
  exact List.length_take_le _ _

/-- Every listed processor is started by its own identity exactly if there is nobody to start, or
the LAPIC ids are smaller than their number and the heap holds the tables and the stacks. -/
theorem initAPs_startsByIdentity_iff (lapics : List MadtProcLapic) (bspId bspStack : Nat)
    (s : ApState) (hnodup : (readSystemConfig lapics).ids.Nodup)
    (hbsp : bspId ∈ (readSystemConfig lapics).ids) (hok : s.heap.Ok)
    (hcpus : s.cpuState.length = MAX_CPU_NUM)
    (hstack : bspStack + CORE_STACK_SIZE ≤ s.heap.heapMem ∨ s.heap.limit ≤ bspStack) :
    (∃ r, initAPs (readSystemConfig lapics) bspId s = some r ∧
      StartsByIdentity (readSystemConfig lapics) bspId bspStack s r) ↔
    ApsStartable (readSystemConfig lapics) s.heap := by
  have hmax := readSystemConfig_cpuNum_le lapics
  have hstack' : bspStack + CORE_STACK_SIZE ≤ s.heap.currentPointer ∨ s.heap.limit ≤ bspStack :=
    hstack.imp_left fun h => Nat.le_trans h hok.above
  rcases Nat.lt_or_ge 1 (readSystemConfig lapics).cpuNum with hnum | hnum
  · obtain ⟨hfull, hfit⟩ := initAPs_spec rfl hnum hmax hok hcpus
    constructor
    · rintro ⟨r, hrun, hstarts⟩
      rcases Nat.lt_or_ge s.heap.limit (s.heap.currentPointer +
        (readSystemConfig lapics).cpuNum * CORE_TABLES_SIZE) with h | h
      · rw [hfull h] at hrun
        cases hrun
      · obtain ⟨r', hrun', hr⟩ := hfit h
        obtain rfl := Option.some.inj (hrun.symm.trans hrun')
        exact Or.inr (hr.of_startsByIdentity hstarts hnum hnodup hbsp hok)
    · rintro (h | ⟨hlt, hroom⟩)
      · exact absurd hnum (Nat.not_lt.mpr h)
      · obtain ⟨r, hrun, hr⟩ := hfit (Nat.le_trans (Nat.le_add_right _ _) hroom)
        exact ⟨r, hrun, hr.startsByIdentity hnodup hbsp hstack' hlt hroom⟩
  · have hrun : initAPs (readSystemConfig lapics) bspId s = some s :=
      if_neg fun h => Nat.not_lt.mpr hnum h.2
    exact ⟨fun _ => Or.inl hnum, fun _ => ⟨s, hrun, startsByIdentity_of_single hbsp hnum⟩⟩

/-- A heap of `KER_HEAP_SIZE` bytes at 1 MiB, and no processor started yet. -/
def bootState : ApState where
  heap := ⟨fun _ => 0, 0x100000, 0x20000, 0x100000, 0, []⟩
  lapic := ⟨0, 0, []⟩
  cpuState := List.replicate MAX_CPU_NUM ⟨0, 0, 0⟩
  apTables := 0

theorem bootState_ok : bootState.heap.Ok := ⟨by decide, by decide, by decide, by decide⟩

/-- Three processors whose ids are the numbers below three, in another order. -/
theorem initAPs_startsByIdentity_reordered :
    ∃ r, initAPs (readSystemConfig [⟨0, 1⟩, ⟨1, 2⟩, ⟨2, 0⟩]) 1 bootState = some r ∧
      StartsByIdentity (readSystemConfig [⟨0, 1⟩, ⟨1, 2⟩, ⟨2, 0⟩]) 1 0x80000 bootState r :=
  (initAPs_startsByIdentity_iff [⟨0, 1⟩, ⟨1, 2⟩, ⟨2, 0⟩] 1 0x80000 bootState (by decide) (by decide)
    bootState_ok List.length_replicate (Or.inl (by decide))).mpr
    (Or.inr ⟨by decide, by decide⟩)

/-- Two processors with the ids 0 and 2: the sequence goes to 1, where there is none, and processor
2 is never started. -/
theorem initAPs_sparse_ids :
    ∃ r, initAPs (readSystemConfig [⟨0, 0⟩, ⟨1, 2⟩]) 0 bootState = some r ∧
      r.lapic.sent.map icrMessage = startSequence 8 1 ∧
      ¬ StartsByIdentity (readSystemConfig [⟨0, 0⟩, ⟨1, 2⟩]) 0 0x80000 bootState r := by
  have hnodup : (readSystemConfig [⟨0, 0⟩, ⟨1, 2⟩]).ids.Nodup := by decide
  have hbsp : 0 ∈ (readSystemConfig [⟨0, 0⟩, ⟨1, 2⟩]).ids := by decide
  have hnum : 1 < (readSystemConfig [⟨0, 0⟩, ⟨1, 2⟩]).cpuNum := by decide
  obtain ⟨r, hrun, hr⟩ := (initAPs_spec rfl hnum (by decide) bootState_ok
    List.length_replicate).2 (by decide)
  refine ⟨r, hrun, hr.sent, fun hstarts => ?_⟩
  have hlt := (hr.of_startsByIdentity hstarts hnum hnodup hbsp bootState_ok).1
  exact absurd (hlt 2 (by decide)) (by decide)

end TalOS
