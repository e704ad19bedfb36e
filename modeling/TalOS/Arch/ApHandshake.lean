-- SUMMARY: `InitAPs` and the trampoline of the processors it starts, as parties that run at the same time.
import TalOS.Arch.CoreTables
import TalOS.Lib.Run

/-!
# Starting processors, all parties at once

The boot processor works through `InitAPs` and sends IPIs. A processor that has been
woken loads its stack from its record of `CPU_State`, spins until the record says that it
may go on, marks it and enters `AP_main`. The parties share the array, and an IPI is under
way until it arrives. A step makes at most one store, so that any party may come in
between any two stores of another one.
-/

open MachineInt

namespace TalOS

/-! ## The parties -/

def CPU_STATE_NOT_STARTED : Nat := 0
def CPU_STATE_STARTED : Nat := 2

/-- The interrupts between processors. -/
inductive Ipi where
  | init
  | deassert
  | startup
deriving Repr, DecidableEq

/-- What `StartupAP` calls for it. -/
def Ipi.send (cpuId : Nat) : Ipi → Lapic → Lapic
  | init => sendInitIPI cpuId
  | deassert => sendInitIPIDeassert cpuId
  | startup => sendStartupIPI cpuId (AP_TRAM_START >>> 12)

/-- The command that the hardware sees. -/
def Ipi.command : Ipi → BitVec 20
  | init => (initCommand ICR_LEVEL_ASSERT).extractLsb' 0 20
  | deassert => (initCommand ICR_LEVEL_DEASSERT).extractLsb' 0 20
  | startup => (startupCommand (AP_TRAM_START >>> 12)).extractLsb' 0 20

/-- A step of the boot processor; `sendIpi` comes with the loop that waits for the delivery. -/
inductive BspInstr where
  | storeCoreId (i : Nat)
  | allocStack (i : Nat)
  | adjustStack (i : Nat)
  | sendIpi (i : Nat) (ipi : Ipi)
  | storeWaiting (i : Nat)
  | countStarted (i : Nat)
deriving Repr, DecidableEq

/-- The body of the first loop of `InitAPs`, with `StartupAP`. -/
def startCode (i : Nat) : List BspInstr :=
  [.storeCoreId i, .allocStack i, .adjustStack i, .sendIpi i .init, .sendIpi i .deassert,
    .sendIpi i .startup, .sendIpi i .startup, .storeWaiting i]

/-- The two loops of `InitAPs`. -/
def initAPsCode (bspId cpuNum : Nat) : List BspInstr :=
  (started bspId (List.range cpuNum)).flatMap startCode ++ (List.range cpuNum).map .countStarted

/-- Where a processor other than the boot processor stands in `_StartAP`, with its stack pointer. -/
inductive ApCore where
  | halted
  /-- reset by an INIT, ready for a STARTUP -/
  | waitSipi
  | trampoline
  | waitStart (esp : Nat)
  /-- before the store of `CPU_STATE_STARTED` -/
  | go (esp : Nat)
  /-- in `AP_main` -/
  | main (esp : Nat)
deriving Repr, DecidableEq

/-- An IPI arrives. -/
def ApCore.receive (command : BitVec 20) (core : ApCore) : ApCore :=
  if command = Ipi.init.command then .waitSipi
  else if command = Ipi.startup.command ∧ core = .waitSipi then .trampoline
  else core

structure ApSystem where
  /-- what the boot processor has still to do -/
  code : List BspInstr
  /-- it is in `while (IPI_isPending())` -/
  waiting : Bool
  mem : ApState
  /-- the IPI under way -/
  pending : Option (Nat × BitVec 20)
  /-- the other processors by LAPIC id -/
  cores : Nat → ApCore
  /-- `CPU_Started_Num` -/
  startedNum : Nat

/-- Change a record of `CPU_State`. -/
def ApState.setSlot (s : ApState) (i : Nat) (f : CoreStatus → CoreStatus) : ApState :=
  { s with cpuState := s.cpuState.modify i f }

/-- `CPU_State[i].StartedState` -/
def ApState.startedState (s : ApState) (i : Nat) : Option Nat := (s.cpuState[i]?).map fun c => c.startedState

/-- What an instruction does to memory and to the local APIC. -/
def BspInstr.store : BspInstr → ApState → ApState
  | storeCoreId i, s => s.setSlot i fun c => { c with coreID := i }
  | allocStack i, s =>
    let r := kmalloc s.heap CORE_STACK_SIZE
    ApState.setSlot { s with heap := r.2 } i fun c => { c with stackTopAddress := r.1 }
  | adjustStack i, s =>
    s.setSlot i fun c => { c with stackTopAddress := u32 (c.stackTopAddress + CORE_STACK_SIZE - 4) }
  | sendIpi i ipi, s => { s with lapic := ipi.send i s.lapic }
  | storeWaiting i, s => s.setSlot i fun c => { c with startedState := CPU_STATE_WAITING_START }
  | countStarted _, s => s

/-- Who takes a step. -/
inductive Actor where
  | bsp
  | delivery
  | core (id : Nat)
deriving Repr, DecidableEq

namespace ApSystem

/-- The boot processor executes an instruction. -/
def execute (s : ApSystem) (ins : BspInstr) (code : List BspInstr) : ApSystem :=
  let s := { s with code := code, mem := ins.store s.mem }
  match ins with
  | .sendIpi _ _ => { s with waiting := true, pending := s.mem.lapic.sent.getLast?.map icrMessage }
  | .countStarted i =>
    if s.mem.startedState i = some CPU_STATE_STARTED then { s with startedNum := s.startedNum + 1 } else s
  | _ => s

def bspStep (s : ApSystem) : Option ApSystem :=
  if s.waiting then some { s with waiting := s.pending.isSome }
  else
    match s.code with
    | [] => none
    | ins :: code => some (s.execute ins code)

def deliver (s : ApSystem) : Option ApSystem :=
  s.pending.map fun ipi =>
    { s with cores := Function.update s.cores ipi.1 ((s.cores ipi.1).receive ipi.2), pending := none }

/-- A step of the code from `_StartAP` on. -/
def coreStep (s : ApSystem) (id : Nat) : Option ApSystem :=
  match s.cores id with
  | .trampoline =>
    (startAPStack s.mem id).map fun esp => { s with cores := Function.update s.cores id (.waitStart esp) }
  | .waitStart esp =>
    (s.mem.startedState id).map fun state =>
      -- `cmpb` compares the lowest byte
      if u8 state = CPU_STATE_WAITING_START then { s with cores := Function.update s.cores id (.go esp) } else s
  | .go esp => some { s with
      mem := s.mem.setSlot id fun c => { c with startedState := CPU_STATE_STARTED }
      cores := Function.update s.cores id (.main esp) }
  | _ => none

def step : Actor → ApSystem → Option ApSystem
  | .bsp, s => s.bspStep
  | .delivery, s => s.deliver
  | .core id, s => s.coreStep id

/-- `InitAPs` at the start of its loops, with all other processors halted. -/
def start (bspId cpuNum : Nat) (mem : ApState) : ApSystem where
  code := initAPsCode bspId cpuNum
  waiting := false
  mem := mem
  pending := none
  cores := fun _ => .halted
  startedNum := 0

end ApSystem

/-- `CPU_State` as `InitSys` hands it to `InitAPs`: the boot processor has the first record. -/
def initSysCpuState (bspId bspStackTop : Nat) : List CoreStatus :=
  (List.replicate MAX_CPU_NUM ⟨0, CPU_STATE_NOT_STARTED, 0⟩).set BSP_INDEX ⟨bspId, CPU_STATE_STARTED, bspStackTop⟩

/-- `InitAPs` up to its loops, `none` where it does not get there. -/
def initAPsStart (conf : SysConfInfo) (bspId : Nat) (s : ApState) : Option ApSystem :=
  if conf.acpiInit = true ∧ conf.cpuNum > 1 then
    let r := kmalloc s.heap (u32 (conf.cpuNum * CORE_TABLES_SIZE))
    if r.1 = 0 then none else some (ApSystem.start bspId conf.cpuNum { s with heap := r.2, apTables := r.1 })
  else none

/-! ## What the boot processor sets up -/

/-- All that the boot processor has written but the states, which the others write too. -/
structure ApState.SameSetup (s s' : ApState) : Prop where
  heap : s.heap = s'.heap
  lapic : s.lapic = s'.lapic
  apTables : s.apTables = s'.apTables
  stack : ∀ i, startAPStack s i = startAPStack s' i

variable {s s' : ApState} {i j : Nat}

theorem startAPStack_setSlot (s : ApState) (i j : Nat) (f : CoreStatus → CoreStatus) :
    startAPStack (s.setSlot i f) j =
      (s.cpuState[j]?).map fun c => if i = j then (f c).stackTopAddress else c.stackTopAddress := by
  rw [startAPStack, ApState.setSlot, List.getElem?_modify]
  cases s.cpuState[j]? with
  | none => rfl
  | some c =>
    by_cases h : i = j
    · simp [h]
    · simp [h]

theorem startedState_setSlot (s : ApState) (i j : Nat) (f : CoreStatus → CoreStatus) :
    (s.setSlot i f).startedState j =
      (s.cpuState[j]?).map fun c => if i = j then (f c).startedState else c.startedState := by
  rw [ApState.startedState, ApState.setSlot, List.getElem?_modify]
  cases s.cpuState[j]? with
  | none => rfl
  | some c =>
    by_cases h : i = j
    · simp [h]
    · simp [h]

/-- A store that leaves the stack of a record. -/
theorem startAPStack_setSlot_keep (s : ApState) (i j : Nat) {f : CoreStatus → CoreStatus}
    (hf : ∀ c, (f c).stackTopAddress = c.stackTopAddress) :
    startAPStack (s.setSlot i f) j = startAPStack s j := by
  rw [startAPStack_setSlot, startAPStack]
  simp only [hf, ite_self]

theorem startedState_setSlot_keep (s : ApState) (i j : Nat) {f : CoreStatus → CoreStatus}
    (hf : ∀ c, (f c).startedState = c.startedState) :
    (s.setSlot i f).startedState j = s.startedState j := by
  rw [startedState_setSlot, ApState.startedState]
  simp only [hf, ite_self]

/-- A store of the stack of a record, as a function of the stack that was there. -/
theorem startAPStack_setSlot_stack (s : ApState) (i j : Nat) {f : CoreStatus → CoreStatus} {g : Nat → Nat}
    (hf : ∀ c, (f c).stackTopAddress = g c.stackTopAddress) :
    startAPStack (s.setSlot i f) j = (startAPStack s j).map fun top => if i = j then g top else top := by
  rw [startAPStack_setSlot, startAPStack, Option.map_map]
  simp only [hf, Function.comp_def]

theorem sameSetup_state (s : ApState) (i state : Nat) :
    (s.setSlot i fun c => { c with startedState := state }).SameSetup s :=
  ⟨rfl, rfl, rfl, fun j => startAPStack_setSlot_keep s i j fun _ => rfl⟩

theorem ApState.SameSetup.trans {s'' : ApState} (h : s.SameSetup s') (h' : s'.SameSetup s'') :
    s.SameSetup s'' :=
  ⟨h.heap.trans h'.heap, h.lapic.trans h'.lapic, h.apTables.trans h'.apTables,
    fun i => (h.stack i).trans (h'.stack i)⟩

/-- An instruction does not depend on the states. -/
theorem ApState.SameSetup.store (h : s.SameSetup s') (ins : BspInstr) :
    (ins.store s).SameSetup (ins.store s') := by
  cases ins with
  | storeCoreId i =>
    refine ⟨h.heap, h.lapic, h.apTables, fun j => ?_⟩
    have hkeep (s : ApState) : startAPStack ((BspInstr.storeCoreId i).store s) j = startAPStack s j :=
      startAPStack_setSlot_keep s i j fun _ => rfl
    rw [hkeep, hkeep, h.stack j]
  | allocStack i =>
    have hset (s : ApState) (j : Nat) : startAPStack ((BspInstr.allocStack i).store s) j =
        (startAPStack s j).map fun top => if i = j then (kmalloc s.heap CORE_STACK_SIZE).1 else top := by
      dsimp only [BspInstr.store]
      generalize kmalloc s.heap CORE_STACK_SIZE = r
      exact startAPStack_setSlot_stack { s with heap := r.2 } i j fun _ => rfl
    have hstack (j : Nat) : startAPStack ((BspInstr.allocStack i).store s) j =
        startAPStack ((BspInstr.allocStack i).store s') j := by
      rw [hset, hset, h.stack j, h.heap]
    refine ⟨?_, ?_, ?_, hstack⟩
    · dsimp only [BspInstr.store, ApState.setSlot]
      rw [h.heap]
    · dsimp only [BspInstr.store, ApState.setSlot]
      exact h.lapic
    · dsimp only [BspInstr.store, ApState.setSlot]
      exact h.apTables
  | adjustStack i =>
    refine ⟨h.heap, h.lapic, h.apTables, fun j => ?_⟩
    have hset (s : ApState) : startAPStack ((BspInstr.adjustStack i).store s) j =
        (startAPStack s j).map fun top => if i = j then u32 (top + CORE_STACK_SIZE - 4) else top :=
      startAPStack_setSlot_stack s i j fun _ => rfl
    rw [hset, hset, h.stack j]
  | sendIpi i ipi =>
    refine ⟨h.heap, ?_, h.apTables, h.stack⟩
    show ipi.send i s.lapic = ipi.send i s'.lapic
    rw [h.lapic]
  | storeWaiting i =>
    refine ⟨h.heap, h.lapic, h.apTables, fun j => ?_⟩
    have hkeep (s : ApState) : startAPStack ((BspInstr.storeWaiting i).store s) j = startAPStack s j :=
      startAPStack_setSlot_keep s i j fun _ => rfl
    rw [hkeep, hkeep, h.stack j]
  | countStarted i => exact h

/-- What instructions do to memory. -/
def storeAll (code : List BspInstr) (s : ApState) : ApState := code.foldl (fun s ins => ins.store s) s

theorem storeAll_append (code code' : List BspInstr) (s : ApState) :
    storeAll (code ++ code') s = storeAll code' (storeAll code s) := List.foldl_append

/-- The loop body is that of the sequential `InitAPs`. -/
theorem storeAll_startCode (i : Nat) (s : ApState) : storeAll (startCode i) s = initAP i s := by
  have hslot : (((s.cpuState.modify i fun c => { c with coreID := i }).modify i fun c =>
      { c with stackTopAddress := (kmalloc s.heap CORE_STACK_SIZE).1 }).modify i fun c =>
        { c with stackTopAddress := u32 (c.stackTopAddress + CORE_STACK_SIZE - 4) }).modify i
          (fun c => { c with startedState := CPU_STATE_WAITING_START }) =
      s.cpuState.set i ⟨i, CPU_STATE_WAITING_START,
        u32 ((kmalloc s.heap CORE_STACK_SIZE).1 + CORE_STACK_SIZE - 4)⟩ := by
    refine List.ext_getElem? fun j => ?_
    simp only [List.getElem?_modify, List.getElem?_set]
    by_cases h : i = j
    · subst h
      by_cases hlt : i < s.cpuState.length
      · simp [hlt]
      · simp [hlt]
    · simp [h]
  dsimp only [initAP]
  rw [← hslot]
  simp only [storeAll, startCode, List.foldl_cons, List.foldl_nil, BspInstr.store, ApState.setSlot, Ipi.send,
    startupAP]

theorem storeAll_flatMap (ids : List Nat) (s : ApState) :
    storeAll (ids.flatMap startCode) s = ids.foldl (fun s i => initAP i s) s := by
  induction ids generalizing s with
  | nil => rfl
  | cons i ids ih => rw [List.flatMap_cons, storeAll_append, storeAll_startCode, ih, List.foldl_cons]

theorem storeAll_counts (is : List Nat) (s : ApState) : storeAll (is.map .countStarted) s = s := by
  induction is with
  | nil => rfl
  | cons i is ih => exact ih

/-- Alone the boot processor does what the sequential `InitAPs` does. -/
theorem storeAll_initAPsCode {bspId cpuNum : Nat} (htables : s.apTables ≠ 0) :
    initAPsLoop bspId (List.range cpuNum) s = some (storeAll (initAPsCode bspId cpuNum) s) := by
  rw [initAPsLoop_eq _ htables, initAPsCode, storeAll_append, storeAll_counts, storeAll_flatMap]

/-- The two accounts of `InitAPs` come to their loops in the same state. -/
theorem initAPsStart_eq_some {conf : SysConfInfo} {bspId : Nat} {sys : ApSystem}
    (h : initAPsStart conf bspId s = some sys) :
    conf.acpiInit = true ∧ 1 < conf.cpuNum ∧ ∃ mem, mem.cpuState = s.cpuState ∧
      sys = ApSystem.start bspId conf.cpuNum mem ∧
      initAPs conf bspId s = some (storeAll (initAPsCode bspId conf.cpuNum) mem) := by
  unfold initAPsStart at h
  by_cases hboot : conf.acpiInit = true ∧ conf.cpuNum > 1
  · rw [if_pos hboot] at h
    dsimp only at h
    have hinit : initAPs conf bspId s = _ := if_pos hboot
    rw [hinit]
    dsimp only
    generalize kmalloc s.heap (u32 (conf.cpuNum * CORE_TABLES_SIZE)) = r at h ⊢
    by_cases htables : r.1 = 0
    · rw [if_pos htables] at h
      cases h
    · rw [if_neg htables] at h ⊢
      exact ⟨hboot.1, hboot.2, { s with heap := r.2, apTables := r.1 }, rfl, (Option.some.inj h).symm,
        storeAll_initAPsCode htables⟩
  · rw [if_neg hboot] at h
    cases h

theorem startedState_initSys {bspId bspStackTop : Nat} (h : s.cpuState = initSysCpuState bspId bspStackTop) :
    s.startedState i = if i = BSP_INDEX then some CPU_STATE_STARTED
      else if i < MAX_CPU_NUM then some CPU_STATE_NOT_STARTED else none := by
  rw [ApState.startedState, h, initSysCpuState, List.getElem?_set, List.getElem?_replicate, List.length_replicate]
  by_cases hboot : i = BSP_INDEX
  · rw [if_pos hboot, if_pos hboot.symm, if_pos (by decide)]
    rfl
  · rw [if_neg hboot, if_neg (Ne.symm hboot)]
    by_cases hlt : i < MAX_CPU_NUM
    · rw [if_pos hlt, if_pos hlt]
      rfl
    · rw [if_neg hlt, if_neg hlt]
      rfl

theorem length_initSysCpuState (bspId bspStackTop : Nat) :
    (initSysCpuState bspId bspStackTop).length = MAX_CPU_NUM := by
  rw [initSysCpuState, List.length_set, List.length_replicate]

/-! ## The order of the instructions -/

/-- The processor that an instruction is about. -/
def BspInstr.target : BspInstr → Nat
  | storeCoreId i | allocStack i | adjustStack i | sendIpi i _ | storeWaiting i | countStarted i => i

/-- How far the boot processor is with a processor. -/
def BspInstr.rank : BspInstr → Nat
  | storeCoreId _ => 0
  | allocStack _ => 1
  | adjustStack _ => 2
  | sendIpi _ .init => 3
  | sendIpi _ .deassert => 4
  | sendIpi _ .startup => 5
  | storeWaiting _ => 6
  | countStarted _ => 7

/-- Of the instructions about one processor only the STARTUP comes twice, all others in their order. -/
def BspInstr.Before (a b : BspInstr) : Prop :=
  a.target = b.target → a.rank < b.rank ∨ a.rank = 5 ∧ b.rank = 5

theorem target_of_mem_startCode {ins : BspInstr} (h : ins ∈ startCode i) : ins.target = i := by
  simp only [startCode, List.mem_cons, List.not_mem_nil, or_false] at h
  rcases h with rfl | rfl | rfl | rfl | rfl | rfl | rfl | rfl <;> rfl

theorem rank_of_mem_startCode {ins : BspInstr} (h : ins ∈ startCode i) : ins.rank < 7 := by
  simp only [startCode, List.mem_cons, List.not_mem_nil, or_false] at h
  rcases h with rfl | rfl | rfl | rfl | rfl | rfl | rfl | rfl <;> simp [BspInstr.rank]

theorem startCode_ordered (i : Nat) : (startCode i).Pairwise BspInstr.Before := by
  simp [startCode, BspInstr.Before, BspInstr.target, BspInstr.rank]

theorem initAPsCode_ordered (bspId cpuNum : Nat) : (initAPsCode bspId cpuNum).Pairwise BspInstr.Before := by
  have hnodup : (started bspId (List.range cpuNum)).Nodup := List.nodup_range.filter _
  refine List.pairwise_append.mpr ⟨List.pairwise_flatMap.mpr ⟨fun i _ => startCode_ordered i, ?_⟩, ?_, ?_⟩
  · refine hnodup.imp fun hne a ha b hb htarget => ?_
    rw [target_of_mem_startCode ha, target_of_mem_startCode hb] at htarget
    exact absurd htarget hne
  · rw [List.pairwise_map]
    exact List.nodup_range.imp fun hne htarget => absurd htarget hne
  · intro a ha b hb _
    obtain ⟨i, -, ha⟩ := List.mem_flatMap.mp ha
    obtain ⟨j, -, rfl⟩ := List.mem_map.mp hb
    exact Or.inl (rank_of_mem_startCode ha)

/-- An instruction about another processor, or from the STARTUP on, leaves the stack. -/
theorem startAPStack_store (s : ApState) {ins : BspInstr} (h : ins.target = i → 5 ≤ ins.rank) :
    startAPStack (ins.store s) i = startAPStack s i := by
  cases ins with
  | storeCoreId j => exact startAPStack_setSlot_keep s j i fun _ => rfl
  | allocStack j =>
    have hne : j ≠ i := by
      intro heq
      have hrank : 5 ≤ 1 := h heq
      omega
    dsimp only [BspInstr.store]
    generalize kmalloc s.heap CORE_STACK_SIZE = r
    rw [startAPStack_setSlot, startAPStack]
    simp only [if_neg hne]
  | adjustStack j =>
    have hne : j ≠ i := by
      intro heq
      have hrank : 5 ≤ 2 := h heq
      omega
    dsimp only [BspInstr.store]
    rw [startAPStack_setSlot, startAPStack]
    simp only [if_neg hne]
  | sendIpi j ipi => rfl
  | storeWaiting j => exact startAPStack_setSlot_keep s j i fun _ => rfl
  | countStarted j => rfl

theorem startAPStack_storeAll {code : List BspInstr} (h : ∀ ins ∈ code, ins.target = i → 5 ≤ ins.rank)
    (s : ApState) : startAPStack (storeAll code s) i = startAPStack s i := by
  induction code generalizing s with
  | nil => rfl
  | cons ins code ih =>
    have hrest := ih (fun ins' hins => h ins' (List.mem_cons_of_mem _ hins)) (ins.store s)
    exact hrest.trans (startAPStack_store s (h ins List.mem_cons_self))

/-- Only one instruction of the boot processor changes a state. -/
theorem startedState_store (s : ApState) {ins : BspInstr} (h : ins ≠ .storeWaiting i) :
    (ins.store s).startedState i = s.startedState i := by
  cases ins with
  | storeCoreId j => exact startedState_setSlot_keep s j i fun _ => rfl
  | allocStack j =>
    dsimp only [BspInstr.store]
    generalize kmalloc s.heap CORE_STACK_SIZE = r
    exact startedState_setSlot_keep { s with heap := r.2 } j i fun _ => rfl
  | adjustStack j => exact startedState_setSlot_keep s j i fun _ => rfl
  | sendIpi j ipi => rfl
  | storeWaiting j =>
    have hne : j ≠ i := fun heq => h (heq ▸ rfl)
    dsimp only [BspInstr.store]
    rw [startedState_setSlot, ApState.startedState]
    simp only [if_neg hne]
  | countStarted j => rfl

theorem length_cpuState_store (s : ApState) (ins : BspInstr) :
    (ins.store s).cpuState.length = s.cpuState.length := by
  cases ins with
  | sendIpi _ _ | countStarted _ => rfl
  | storeCoreId _ | allocStack _ | adjustStack _ | storeWaiting _ => exact List.length_modify ..

theorem startedState_storeState (s : ApState) (i state : Nat) :
    (s.setSlot i fun c => { c with startedState := state }).startedState i =
      (s.startedState i).map fun _ => state := by
  rw [startedState_setSlot, ApState.startedState, Option.map_map]
  simp only [if_true]
  rfl

/-! ## The messages -/

theorem Ipi.command_injective {ipi ipi' : Ipi} (h : ipi.command = ipi'.command) : ipi = ipi' := by
  cases ipi <;> cases ipi' <;> first | rfl | exact absurd h (by decide)

/-- What is under way after an IPI has been sent. -/
theorem message_send (l : Lapic) (ipi : Ipi) (hi : i < 256) :
    (ipi.send i l).sent.getLast?.map icrMessage = some (i, ipi.command) := by
  have hsent : (ipi.send i l).sent.map icrMessage = l.sent.map icrMessage ++ [(i, ipi.command)] := by
    cases ipi <;> exact sendIcr_sent l _ hi
  rw [← List.getLast?_map, hsent, List.getLast?_concat]

/-! ## One processor beside the boot processor -/

/-- A STARTUP has reached it. -/
def ApCore.Woken : ApCore → Prop
  | .halted | .waitSipi => False
  | .trampoline | .waitStart _ | .go _ | .main _ => True

/-- The stack it runs on. -/
def ApCore.esp : ApCore → Option Nat
  | .halted | .waitSipi | .trampoline => none
  | .waitStart esp | .go esp | .main esp => some esp

/-- It has entered `AP_main`. -/
def ApCore.inMain : ApCore → Bool
  | .main _ => true
  | _ => false

section Core

variable (code : List BspInstr) (pending : Option (Nat × BitVec 20)) (mem : ApState) (core : ApCore) (i : Nat)

/-- What is always so of the processor `i`. -/
structure CoreOk : Prop where
  /-- Once it is woken, or about to be, the boot processor is done with its stack. -/
  woken : core.Woken ∨ pending = some (i, Ipi.startup.command) → ∀ ins ∈ code, ins.target = i → 5 ≤ ins.rank
  /-- No INIT throws it back. -/
  noReset : core.Woken → pending ≠ some (i, Ipi.init.command)
  stack : ∀ esp, core.esp = some esp → startAPStack mem i = some esp
  /-- It does not go on before the boot processor lets it. -/
  fresh : .storeWaiting i ∈ code → mem.startedState i ≠ some CPU_STATE_WAITING_START ∧ core.inMain = false
  go : ∀ esp, core = .go esp → mem.startedState i = some CPU_STATE_WAITING_START
  state : ∀ state, mem.startedState i = some state →
    state = CPU_STATE_NOT_STARTED ∨ state = CPU_STATE_WAITING_START ∨ state = CPU_STATE_STARTED

/-- What is so of a processor that is to be started. -/
structure CoreListed : Prop where
  slot : i < mem.cpuState.length
  reset : .sendIpi i .init ∉ code → pending ≠ some (i, Ipi.init.command) → core ≠ .halted
  started : .sendIpi i .startup ∉ code → pending ≠ some (i, Ipi.startup.command) → core.Woken
  released : .storeWaiting i ∉ code →
    mem.startedState i = some (if core.inMain then CPU_STATE_STARTED else CPU_STATE_WAITING_START)

end Core

theorem ApCore.woken_of_esp {core : ApCore} {esp : Nat} (h : core.esp = some esp) : core.Woken := by
  cases core with
  | halted | waitSipi | trampoline => cases h
  | waitStart _ | go _ | main _ => trivial

theorem ApCore.woken_of_inMain {core : ApCore} (h : core.inMain = true) : core.Woken := by
  cases core with
  | main _ => trivial
  | _ => cases h

theorem ApCore.inMain_of_esp {core : ApCore} (h : core.esp = none) : core.inMain = false := by
  cases core with
  | main _ => cases h
  | _ => rfl

/-- An IPI other than an INIT leaves a processor that runs where it is. -/
theorem ApCore.receive_of_woken {command : BitVec 20} {core : ApCore} (h : core.Woken)
    (hinit : command ≠ Ipi.init.command) : core.receive command = core := by
  refine (if_neg hinit).trans (if_neg ?_)
  rintro ⟨-, rfl⟩
  exact h

theorem ApCore.inMain_receive {command : BitVec 20} {core : ApCore}
    (h : core.Woken → command ≠ Ipi.init.command) : (core.receive command).inMain = core.inMain := by
  cases core with
  | halted | waitSipi =>
    unfold receive
    split
    · rfl
    · split <;> rfl
  | trampoline | waitStart _ | go _ | main _ =>
    exact congrArg ApCore.inMain (receive_of_woken trivial (h trivial))

/-! ### Steps of the boot processor -/

namespace ApSystem

variable {sys sys' : ApSystem} {ins : BspInstr} {code : List BspInstr}

@[simp] theorem execute_code (sys : ApSystem) (ins : BspInstr) (code : List BspInstr) :
    (sys.execute ins code).code = code := by
  unfold execute
  cases ins with
  | countStarted i => dsimp only; split <;> rfl
  | _ => rfl

@[simp] theorem execute_mem (sys : ApSystem) (ins : BspInstr) (code : List BspInstr) :
    (sys.execute ins code).mem = ins.store sys.mem := by
  unfold execute
  cases ins with
  | countStarted i => dsimp only; split <;> rfl
  | _ => rfl

@[simp] theorem execute_cores (sys : ApSystem) (ins : BspInstr) (code : List BspInstr) :
    (sys.execute ins code).cores = sys.cores := by
  unfold execute
  cases ins with
  | countStarted i => dsimp only; split <;> rfl
  | _ => rfl

/-- An instruction puts an IPI on its way, or leaves what is. -/
theorem execute_pending (sys : ApSystem) (ins : BspInstr) (code : List BspInstr) (htarget : ins.target < 256) :
    (∃ i ipi, ins = .sendIpi i ipi ∧ (sys.execute ins code).waiting = true ∧
        (sys.execute ins code).pending = some (i, ipi.command)) ∨
      (∀ i ipi, ins ≠ .sendIpi i ipi) ∧ (sys.execute ins code).waiting = sys.waiting ∧
        (sys.execute ins code).pending = sys.pending := by
  unfold execute
  cases ins with
  | sendIpi i ipi => exact Or.inl ⟨i, ipi, rfl, rfl, message_send sys.mem.lapic ipi htarget⟩
  | countStarted i =>
    refine Or.inr ⟨nofun, ?_⟩
    dsimp only
    split <;> exact ⟨rfl, rfl⟩
  | storeCoreId _ | allocStack _ | adjustStack _ | storeWaiting _ => exact Or.inr ⟨nofun, rfl, rfl⟩

theorem bspStep_cases (h : sys.bspStep = some sys') :
    sys.waiting = true ∧ sys' = { sys with waiting := sys.pending.isSome } ∨
      sys.waiting = false ∧ ∃ ins code, sys.code = ins :: code ∧ sys' = sys.execute ins code := by
  unfold bspStep at h
  cases hwaiting : sys.waiting with
  | true =>
    rw [if_pos hwaiting] at h
    exact Or.inl ⟨rfl, (Option.some.inj h).symm⟩
  | false =>
    rw [if_neg (by simp [hwaiting])] at h
    cases hcode : sys.code with
    | nil =>
      rw [hcode] at h
      cases h
    | cons ins code =>
      rw [hcode] at h
      exact Or.inr ⟨rfl, ins, code, rfl, (Option.some.inj h).symm⟩

end ApSystem

variable {code : List BspInstr} {pending : Option (Nat × BitVec 20)} {mem : ApState} {core : ApCore}

/-- The boot processor executes an instruction while no IPI is under way. -/
theorem CoreOk.execute {ins : BspInstr} {pending' : Option (Nat × BitVec 20)}
    (h : CoreOk (ins :: code) none mem core i) (hordered : (ins :: code).Pairwise BspInstr.Before)
    (hpending : ∀ j command, pending' = some (j, command) → ∃ ipi, ins = .sendIpi j ipi ∧ command = ipi.command) :
    CoreOk code pending' (ins.store mem) core i := by
  have hhead : ins ∈ ins :: code := List.mem_cons_self
  have htail {ins' : BspInstr} (hins : ins' ∈ code) : ins' ∈ ins :: code := List.mem_cons_of_mem ins hins
  have hbefore {ins' : BspInstr} (hins : ins' ∈ code) : ins.Before ins' :=
    List.rel_of_pairwise_cons hordered hins
  have hsame (hne : ins ≠ .storeWaiting i) : (ins.store mem).startedState i = mem.startedState i :=
    startedState_store mem hne
  constructor
  · rintro (hwoken | hsent) ins' hins htarget
    · exact h.woken (Or.inl hwoken) ins' (htail hins) htarget
    · obtain ⟨ipi, rfl, hcommand⟩ := hpending _ _ hsent
      obtain rfl := Ipi.command_injective hcommand
      rcases hbefore hins htarget.symm with hlt | ⟨-, heq⟩
      · exact Nat.le_of_lt hlt
      · exact Nat.le_of_eq heq.symm
  · intro hwoken hsent
    obtain ⟨ipi, rfl, hcommand⟩ := hpending _ _ hsent
    obtain rfl := Ipi.command_injective hcommand
    have hrank : 5 ≤ 3 := h.woken (Or.inl hwoken) _ hhead rfl
    omega
  · intro esp hesp
    rw [startAPStack_store mem (h.woken (Or.inl (ApCore.woken_of_esp hesp)) ins hhead)]
    exact h.stack esp hesp
  · intro hins
    have hne : ins ≠ .storeWaiting i := by
      rintro rfl
      have hrank : 6 < 6 ∨ 6 = 5 ∧ 6 = 5 := hbefore hins rfl
      omega
    rw [hsame hne]
    exact h.fresh (htail hins)
  · intro esp hgo
    have hne : ins ≠ .storeWaiting i := by
      rintro rfl
      exact (h.fresh hhead).1 (h.go esp hgo)
    rw [hsame hne]
    exact h.go esp hgo
  · intro state hstate
    by_cases hrelease : ins = .storeWaiting i
    · subst hrelease
      rw [BspInstr.store, startedState_storeState] at hstate
      obtain ⟨-, -, rfl⟩ := Option.map_eq_some_iff.mp hstate
      exact Or.inr (Or.inl rfl)
    · rw [hsame hrelease] at hstate
      exact h.state state hstate

/-- The IPI that was under way has arrived somewhere else, or changes nothing. -/
theorem CoreOk.idle (h : CoreOk code pending mem core i) : CoreOk code none mem core i := by
  refine ⟨?_, fun _ => nofun, h.stack, h.fresh, h.go, h.state⟩
  rintro (hwoken | hsent)
  · exact h.woken (Or.inl hwoken)
  · cases hsent

/-- A processor that was asleep gets to a place before the load of its stack. -/
theorem CoreOk.restart (h : CoreOk code pending mem core i) {core' : ApCore} (hesp : core'.esp = none)
    (hwoken : core'.Woken → ∀ ins ∈ code, ins.target = i → 5 ≤ ins.rank) : CoreOk code none mem core' i := by
  refine ⟨?_, fun _ => nofun, ?_, fun hcode => ⟨(h.fresh hcode).1, ApCore.inMain_of_esp hesp⟩, ?_, h.state⟩
  · rintro (hwoken' | hsent)
    · exact hwoken hwoken'
    · cases hsent
  · intro esp hsome
    cases hesp.symm.trans hsome
  · rintro esp rfl
    cases hesp

/-- An INIT finds the processor asleep, a STARTUP wakes it or finds it awake. -/
theorem CoreOk.receive {command : BitVec 20} (h : CoreOk code (some (i, command)) mem core i) :
    CoreOk code none mem (core.receive command) i := by
  by_cases hinit : command = Ipi.init.command
  · have hreceive : core.receive command = .waitSipi := if_pos hinit
    rw [hreceive]
    exact h.restart rfl fun hwoken => hwoken.elim
  · by_cases hstartup : command = Ipi.startup.command ∧ core = .waitSipi
    · have hreceive : core.receive command = .trampoline := (if_neg hinit).trans (if_pos hstartup)
      rw [hreceive]
      exact h.restart rfl fun _ => h.woken (Or.inr (by rw [hstartup.1]))
    · have hreceive : core.receive command = core := (if_neg hinit).trans (if_neg hstartup)
      rw [hreceive]
      exact h.idle

/-- What other processors write to memory is not about `i`. -/
theorem CoreOk.congr_mem {mem' : ApState} (h : CoreOk code pending mem core i)
    (hstack : startAPStack mem' i = startAPStack mem i) (hstate : mem'.startedState i = mem.startedState i) :
    CoreOk code pending mem' core i := by
  refine ⟨h.woken, h.noReset, ?_, ?_, ?_, ?_⟩
  · rw [hstack]
    exact h.stack
  · rw [hstate]
    exact h.fresh
  · rw [hstate]
    exact h.go
  · rw [hstate]
    exact h.state

/-! ### Steps of the processor itself -/

theorem CoreOk.load {esp : Nat} (h : CoreOk code pending mem .trampoline i)
    (hesp : startAPStack mem i = some esp) : CoreOk code pending mem (.waitStart esp) i := by
  refine ⟨fun _ => h.woken (Or.inl trivial), fun _ => h.noReset trivial, ?_, h.fresh, nofun, h.state⟩
  rintro _ ⟨⟩
  exact hesp

/-- Of the states that a record may have only `CPU_STATE_WAITING_START` has its low byte. -/
theorem CoreOk.state_of_byte {state : Nat} (h : CoreOk code pending mem core i)
    (hstate : mem.startedState i = some state) (hgo : u8 state = CPU_STATE_WAITING_START) :
    mem.startedState i = some CPU_STATE_WAITING_START := by
  rcases h.state state hstate with rfl | rfl | rfl
  · exact absurd hgo (by decide)
  · exact hstate
  · exact absurd hgo (by decide)

theorem CoreOk.proceed {esp : Nat} (h : CoreOk code pending mem (.waitStart esp) i)
    (hstate : mem.startedState i = some CPU_STATE_WAITING_START) : CoreOk code pending mem (.go esp) i :=
  ⟨fun _ => h.woken (Or.inl trivial), fun _ => h.noReset trivial, h.stack, h.fresh, fun _ _ => hstate, h.state⟩

theorem CoreOk.mark {esp : Nat} (h : CoreOk code pending mem (.go esp) i) :
    CoreOk code pending (mem.setSlot i fun c => { c with startedState := CPU_STATE_STARTED }) (.main esp) i := by
  refine ⟨fun _ => h.woken (Or.inl trivial), fun _ => h.noReset trivial, ?_, ?_, nofun, ?_⟩
  · intro esp' hesp
    rw [(sameSetup_state mem i _).stack i]
    exact h.stack esp' hesp
  · intro hcode
    exact absurd (h.go esp rfl) (h.fresh hcode).1
  · intro state hstate
    rw [startedState_storeState] at hstate
    obtain ⟨-, -, rfl⟩ := Option.map_eq_some_iff.mp hstate
    exact Or.inr (Or.inr rfl)

/-! ### Processors that are to be started -/

theorem CoreListed.execute {ins : BspInstr} {pending' : Option (Nat × BitVec 20)}
    (h : CoreListed (ins :: code) none mem core i) (hok : CoreOk (ins :: code) none mem core i)
    (hpending : ∀ j ipi, ins = .sendIpi j ipi → pending' = some (j, ipi.command)) :
    CoreListed code pending' (ins.store mem) core i := by
  have hnotMem {ins' : BspInstr} (hne : ins' ≠ ins) (hcode : ins' ∉ code) : ins' ∉ ins :: code := by
    rw [List.mem_cons, not_or]
    exact ⟨hne, hcode⟩
  refine ⟨(length_cpuState_store mem ins).symm ▸ h.slot, ?_, ?_, ?_⟩
  · intro hcode hne
    have hother : .sendIpi i .init ≠ ins := fun heq => hne (hpending i .init heq.symm)
    exact h.reset (hnotMem hother hcode) nofun
  · intro hcode hne
    have hother : .sendIpi i .startup ≠ ins := fun heq => hne (hpending i .startup heq.symm)
    exact h.started (hnotMem hother hcode) nofun
  · intro hcode
    by_cases hrelease : ins = .storeWaiting i
    · subst hrelease
      have hslot : mem.startedState i = some (mem.cpuState.get ⟨i, h.slot⟩).startedState := by
        rw [ApState.startedState, List.getElem?_eq_getElem h.slot]
        rfl
      rw [BspInstr.store, startedState_storeState, hslot, (hok.fresh List.mem_cons_self).2]
      rfl
    · rw [startedState_store mem hrelease]
      exact h.released (hnotMem (Ne.symm hrelease) hcode)

theorem CoreListed.receive {command : BitVec 20} (h : CoreListed code (some (i, command)) mem core i)
    (hok : CoreOk code (some (i, command)) mem core i) : CoreListed code none mem (core.receive command) i := by
  have hother {ipi : Ipi} (hne : command ≠ ipi.command) : some (i, command) ≠ some (i, ipi.command) := by
    simpa using hne
  have hinit (hwoken : core.Woken) : command ≠ Ipi.init.command := fun heq => hok.noReset hwoken (by rw [heq])
  have hawake (hwoken : core.Woken) : (core.receive command).Woken := by
    rwa [ApCore.receive_of_woken hwoken (hinit hwoken)]
  refine ⟨h.slot, ?_, ?_, ?_⟩
  · intro hcode _
    by_cases hinit : command = Ipi.init.command
    · rw [ApCore.receive, if_pos hinit]
      exact nofun
    · rw [ApCore.receive, if_neg hinit]
      split
      · exact nofun
      · exact h.reset hcode (hother hinit)
  · intro hcode _
    by_cases hstartup : command = Ipi.startup.command
    · subst hstartup
      have hreset : .sendIpi i .init ∉ code := by
        intro hmem
        have hrank : 5 ≤ 3 := hok.woken (Or.inr rfl) _ hmem rfl
        omega
      have hne : core ≠ .halted := h.reset hreset (hother (by decide))
      cases core with
      | halted => exact absurd rfl hne
      | waitSipi =>
        have hreceive : ApCore.receive Ipi.startup.command .waitSipi = .trampoline := by decide
        rw [hreceive]
        trivial
      | trampoline | waitStart _ | go _ | main _ => exact hawake trivial
    · exact hawake (h.started hcode (hother hstartup))
  · rw [ApCore.inMain_receive hinit]
    exact h.released

theorem CoreListed.idle {j : Nat} {command : BitVec 20} (h : CoreListed code (some (j, command)) mem core i)
    (hne : j ≠ i) : CoreListed code none mem core i := by
  have hother (command' : BitVec 20) : some (j, command) ≠ some (i, command') := by
    simp [hne]
  exact ⟨h.slot, fun hcode _ => h.reset hcode (hother _), fun hcode _ => h.started hcode (hother _), h.released⟩

/-- A processor that runs goes on to run. -/
theorem CoreListed.run (h : CoreListed code pending mem core i) {mem' : ApState} {core' : ApCore}
    (hwoken : core'.Woken) (hlength : mem'.cpuState.length = mem.cpuState.length)
    (hstate : .storeWaiting i ∉ code →
      mem'.startedState i = some (if core'.inMain then CPU_STATE_STARTED else CPU_STATE_WAITING_START)) :
    CoreListed code pending mem' core' i := by
  refine ⟨hlength ▸ h.slot, fun _ _ => ?_, fun _ _ => hwoken, hstate⟩
  rintro rfl
  exact hwoken

theorem CoreListed.congr_mem {mem' : ApState} (h : CoreListed code pending mem core i)
    (hlength : mem'.cpuState.length = mem.cpuState.length)
    (hstate : mem'.startedState i = mem.startedState i) : CoreListed code pending mem' core i :=
  ⟨hlength ▸ h.slot, h.reset, h.started, hstate ▸ h.released⟩

end TalOS
