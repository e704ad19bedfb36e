-- SUMMARY: Every interleaving of `InitAPs` with the processors it starts: stacks, states, the count, and how it ends.
import Mathlib.Algebra.Order.BigOperators.Group.Finset
import TalOS.Arch.ApHandshake
import TalOS.Lib.Schedule

/-!
# Runs of the start-up

Whatever the order of the steps, each processor gets the stack that `InitAPs` alone
leaves for it, is marked as started exactly when it is in `AP_main`, and is not counted
before. From everywhere the start-up can go on to its end.
-/

open MachineInt

namespace TalOS

variable {bspId cpuNum : Nat} {mem : ApState} {sys sys' : ApSystem} {i : Nat}

/-! ## The invariant -/

/-- What holds between any two steps. -/
structure ApSystem.Ok (bspId cpuNum : Nat) (mem : ApState) (sys : ApSystem) : Prop where
  /-- The boot processor has done a part of its program, and what it wrote is still there. -/
  plan : ∃ done, initAPsCode bspId cpuNum = done ++ sys.code ∧ sys.mem.SameSetup (storeAll done mem)
  waiting : sys.waiting = false → sys.pending = none
  sent : ∀ i command, sys.pending = some (i, command) → i ∈ started bspId (List.range cpuNum)
  core : ∀ i, CoreOk sys.code sys.pending sys.mem (sys.cores i) i
  listed : ∀ i ∈ started bspId (List.range cpuNum), CoreListed sys.code sys.pending sys.mem (sys.cores i) i
  unlisted : ∀ i ∉ started bspId (List.range cpuNum),
    sys.cores i = .halted ∧ sys.mem.startedState i = mem.startedState i
  counted : ∃ counted : List Nat, counted.Nodup ∧ counted.length = sys.startedNum ∧ ∀ i ∈ counted, i < cpuNum ∧
    .countStarted i ∉ sys.code ∧ .storeWaiting i ∉ sys.code ∧ sys.mem.startedState i = some CPU_STATE_STARTED

/-- What an instruction is about is a processor of the system, and only the count is also about the boot processor. -/
theorem target_of_mem_initAPsCode {ins : BspInstr} (h : ins ∈ initAPsCode bspId cpuNum) :
    ins.target < cpuNum ∧ (ins = .countStarted ins.target ∨ ins.target ∈ started bspId (List.range cpuNum)) := by
  rcases List.mem_append.mp h with h | h
  · obtain ⟨i, hi, hins⟩ := List.mem_flatMap.mp h
    rw [target_of_mem_startCode hins]
    exact ⟨(mem_started.mp hi).1, Or.inr hi⟩
  · obtain ⟨i, hi, rfl⟩ := List.mem_map.mp h
    exact ⟨List.mem_range.mp hi, Or.inl rfl⟩

theorem ApSystem.Ok.mem_code (h : sys.Ok bspId cpuNum mem) {ins : BspInstr} (hins : ins ∈ sys.code) :
    ins ∈ initAPsCode bspId cpuNum := by
  obtain ⟨done, hcode, -⟩ := h.plan
  rw [hcode]
  exact List.mem_append_right done hins

theorem ApSystem.Ok.ordered (h : sys.Ok bspId cpuNum mem) : sys.code.Pairwise BspInstr.Before := by
  obtain ⟨done, hcode, -⟩ := h.plan
  have hall := initAPsCode_ordered bspId cpuNum
  rw [hcode] at hall
  exact (List.pairwise_append.mp hall).2.1

/-- At the start, when no processor has been let go on. -/
theorem ApSystem.start_ok
    (hstates : ∀ i state, mem.startedState i = some state →
      state = CPU_STATE_NOT_STARTED ∨ state = CPU_STATE_STARTED)
    (hlength : cpuNum ≤ mem.cpuState.length) : (ApSystem.start bspId cpuNum mem).Ok bspId cpuNum mem where
  plan := ⟨[], rfl, ⟨rfl, rfl, rfl, fun _ => rfl⟩⟩
  waiting := fun _ => rfl
  sent := nofun
  core := by
    intro i
    refine ⟨?_, fun hwoken => hwoken.elim, nofun, fun _ => ⟨fun hwaiting => ?_, rfl⟩, nofun, fun state h => ?_⟩
    · rintro (hwoken | hsent)
      · exact hwoken.elim
      · cases hsent
    · rcases hstates i _ hwaiting with hzero | hstarted
      · exact absurd hzero (by decide)
      · exact absurd hstarted (by decide)
    · exact (hstates i state h).imp_right Or.inr
  listed := by
    intro i hi
    -- all that the processor waits for is still in the program
    have hcode {ins : BspInstr} (hins : ins ∈ startCode i) : ins ∈ initAPsCode bspId cpuNum :=
      List.mem_append_left _ (List.mem_flatMap.mpr ⟨i, hi, hins⟩)
    refine ⟨Nat.lt_of_lt_of_le (mem_started.mp hi).1 hlength, ?_, ?_, ?_⟩
    · exact fun hnot => absurd (hcode (by simp [startCode])) hnot
    · exact fun hnot => absurd (hcode (by simp [startCode])) hnot
    · exact fun hnot => absurd (hcode (by simp [startCode])) hnot
  unlisted := fun _ _ => ⟨rfl, rfl⟩
  counted := ⟨[], List.nodup_nil, rfl, nofun⟩

theorem ApSystem.start_ok_of_initSys {bspStackTop : Nat} (hcpus : mem.cpuState = initSysCpuState bspId bspStackTop)
    (hnum : cpuNum ≤ 256) : (ApSystem.start bspId cpuNum mem).Ok bspId cpuNum mem := by
  have hlength : mem.cpuState.length = 256 := hcpus ▸ length_initSysCpuState bspId bspStackTop
  refine ApSystem.start_ok (fun i state hstate => ?_) (hlength ▸ hnum)
  rw [startedState_initSys hcpus] at hstate
  split at hstate
  · exact Or.inr (Option.some.inj hstate).symm
  · split at hstate
    · exact Or.inl (Option.some.inj hstate).symm
    · cases hstate

/-! ## Steps -/

/-- A count sees a processor that has been let go on and has marked its state. -/
theorem ApSystem.Ok.executeCounted {ins : BspInstr} {code : List BspInstr} (h : sys.Ok bspId cpuNum mem)
    (hcode : sys.code = ins :: code) :
    ∃ counted : List Nat, counted.Nodup ∧ counted.length = (sys.execute ins code).startedNum ∧
      ∀ i ∈ counted, i < cpuNum ∧ .countStarted i ∉ code ∧ .storeWaiting i ∉ code ∧
        (ins.store sys.mem).startedState i = some CPU_STATE_STARTED := by
  have hhead : ins ∈ sys.code := hcode ▸ List.mem_cons_self
  have htail {ins' : BspInstr} (hins : ins' ∈ code) : ins' ∈ sys.code := hcode ▸ List.mem_cons_of_mem ins hins
  have hordered := h.ordered
  rw [hcode] at hordered
  obtain ⟨counted, hnodup, hlength, hcounted⟩ := h.counted
  have hkeep (i : Nat) (hi : i ∈ counted) : i < cpuNum ∧ .countStarted i ∉ code ∧ .storeWaiting i ∉ code ∧
      (ins.store sys.mem).startedState i = some CPU_STATE_STARTED := by
    obtain ⟨hlt, hcount, hrelease, hstate⟩ := hcounted i hi
    refine ⟨hlt, fun hmem => hcount (htail hmem), fun hmem => hrelease (htail hmem), ?_⟩
    rw [startedState_store sys.mem fun heq => hrelease (heq ▸ hhead)]
    exact hstate
  by_cases hcount : ∃ j, ins = .countStarted j ∧ sys.mem.startedState j = some CPU_STATE_STARTED
  · obtain ⟨j, rfl, hstarted⟩ := hcount
    have hnum : (sys.execute (.countStarted j) code).startedNum = sys.startedNum + 1 := by
      unfold ApSystem.execute
      dsimp only [BspInstr.store]
      rw [if_pos hstarted]
    have hlast {ins' : BspInstr} (htarget : ins'.target = j) (hins : ins' ∈ code) : 7 < ins'.rank := by
      have hrank : 7 < ins'.rank ∨ 7 = 5 ∧ ins'.rank = 5 := List.rel_of_pairwise_cons hordered hins htarget.symm
      omega
    refine ⟨j :: counted, List.nodup_cons.mpr ⟨fun hj => (hcounted j hj).2.1 hhead, hnodup⟩, ?_, ?_⟩
    · rw [List.length_cons, hlength, hnum]
    · rintro i hi
      rcases List.mem_cons.mp hi with rfl | hi
      · refine ⟨(target_of_mem_initAPsCode (h.mem_code hhead)).1, fun hmem => ?_, fun hmem => ?_, hstarted⟩
        · exact Nat.lt_irrefl 7 (hlast rfl hmem)
        · exact absurd (hlast rfl hmem) (by simp [BspInstr.rank])
      · exact hkeep i hi
  · have hnum : (sys.execute ins code).startedNum = sys.startedNum := by
      unfold ApSystem.execute
      cases ins with
      | countStarted j =>
        dsimp only [BspInstr.store]
        rw [if_neg fun hstarted => hcount ⟨j, rfl, hstarted⟩]
      | _ => rfl
    exact ⟨counted, hnodup, hlength.trans hnum.symm, hkeep⟩

theorem ApSystem.Ok.execute {ins : BspInstr} {code : List BspInstr} (h : sys.Ok bspId cpuNum mem)
    (hnum : cpuNum ≤ 256) (hwaiting : sys.waiting = false) (hcode : sys.code = ins :: code) :
    (sys.execute ins code).Ok bspId cpuNum mem := by
  have hhead : ins ∈ sys.code := hcode ▸ List.mem_cons_self
  obtain ⟨htarget, hwho⟩ := target_of_mem_initAPsCode (h.mem_code hhead)
  have hnone := h.waiting hwaiting
  have hmessage := sys.execute_pending ins code (Nat.lt_of_lt_of_le htarget hnum)
  rw [hnone, hwaiting] at hmessage
  have hordered := h.ordered
  rw [hcode] at hordered
  -- what is under way afterwards is what this instruction sent
  have hsent (j : Nat) (command : BitVec 20) (hpending : (sys.execute ins code).pending = some (j, command)) :
      ∃ ipi : Ipi, ins = .sendIpi j ipi ∧ command = ipi.command := by
    rcases hmessage with ⟨j', ipi, rfl, -, hput⟩ | ⟨-, -, hkept⟩
    · obtain ⟨rfl, rfl⟩ := Prod.mk.inj (Option.some.inj (hput.symm.trans hpending))
      exact ⟨ipi, rfl, rfl⟩
    · exact nomatch hkept.symm.trans hpending
  refine ⟨?_, ?_, ?_, fun i => ?_, fun i hi => ?_, fun i hi => ?_, ?_⟩
  · obtain ⟨done, hprog, hsetup⟩ := h.plan
    refine ⟨done ++ [ins], ?_, ?_⟩
    · rw [ApSystem.execute_code, List.append_assoc, hprog, hcode]
      rfl
    · rw [ApSystem.execute_mem, storeAll_append]
      exact hsetup.store ins
  · intro hidle
    rcases hmessage with ⟨-, -, -, hbusy, -⟩ | ⟨-, -, hpending⟩
    · exact nomatch hidle.symm.trans hbusy
    · exact hpending
  · intro j command hpending
    obtain ⟨ipi, rfl, -⟩ := hsent j command hpending
    exact hwho.resolve_left nofun
  · have hcore := h.core i
    rw [hcode, hnone] at hcore
    rw [ApSystem.execute_code, ApSystem.execute_mem, ApSystem.execute_cores]
    exact hcore.execute hordered hsent
  · have hlisted := h.listed i hi
    have hcore := h.core i
    rw [hcode, hnone] at hlisted hcore
    rw [ApSystem.execute_code, ApSystem.execute_mem, ApSystem.execute_cores]
    refine hlisted.execute hcore fun j ipi hins => ?_
    subst hins
    rcases hmessage with ⟨j', ipi', heq, -, hpending⟩ | ⟨hother, -, -⟩
    · obtain ⟨rfl, rfl⟩ := BspInstr.sendIpi.inj heq
      exact hpending
    · exact absurd rfl (hother j ipi)
  · have hne : ins ≠ .storeWaiting i := by
      rintro rfl
      exact hi (hwho.resolve_left nofun)
    rw [ApSystem.execute_mem, ApSystem.execute_cores, startedState_store sys.mem hne]
    exact h.unlisted i hi
  · rw [ApSystem.execute_code, ApSystem.execute_mem]
    exact h.executeCounted hcode

/-- A turn of `while (IPI_isPending())`, or the next instruction. -/
theorem ApSystem.Ok.bspStep (h : sys.Ok bspId cpuNum mem) (hnum : cpuNum ≤ 256)
    (hstep : sys.bspStep = some sys') : sys'.Ok bspId cpuNum mem := by
  rcases ApSystem.bspStep_cases hstep with ⟨-, rfl⟩ | ⟨hwaiting, ins, code, hcode, rfl⟩
  · refine ⟨h.plan, fun hidle => ?_, h.sent, h.core, h.listed, h.unlisted, h.counted⟩
    exact Option.not_isSome_iff_eq_none.mp (ne_true_of_eq_false hidle)
  · exact h.execute hnum hwaiting hcode

theorem ApSystem.Ok.deliver (h : sys.Ok bspId cpuNum mem) (hstep : sys.deliver = some sys') :
    sys'.Ok bspId cpuNum mem := by
  obtain ⟨⟨j, command⟩, hpending, rfl⟩ := Option.map_eq_some_iff.mp hstep
  have hcore := h.core
  have hlisted := h.listed
  rw [hpending] at hcore hlisted
  have hto : j ∈ started bspId (List.range cpuNum) := h.sent j command hpending
  refine ⟨h.plan, fun _ => rfl, nofun, ?_, ?_, ?_, h.counted⟩
  · exact (Function.forall_update_iff sys.cores fun i core => CoreOk sys.code none sys.mem core i).mpr
      ⟨(hcore j).receive, fun i _ => (hcore i).idle⟩
  · exact (Function.forall_update_iff sys.cores fun i core => i ∈ started bspId (List.range cpuNum) →
      CoreListed sys.code none sys.mem core i).mpr
        ⟨fun hj => (hlisted j hj).receive (hcore j), fun i hne hi => (hlisted i hi).idle (Ne.symm hne)⟩
  · exact (Function.forall_update_iff sys.cores fun i core => i ∉ started bspId (List.range cpuNum) →
      core = .halted ∧ sys.mem.startedState i = mem.startedState i).mpr
        ⟨fun hj => absurd hto hj, fun i _ => h.unlisted i⟩

/-- What a processor does: it loads its stack, turns in its loop, goes on, or marks its record. -/
theorem ApSystem.coreStep_cases (hstep : sys.coreStep i = some sys') :
    (sys.cores i = .trampoline ∧ ∃ esp, startAPStack sys.mem i = some esp ∧
        sys' = { sys with cores := Function.update sys.cores i (.waitStart esp) }) ∨
      (∃ esp state, sys.cores i = .waitStart esp ∧ sys.mem.startedState i = some state ∧
        (u8 state = CPU_STATE_WAITING_START ∧ sys' = { sys with cores := Function.update sys.cores i (.go esp) } ∨
          u8 state ≠ CPU_STATE_WAITING_START ∧ sys' = sys)) ∨
      ∃ esp, sys.cores i = .go esp ∧ sys' =
        { sys with
          mem := sys.mem.setSlot i fun c => { c with startedState := CPU_STATE_STARTED }
          cores := Function.update sys.cores i (.main esp) } := by
  unfold ApSystem.coreStep at hstep
  cases hcore : sys.cores i with
  | halted | waitSipi | main _ =>
    rw [hcore] at hstep
    cases hstep
  | trampoline =>
    rw [hcore] at hstep
    obtain ⟨esp, hesp, hsys⟩ := Option.map_eq_some_iff.mp hstep
    exact Or.inl ⟨rfl, esp, hesp, hsys.symm⟩
  | waitStart esp =>
    rw [hcore] at hstep
    obtain ⟨state, hstate, hsys⟩ := Option.map_eq_some_iff.mp hstep
    refine Or.inr (Or.inl ⟨esp, state, rfl, hstate, ?_⟩)
    by_cases hgo : u8 state = CPU_STATE_WAITING_START
    · rw [if_pos hgo] at hsys
      exact Or.inl ⟨hgo, hsys.symm⟩
    · rw [if_neg hgo] at hsys
      exact Or.inr ⟨hgo, hsys.symm⟩
  | go esp =>
    rw [hcore] at hstep
    exact Or.inr (Or.inr ⟨esp, rfl, (Option.some.inj hstep).symm⟩)

/-- A processor that runs has been sent for. -/
theorem ApSystem.Ok.listed_of_woken (h : sys.Ok bspId cpuNum mem) (hwoken : (sys.cores i).Woken) :
    i ∈ started bspId (List.range cpuNum) := by
  by_contra hi
  rw [(h.unlisted i hi).1] at hwoken
  exact hwoken

/-- A processor moves on, and may change the state in its record. -/
theorem ApSystem.Ok.move {core : ApCore} {mem' : ApState} (h : sys.Ok bspId cpuNum mem)
    (hi : i ∈ started bspId (List.range cpuNum)) (hsetup : mem'.SameSetup sys.mem)
    (hlength : mem'.cpuState.length = sys.mem.cpuState.length)
    (hothers : ∀ j, j ≠ i → mem'.startedState j = sys.mem.startedState j)
    (hstarted : sys.mem.startedState i = some CPU_STATE_STARTED → mem'.startedState i = some CPU_STATE_STARTED)
    (hcore : CoreOk sys.code sys.pending mem' core i)
    (hlisted : CoreListed sys.code sys.pending mem' core i) :
    { sys with mem := mem', cores := Function.update sys.cores i core }.Ok bspId cpuNum mem := by
  refine ⟨?_, h.waiting, h.sent, ?_, ?_, ?_, ?_⟩
  · obtain ⟨done, hprog, hdone⟩ := h.plan
    exact ⟨done, hprog, hsetup.trans hdone⟩
  · exact (Function.forall_update_iff sys.cores fun j core => CoreOk sys.code sys.pending mem' core j).mpr
      ⟨hcore, fun j hne => (h.core j).congr_mem (hsetup.stack j) (hothers j hne)⟩
  · exact (Function.forall_update_iff sys.cores fun j core => j ∈ started bspId (List.range cpuNum) →
      CoreListed sys.code sys.pending mem' core j).mpr
        ⟨fun _ => hlisted, fun j hne hj => (h.listed j hj).congr_mem hlength (hothers j hne)⟩
  · refine (Function.forall_update_iff sys.cores fun j core => j ∉ started bspId (List.range cpuNum) →
      core = .halted ∧ mem'.startedState j = mem.startedState j).mpr
        ⟨fun hnot => absurd hi hnot, fun j hne hj => ?_⟩
    rw [hothers j hne]
    exact h.unlisted j hj
  · obtain ⟨counted, hnodup, hcount, hcounted⟩ := h.counted
    refine ⟨counted, hnodup, hcount, fun j hj => ?_⟩
    obtain ⟨hlt, hcode, hrelease, hstate⟩ := hcounted j hj
    refine ⟨hlt, hcode, hrelease, ?_⟩
    by_cases heq : j = i
    · exact heq ▸ hstarted (heq ▸ hstate)
    · rw [hothers j heq]
      exact hstate

theorem ApSystem.Ok.coreStep (h : sys.Ok bspId cpuNum mem) (hstep : sys.coreStep i = some sys') :
    sys'.Ok bspId cpuNum mem := by
  have hsame : sys.mem.SameSetup sys.mem := ⟨rfl, rfl, rfl, fun _ => rfl⟩
  have hcore := h.core i
  rcases ApSystem.coreStep_cases hstep with ⟨hat, esp, hesp, rfl⟩ |
    ⟨esp, state, hat, hstate, ⟨hgo, rfl⟩ | ⟨-, rfl⟩⟩ | ⟨esp, hat, rfl⟩
  · have hi := h.listed_of_woken (by rw [hat]; trivial)
    have hlisted := h.listed i hi
    rw [hat] at hcore hlisted
    exact h.move hi hsame rfl (fun _ _ => rfl) id (hcore.load hesp) (hlisted.run trivial rfl hlisted.released)
  · have hi := h.listed_of_woken (by rw [hat]; trivial)
    have hlisted := h.listed i hi
    rw [hat] at hcore hlisted
    exact h.move hi hsame rfl (fun _ _ => rfl) id (hcore.proceed (hcore.state_of_byte hstate hgo))
      (hlisted.run trivial rfl hlisted.released)
  · exact h
  · have hi := h.listed_of_woken (by rw [hat]; trivial)
    have hlisted := h.listed i hi
    rw [hat] at hcore hlisted
    have hlength : (sys.mem.setSlot i fun c => { c with startedState := CPU_STATE_STARTED }).cpuState.length =
        sys.mem.cpuState.length := List.length_modify ..
    have hstarted : (sys.mem.setSlot i fun c => { c with startedState := CPU_STATE_STARTED }).startedState i =
        some CPU_STATE_STARTED := by
      rw [startedState_storeState, hcore.go esp rfl]
      rfl
    refine h.move hi (sameSetup_state sys.mem i _) hlength (fun j hne => ?_) (fun _ => hstarted) hcore.mark
      (hlisted.run trivial hlength fun _ => hstarted)
    rw [startedState_setSlot, ApState.startedState]
    simp only [if_neg (Ne.symm hne)]

theorem ApSystem.Ok.step {actor : Actor} (h : sys.Ok bspId cpuNum mem) (hnum : cpuNum ≤ 256)
    (hstep : ApSystem.step actor sys = some sys') : sys'.Ok bspId cpuNum mem := by
  cases actor with
  | bsp => exact h.bspStep hnum hstep
  | delivery => exact h.deliver hstep
  | core i => exact h.coreStep hstep

theorem ApSystem.Ok.run {actors : List Actor} (h : sys.Ok bspId cpuNum mem) (hnum : cpuNum ≤ 256)
    (hrun : Run.run ApSystem.step actors sys = some sys') : sys'.Ok bspId cpuNum mem :=
  Run.run_preserves (fun _ _ _ (_ : True) h hstep => h.step hnum hstep)
    (Run.Along.of_forall (fun _ _ => trivial) sys) hrun h

/-! ## What no interleaving breaks -/

/-- What is so in every state of the start-up; `s` is the state before `InitAPs`, `r` the one that it alone leaves. -/
structure ApSystem.Safe (conf : SysConfInfo) (bspId : Nat) (s r : ApState) (sys : ApSystem) : Prop where
  /-- A processor runs on the stack that is in its record in the end. -/
  stack : ∀ id esp, (sys.cores id).esp = some esp → startAPStack r id = some esp
  apart : s.heap.currentPointer + conf.cpuNum * CORE_TABLES_SIZE +
      (started bspId (List.range conf.cpuNum)).length * CORE_STACK_SIZE ≤ s.heap.limit →
    ∀ id id' esp esp', id ≠ id' → (sys.cores id).esp = some esp → (sys.cores id').esp = some esp' →
      esp + CORE_STACK_SIZE ≤ esp' ∨ esp' + CORE_STACK_SIZE ≤ esp
  /-- It enters `AP_main` only after it was let go on. -/
  main : ∀ id, (sys.cores id).inMain = true →
    id ∈ started bspId (List.range conf.cpuNum) ∧ .storeWaiting id ∉ sys.code
  /-- From then on its record says where it is. -/
  state : ∀ id ∈ started bspId (List.range conf.cpuNum), .storeWaiting id ∉ sys.code →
    sys.mem.startedState id =
      some (if (sys.cores id).inMain then CPU_STATE_STARTED else CPU_STATE_WAITING_START)
  others : ∀ id ∉ started bspId (List.range conf.cpuNum),
    sys.cores id = .halted ∧ sys.mem.startedState id = s.startedState id
  /-- Only processors in `AP_main` are counted, and the boot processor if the first record is its own. -/
  count : sys.startedNum ≤ ((List.range conf.cpuNum).filter fun id =>
    (sys.cores id).inMain || (id == bspId && id == BSP_INDEX)).length
  finish : sys.code = [] → sys.mem.SameSetup r

theorem Startup.of_initAPs {conf : SysConfInfo} {s r : ApState} (hacpi : conf.acpiInit = true)
    (hnum : 1 < conf.cpuNum) (hmax : conf.cpuNum ≤ MAX_SUPP_PROC_NUM) (hok : s.heap.Ok)
    (hcpus : s.cpuState.length = MAX_CPU_NUM) (hinit : initAPs conf bspId s = some r) :
    Startup conf bspId s r := by
  obtain ⟨hfull, hfit⟩ := initAPs_spec hacpi hnum hmax hok hcpus
  rcases Nat.lt_or_ge s.heap.limit (s.heap.currentPointer + conf.cpuNum * CORE_TABLES_SIZE) with h | h
  · rw [hfull h] at hinit
    cases hinit
  · obtain ⟨r', hinit', hr⟩ := hfit h
    obtain rfl := Option.some.inj (hinit.symm.trans hinit')
    exact hr

/-- The stack of a processor is a block of its own behind the tables, if there is room for all. -/
theorem Startup.block {conf : SysConfInfo} {s r : ApState} (hr : Startup conf bspId s r)
    (hroom : s.heap.currentPointer + conf.cpuNum * CORE_TABLES_SIZE +
      (started bspId (List.range conf.cpuNum)).length * CORE_STACK_SIZE ≤ s.heap.limit)
    (hi : i ∈ started bspId (List.range conf.cpuNum)) :
    ∃ k, (started bspId (List.range conf.cpuNum))[k]? = some i ∧ startAPStack r i =
      some (s.heap.currentPointer + conf.cpuNum * CORE_TABLES_SIZE + k * CORE_STACK_SIZE +
        CORE_STACK_SIZE - 4) := by
  obtain ⟨k, hk, hget⟩ := List.getElem_of_mem hi
  have hk? : (started bspId (List.range conf.cpuNum))[k]? = some i := List.getElem?_eq_some_iff.mpr ⟨hk, hget⟩
  obtain ⟨base, htop, hbase⟩ := hr.stack k i hk?
  have hfit : s.heap.currentPointer + conf.cpuNum * CORE_TABLES_SIZE + (k + 1) * CORE_STACK_SIZE ≤
      s.heap.limit := Nat.le_trans (Nat.add_le_add_left (Nat.mul_le_mul_right _ hk) _) hroom
  rw [if_pos hfit] at hbase
  exact ⟨k, hk?, hbase ▸ htop⟩

/-- A processor runs on the stack that the rest of the program leaves in its record. -/
theorem ApSystem.Ok.final_stack {id esp : Nat} (h : sys.Ok bspId cpuNum mem) (hesp : (sys.cores id).esp = some esp) :
    startAPStack (storeAll (initAPsCode bspId cpuNum) mem) id = some esp := by
  obtain ⟨done, hprog, hsetup⟩ := h.plan
  have hrest := (h.core id).woken (Or.inl (ApCore.woken_of_esp hesp))
  rw [hprog, storeAll_append, startAPStack_storeAll hrest, ← hsetup.stack id]
  exact (h.core id).stack esp hesp

theorem ApSystem.Ok.count_le {s : ApState} {top : Nat} (h : sys.Ok bspId cpuNum mem)
    (hmem : mem.cpuState = s.cpuState) (hcpus : s.cpuState = initSysCpuState bspId top) :
    sys.startedNum ≤ ((List.range cpuNum).filter fun id =>
      (sys.cores id).inMain || (id == bspId && id == BSP_INDEX)).length := by
  obtain ⟨counted, hnodup, hlength, hcounted⟩ := h.counted
  rw [← hlength]
  refine (List.subperm_of_subset hnodup fun i hi => ?_).length_le
  obtain ⟨hlt, -, hrelease, hstate⟩ := hcounted i hi
  refine List.mem_filter.mpr ⟨List.mem_range.mpr hlt, ?_⟩
  by_cases hlisted : i ∈ started bspId (List.range cpuNum)
  · have hmain := (h.listed i hlisted).released hrelease
    rw [hstate] at hmain
    cases hin : (sys.cores i).inMain with
    | true => rfl
    | false =>
      rw [hin] at hmain
      exact absurd (Option.some.inj hmain) (by decide)
  · have hboot : i = bspId := by
      by_contra hne
      exact hlisted (mem_started.mpr ⟨hlt, hne⟩)
    have hbefore := (h.unlisted i hlisted).2.symm.trans hstate
    rw [startedState_initSys (hmem.trans hcpus)] at hbefore
    have hfirst : i = BSP_INDEX := by
      by_contra hne
      rw [if_neg hne] at hbefore
      split at hbefore
      · exact absurd (Option.some.inj hbefore) (by decide)
      · cases hbefore
    simp [← hboot, hfirst]

/-- The first two processors of a system, the boot processor the first of them. -/
def twoProcessors : SysConfInfo := readSystemConfig [⟨0, 0⟩, ⟨1, 1⟩]

def twoProcessorState : ApState := { bootState with cpuState := initSysCpuState 0 0x9000 }

/-- A start of the second one up to its count, where it loads its stack before the second STARTUP. -/
def twoProcessorRun : List Actor :=
  [.bsp, .bsp, .bsp, .bsp, .bsp, .delivery, .bsp, .bsp, .delivery, .bsp, .bsp, .delivery, .core 1, .core 1, .bsp,
    .bsp, .delivery, .bsp, .bsp, .core 1, .bsp, .core 1, .bsp]

/-- Those who take part. -/
def apActors (bspId cpuNum : Nat) : List Actor :=
  .bsp :: .delivery :: (started bspId (List.range cpuNum)).map .core

/-- The moves that a processor has still to make until it is in `AP_main`. -/
def ApCore.left : ApCore → Nat
  | .halted => 5
  | .waitSipi => 4
  | .trampoline => 3
  | .waitStart _ => 2
  | .go _ => 1
  | .main _ => 0

/-- An instruction counts for three, as it may send an IPI and wait for it. -/
def ApSystem.left (cpuNum : Nat) (sys : ApSystem) : Nat :=
  3 * sys.code.length + sys.waiting.toNat + sys.pending.isSome.toNat +
    ∑ i ∈ Finset.range cpuNum, (sys.cores i).left

theorem ApCore.left_receive {command : BitVec 20} {core : ApCore} (h : core.Woken → command ≠ Ipi.init.command) :
    (core.receive command).left ≤ core.left := by
  cases core with
  | halted | waitSipi =>
    unfold receive
    split
    · simp [left]
    · split <;> simp [left]
  | trampoline | waitStart _ | go _ | main _ =>
    exact Nat.le_of_eq (congrArg left (receive_of_woken (by trivial) (h trivial)))

theorem sum_left_update_lt {cores : Nat → ApCore} {core : ApCore} (hi : i < cpuNum)
    (h : core.left < (cores i).left) :
    ∑ j ∈ Finset.range cpuNum, (Function.update cores i core j).left <
      ∑ j ∈ Finset.range cpuNum, (cores j).left := by
  refine Finset.sum_lt_sum ?_ ⟨i, Finset.mem_range.mpr hi, by rwa [Function.update_self]⟩
  intro j _
  by_cases heq : j = i
  · subst heq
    rw [Function.update_self]
    exact Nat.le_of_lt h
  · rw [Function.update_of_ne heq]

/-- Every step but a turn of a waiting loop brings the end nearer. -/
theorem ApSystem.Ok.left_lt {actor : Actor} (h : sys.Ok bspId cpuNum mem)
    (hstep : ApSystem.step actor sys = some sys') (hchange : sys' ≠ sys) : sys'.left cpuNum < sys.left cpuNum := by
  cases actor with
  | bsp =>
    rcases ApSystem.bspStep_cases hstep with ⟨hwaiting, rfl⟩ | ⟨-, ins, code, hcode, rfl⟩
    · have hnone : sys.pending.isSome = false := by
        by_contra hsome
        rw [Bool.not_eq_false] at hsome
        exact hchange (by rw [hsome, ← hwaiting])
      simp [ApSystem.left, hwaiting, hnone]
    · have hwait := Bool.toNat_le (sys.execute ins code).waiting
      have hsent := Bool.toNat_le (sys.execute ins code).pending.isSome
      simp only [ApSystem.left, ApSystem.execute_code, ApSystem.execute_cores, hcode, List.length_cons]
      omega
  | delivery =>
    obtain ⟨⟨j, command⟩, hpending, rfl⟩ := Option.map_eq_some_iff.mp hstep
    have hcores : ∑ i ∈ Finset.range cpuNum,
        (Function.update sys.cores j ((sys.cores j).receive command) i).left ≤
          ∑ i ∈ Finset.range cpuNum, (sys.cores i).left := by
      refine Finset.sum_le_sum fun i _ => ?_
      refine (Function.forall_update_iff sys.cores fun i core => core.left ≤ (sys.cores i).left).mpr
        ⟨ApCore.left_receive fun hwoken heq => ?_, fun i _ => Nat.le_refl _⟩ i
      exact (h.core j).noReset hwoken (by rw [hpending, heq])
    simp only [ApSystem.left, hpending, Option.isSome_none, Option.isSome_some, Bool.toNat_false, Bool.toNat_true]
    omega
  | core i =>
    have hlt (hwoken : (sys.cores i).Woken) : i < cpuNum := (mem_started.mp (h.listed_of_woken hwoken)).1
    rcases ApSystem.coreStep_cases hstep with ⟨hat, esp, -, rfl⟩ |
      ⟨esp, state, hat, -, ⟨-, rfl⟩ | ⟨-, rfl⟩⟩ | ⟨esp, hat, rfl⟩
    · exact Nat.add_lt_add_left (sum_left_update_lt (hlt (by rw [hat]; trivial)) (by simp [hat, ApCore.left])) _
    · exact Nat.add_lt_add_left (sum_left_update_lt (hlt (by rw [hat]; trivial)) (by simp [hat, ApCore.left])) _
    · exact absurd rfl hchange
    · exact Nat.add_lt_add_left (sum_left_update_lt (hlt (by rw [hat]; trivial)) (by simp [hat, ApCore.left])) _

theorem ApSystem.execute_ne (ins : BspInstr) {code : List BspInstr} (hcode : sys.code = ins :: code) :
    sys.execute ins code ≠ sys := by
  intro heq
  have hlength := congrArg (fun sys => sys.code.length) heq
  simp only [ApSystem.execute_code, hcode, List.length_cons] at hlength
  omega

/-- Where nobody can change anything any more, the boot processor is at its end. -/
theorem ApSystem.code_of_rests (hrests : Run.Rests ApSystem.step (apActors bspId cpuNum) sys) :
    sys.code = [] ∧ sys.pending = none := by
  have hpending : sys.pending = none := by
    cases hpending : sys.pending with
    | none => rfl
    | some ipi =>
      have hdeliver : sys.deliver = _ := congrArg (Option.map _) hpending
      have hsame := hrests .delivery (by simp [apActors]) _ hdeliver
      exact nomatch (congrArg ApSystem.pending hsame).trans hpending
  have hwaiting : sys.waiting = false := by
    by_contra hwaiting
    rw [Bool.not_eq_false] at hwaiting
    have hsame := hrests .bsp (by simp [apActors]) _ (if_pos hwaiting)
    have hsome := (congrArg ApSystem.waiting hsame).trans hwaiting
    rw [hpending] at hsome
    cases hsome
  refine ⟨?_, hpending⟩
  cases hcode : sys.code with
  | nil => rfl
  | cons ins code =>
    have hnext : sys.bspStep = some (sys.execute ins code) := by
      unfold ApSystem.bspStep
      rw [if_neg (by simp [hwaiting]), hcode]
    exact absurd (hrests .bsp (by simp [apActors]) _ hnext) (ApSystem.execute_ne ins hcode)

/-- And the processors are in `AP_main`. -/
theorem ApSystem.Ok.main_of_rests (h : sys.Ok bspId cpuNum mem)
    (hrests : Run.Rests ApSystem.step (apActors bspId cpuNum) sys)
    (hi : i ∈ started bspId (List.range cpuNum)) : (sys.cores i).inMain = true := by
  obtain ⟨hcode, hpending⟩ := ApSystem.code_of_rests hrests
  have hlisted := h.listed i hi
  have hrest (sys' : ApSystem) (hstep : sys.coreStep i = some sys') : sys'.cores i = sys.cores i := by
    rw [hrests (.core i) (by simp [apActors, hi]) sys' hstep]
  have hwoken : (sys.cores i).Woken := hlisted.started (by simp [hcode]) (by simp [hpending])
  have hreleased := hlisted.released (by simp [hcode])
  unfold ApSystem.coreStep at hrest
  cases hcore : sys.cores i with
  | halted | waitSipi =>
    rw [hcore] at hwoken
    exact hwoken.elim
  | main esp => rfl
  | trampoline =>
    have hesp : startAPStack sys.mem i = some (sys.mem.cpuState.get ⟨i, hlisted.slot⟩).stackTopAddress := by
      rw [startAPStack, List.getElem?_eq_getElem hlisted.slot]
      rfl
    simp only [hcore, hesp, Option.map_some, Option.some.injEq, forall_eq', Function.update_self] at hrest
    cases hrest
  | waitStart esp =>
    rw [hcore] at hreleased
    have hstate : sys.mem.startedState i = some CPU_STATE_WAITING_START := hreleased
    have hgo : u8 CPU_STATE_WAITING_START = CPU_STATE_WAITING_START := by decide
    simp only [hcore, hstate, Option.map_some, Option.some.injEq, forall_eq', if_pos hgo,
      Function.update_self] at hrest
    cases hrest
  | go esp =>
    simp only [hcore, Option.some.injEq, forall_eq', Function.update_self] at hrest
    cases hrest

end TalOS
