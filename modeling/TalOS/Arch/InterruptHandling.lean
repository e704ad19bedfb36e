-- SUMMARY: Interrupts on any started core: they reach the handler that was installed last, and come back.
import TalOS.Arch.InterruptGates
import TalOS.Arch.InterruptStub

/-!
# Interrupts

The gates of a core lead to the stub of a vector, the stub calls through the slot of the
vector in `isr_table`, and returns to the interrupted code.
-/

namespace TalOS

open CallStack MachineInt

variable {s : TablesState}

/-! ## Taking an interrupt -/

/-- The code of the kernel: the instructions at an address, the routine at an address, and the one that
`SendEOI_handler` points to. -/
structure KernelCode where
  instrs : Nat → List Instr
  routine : Nat → Machine → Machine
  sendEOI : Machine → Machine

/-- A core takes an interrupt: what the code does that it enters, up to the `iret`. -/
def takeInterrupt (code : KernelCode) (s : TablesState) (core : Core) (v : Nat) (m : Machine)
    (eflags cs eip errorCode : Word) : Option Machine :=
  (vectorEntry s core v).map fun entry =>
    runInstrs ⟨code.routine (s.words v), code.sendEOI⟩ (code.instrs entry) (cpuEntry v m eflags cs eip errorCode)

/-- Every stub but those of the vectors with an error code comes back to the interrupted code; the stub of the
spurious vector is the `iret` alone. -/
theorem intHandDef_resumes_all {c : Callees} {v : Nat} (hc : c.FollowCdecl v) (herr : v ∉ errorCodeVectors)
    (m : Machine) (eflags cs eip errorCode : Word) :
    Resumes m eflags cs eip (runInstrs c (intHandDef v) (cpuEntry v m eflags cs eip errorCode)) := by
  obtain ⟨heax, hecx, hedx, hebx, hebp, hesi, hedi⟩ := cpuEntry_registers v m eflags cs eip errorCode
  have hesp := cpuEntry_esp v m eflags cs eip errorCode
  rw [if_neg herr] at hesp
  have hframe : cpuFrame v eflags cs eip errorCode = [eip, cs, eflags] := by
    rw [cpuFrame, if_neg herr, List.nil_append]
  by_cases hid : v = SPURIOUS_INT_VECTOR
  · have hstub : intHandDef v = [] := if_pos hid
    have hwords := cpuEntry_holds v m eflags cs eip errorCode
    rw [hframe] at hwords
    rw [hstub]
    refine ⟨heax, hecx, hedx, hebx, hebp, hesi, hedi, ?_, hwords⟩
    exact (congrArg (· + 12) hesp).trans (BitVec.sub_add_cancel _ _)
  · obtain ⟨⟨heax', hecx', hedx', hebx', hebp', hesi', hedi'⟩, hesp', hwords⟩ :=
      intHandDef_restores hc hid m eflags cs eip errorCode
    rw [hframe] at hwords
    refine ⟨heax'.trans heax, hecx'.trans hecx, hedx'.trans hedx, hebx'.trans hebx, hebp'.trans hebp,
      hesi'.trans hesi, hedi'.trans hedi, ?_, hwords⟩
    rw [hesp', hesp, BitVec.sub_add_cancel]

/-- What is stored under a number by safe calls is the first handler or an installed one. -/
theorem lastStored_cases {num start : Nat} {events : List TableEvent} (hnum : num < INT_NUM)
    (hsafe : ∀ call, .call call ∈ events → call.Safe) :
    lastStored num start events = start ∨ .call (.install num (lastStored num start events)) ∈ events := by
  induction events using List.reverseRecOn with
  | nil => exact .inl rfl
  | append_singleton events event ih =>
    have hbefore := ih fun call hcall => hsafe call (List.mem_append_left _ hcall)
    rw [lastStored_concat]
    cases event with
    | apInit id => exact hbefore.imp_right (List.mem_append_left _)
    | call call =>
      by_cases hsame : call.num = num
      · have hlast := hsafe call (List.mem_append_right _ List.mem_cons_self)
        cases call with
        | install n handler =>
          obtain rfl : n = num := hsame
          refine .inr (List.mem_append_right _ ?_)
          have hstored : TableEvent.stored n (lastStored n start events) (.call (.install n handler)) = handler :=
            if_pos rfl
          rw [hstored]
          exact List.mem_cons_self
        | uninstall n =>
          obtain rfl : n = num := hsame
          exact absurd hlast (Nat.not_lt.mpr hnum.le)
      · rw [TableEvent.stored, if_neg hsame]
        exact hbefore.imp_right (List.mem_append_left _)

/-- Safe calls store nothing under number 256. -/
theorem lastStored_beyond {start : Nat} {events : List TableEvent}
    (hsafe : ∀ call, .call call ∈ events → call.Safe) : lastStored INT_NUM start events = start := by
  induction events using List.reverseRecOn with
  | nil => rfl
  | append_singleton events event ih =>
    have hbefore := ih fun call hcall => hsafe call (List.mem_append_left _ hcall)
    rw [lastStored_concat, hbefore]
    cases event with
    | apInit id => rfl
    | call call =>
      have hlast := hsafe call (List.mem_append_right _ List.mem_cons_self)
      refine if_neg fun hsame => ?_
      cases call with
      | install n handler => exact hlast hsame
      | uninstall n => exact absurd hsame (Nat.ne_of_gt hlast)

/-- The core has its tables after the events. -/
def Core.Started (events : List TableEvent) : Core → Prop
  | .bsp => True
  | .ap id => .apInit id ∈ events

/-- The last time that a core fills its tables. -/
theorem exists_last_apInit {id : Nat} {events : List TableEvent} (h : .apInit id ∈ events) :
    ∃ before after, events = before ++ .apInit id :: after ∧ .apInit id ∉ after := by
  obtain ⟨after, before, hevents, hafter⟩ := List.eq_append_cons_of_mem (List.mem_reverse.mpr h)
  refine ⟨before.reverse, after.reverse, ?_, fun hmem => hafter (List.mem_reverse.mp hmem)⟩
  have hreverse := congrArg List.reverse hevents
  simpa using hreverse

/-- Safe calls leave `isr_addr_list` alone, so that every core that has started enters the stubs. -/
theorem vectorEntry_started (p : TablesPlace) (defaultISR : Nat) (s₀ : TablesState) {events : List TableEvent}
    (hrun : Run.run (tableStep p) events (bootTables p defaultISR s₀) = some s)
    (hsafe : ∀ call, .call call ∈ events → call.Safe) {core : Core} (hcore : core.Started events) {v : Nat}
    (hv : v < INT_NUM) :
    s.words v = lastStored v defaultISR events ∧ vectorEntry s core v = some (u32 (s₀.words (isrAddrList v))) := by
  refine ⟨slot_run hrun hv, ?_⟩
  cases core with
  | bsp => exact vectorEntry_bsp hrun hv
  | ap id =>
    obtain ⟨before, after, rfl, hafter⟩ := exists_last_apInit hcore
    rw [vectorEntry_ap hafter hrun hv]
    by_cases hzero : v = 0
    · have hbefore : lastStored INT_NUM (s₀.words (isrAddrList 0)) before = s₀.words (isrAddrList 0) :=
        lastStored_beyond fun call hcall => hsafe call (List.mem_append_left _ hcall)
      rw [if_pos hzero, hbefore, hzero]
    · rw [if_neg hzero]

/-- The stubs where `assembledTables` has them, and routines that return at once. -/
def assembledCode : KernelCode where
  instrs := fun a => intHandDef ((a - 0x2000) / 16)
  routine := fun _ m => m
  sendEOI := fun m => m

theorem assembledCode_instrs :
    ∀ v < INT_NUM, assembledCode.instrs (u32 (assembledTables.words (isrAddrList v))) = intHandDef v := by
  intro v hv
  refine congrArg intHandDef ?_
  show (u32 (0x2000 + 16 * (INT_NUM + v - INT_NUM)) - 0x2000) / 16 = v
  unfold INT_NUM at *
  unfold u32
  omega

end TalOS
