-- SUMMARY: The interrupt stubs of `tab_asm.S`: when `IntHandDef` returns to the interrupted code.
import TalOS.Lib.CallStack

/-!
# `IntHandDef` of `arch/IA32/tab_asm.S`

The macro assembles one stub per vector. The CPU has pushed EFLAGS, CS and EIP,
and an error code for some exceptions; the stub saves the registers, calls the
service routine of the vector and the EOI handler, restores the registers and
ends in `iret`. The called routines are parameters that follow the C calling
convention.
-/

namespace TalOS

open CallStack

/-! ## The machine -/

structure Machine where
  eax : Word
  ecx : Word
  edx : Word
  ebx : Word
  esp : Word
  ebp : Word
  esi : Word
  edi : Word
  interruptFlag : Bool
  mem : ByteMem

def Machine.push (s : Machine) (v : Word) : Machine :=
  { s with esp := s.esp - 4, mem := store32 s.mem (s.esp - 4) v }

/-- The routines that a stub calls, each from its call to its return. -/
structure Callees where
  /-- the routine in the vector's slot of `isr_table` -/
  isr : Machine → Machine
  /-- the routine that `SendEOI_handler` points to -/
  sendEOI : Machine → Machine

/-- The instructions of the stubs, `iret` apart. -/
inductive Instr where
  | cli
  | sti
  /-- `push %ebp` -/
  | pushEbp
  /-- `mov %esp, %ebp` -/
  | movEspEbp
  | pushal
  /-- `pushl offset(%ebp)` -/
  | pushAtEbp (offset : Word)
  /-- `pushl $value` -/
  | pushImm (value : Word)
  /-- `mov $value, %ebx` -/
  | movEbx (value : Word)
  /-- `call *isr_tab_id` -/
  | callIsr
  /-- `call *SendEOI_handler` -/
  | callSendEOI
  /-- `add %ebx, %esp` -/
  | addEbxEsp
  /-- `add $value, %esp` -/
  | addEsp (value : Word)
  | popal
  | leave
  deriving Repr, DecidableEq

def exec (c : Callees) (s : Machine) : Instr → Machine
  | .cli => { s with interruptFlag := false }
  | .sti => { s with interruptFlag := true }
  | .pushEbp => s.push s.ebp
  | .movEspEbp => { s with ebp := s.esp }
  | .pushal =>
    let esp := s.esp
    let t := (((s.push s.eax).push s.ecx).push s.edx).push s.ebx
    (((t.push esp).push s.ebp).push s.esi).push s.edi
  | .pushAtEbp offset => s.push (load32 s.mem (s.ebp + offset))
  | .pushImm value => s.push value
  | .movEbx value => { s with ebx := value }
  | .callIsr => c.isr s
  | .callSendEOI => c.sendEOI s
  | .addEbxEsp => { s with esp := s.esp + s.ebx }
  | .addEsp value => { s with esp := s.esp + value }
  | .popal =>
    { s with
      edi := load32 s.mem s.esp
      esi := load32 s.mem (s.esp + 4)
      ebp := load32 s.mem (s.esp + 4 + 4)
      ebx := load32 s.mem (s.esp + 4 + 4 + 4 + 4)
      edx := load32 s.mem (s.esp + 4 + 4 + 4 + 4 + 4)
      ecx := load32 s.mem (s.esp + 4 + 4 + 4 + 4 + 4 + 4)
      eax := load32 s.mem (s.esp + 4 + 4 + 4 + 4 + 4 + 4 + 4)
      esp := s.esp + 4 + 4 + 4 + 4 + 4 + 4 + 4 + 4 }
  | .leave => { s with ebp := load32 s.mem s.ebp, esp := s.ebp + 4 }

def runInstrs (c : Callees) (instrs : List Instr) (s : Machine) : Machine := instrs.foldl (exec c) s

/-! ## The stub -/

def SPURIOUS_INT_VECTOR : Nat := 0xFF

/-- The exceptions pushing an error code, as the macro lists them. -/
def errorCodeVectors : List Nat := [8, 10, 11, 12, 13, 14, 17, 21, 29, 30]

/-- What the stub pushes for the service routine, and how many bytes it will drop. -/
def isrArguments (id : Nat) : List Instr :=
  if id ∈ errorCodeVectors then
    [.pushAtEbp 24, .pushAtEbp 20, .pushAtEbp 16, .pushAtEbp 12, .pushAtEbp 8, .pushAtEbp 4,
      .movEbx 28]
  else
    [.pushAtEbp 20, .pushAtEbp 16, .pushAtEbp 12, .pushAtEbp 8, .pushAtEbp 4, .movEbx 24]

/-- `IntHandDef id`, up to the `iret`. -/
def intHandDef (id : Nat) : List Instr :=
  if id = SPURIOUS_INT_VECTOR then []
  else
    [.cli, .pushEbp, .movEspEbp, .pushal] ++ isrArguments id ++
      [.pushImm (BitVec.ofNat 32 id), .callIsr, .addEbxEsp] ++
      (if id ≠ 2 then [.pushImm (BitVec.ofNat 32 id), .callSendEOI, .addEsp 4] else []) ++
      [.popal, .leave, .sti]

/-- The words that the CPU pushes, the top of the stack first. -/
def cpuFrame (id : Nat) (eflags cs eip errorCode : Word) : List Word :=
  (if id ∈ errorCodeVectors then [errorCode] else []) ++ [eip, cs, eflags]

/-- The CPU's pushes at the interrupt `id` in the interrupted state `s`. -/
def cpuEntry (id : Nat) (s : Machine) (eflags cs eip errorCode : Word) : Machine :=
  (cpuFrame id eflags cs eip errorCode).reverse.foldl Machine.push s

/-! ## What is asked of the callees and of the stub -/

/-- From the call to the return: the registers that belong to the caller are kept, and so are the
`frameWords` words of the stack above the `argWords` argument words. -/
structure Cdecl (argWords frameWords : Nat) (s t : Machine) : Prop where
  ebx : t.ebx = s.ebx
  esp : t.esp = s.esp
  ebp : t.ebp = s.ebp
  esi : t.esi = s.esi
  edi : t.edi = s.edi
  frame : ∀ d, 4 * argWords ≤ d → d < 4 * (argWords + frameWords) →
    t.mem (s.esp + BitVec.ofNat 32 d) = s.mem (s.esp + BitVec.ofNat 32 d)

/-- The words between the arguments and the interrupted stack: `pushal`, the saved EBP and what the
CPU pushed. -/
def frameWords (id : Nat) : Nat := if id ∈ errorCodeVectors then 13 else 12

/-- The arguments of the service routine. -/
def isrArgWords (id : Nat) : Nat := if id ∈ errorCodeVectors then 7 else 6

/-- The routines of the vector `id` follow the C calling convention. -/
structure Callees.FollowCdecl (c : Callees) (id : Nat) : Prop where
  isr : ∀ s, Cdecl (isrArgWords id) (frameWords id) s (c.isr s)
  sendEOI : ∀ s, Cdecl 1 (frameWords id) s (c.sendEOI s)

/-- `iret` in `t` resumes the code interrupted in `s`: EIP, CS and EFLAGS are on top of the stack,
where the CPU pushed them, and the registers are the interrupted ones. -/
structure Resumes (s : Machine) (eflags cs eip : Word) (t : Machine) : Prop where
  eax : t.eax = s.eax
  ecx : t.ecx = s.ecx
  edx : t.edx = s.edx
  ebx : t.ebx = s.ebx
  ebp : t.ebp = s.ebp
  esi : t.esi = s.esi
  edi : t.edi = s.edi
  esp : t.esp + 12 = s.esp
  top : Holds t.mem t.esp [eip, cs, eflags]

/-! ## The stack during the stub -/

/-- What `pushal` saves when EBP and ESP are `base`, the top of the stack first. -/
def savedRegisters (e : Machine) (base : Word) : List Word :=
  [e.edi, e.esi, base, base, e.ebx, e.edx, e.ecx, e.eax]

/-- Between `pushal` and `popal`, in a stub entered in `e` with `cpu` on the stack: EBP is the frame
pointer, and the words `args` are on top of the saved registers. -/
structure InFrame (e : Machine) (cpu args : List Word) (s : Machine) : Prop where
  ebp : s.ebp = e.esp - 4
  esp : s.esp + BitVec.ofNat 32 (4 * args.length) = e.esp - 4 - 32
  words : Holds s.mem s.esp (args ++ (savedRegisters e (e.esp - 4) ++ e.ebp :: cpu))

variable {e s t : Machine} {cpu args : List Word} {c : Callees} {id : Nat}

theorem length_savedRegisters (e : Machine) (base : Word) : (savedRegisters e base).length = 8 := rfl

/-- `push %ebp`, `mov %esp, %ebp` and `pushal` build the frame. -/
theorem InFrame.enter (c : Callees) (hcpu : Holds e.mem e.esp cpu) (hlen : cpu.length ≤ 4) :
    InFrame e cpu [] (runInstrs c [.cli, .pushEbp, .movEspEbp, .pushal] e) := by
  have hebp := hcpu.push (by omega) e.ebp
  have heax := hebp.push (by simp only [List.length_cons]; omega) e.eax
  have hecx := heax.push (by simp only [List.length_cons]; omega) e.ecx
  have hedx := hecx.push (by simp only [List.length_cons]; omega) e.edx
  have hebx := hedx.push (by simp only [List.length_cons]; omega) e.ebx
  have hesp := hebx.push (by simp only [List.length_cons]; omega) (e.esp - 4)
  have hbase := hesp.push (by simp only [List.length_cons]; omega) (e.esp - 4)
  have hesi := hbase.push (by simp only [List.length_cons]; omega) e.esi
  have hedi := hesi.push (by simp only [List.length_cons]; omega) e.edi
  refine ⟨rfl, ?_, hedi⟩
  show e.esp - 4 - 4 - 4 - 4 - 4 - 4 - 4 - 4 - 4 + BitVec.ofNat 32 0 = e.esp - 4 - 32
  bv_omega

theorem InFrame.push (h : InFrame e cpu args s) (hcpu : cpu.length ≤ 4) (hargs : args.length ≤ 7)
    (v : Word) : InFrame e cpu (v :: args) (s.push v) := by
  refine ⟨h.ebp, ?_, h.words.push ?_ v⟩
  · rw [← h.esp, List.length_cons, Nat.mul_succ, Nat.add_comm, BitVec.ofNat_add]
    show s.esp - 4 + _ = _
    rw [← BitVec.add_assoc]
    exact congrArg (· + _) (BitVec.sub_add_cancel s.esp 4)
  · simp only [List.length_append, List.length_cons, length_savedRegisters]
    omega

/-- A call whose arguments are dropped by the caller afterwards. -/
theorem InFrame.call (h : InFrame e cpu args s) (ht : Cdecl args.length (9 + cpu.length) s t) :
    InFrame e cpu [] { t with esp := t.esp + BitVec.ofNat 32 (4 * args.length) } := by
  refine ⟨ht.ebp.trans h.ebp, ?_, ?_⟩
  · show t.esp + BitVec.ofNat 32 (4 * args.length) + BitVec.ofNat 32 0 = _
    rw [ht.esp, h.esp, add_ofNat_zero]
  · show Holds t.mem (t.esp + BitVec.ofNat 32 (4 * args.length)) _
    rw [ht.esp]
    refine h.words.call fun d hd hd' => ht.frame d hd (Nat.lt_of_lt_of_eq hd' ?_)
    simp only [List.length_append, List.length_cons, length_savedRegisters]
    omega

/-- `popal`, `leave` and `sti` take the frame down. -/
theorem InFrame.restore (h : InFrame e cpu [] s) :
    let t := runInstrs c [.popal, .leave, .sti] s
    (t.eax = e.eax ∧ t.ecx = e.ecx ∧ t.edx = e.edx ∧ t.ebx = e.ebx ∧ t.ebp = e.ebp ∧ t.esi = e.esi ∧
      t.edi = e.edi) ∧ t.esp = e.esp ∧ Holds t.mem t.esp cpu := by
  obtain ⟨hedi, hesi, hebp, hesp, hebx, hedx, hecx, heax, holdEbp, hcpu⟩ := h.words
  have hbase : s.esp + 4 + 4 + 4 + 4 + 4 + 4 + 4 + 4 = e.esp - 4 := by
    have hlow := h.esp
    simp only [List.length_nil, Nat.mul_zero, add_ofNat_zero] at hlow
    bv_omega
  rw [hbase] at holdEbp hcpu
  rw [BitVec.sub_add_cancel] at hcpu
  have hframe : load32 s.mem (s.esp + 4 + 4) = e.esp - 4 := hebp
  intro t
  have hesp' : t.esp = e.esp := by
    show load32 s.mem (s.esp + 4 + 4) + 4 = e.esp
    rw [hframe, BitVec.sub_add_cancel]
  have hebp' : t.ebp = e.ebp := by
    show load32 s.mem (load32 s.mem (s.esp + 4 + 4)) = e.ebp
    rw [hframe]
    exact holdEbp
  refine ⟨⟨heax, hecx, hedx, hebx, hebp', hesi, hedi⟩, hesp', ?_⟩
  rw [hesp']
  exact hcpu

/-! ## The whole stub -/

theorem runInstrs_append (c : Callees) (l l' : List Instr) (s : Machine) :
    runInstrs c (l ++ l') s = runInstrs c l' (runInstrs c l s) := List.foldl_append

theorem length_cpuFrame (id : Nat) (eflags cs eip errorCode : Word) :
    9 + (cpuFrame id eflags cs eip errorCode).length = frameWords id := by
  unfold cpuFrame frameWords
  split <;> rfl

theorem length_cpuFrame_le (id : Nat) (eflags cs eip errorCode : Word) :
    (cpuFrame id eflags cs eip errorCode).length ≤ 4 := by
  have h := length_cpuFrame id eflags cs eip errorCode
  unfold frameWords at h
  split at h <;> omega

/-- A run of `pushl offset(%ebp)`. -/
theorem InFrame.pushAll (h : InFrame e cpu args s) (hcpu : cpu.length ≤ 4) (c : Callees)
    (offsets : List Word) (hargs : args.length + offsets.length ≤ 7) :
    ∃ args', args'.length = args.length + offsets.length ∧
      InFrame e cpu args' (runInstrs c (offsets.map .pushAtEbp) s) := by
  induction offsets generalizing args s with
  | nil => exact ⟨args, rfl, h⟩
  | cons offset offsets ih =>
    rw [List.length_cons] at hargs
    have hpush := h.push hcpu (by omega) (load32 s.mem (s.ebp + offset))
    obtain ⟨args', hlen, hrest⟩ := ih hpush (by rw [List.length_cons]; omega)
    refine ⟨args', ?_, hrest⟩
    rw [hlen, List.length_cons, List.length_cons]
    omega

/-- The arguments of the service routine: as many words as EBX says. -/
theorem InFrame.isrArguments (h : InFrame e cpu [] s) (hcpu : cpu.length ≤ 4) (c : Callees)
    (id : Nat) :
    ∃ args, args.length + 1 = isrArgWords id ∧
      (runInstrs c (TalOS.isrArguments id) s).ebx = BitVec.ofNat 32 (4 * (args.length + 1)) ∧
      InFrame e cpu args (runInstrs c (TalOS.isrArguments id) s) := by
  unfold TalOS.isrArguments isrArgWords
  split
  · obtain ⟨args, hlen, hargs⟩ := h.pushAll hcpu c [24, 20, 16, 12, 8, 4] (by decide)
    refine ⟨args, congrArg (· + 1) hlen, ?_, ⟨hargs.ebp, hargs.esp, hargs.words⟩⟩
    rw [hlen]
    rfl
  · obtain ⟨args, hlen, hargs⟩ := h.pushAll hcpu c [20, 16, 12, 8, 4] (by decide)
    refine ⟨args, congrArg (· + 1) hlen, ?_, ⟨hargs.ebp, hargs.esp, hargs.words⟩⟩
    rw [hlen]
    rfl

/-- The call of the service routine, from its arguments to `add %ebx, %esp`. -/
theorem InFrame.callIsr (h : InFrame e cpu [] s) (hc : c.FollowCdecl id) (hcpu : cpu.length ≤ 4)
    (hframe : 9 + cpu.length = frameWords id) :
    InFrame e cpu []
      (runInstrs c (TalOS.isrArguments id ++ [.pushImm (BitVec.ofNat 32 id), .callIsr, .addEbxEsp]) s) := by
  obtain ⟨args, hlen, hebx, hargs⟩ := h.isrArguments hcpu c id
  have hle : isrArgWords id ≤ 7 := by
    unfold isrArgWords
    split <;> decide
  have hid := hargs.push hcpu (by omega) (BitVec.ofNat 32 id)
  have hisr := hc.isr ((runInstrs c (TalOS.isrArguments id) s).push (BitVec.ofNat 32 id))
  rw [← hlen, ← hframe] at hisr
  have hdrop := hid.call hisr
  have hebx' := hisr.ebx.trans hebx
  rw [List.length_cons, ← hebx'] at hdrop
  rw [runInstrs_append]
  exact hdrop

/-- The call of the EOI handler, except for the NMI. -/
theorem InFrame.callSendEOI (h : InFrame e cpu [] s) (hc : c.FollowCdecl id) (hcpu : cpu.length ≤ 4)
    (hframe : 9 + cpu.length = frameWords id) :
    InFrame e cpu [] (runInstrs c
      (if id ≠ 2 then [.pushImm (BitVec.ofNat 32 id), .callSendEOI, .addEsp 4] else []) s) := by
  split
  · have hid := h.push hcpu (by decide) (BitVec.ofNat 32 id)
    have heoi := hc.sendEOI (s.push (BitVec.ofNat 32 id))
    rw [← hframe] at heoi
    exact hid.call heoi
  · exact h

/-- The CPU's pushes are on top of the stack when the stub is entered. -/
theorem cpuEntry_holds (id : Nat) (s : Machine) (eflags cs eip errorCode : Word) :
    Holds (cpuEntry id s eflags cs eip errorCode).mem (cpuEntry id s eflags cs eip errorCode).esp
      (cpuFrame id eflags cs eip errorCode) := by
  have hnil : Holds s.mem s.esp [] := trivial
  have heflags := hnil.push (by decide) eflags
  have hcs := heflags.push (by simp only [List.length_cons]; decide) cs
  have hframe := hcs.push (by simp only [List.length_cons]; decide) eip
  unfold cpuEntry cpuFrame
  split
  · exact hframe.push (by simp only [List.length_cons]; decide) errorCode
  · exact hframe

/-- At the `iret` the stack is as it was when the stub was entered, and so are the registers. -/
theorem intHandDef_restores (hc : c.FollowCdecl id) (hid : id ≠ SPURIOUS_INT_VECTOR) (s : Machine)
    (eflags cs eip errorCode : Word) :
    let e := cpuEntry id s eflags cs eip errorCode
    let t := runInstrs c (intHandDef id) e
    (t.eax = e.eax ∧ t.ecx = e.ecx ∧ t.edx = e.edx ∧ t.ebx = e.ebx ∧ t.ebp = e.ebp ∧ t.esi = e.esi ∧
      t.edi = e.edi) ∧ t.esp = e.esp ∧ Holds t.mem t.esp (cpuFrame id eflags cs eip errorCode) := by
  intro e
  have hlen := length_cpuFrame_le id eflags cs eip errorCode
  have hframe := length_cpuFrame id eflags cs eip errorCode
  have henter := InFrame.enter c (cpuEntry_holds id s eflags cs eip errorCode) hlen
  have hisr := henter.callIsr hc hlen hframe
  have heoi := hisr.callSendEOI hc hlen hframe
  have hrestore := heoi.restore (c := c)
  simp only [intHandDef, if_neg hid, runInstrs_append, List.append_assoc] at hrestore ⊢
  exact hrestore

/-! ## When the interrupted code is resumed -/

/-- The CPU's pushes change ESP and the memory only. -/
theorem cpuEntry_registers (id : Nat) (s : Machine) (eflags cs eip errorCode : Word) :
    let e := cpuEntry id s eflags cs eip errorCode
    e.eax = s.eax ∧ e.ecx = s.ecx ∧ e.edx = s.edx ∧ e.ebx = s.ebx ∧ e.ebp = s.ebp ∧ e.esi = s.esi ∧
      e.edi = s.edi := by
  unfold cpuEntry cpuFrame
  split <;> exact ⟨rfl, rfl, rfl, rfl, rfl, rfl, rfl⟩

theorem cpuEntry_esp (id : Nat) (s : Machine) (eflags cs eip errorCode : Word) :
    (cpuEntry id s eflags cs eip errorCode).esp =
      if id ∈ errorCodeVectors then s.esp - 16 else s.esp - 12 := by
  unfold cpuEntry cpuFrame
  split
  · show s.esp - 4 - 4 - 4 - 4 = s.esp - 16
    bv_omega
  · show s.esp - 4 - 4 - 4 = s.esp - 12
    bv_omega

/-- With an error code on the stack, `iret` takes the error code for EIP. -/
theorem intHandDef_errorCode (hc : c.FollowCdecl id) (hid : id ≠ SPURIOUS_INT_VECTOR)
    (herr : id ∈ errorCodeVectors) (s : Machine) (eflags cs eip errorCode : Word) :
    let t := runInstrs c (intHandDef id) (cpuEntry id s eflags cs eip errorCode)
    t.esp + 12 ≠ s.esp ∧ Holds t.mem t.esp [errorCode, eip, cs, eflags] := by
  obtain ⟨-, hesp, hwords⟩ := intHandDef_restores hc hid s eflags cs eip errorCode
  rw [cpuEntry_esp, if_pos herr] at hesp
  rw [cpuFrame, if_pos herr] at hwords
  refine ⟨?_, hwords⟩
  rw [hesp]
  bv_omega

/-- The stub returns to the interrupted code iff its vector is not one of those that the macro lists
as pushing an error code: it leaves the error code on the stack. -/
theorem intHandDef_resumes_iff (c : Callees) (id : Nat) (hid : id ≠ SPURIOUS_INT_VECTOR)
    (hc : c.FollowCdecl id) (s : Machine) (eflags cs eip errorCode : Word) :
    Resumes s eflags cs eip
        (runInstrs c (intHandDef id) (cpuEntry id s eflags cs eip errorCode)) ↔
      id ∉ errorCodeVectors := by
  constructor
  · intro h herr
    exact (intHandDef_errorCode hc hid herr s eflags cs eip errorCode).1 h.esp
  · intro hnone
    obtain ⟨⟨heax, hecx, hedx, hebx, hebp, hesi, hedi⟩, hesp, hwords⟩ :=
      intHandDef_restores hc hid s eflags cs eip errorCode
    obtain ⟨heax', hecx', hedx', hebx', hebp', hesi', hedi'⟩ :=
      cpuEntry_registers id s eflags cs eip errorCode
    rw [cpuFrame, if_neg hnone] at hwords
    refine ⟨heax.trans heax', hecx.trans hecx', hedx.trans hedx', hebx.trans hebx', hebp.trans hebp',
      hesi.trans hesi', hedi.trans hedi', ?_, hwords⟩
    rw [hesp, cpuEntry_esp, if_neg hnone, BitVec.sub_add_cancel]

/-- Callees that return at once. -/
def idleCallees : Callees where
  isr := fun s => s
  sendEOI := fun s => s

theorem idleCallees_followCdecl (id : Nat) : idleCallees.FollowCdecl id where
  isr := fun _ => ⟨rfl, rfl, rfl, rfl, rfl, fun _ _ _ => rfl⟩
  sendEOI := fun _ => ⟨rfl, rfl, rfl, rfl, rfl, fun _ _ _ => rfl⟩

/-- Some interrupted state, with ESP at 64 KiB. -/
def interruptedState : Machine where
  eax := 1
  ecx := 2
  edx := 3
  ebx := 4
  esp := 0x10000
  ebp := 0x10010
  esi := 5
  edi := 6
  interruptFlag := true
  mem := fun _ => 0

/-- The code interrupted by vector 32 is resumed. -/
theorem intHandDef_resumes_vector32 :
    Resumes interruptedState 0x202 0x8 0x100000
      (runInstrs idleCallees (intHandDef 32) (cpuEntry 32 interruptedState 0x202 0x8 0x100000 0)) :=
  (intHandDef_resumes_iff idleCallees 32 (by decide) (idleCallees_followCdecl 32) interruptedState
    0x202 0x8 0x100000 0).mpr (by decide)

/-- A page fault, vector 14, with error code 2: `iret` would go to address 2. -/
theorem intHandDef_pageFault_lost :
    ¬ ∀ (c : Callees) (id : Nat), id ≠ SPURIOUS_INT_VECTOR → c.FollowCdecl id →
      ∀ (s : Machine) (eflags cs eip errorCode : Word),
        Resumes s eflags cs eip
          (runInstrs c (intHandDef id) (cpuEntry id s eflags cs eip errorCode)) := by
  intro h
  have hresumes := h idleCallees 14 (by decide) (idleCallees_followCdecl 14) interruptedState
    0x202 0x8 0x100000 2
  obtain ⟨-, herr, -⟩ := intHandDef_errorCode (idleCallees_followCdecl 14) (by decide) (by decide)
    interruptedState 0x202 0x8 0x100000 2
  have heip : (2 : Word) = 0x100000 := herr.symm.trans hresumes.top.1
  exact absurd heip (by decide)

end TalOS
