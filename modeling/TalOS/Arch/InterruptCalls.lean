-- SUMMARY: The calls that an interrupt stub makes, and the arguments that the called routines find on the stack.
import TalOS.Arch.InterruptStub

/-!
# The calls of `IntHandDef`

The service routine is a C function: it finds the interrupt id on top of the stack and
behind it the words that the CPU pushed. The stub copies them from where its frame
pointer says they are.
-/

namespace TalOS

open CallStack

/-! ## The calls in a list of instructions -/

def Instr.isCall : Instr → Bool
  | .callIsr => true
  | .callSendEOI => true
  | _ => false

/-- The calls that are made, each with the machine at the call. -/
def callsOf (c : Callees) : List Instr → Machine → List (Instr × Machine)
  | [], _ => []
  | i :: instrs, s => (if i.isCall then [(i, s)] else []) ++ callsOf c instrs (exec c s i)

variable {c : Callees} {s : Machine} {id : Nat}

theorem callsOf_append (instrs instrs' : List Instr) (s : Machine) :
    callsOf c (instrs ++ instrs') s = callsOf c instrs s ++ callsOf c instrs' (runInstrs c instrs s) := by
  induction instrs generalizing s with
  | nil => rfl
  | cons i instrs ih =>
    rw [List.cons_append, callsOf, ih, callsOf, List.append_assoc]
    rfl

theorem callsOf_of_no_call {instrs : List Instr} (h : ∀ i ∈ instrs, i.isCall = false) (s : Machine) :
    callsOf c instrs s = [] := by
  induction instrs generalizing s with
  | nil => rfl
  | cons i instrs ih =>
    obtain ⟨hi, hrest⟩ := List.forall_mem_cons.mp h
    rw [callsOf, hi, ih hrest]
    rfl

/-! ## Words seen from the frame pointer -/

/-- The frame pointer is at the first of the words `ws`, and the words `top` are on top of them. -/
structure Framed (base : Word) (top ws : List Word) (s : Machine) : Prop where
  ebp : s.ebp = base
  esp : s.esp + BitVec.ofNat 32 (4 * top.length) = base
  words : Holds s.mem s.esp (top ++ ws)

variable {base : Word} {top ws : List Word}

theorem Framed.push (h : Framed base top ws s) (hroom : top.length + ws.length < 2 ^ 20) (v : Word) :
    Framed base (v :: top) ws (s.push v) := by
  refine ⟨h.ebp, ?_, h.words.push ?_ v⟩
  · rw [← h.esp, List.length_cons, Nat.mul_succ, Nat.add_comm, BitVec.ofNat_add]
    show s.esp - 4 + _ = _
    rw [← BitVec.add_assoc]
    exact congrArg (· + _) (BitVec.sub_add_cancel s.esp 4)
  · rw [List.length_append]
    omega

/-- A word found at a distance from the frame pointer. -/
theorem Framed.load (h : Framed base top ws s) {k : Nat} (hk : k < ws.length) :
    load32 s.mem (s.ebp + BitVec.ofNat 32 (4 * k)) = ws[k] := by
  have hws := (Holds.append.mp h.words).2
  rw [h.esp, ← h.ebp] at hws
  have hsplit : ws = ws.take k ++ ws[k] :: ws.drop (k + 1) := by
    rw [← List.drop_eq_getElem_cons hk, List.take_append_drop]
  rw [hsplit] at hws
  have hat := (Holds.append.mp hws).2.1
  rwa [List.length_take, Nat.min_eq_left (Nat.le_of_lt hk)] at hat

/-- `pushl offset(%ebp)` for the words behind the first one, the last of them first. -/
def pushBehind (n : Nat) : List Instr :=
  (List.range n).reverse.map fun k => .pushAtEbp (BitVec.ofNat 32 (4 * (k + 1)))

theorem Framed.pushBehind {n : Nat} (h : Framed base top ws s) (hn : n < ws.length)
    (hroom : top.length + n + ws.length < 2 ^ 20) :
    Framed base ((ws.drop 1).take n ++ top) ws (runInstrs c (TalOS.pushBehind n) s) := by
  induction n generalizing top s with
  | zero => simpa [TalOS.pushBehind, runInstrs] using h
  | succ n ih =>
    have hsplit : TalOS.pushBehind (n + 1) =
        .pushAtEbp (BitVec.ofNat 32 (4 * (n + 1))) :: TalOS.pushBehind n := by
      unfold TalOS.pushBehind
      rw [List.range_succ, List.reverse_append]
      rfl
    have hpush : Framed base (ws[n + 1] :: top) ws (exec c s (.pushAtEbp (BitVec.ofNat 32 (4 * (n + 1))))) := by
      show Framed base _ ws (s.push (load32 s.mem (s.ebp + BitVec.ofNat 32 (4 * (n + 1)))))
      rw [h.load hn]
      exact h.push (by omega) _
    have hrest := ih hpush (by omega) (by rw [List.length_cons]; omega)
    have hlast : (ws.drop 1).take (n + 1) = (ws.drop 1).take n ++ [ws[n + 1]] := by
      rw [List.take_add_one, List.getElem?_drop, Nat.add_comm 1 n, List.getElem?_eq_getElem hn]
      rfl
    rw [hsplit, hlast, List.append_assoc]
    exact hrest

/-! ## The stub up to the service routine -/

/-- The instructions of the stub before its first call. -/
def beforeIsr (id : Nat) : List Instr :=
  [.cli, .pushEbp, .movEspEbp, .pushal] ++ isrArguments id ++ [.pushImm (BitVec.ofNat 32 id)]

/-- The instructions after it, up to the second call. -/
def beforeEOI (id : Nat) : List Instr := [.addEbxEsp, .pushImm (BitVec.ofNat 32 id)]

theorem intHandDef_eq (hid : id ≠ SPURIOUS_INT_VECTOR) :
    intHandDef id = beforeIsr id ++ .callIsr ::
      (if id ≠ 2 then beforeEOI id ++ [.callSendEOI, .addEsp 4] else [.addEbxEsp]) ++ [.popal, .leave, .sti] := by
  unfold intHandDef beforeIsr beforeEOI
  rw [if_neg hid]
  split <;> simp

theorem isrArguments_eq (id : Nat) :
    isrArguments id = pushBehind (if id ∈ errorCodeVectors then 6 else 5) ++
      [.movEbx (if id ∈ errorCodeVectors then 28 else 24)] := by
  unfold isrArguments
  split <;> rfl

theorem isCall_beforeIsr : ∀ i ∈ beforeIsr id, i.isCall = false := by
  unfold beforeIsr isrArguments
  split <;> simp [Instr.isCall]

/-- The words that the CPU pushed, and the two that stood on the interrupted stack: with a change of the
privilege level these are ESP and SS, which the CPU pushed first. -/
def stubWords (id : Nat) (s : Machine) (eflags cs eip errorCode : Word) : List Word :=
  cpuFrame id eflags cs eip errorCode ++ [load32 s.mem s.esp, load32 s.mem (s.esp + 4)]

theorem length_stubWords (id : Nat) (s : Machine) (eflags cs eip errorCode : Word) :
    (stubWords id s eflags cs eip errorCode).length = if id ∈ errorCodeVectors then 6 else 5 := by
  unfold stubWords cpuFrame
  split <;> rfl

theorem cpuEntry_stubWords (id : Nat) (s : Machine) (eflags cs eip errorCode : Word) :
    Holds (cpuEntry id s eflags cs eip errorCode).mem (cpuEntry id s eflags cs eip errorCode).esp
      (stubWords id s eflags cs eip errorCode) := by
  have habove : Holds s.mem s.esp [load32 s.mem s.esp, load32 s.mem (s.esp + 4)] := ⟨rfl, rfl, trivial⟩
  have heflags := habove.push (by simp only [List.length_cons]; decide) eflags
  have hcs := heflags.push (by simp only [List.length_cons]; decide) cs
  have hframe := hcs.push (by simp only [List.length_cons]; decide) eip
  unfold cpuEntry stubWords cpuFrame
  split
  · exact hframe.push (by simp only [List.length_cons]; decide) errorCode
  · exact hframe

theorem Framed.enter (c : Callees) {e : Machine} (hws : Holds e.mem e.esp ws) (hroom : ws.length < 2 ^ 10) :
    Framed (e.esp - 4) (savedRegisters e (e.esp - 4)) (e.ebp :: ws)
      (runInstrs c [.cli, .pushEbp, .movEspEbp, .pushal] e) := by
  have hebp := hws.push (by omega) e.ebp
  have hframe : Framed (e.esp - 4) [] (e.ebp :: ws) (runInstrs c [.cli, .pushEbp, .movEspEbp] e) :=
    ⟨rfl, add_ofNat_zero _, hebp⟩
  have heax := hframe.push (by simp only [List.length_nil, List.length_cons]; omega) e.eax
  have hecx := heax.push (by simp only [List.length_nil, List.length_cons]; omega) e.ecx
  have hedx := hecx.push (by simp only [List.length_nil, List.length_cons]; omega) e.edx
  have hebx := hedx.push (by simp only [List.length_nil, List.length_cons]; omega) e.ebx
  have hesp := hebx.push (by simp only [List.length_nil, List.length_cons]; omega) (e.esp - 4)
  have hbase := hesp.push (by simp only [List.length_nil, List.length_cons]; omega) (e.esp - 4)
  have hesi := hbase.push (by simp only [List.length_nil, List.length_cons]; omega) e.esi
  exact hesi.push (by simp only [List.length_nil, List.length_cons]; omega) e.edi

/-- The words behind the frame pointer become the arguments of the service routine. -/
theorem Framed.isrArguments (h : Framed base top ws s) (hroom : top.length < 2 ^ 10)
    (hlen : ws.length = if id ∈ errorCodeVectors then 7 else 6) :
    Framed base (ws.drop 1 ++ top) ws (runInstrs c (TalOS.isrArguments id) s) := by
  have hpushes : ∀ n, ws.length = n + 1 → n ≤ 6 → ∀ v,
      Framed base (ws.drop 1 ++ top) ws (runInstrs c (TalOS.pushBehind n ++ [.movEbx v]) s) := by
    intro n hn hle v
    have hargs := h.pushBehind (c := c) (n := n) (by omega) (by omega)
    rw [List.take_of_length_le (by rw [List.length_drop]; omega)] at hargs
    rw [runInstrs_append]
    exact ⟨hargs.ebp, hargs.esp, hargs.words⟩
  rw [isrArguments_eq]
  split at hlen
  case isTrue herr =>
    rw [if_pos herr]
    exact hpushes 6 hlen (by decide) _
  case isFalse herr =>
    rw [if_neg herr]
    exact hpushes 5 hlen (by decide) _

/-- At the call of the service routine its arguments are on top of the stack. -/
theorem beforeIsr_holds (c : Callees) (id : Nat) (s : Machine) (eflags cs eip errorCode : Word) :
    Holds (runInstrs c (beforeIsr id) (cpuEntry id s eflags cs eip errorCode)).mem
      (runInstrs c (beforeIsr id) (cpuEntry id s eflags cs eip errorCode)).esp
      (BitVec.ofNat 32 id :: stubWords id s eflags cs eip errorCode) := by
  have hlen := length_stubWords id s eflags cs eip errorCode
  have hlt : (stubWords id s eflags cs eip errorCode).length < 2 ^ 10 := by
    rw [hlen]
    split <;> decide
  have henter := Framed.enter c (cpuEntry_stubWords id s eflags cs eip errorCode) hlt
  have hwords : ((cpuEntry id s eflags cs eip errorCode).ebp :: stubWords id s eflags cs eip errorCode).length =
      if id ∈ errorCodeVectors then 7 else 6 := by
    rw [List.length_cons, hlen]
    split <;> rfl
  have hargs := henter.isrArguments (c := c) (by rw [length_savedRegisters]; decide) hwords
  have hid := hargs.push (by
    rw [List.length_append, length_savedRegisters, List.drop_succ_cons, List.drop_zero, List.length_cons]
    omega) (BitVec.ofNat 32 id)
  have hwords := hid.words
  rw [List.drop_succ_cons, List.drop_zero, ← List.cons_append, List.append_assoc] at hwords
  unfold beforeIsr
  rw [runInstrs_append, runInstrs_append]
  exact (Holds.append.mp hwords).1

theorem beforeIsr_interruptFlag (c : Callees) (id : Nat) (s : Machine) :
    (runInstrs c (beforeIsr id) s).interruptFlag = false := by
  unfold beforeIsr isrArguments
  split <;> rfl

/-- An interrupt calls the service routine of its vector once, with interrupts disabled and with its id, the error
code of the vectors that the macro lists, EIP, CS and EFLAGS as arguments, and what the stack held before, then the
EOI handler once, with the id. The NMI gets no EOI, and the spurious vector makes no call. -/
theorem intHandDef_calls (c : Callees) (id : Nat) (s : Machine) (eflags cs eip errorCode : Word) :
    ∃ s₁ s₂, callsOf c (intHandDef id) (cpuEntry id s eflags cs eip errorCode) =
        (if id = SPURIOUS_INT_VECTOR then []
          else (.callIsr, s₁) :: if id ≠ 2 then [(.callSendEOI, s₂)] else []) ∧
      Holds s₁.mem s₁.esp (BitVec.ofNat 32 id :: (if id ∈ errorCodeVectors then [errorCode] else []) ++
        [eip, cs, eflags, load32 s.mem s.esp, load32 s.mem (s.esp + 4)]) ∧
      s₁.interruptFlag = false ∧ Holds s₂.mem s₂.esp [BitVec.ofNat 32 id] := by
  have hargs := beforeIsr_holds c id s eflags cs eip errorCode
  have hflag := beforeIsr_interruptFlag c id (cpuEntry id s eflags cs eip errorCode)
  refine ⟨runInstrs c (beforeIsr id) (cpuEntry id s eflags cs eip errorCode),
    (exec c (c.isr (runInstrs c (beforeIsr id) (cpuEntry id s eflags cs eip errorCode))) .addEbxEsp).push
      (BitVec.ofNat 32 id), ?_, ?_, hflag, load32_store32 _ _ _, trivial⟩
  · by_cases hid : id = SPURIOUS_INT_VECTOR
    · rw [if_pos hid]
      unfold intHandDef
      rw [if_pos hid]
      rfl
    rw [if_neg hid, intHandDef_eq hid, callsOf_append, callsOf_append, callsOf_of_no_call isCall_beforeIsr,
      callsOf_of_no_call (by simp [Instr.isCall] : ∀ i ∈ [Instr.popal, .leave, .sti], i.isCall = false),
      List.nil_append, List.append_nil]
    split <;> rfl
  · have hwords : BitVec.ofNat 32 id :: stubWords id s eflags cs eip errorCode =
        BitVec.ofNat 32 id :: (if id ∈ errorCodeVectors then [errorCode] else []) ++
          [eip, cs, eflags, load32 s.mem s.esp, load32 s.mem (s.esp + 4)] := by
      simp [stubWords, cpuFrame]
    rw [← hwords]
    exact hargs

end TalOS
