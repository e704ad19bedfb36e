-- SUMMARY: `ISR_Install` and `ISR_Uninstall`: when the table of interrupt handlers stays one that can be called through.
import TalOS.Arch.Interrupts
import TalOS.Lib.Run

/-!
# The table of interrupt handlers

`tab_asm.S` lays out `isr_table` and, right behind it, `isr_addr_list`, each of
`INT_NUM` words. The stub of an interrupt calls through its slot of `isr_table`
without a test.
-/

namespace TalOS

/-! ## The functions -/

/-- The words of the data section: those of `isr_table`, then those of `isr_addr_list`. -/
abbrev IsrWords := Nat → Nat

/-- The index of `isr_addr_list[i]`, counted from `isr_table` on. -/
def isrAddrList (i : Nat) : Nat := INT_NUM + i

def INT_OK : Nat := 0
def INT_ERR_OUT_OF_RANGE : Nat := 1

/-- The loop of `InitTables` over `isr_table`. -/
def initTables (defaultISR : Nat) (words : IsrWords) : IsrWords :=
  (List.range INT_NUM).foldl (fun words i => Function.update words i defaultISR) words

/-- What a call returns, and what it stores at which index. -/
structure IsrResult where
  ret : Nat
  stores : List (Nat × Nat)
  deriving Repr, DecidableEq

def IsrResult.apply (r : IsrResult) (words : IsrWords) : IsrWords :=
  r.stores.foldl (fun words s => Function.update words s.1 s.2) words

/-- The range check of both functions, and `isr_table[num] = handler` between `_cli` and `_sti`. -/
def setIsr (num handler : Nat) : IsrResult :=
  if num > INT_NUM then ⟨INT_ERR_OUT_OF_RANGE, []⟩ else ⟨INT_OK, [(num, handler)]⟩

/-- `ISR_Install` -/
def isrInstall (num isrAddress : Nat) : IsrResult := setIsr num isrAddress

/-- `ISR_Uninstall`, which stores `NULL`. -/
def isrUninstall (num : Nat) : IsrResult := setIsr num 0

/-! ## Calls -/

inductive IsrCall where
  | install (num isrAddress : Nat)
  | uninstall (num : Nat)
  deriving Repr, DecidableEq

namespace IsrCall

def num : IsrCall → Nat
  | .install num _ | .uninstall num => num

/-- What the slot is set to. -/
def handler : IsrCall → Nat
  | .install _ isrAddress => isrAddress
  | .uninstall _ => 0

def result : IsrCall → IsrResult
  | .install num isrAddress => isrInstall num isrAddress
  | .uninstall num => isrUninstall num

/-- The caller installs no `NULL`. -/
def HandlerOk : IsrCall → Prop
  | .install _ isrAddress => isrAddress ≠ 0
  | .uninstall _ => True

/-- An installation at any number but 256, or a call that is refused. -/
def Safe : IsrCall → Prop
  | .install num _ => num ≠ INT_NUM
  | .uninstall num => INT_NUM < num

end IsrCall

def isrStep (call : IsrCall) (words : IsrWords) : Option IsrWords := some (call.result.apply words)

/-- Every stub finds a handler. -/
def Callable (words : IsrWords) : Prop := ∀ k < INT_NUM, words k ≠ 0

/-- What is expected of one call. -/
structure CallSound (call : IsrCall) (words : IsrWords) : Prop where
  inside : ∀ s ∈ call.result.stores, s.1 < INT_NUM
  refused : call.result.ret = INT_ERR_OUT_OF_RANGE → call.result.apply words = words
  accepted : call.result.ret = INT_OK →
    call.result.apply words call.num = call.handler ∧ ∀ k ≠ call.num, call.result.apply words k = words k
  callable : Callable (call.result.apply words)

/-! ## What a call does -/

/-- Both functions are the range check and the store of their handler. -/
theorem result_eq (call : IsrCall) : call.result = setIsr call.num call.handler := by
  cases call <;> rfl

theorem setIsr_cases (num handler : Nat) :
    INT_NUM < num ∧ setIsr num handler = ⟨INT_ERR_OUT_OF_RANGE, []⟩ ∨
      num ≤ INT_NUM ∧ setIsr num handler = ⟨INT_OK, [(num, handler)]⟩ := by
  rcases Nat.lt_or_ge INT_NUM num with hlt | hle
  · exact .inl ⟨hlt, if_pos hlt⟩
  · exact .inr ⟨hle, if_neg (Nat.not_lt.mpr hle)⟩

/-- One call is sound exactly if it is refused, or stores a handler inside the table. -/
theorem callSound_iff {call : IsrCall} {words : IsrWords} (hwords : Callable words) :
    CallSound call words ↔ INT_NUM < call.num ∨ call.num < INT_NUM ∧ call.handler ≠ 0 := by
  rcases setIsr_cases call.num call.handler with ⟨hlt, hset⟩ | ⟨hle, hset⟩
  · have hres : call.result = ⟨INT_ERR_OUT_OF_RANGE, []⟩ := (result_eq call).trans hset
    refine iff_of_true ⟨?_, ?_, ?_, ?_⟩ (.inl hlt)
    · simp [hres]
    · simp [hres, IsrResult.apply]
    · simp [hres, INT_OK, INT_ERR_OUT_OF_RANGE]
    · simpa [hres, IsrResult.apply] using hwords
  · have hres : call.result = ⟨INT_OK, [(call.num, call.handler)]⟩ := (result_eq call).trans hset
    have happly : call.result.apply words = Function.update words call.num call.handler := by
      simp [hres, IsrResult.apply]
    rw [or_iff_right (Nat.not_lt.mpr hle)]
    constructor
    · intro h
      have hin : call.num < INT_NUM := h.inside (call.num, call.handler) (by simp [hres])
      refine ⟨hin, ?_⟩
      have hcall := h.callable call.num hin
      rwa [happly, Function.update_self] at hcall
    · rintro ⟨hin, hhandler⟩
      refine ⟨?_, ?_, fun _ => ⟨?_, fun k hk => ?_⟩, fun k hk => ?_⟩
      · simpa [hres] using hin
      · simp [hres, INT_OK, INT_ERR_OUT_OF_RANGE]
      · rw [happly, Function.update_self]
      · rw [happly, Function.update_of_ne hk]
      · rw [happly]
        by_cases hsame : k = call.num
        · rwa [hsame, Function.update_self]
        · rw [Function.update_of_ne hsame]
          exact hwords k hk

theorem safe_iff {call : IsrCall} (h : call.HandlerOk) :
    call.Safe ↔ INT_NUM < call.num ∨ call.num < INT_NUM ∧ call.handler ≠ 0 := by
  cases call with
  | install num isrAddress =>
    have hne : isrAddress ≠ 0 := h
    simp only [IsrCall.Safe, IsrCall.num, IsrCall.handler, hne, ne_eq, not_false_iff, and_true]
    omega
  | uninstall num => simp [IsrCall.Safe, IsrCall.num, IsrCall.handler]

/-! ## Runs -/

theorem initTables_callable {defaultISR : Nat} (h : defaultISR ≠ 0) (words : IsrWords) :
    Callable (initTables defaultISR words) := by
  have hloop (n : Nat) (k : Nat) (hk : k < n) :
      (List.range n).foldl (fun words i => Function.update words i defaultISR) words k = defaultISR := by
    induction n with
    | zero => cases hk
    | succ n ih =>
      rw [List.range_succ, List.foldl_append, List.foldl_cons, List.foldl_nil]
      rcases Nat.lt_or_eq_of_le (Nat.le_of_lt_succ hk) with hlt | rfl
      · rw [Function.update_of_ne hlt.ne, ih hlt]
      · rw [Function.update_self]
  intro k hk
  rw [initTables, hloop INT_NUM k hk]
  exact h

theorem along_callSound_iff {calls : List IsrCall} {words : IsrWords} (hwords : Callable words)
    (hhandlers : ∀ call ∈ calls, call.HandlerOk) :
    Run.Along isrStep CallSound calls words ↔ ∀ call ∈ calls, call.Safe := by
  induction calls generalizing words with
  | nil => simp [Run.Along]
  | cons call calls ih =>
    obtain ⟨hhandler, hrest⟩ := List.forall_mem_cons.mp hhandlers
    have hone : CallSound call words ↔ call.Safe := (callSound_iff hwords).trans (safe_iff hhandler).symm
    have hnext : Run.Along isrStep CallSound (call :: calls) words ↔
        CallSound call words ∧ Run.Along isrStep CallSound calls (call.result.apply words) := by
      simp [Run.Along, isrStep]
    rw [hnext, List.forall_mem_cons, ← hone]
    exact and_congr_right fun hsound => ih hsound.callable hrest

/-- After `InitTables` every stub finds a handler, and a sequence of calls with handlers other than `NULL` is
sound from first to last exactly if it installs nothing at number 256 and uninstalls nothing but what is refused. -/
theorem isrTable_sound_iff (defaultISR : Nat) (hdefault : defaultISR ≠ 0) (words : IsrWords) (calls : List IsrCall)
    (hhandlers : ∀ call ∈ calls, call.HandlerOk) :
    Callable (initTables defaultISR words) ∧
      (Run.Along isrStep CallSound calls (initTables defaultISR words) ↔ ∀ call ∈ calls, call.Safe) :=
  ⟨initTables_callable hdefault words, along_callSound_iff (initTables_callable hdefault words) hhandlers⟩

/-- Two installations, the second over the first, and one that is refused. -/
theorem isrTable_sound_installs :
    Run.Along isrStep CallSound [.install 8 0x101000, .install 8 0x102000, .install 257 0x103000]
      (initTables 0x100000 fun _ => 0) :=
  (isrTable_sound_iff 0x100000 (by decide) (fun _ => 0)
    [.install 8 0x101000, .install 8 0x102000, .install 257 0x103000]
    (by simp [IsrCall.HandlerOk])).2.mpr (by simp [IsrCall.Safe, INT_NUM])

/-- Number 256 is accepted and replaces the first address of `isr_addr_list`; an uninstalled handler is `NULL`. -/
theorem not_isrTable_sound :
    ((isrInstall 256 0x101000).ret = INT_OK ∧
        (isrInstall 256 0x101000).apply (initTables 0x100000 fun _ => 0) (isrAddrList 0) = 0x101000 ∧
        ¬ Run.Along isrStep CallSound [.install 256 0x101000] (initTables 0x100000 fun _ => 0)) ∧
      (isrUninstall 8).ret = INT_OK ∧
      ¬ Run.Along isrStep CallSound [.uninstall 8] (initTables 0x100000 fun _ => 0) := by
  refine ⟨⟨by decide, ?_, fun h => ?_⟩, by decide, fun h => ?_⟩
  · simp [isrInstall, setIsr, IsrResult.apply, isrAddrList, INT_NUM]
  · exact absurd (h.1.inside (256, 0x101000) (by decide)) (by decide)
  · refine h.1.callable 8 (by decide) ?_
    simp [IsrCall.result, isrUninstall, setIsr, IsrResult.apply, INT_NUM]

end TalOS
