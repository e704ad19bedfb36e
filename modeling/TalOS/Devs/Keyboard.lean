-- SUMMARY: The keyboard buffer of `devs/keyboard.c` with interrupts between the accesses of `KB_Get_Key`.
import Mathlib.Logic.Function.Basic
import TalOS.Lib.MachineInt
import TalOS.Lib.Preemption
import TalOS.Lib.Ring

/-!
# `devs/keyboard.c`

The interrupt handler puts keys into a ring of 256, `KB_Get_Key` takes them out. Both
write `count`: the handler adds one to it, `KB_Get_Key` loads it and stores one less.
-/

namespace TalOS

open MachineInt Preempt

/-! ## The two functions -/

def KB_BUFF_LEN : Nat := 256

/-- The static variables. -/
structure Keyboard where
  kbBuff : Nat → UInt8
  lastKey : Nat
  head : Nat
  count : Nat

/-- `KB_IRQ`, where `scanCode` is what the port gives. -/
def kbIrq (scanCode : UInt8) (kb : Keyboard) : Keyboard :=
  if kb.count ≠ KB_BUFF_LEN then
    { kb with
      kbBuff := Function.update kb.kbBuff kb.lastKey scanCode
      lastKey := u16 ((kb.lastKey + 1) % KB_BUFF_LEN)
      count := u16 (kb.count + 1) }
  else kb

/-- `KB_Get_Key` -/
def kbGetKey (kb : Keyboard) : UInt8 × Keyboard :=
  if kb.count = 0 then (0, kb)
  else
    (kb.kbBuff kb.head, { kb with
      head := u16 ((kb.head + 1) % KB_BUFF_LEN)
      count := sub16 kb.count 1 })

/-! ## `KB_Get_Key` access by access -/

/-- Where `KB_Get_Key` stands, with what it has loaded; `idle` while it is not running. -/
inductive GetKeyPc where
  | idle
  | loadHead
  | loadKey (index : Nat)
  | loadHeadAgain (scanCode : UInt8)
  | storeHead (scanCode : UInt8) (newHead : Nat)
  | loadCount (scanCode : UInt8)
  | storeCount (scanCode : UInt8) (newCount : Nat)
  deriving Repr, DecidableEq

/-- The caller of `KB_Get_Key`, with the keys that the calls so far have returned. -/
structure KeyReader where
  pc : GetKeyPc
  returned : List UInt8
  deriving Repr, DecidableEq

/-- The variables, with the keys that `KB_IRQ` has stored so far. -/
structure KeyMemory where
  kb : Keyboard
  stored : List UInt8

/-- The next access of `KB_Get_Key`; the first one, the test of `count`, starts a call. -/
def getKeyTask : KeyReader × KeyMemory → Option (KeyReader × KeyMemory)
  | (r, m) =>
    match r.pc with
    | .idle => some ({ r with pc := if m.kb.count = 0 then .idle else .loadHead }, m)
    | .loadHead => some ({ r with pc := .loadKey m.kb.head }, m)
    | .loadKey index => some ({ r with pc := .loadHeadAgain (m.kb.kbBuff index) }, m)
    | .loadHeadAgain scanCode =>
      some ({ r with pc := .storeHead scanCode (u16 ((m.kb.head + 1) % KB_BUFF_LEN)) }, m)
    | .storeHead scanCode newHead =>
      some ({ r with pc := .loadCount scanCode }, { m with kb := { m.kb with head := newHead } })
    | .loadCount scanCode => some ({ r with pc := .storeCount scanCode (sub16 m.kb.count 1) }, m)
    | .storeCount scanCode newCount =>
      some (⟨.idle, r.returned ++ [scanCode]⟩, { m with kb := { m.kb with count := newCount } })

/-- `KB_IRQ` from its start to its end. -/
def keyInterrupt (scanCode : UInt8) (m : KeyMemory) : KeyMemory where
  kb := kbIrq scanCode m.kb
  stored := if m.kb.count ≠ KB_BUFF_LEN then m.stored ++ [scanCode] else m.stored

/-- One access of `KB_Get_Key`, or one interrupt with the key it brings. -/
def keyTurn : Turn UInt8 → KeyReader × KeyMemory → Option (KeyReader × KeyMemory) :=
  Preempt.step getKeyTask keyInterrupt

/-- Without an interrupt the accesses of a call are `KB_Get_Key`. -/
theorem keyTurn_uninterrupted (returned stored : List UInt8) {kb : Keyboard} (h : kb.count ≠ 0) :
    Run.run keyTurn (List.replicate 7 .task) (⟨.idle, returned⟩, ⟨kb, stored⟩) =
      some (⟨.idle, returned ++ [(kbGetKey kb).1]⟩, ⟨(kbGetKey kb).2, stored⟩) := by
  simp [List.replicate, Run.run, keyTurn, Preempt.step, getKeyTask, kbGetKey, h]

/-! ## Keys in the ring -/

/-- The key that a call has taken out of the ring but not out of `count`. -/
def GetKeyPc.taken : GetKeyPc → List UInt8
  | .loadCount scanCode | .storeCount scanCode _ => [scanCode]
  | _ => []

/-- What a call has loaded is still so. -/
def GetKeyPc.Current (kb : Keyboard) : GetKeyPc → Prop
  | .idle | .loadCount _ => True
  | .loadHead => kb.count ≠ 0
  | .loadKey index => kb.count ≠ 0 ∧ index = kb.head
  | .loadHeadAgain scanCode => kb.count ≠ 0 ∧ scanCode = kb.kbBuff kb.head
  | .storeHead scanCode newHead =>
    kb.count ≠ 0 ∧ scanCode = kb.kbBuff kb.head ∧ newHead = Ring.next KB_BUFF_LEN kb.head
  | .storeCount _ newCount => newCount + 1 = kb.count

/-- `num` keys are in the ring: behind those that were returned, and the one that was taken, they are all that
was stored. -/
structure KeysOk (s : KeyReader × KeyMemory) : Prop where
  head_lt : s.2.kb.head < KB_BUFF_LEN
  count_le : s.2.kb.count ≤ KB_BUFF_LEN
  current : s.1.pc.Current s.2.kb
  ring : ∃ num, s.2.kb.count = num + s.1.pc.taken.length ∧
    s.2.kb.lastKey = (s.2.kb.head + num) % KB_BUFF_LEN ∧
    s.2.stored = s.1.returned ++ s.1.pc.taken ++ Ring.contents KB_BUFF_LEN s.2.kb.kbBuff s.2.kb.head num

/-- More keys were stored than were returned and are counted. -/
def KeysLost (s : KeyReader × KeyMemory) : Prop :=
  s.2.kb.count ≤ KB_BUFF_LEN ∧
    match s.1.pc with
    | .idle => s.2.kb.count + s.1.returned.length < s.2.stored.length
    | .storeCount _ newCount =>
      newCount < KB_BUFF_LEN ∧ newCount + 1 + s.1.returned.length < s.2.stored.length
    | _ => s.2.kb.count ≠ 0 ∧ s.2.kb.count + s.1.returned.length < s.2.stored.length

/-- No key is stored between the load and the store of `count`. -/
def CountUnshared (turn : Turn UInt8) (s : KeyReader × KeyMemory) : Prop :=
  turn ≠ .task → ∀ scanCode newCount, s.1.pc = .storeCount scanCode newCount → s.2.kb.count = KB_BUFF_LEN

theorem nextCell_eq {i : Nat} (h : i < KB_BUFF_LEN) : u16 ((i + 1) % KB_BUFF_LEN) = Ring.next KB_BUFF_LEN i := by
  have hlt : (i + 1) % KB_BUFF_LEN < KB_BUFF_LEN := Nat.mod_lt _ (by decide)
  rw [Ring.next_eq h, u16_of_lt (Nat.lt_trans hlt (by decide))]

/-- An access of `KB_Get_Key` keeps the ring. -/
theorem KeysOk.task {s s' : KeyReader × KeyMemory} (h : KeysOk s) (hstep : getKeyTask s = some s') :
    KeysOk s' := by
  obtain ⟨⟨pc, returned⟩, ⟨kbBuff, lastKey, head, count⟩, stored⟩ := s
  obtain ⟨hhead, hcount, hcurrent, num, hnum, hlast, hstored⟩ := h
  dsimp only at hhead hcount hcurrent hnum hlast hstored
  cases pc with
  | idle =>
    cases hstep
    dsimp only
    split_ifs with hzero
    · exact ⟨hhead, hcount, trivial, num, hnum, hlast, hstored⟩
    · exact ⟨hhead, hcount, hzero, num, hnum, hlast, hstored⟩
  | loadHead =>
    cases hstep
    exact ⟨hhead, hcount, ⟨hcurrent, rfl⟩, num, hnum, hlast, hstored⟩
  | loadKey index =>
    cases hstep
    obtain ⟨hpos, hindex⟩ := hcurrent
    exact ⟨hhead, hcount, ⟨hpos, congrArg kbBuff hindex⟩, num, hnum, hlast, hstored⟩
  | loadHeadAgain scanCode =>
    cases hstep
    obtain ⟨hpos, hkey⟩ := hcurrent
    exact ⟨hhead, hcount, ⟨hpos, hkey, nextCell_eq hhead⟩, num, hnum, hlast, hstored⟩
  | storeHead scanCode newHead =>
    cases hstep
    obtain ⟨hpos, hkey, hnew⟩ := hcurrent
    dsimp only at hpos hkey hnew
    obtain rfl : count = num := hnum
    obtain ⟨n, rfl⟩ : ∃ n, count = n + 1 := Nat.exists_eq_succ_of_ne_zero hpos
    have hnext : newHead = (head + 1) % KB_BUFF_LEN := hnew.trans (Ring.next_eq hhead)
    refine ⟨?_, hcount, trivial, n, rfl, ?_, ?_⟩
    · show newHead < KB_BUFF_LEN
      exact hnext ▸ Nat.mod_lt _ (by decide)
    · show lastKey = (newHead + n) % KB_BUFF_LEN
      rw [hlast, hnext, Nat.mod_add_mod, Nat.add_right_comm, Nat.add_assoc]
    · -- The oldest key leaves the ring and is now the one that was taken.
      show stored = returned ++ [scanCode] ++ Ring.contents KB_BUFF_LEN kbBuff newHead n
      rw [hstored, Ring.contents_pop hhead, hkey, hnew]
      simp [GetKeyPc.taken]
  | loadCount scanCode =>
    cases hstep
    have hcount' : count = num + 1 := hnum
    have hsub : sub16 count 1 = num := by
      rw [hcount', sub16_of_le (Nat.le_add_left 1 num) (Nat.lt_of_le_of_lt (hcount' ▸ hcount) (by decide))]
      rfl
    exact ⟨hhead, hcount, (congrArg (· + 1) hsub).trans hcount'.symm, num, hnum, hlast, hstored⟩
  | storeCount scanCode newCount =>
    cases hstep
    have hcount' : newCount + 1 = count := hcurrent
    obtain rfl : newCount = num := Nat.succ.inj (hcount'.trans hnum)
    have hle : newCount ≤ KB_BUFF_LEN := Nat.le_trans (Nat.le_succ newCount) (hcount'.le.trans hcount)
    refine ⟨hhead, hle, trivial, newCount, rfl, hlast, ?_⟩
    rw [hstored]
    simp [GetKeyPc.taken]

theorem keyInterrupt_full (scanCode : UInt8) {m : KeyMemory} (h : m.kb.count = KB_BUFF_LEN) :
    keyInterrupt scanCode m = m := by
  simp [keyInterrupt, kbIrq, h]

theorem keyInterrupt_stores (scanCode : UInt8) {kb : Keyboard} {stored : List UInt8} (h : kb.count < KB_BUFF_LEN)
    (hlast : kb.lastKey < KB_BUFF_LEN) :
    keyInterrupt scanCode ⟨kb, stored⟩ =
      ⟨⟨Function.update kb.kbBuff kb.lastKey scanCode, (kb.lastKey + 1) % KB_BUFF_LEN, kb.head, kb.count + 1⟩,
        stored ++ [scanCode]⟩ := by
  have hcount : u16 (kb.count + 1) = kb.count + 1 := u16_of_lt (Nat.lt_of_le_of_lt h (by decide))
  have hcell : u16 ((kb.lastKey + 1) % KB_BUFF_LEN) = (kb.lastKey + 1) % KB_BUFF_LEN :=
    (nextCell_eq hlast).trans (Ring.next_eq hlast)
  simp [keyInterrupt, kbIrq, h.ne, hcount, hcell]

/-- The cell of the oldest key is not the one that the next key goes to. -/
theorem oldest_ne_newest {head num : Nat} (hhead : head < KB_BUFF_LEN) (hpos : num ≠ 0) (hnum : num < KB_BUFF_LEN) :
    head ≠ (head + num) % KB_BUFF_LEN := by
  have hcell : (head + 0) % KB_BUFF_LEN ≠ (head + num) % KB_BUFF_LEN :=
    Ring.cell_ne (Nat.pos_of_ne_zero hpos) hnum
  rwa [Nat.add_zero, Nat.mod_eq_of_lt hhead] at hcell

/-- So does a key that is stored at any other moment than between the load and the store of `count`. -/
theorem KeysOk.interrupt {scanCode : UInt8} {r : KeyReader} {m : KeyMemory} (h : KeysOk (r, m))
    (hcond : CountUnshared (.interrupt scanCode) (r, m)) : KeysOk (r, keyInterrupt scanCode m) := by
  obtain ⟨pc, returned⟩ := r
  obtain ⟨⟨kbBuff, lastKey, head, count⟩, stored⟩ := m
  by_cases hfull : count = KB_BUFF_LEN
  · rwa [keyInterrupt_full scanCode hfull]
  obtain ⟨hhead, hcount, hcurrent, num, hnum, hlast, hstored⟩ := h
  dsimp only at hhead hcount hcurrent hnum hlast hstored
  have hlt : count < KB_BUFF_LEN := Nat.lt_of_le_of_ne hcount hfull
  have hnumlt : num < KB_BUFF_LEN := Nat.lt_of_le_of_lt (hnum ▸ Nat.le_add_right num _) hlt
  have hlastlt : lastKey < KB_BUFF_LEN := hlast ▸ Nat.mod_lt _ (by decide)
  -- The cell of a key that the call is still to take is not the one that is written.
  have hsame (hpos : count ≠ 0) (htaken : pc.taken = []) :
      Function.update kbBuff lastKey scanCode head = kbBuff head := by
    have hne : head ≠ (head + count) % KB_BUFF_LEN := oldest_ne_newest hhead hpos hlt
    have hcount' : count = num := by rw [hnum, htaken, List.length_nil, Nat.add_zero]
    rw [hcount', ← hlast] at hne
    exact Function.update_of_ne hne _ _
  rw [keyInterrupt_stores scanCode hlt hlastlt]
  refine ⟨hhead, hlt, ?_, num + 1, ?_, ?_, ?_⟩
  · dsimp only
    cases pc with
    | idle | loadCount => trivial
    | loadHead => exact Nat.succ_ne_zero count
    | loadKey index => exact ⟨Nat.succ_ne_zero count, hcurrent.2⟩
    | loadHeadAgain key => exact ⟨Nat.succ_ne_zero count, hcurrent.2.trans (hsame hcurrent.1 rfl).symm⟩
    | storeHead key newHead =>
      exact ⟨Nat.succ_ne_zero count, hcurrent.2.1.trans (hsame hcurrent.1 rfl).symm, hcurrent.2.2⟩
    | storeCount key newCount => exact absurd (hcond (by simp) key newCount rfl) hfull
  · dsimp only
    rw [hnum, Nat.add_right_comm]
  · dsimp only
    rw [hlast, Nat.mod_add_mod, Nat.add_assoc]
  · have hcells (i : Nat) (_ : i < KB_BUFF_LEN) (hi : i ≠ (head + num) % KB_BUFF_LEN) :
        Function.update kbBuff lastKey scanCode i = kbBuff i := Function.update_of_ne (hlast ▸ hi) _ _
    dsimp only
    rw [hstored, Ring.contents_push hnumlt hcells, ← hlast, Function.update_self, List.append_assoc _ _ [scanCode]]

/-! ## A lost update -/

/-- Without the condition the interrupt counts a key, and `KB_Get_Key` then stores a count without it. -/
theorem KeysOk.lost {turn : Turn UInt8} {s s' : KeyReader × KeyMemory} (h : KeysOk s)
    (hcond : ¬ CountUnshared turn s) (hstep : keyTurn turn s = some s') : KeysLost s' := by
  obtain ⟨⟨pc, returned⟩, ⟨kbBuff, lastKey, head, count⟩, stored⟩ := s
  obtain ⟨hhead, hcount, hcurrent, num, hnum, hlast, hstored⟩ := h
  simp only [CountUnshared, ne_eq, not_forall] at hcond
  obtain ⟨hturn, scanCode, newCount, hpc, hfull⟩ := hcond
  dsimp only at hcount hcurrent hnum hlast hstored hpc hfull
  cases turn with
  | task => exact absurd rfl hturn
  | interrupt newKey =>
    cases hstep
    subst hpc
    have hlt : count < KB_BUFF_LEN := Nat.lt_of_le_of_ne hcount hfull
    have hcount' : newCount + 1 = count := hcurrent
    have hlength : stored.length = returned.length + (num + 1) := by
      simp [hstored, GetKeyPc.taken]
    dsimp only [KeysLost]
    rw [keyInterrupt_stores newKey hlt (hlast ▸ Nat.mod_lt _ (by decide))]
    refine ⟨hlt, Nat.lt_of_succ_lt (hcount'.trans_lt hlt), ?_⟩
    have hnum' : count = num + 1 := hnum
    simp only [List.length_append, List.length_singleton]
    omega

theorem KeysLost.task {s s' : KeyReader × KeyMemory} (h : KeysLost s) (hstep : getKeyTask s = some s') :
    KeysLost s' := by
  obtain ⟨⟨pc, returned⟩, ⟨kbBuff, lastKey, head, count⟩, stored⟩ := s
  obtain ⟨hcount, hpc⟩ := h
  dsimp only at hcount hpc
  cases pc with
  | idle =>
    cases hstep
    refine ⟨hcount, ?_⟩
    dsimp only
    split_ifs with hzero
    · exact hpc
    · exact ⟨hzero, hpc⟩
  | loadHead | loadKey | loadHeadAgain | storeHead =>
    cases hstep
    exact ⟨hcount, hpc⟩
  | loadCount scanCode =>
    cases hstep
    obtain ⟨hpos, hless⟩ := hpc
    have hsub : sub16 count 1 = count - 1 :=
      sub16_of_le (Nat.pos_of_ne_zero hpos) (Nat.lt_of_le_of_lt hcount (by decide))
    refine ⟨hcount, ?_⟩
    dsimp only
    rw [hsub]
    omega
  | storeCount scanCode newCount =>
    cases hstep
    refine ⟨hpc.1.le, ?_⟩
    simp only [List.length_append, List.length_singleton]
    omega

theorem KeysLost.interrupt {scanCode : UInt8} {r : KeyReader} {m : KeyMemory} (h : KeysLost (r, m)) :
    KeysLost (r, keyInterrupt scanCode m) := by
  by_cases hfull : m.kb.count = KB_BUFF_LEN
  · rwa [keyInterrupt_full scanCode hfull]
  obtain ⟨hcount, hpc⟩ := h
  have hlt : m.kb.count < KB_BUFF_LEN := Nat.lt_of_le_of_ne hcount hfull
  have hkb : (keyInterrupt scanCode m).kb.count = m.kb.count + 1 := by
    simp [keyInterrupt, kbIrq, hfull, u16_of_lt (Nat.lt_of_le_of_lt hlt (by decide))]
  have hstored : (keyInterrupt scanCode m).stored.length = m.stored.length + 1 := by
    simp [keyInterrupt, hfull]
  refine ⟨hkb.trans_le hlt, ?_⟩
  dsimp only at hpc ⊢
  rw [hkb, hstored]
  obtain ⟨pc, returned⟩ := r
  cases pc with
  | idle | storeCount =>
    dsimp only at hpc ⊢
    omega
  | loadHead | loadKey | loadHeadAgain | storeHead | loadCount =>
    dsimp only at hpc ⊢
    omega

/-! ## Runs -/

/-- Every run is in one of the two states: the keys are in the ring, or some are lost, and they are lost exactly
if a key was stored between the load and the store of `count`. -/
theorem keys_run {turns : List (Turn UInt8)} {s s' : KeyReader × KeyMemory} (hs : KeysOk s)
    (hrun : Run.run keyTurn turns s = some s') :
    Run.Along keyTurn CountUnshared turns s ∧ KeysOk s' ∨ ¬ Run.Along keyTurn CountUnshared turns s ∧ KeysLost s' := by
  refine Run.run_modes ?_ (fun turn s s' hcond hok => hok.lost hcond) ?_ hrun hs
  · rintro turn ⟨r, m⟩ s' hcond hok hstep
    cases turn with
    | task => exact hok.task hstep
    | interrupt scanCode =>
      cases hstep
      exact hok.interrupt hcond
  · rintro turn ⟨r, m⟩ s' hlost hstep
    cases turn with
    | task => exact hlost.task hstep
    | interrupt scanCode =>
      cases hstep
      exact hlost.interrupt

/-- Between two calls the ring holds what was stored and not returned. -/
theorem KeysOk.stored_eq {returned : List UInt8} {m : KeyMemory} (h : KeysOk (⟨.idle, returned⟩, m)) :
    m.stored = returned ++ Ring.contents KB_BUFF_LEN m.kb.kbBuff m.kb.head m.kb.count := by
  obtain ⟨-, -, -, num, hnum, -, hstored⟩ := h
  have hnum' : m.kb.count = num := hnum
  rw [hnum']
  simpa [GetKeyPc.taken] using hstored

theorem along_tasks (n : Nat) (s : KeyReader × KeyMemory) :
    Run.Along keyTurn CountUnshared (List.replicate n .task) s := by
  induction n generalizing s with
  | zero => trivial
  | succ n ih => exact ⟨fun hne => absurd rfl hne, fun s₁ _ => ih s₁⟩

/-- Left alone, the calls of `KB_Get_Key` return the keys that are in the ring, one after the other. -/
theorem KeysOk.drain {returned : List UInt8} {m : KeyMemory} (h : KeysOk (⟨.idle, returned⟩, m)) :
    ∃ n m', Run.run keyTurn (List.replicate n .task) (⟨.idle, returned⟩, m) =
      some (⟨.idle, m.stored⟩, m') ∧ m'.kb.count = 0 ∧ m'.stored = m.stored := by
  obtain ⟨kb, stored⟩ := m
  induction hn : kb.count generalizing kb returned with
  | zero =>
    have hall : stored = returned := by
      simpa [hn, Ring.contents] using h.stored_eq
    exact ⟨0, ⟨kb, stored⟩, by rw [hall]; rfl, hn, rfl⟩
  | succ n ih =>
    have hpos : kb.count ≠ 0 := by
      rw [hn]
      exact Nat.succ_ne_zero n
    have hcall := keyTurn_uninterrupted returned stored hpos
    have hok : KeysOk (⟨.idle, returned ++ [(kbGetKey kb).1]⟩, ⟨(kbGetKey kb).2, stored⟩) := by
      rcases keys_run h hcall with ⟨-, hok⟩ | ⟨hnot, -⟩
      · exact hok
      · exact absurd (along_tasks 7 _) hnot
    have hcount : (kbGetKey kb).2.count = n := by
      have hlt : n + 1 < 2 ^ 16 := Nat.lt_of_le_of_lt (hn ▸ h.count_le) (by decide)
      simp [kbGetKey, hn, sub16_of_le (Nat.le_add_left 1 n) hlt]
    obtain ⟨k, m', hrun, hzero, hsame⟩ := ih _ hok hcount
    refine ⟨7 + k, m', ?_, hzero, hsame⟩
    rw [List.replicate_add, Run.run_append, hcall]
    exact hrun

/-- Between two calls: `count` is the number of keys that were stored and not returned, the keys were returned in
the order in which they were stored, and the calls to come return all the others. -/
structure KeysKept (r : KeyReader) (m : KeyMemory) : Prop where
  count_eq : m.kb.count + r.returned.length = m.stored.length
  in_order : r.returned <+: m.stored
  drained : ∃ n m', Run.run keyTurn (List.replicate n .task) (r, m) = some (⟨.idle, m.stored⟩, m') ∧
    m'.kb.count = 0 ∧ m'.stored = m.stored

/-- The variables at the start. -/
def keysAtStart : KeyReader × KeyMemory := (⟨.idle, []⟩, ⟨⟨fun _ => 0, 0, 0, 0⟩, []⟩)

theorem keysAtStart_ok : KeysOk keysAtStart :=
  ⟨by decide, by decide, trivial, 0, rfl, rfl, rfl⟩

/-- Wherever interrupts come, the keys are kept exactly if no interrupt stores one between the load and the store
of `count` in `KB_Get_Key`. -/
theorem keysKept_iff (turns : List (Turn UInt8)) (returned : List UInt8) (m : KeyMemory)
    (hrun : Run.run keyTurn turns keysAtStart = some (⟨.idle, returned⟩, m)) :
    KeysKept ⟨.idle, returned⟩ m ↔ Run.Along keyTurn CountUnshared turns keysAtStart := by
  rcases keys_run keysAtStart_ok hrun with ⟨hall, hok⟩ | ⟨hnot, hlost⟩
  · refine iff_of_true ?_ hall
    refine ⟨?_, ?_, hok.drain⟩
    · rw [hok.stored_eq, List.length_append, Ring.contents_length, Nat.add_comm]
    · rw [hok.stored_eq]
      exact List.prefix_append _ _
  · refine iff_of_false (fun h => ?_) hnot
    exact absurd h.count_eq hlost.2.ne

/-- A key that comes while the first one is being taken, before `count` is loaded. -/
theorem keysKept_before_load :
    ∃ m, Run.run keyTurn [.interrupt 0x1e, .task, .task, .task, .task, .task, .interrupt 0x30, .task, .task]
        keysAtStart = some (⟨.idle, [0x1e]⟩, m) ∧ KeysKept ⟨.idle, [0x1e]⟩ m := by
  refine ⟨_, rfl, (keysKept_iff [.interrupt 0x1e, .task, .task, .task, .task, .task, .interrupt 0x30, .task, .task]
    [0x1e] _ rfl).mpr ?_⟩
  refine ⟨by simp [CountUnshared, keysAtStart], fun s₁ h₁ => ?_⟩
  have hrest (s₂ : KeyReader × KeyMemory) (h₂ : Run.run keyTurn (List.replicate 5 .task) s₁ = some s₂) :
      Run.Along keyTurn CountUnshared (.interrupt 0x30 :: List.replicate 2 .task) s₂ := by
    refine ⟨?_, fun s₃ _ => along_tasks 2 s₃⟩
    cases h₁
    cases h₂
    simp [CountUnshared]
  exact Run.along_append.mpr ⟨along_tasks 5 s₁, hrest⟩

/-- A key that comes between the load and the store of `count`: it is in the ring, and `count` is 0. -/
theorem not_keysKept :
    ∃ m, Run.run keyTurn [.interrupt 0x1e, .task, .task, .task, .task, .task, .task, .interrupt 0x30, .task]
        keysAtStart = some (⟨.idle, [0x1e]⟩, m) ∧ m.stored = [0x1e, 0x30] ∧ m.kb.count = 0 ∧
      ¬ KeysKept ⟨.idle, [0x1e]⟩ m := by
  refine ⟨_, rfl, rfl, rfl, fun h => ?_⟩
  have hcount := h.count_eq
  revert hcount
  decide

end TalOS
