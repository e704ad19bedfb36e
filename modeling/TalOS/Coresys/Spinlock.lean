-- SUMMARY: The spinlock of `coresys/spinlock.c` over `AtomicTestSetAndWait`: mutual exclusion under every schedule.
import Mathlib.Tactic.Common
import Mathlib.Logic.Function.Basic

/-!
# `coresys/spinlock.c` and `arch/IA32/atomic.S`

Any number of cores share one 32-bit word. A step of a core is one access to
that word, together with the jump that tests its result: the locked
test-and-set, one turn of the read-only spin, the load of a release and its
store. The load and the store are separate steps, so that other cores run
between them. A schedule is the list of the cores that step.
-/

namespace TalOS

/-! ## The word -/

def SPINLOCK_BIT_LOCK : BitVec 32 := 1

/-- The value that `spinlock_init` and `spinlock_release` store over `word`. -/
def spinlockCleared (word : BitVec 32) : BitVec 32 := ~~~SPINLOCK_BIT_LOCK &&& word

/-- `spinlock_init` -/
def spinlockInit (word : BitVec 32) : BitVec 32 := spinlockCleared word

/-- `spinlock_is_acquired` -/
def spinlockIsAcquired (word : BitVec 32) : Bool := word &&& SPINLOCK_BIT_LOCK == SPINLOCK_BIT_LOCK

/-- `lock btsl $0`: the carry flag, which is the old bit 0, and the word with bit 0 set. -/
def lockBtsl (word : BitVec 32) : Bool × BitVec 32 := (word.getLsbD 0, word ||| SPINLOCK_BIT_LOCK)

/-- `testl $1`: the zero flag. -/
def testlZero (word : BitVec 32) : Bool := word &&& SPINLOCK_BIT_LOCK == 0

theorem getLsbD_bitLock (b : Nat) : SPINLOCK_BIT_LOCK.getLsbD b = decide (b = 0) := by
  show (1#32).getLsbD b = _
  simp [BitVec.getLsbD_one]

theorem getLsbD_spinlockCleared (word : BitVec 32) (b : Nat) :
    (spinlockCleared word).getLsbD b = (decide (b ≠ 0) && word.getLsbD b) := by
  rw [spinlockCleared, BitVec.getLsbD_and, BitVec.getLsbD_not, getLsbD_bitLock]
  rcases Nat.lt_or_ge b 32 with hb | hb
  · simp [hb]
  · simp [BitVec.getLsbD_of_ge word b hb]

theorem spinlockCleared_free (word : BitVec 32) : (spinlockCleared word).getLsbD 0 = false := by
  rw [getLsbD_spinlockCleared]
  rfl

theorem spinlockCleared_other (word : BitVec 32) {b : Nat} (hb : b ≠ 0) :
    (spinlockCleared word).getLsbD b = word.getLsbD b := by
  rw [getLsbD_spinlockCleared, decide_eq_true hb, Bool.true_and]

theorem getLsbD_lockBtsl (word : BitVec 32) (b : Nat) :
    (lockBtsl word).2.getLsbD b = (decide (b = 0) || word.getLsbD b) := by
  rw [lockBtsl, BitVec.getLsbD_or, getLsbD_bitLock, Bool.or_comm]

theorem lockBtsl_locked (word : BitVec 32) : (lockBtsl word).2.getLsbD 0 = true := by
  rw [getLsbD_lockBtsl]
  rfl

theorem lockBtsl_other (word : BitVec 32) {b : Nat} (hb : b ≠ 0) :
    (lockBtsl word).2.getLsbD b = word.getLsbD b := by
  rw [getLsbD_lockBtsl, decide_eq_false hb, Bool.false_or]

theorem and_bitLock (word : BitVec 32) :
    word &&& SPINLOCK_BIT_LOCK = if word.getLsbD 0 then SPINLOCK_BIT_LOCK else 0 := by
  apply BitVec.eq_of_getLsbD_eq
  intro b _
  rw [BitVec.getLsbD_and, getLsbD_bitLock]
  by_cases hb : b = 0
  · subst hb
    cases word.getLsbD 0 <;> decide
  · cases word.getLsbD 0 <;> simp [hb, getLsbD_bitLock]

theorem spinlockIsAcquired_eq (word : BitVec 32) : spinlockIsAcquired word = word.getLsbD 0 := by
  rw [spinlockIsAcquired, and_bitLock]
  cases word.getLsbD 0 <;> decide

/-- A set bit 0 stays set, and nothing else changes. -/
theorem lockBtsl_of_set {word : BitVec 32} (h : word.getLsbD 0 = true) : (lockBtsl word).2 = word := by
  apply BitVec.eq_of_getLsbD_eq
  intro b _
  by_cases hb : b = 0
  · rw [hb, lockBtsl_locked, h]
  · exact lockBtsl_other word hb

/-! ## The cores -/

/-- Where a core stands. -/
inductive LockPc where
  /-- in code that does not touch the lock -/
  | outside
  /-- at `__acquire` -/
  | acquire
  /-- at `__spin_pause` -/
  | spinPause
  /-- `spinlock_acquire` is over -/
  | critical
  /-- in `spinlock_release`, before the store of `value` -/
  | release (value : BitVec 32)
  deriving Repr, DecidableEq

/-- Between the end of the acquire and the store of the release. -/
def LockPc.Holds : LockPc → Prop
  | .critical | .release _ => True
  | .outside | .acquire | .spinPause => False

structure LockState (Core : Type) where
  word : BitVec 32
  pc : Core → LockPc

variable {Core : Type} [DecidableEq Core]

def LockState.goto (s : LockState Core) (i : Core) (word : BitVec 32) (pc : LockPc) :
    LockState Core where
  word := word
  pc := Function.update s.pc i pc

/-- One step of core `i`. -/
def lockStep (s : LockState Core) (i : Core) : LockState Core :=
  match s.pc i with
  | .outside => s.goto i s.word .acquire
  | .acquire =>
    let cfWord := lockBtsl s.word
    s.goto i cfWord.2 (if cfWord.1 then .spinPause else .critical)
  | .spinPause => s.goto i s.word (if testlZero s.word then .acquire else .spinPause)
  | .critical => s.goto i s.word (.release (spinlockCleared s.word))
  | .release value => s.goto i value .outside

/-- The state after a schedule. -/
def lockRun (s : LockState Core) (schedule : List Core) : LockState Core := schedule.foldl lockStep s

/-- All cores are outside; the word is as `spinlock_init` leaves it. -/
def lockInit (word : BitVec 32) : LockState Core where
  word := spinlockInit word
  pc := fun _ => .outside

/-! ## The invariant -/

/-- What holds in every state, `word` being the word before `spinlock_init`. -/
structure LockState.Inv (word : BitVec 32) (s : LockState Core) : Prop where
  others : ∀ b ≠ 0, s.word.getLsbD b = word.getLsbD b
  excl : ∀ i j, (s.pc i).Holds → (s.pc j).Holds → i = j
  locked : s.word.getLsbD 0 = true ↔ ∃ i, (s.pc i).Holds
  loaded : ∀ i value, s.pc i = .release value → value = spinlockCleared s.word

omit [DecidableEq Core] in
theorem lockInit_inv (word : BitVec 32) : (lockInit word : LockState Core).Inv word where
  others := fun b hb => spinlockCleared_other word hb
  excl := fun i _ hi _ => hi.elim
  locked := by
    constructor
    · intro h
      exact absurd (h.symm.trans (spinlockCleared_free word)) (by decide)
    · rintro ⟨i, hi⟩
      exact hi.elim
  loaded := fun i value h => by cases h

theorem pc_goto (s : LockState Core) (i j : Core) (word : BitVec 32) (pc : LockPc) :
    (s.goto i word pc).pc j = if j = i then pc else s.pc j := by
  simp only [LockState.goto, Function.update_apply]

theorem pc_goto_ne (s : LockState Core) {i j : Core} (word : BitVec 32) (pc : LockPc) (h : j ≠ i) :
    (s.goto i word pc).pc j = s.pc j := by
  rw [pc_goto, if_neg h]

/-- The word stays, and who holds the lock stays the same. -/
theorem LockState.Inv.move {word : BitVec 32} {s : LockState Core} (hs : s.Inv word) {i : Core} {pc : LockPc}
    (hsame : ∀ j, ((s.goto i s.word pc).pc j).Holds ↔ (s.pc j).Holds)
    (hloaded : ∀ j value, (s.goto i s.word pc).pc j = .release value → value = spinlockCleared s.word) :
    (s.goto i s.word pc).Inv word := by
  refine ⟨hs.others, ?_, ?_, hloaded⟩
  · intro j k hj hk
    exact hs.excl j k ((hsame j).mp hj) ((hsame k).mp hk)
  · exact hs.locked.trans (exists_congr fun j => (hsame j).symm)

/-- A core that does not hold the lock moves, the word stays, and it does not hold it after. -/
theorem LockState.Inv.wait {word : BitVec 32} {s : LockState Core} (hs : s.Inv word) {i : Core}
    {pc : LockPc} (hi : ¬ (s.pc i).Holds) (hpc : ¬ pc.Holds) : (s.goto i s.word pc).Inv word := by
  have hsame (j : Core) : ((s.goto i s.word pc).pc j).Holds ↔ (s.pc j).Holds := by
    rw [pc_goto]
    split
    · next h => exact ⟨fun hp => (hpc hp).elim, fun hp => (hi (h ▸ hp)).elim⟩
    · exact Iff.rfl
  refine hs.move hsame fun j value hj => ?_
  have hheld : (s.pc j).Holds := (hsame j).mp (by rw [hj]; trivial)
  have hne : j ≠ i := fun h => hi (h ▸ hheld)
  rw [pc_goto_ne s _ _ hne] at hj
  exact hs.loaded j value hj

/-- The test-and-set of a free lock. -/
theorem LockState.Inv.take {word : BitVec 32} {s : LockState Core} (hs : s.Inv word) {i : Core}
    (hfree : s.word.getLsbD 0 = false) : (s.goto i (lockBtsl s.word).2 .critical).Inv word := by
  have hnone (j : Core) : ¬ (s.pc j).Holds := by
    intro hj
    rw [hs.locked.mpr ⟨j, hj⟩] at hfree
    cases hfree
  have honly (j : Core) (hj : ((s.goto i (lockBtsl s.word).2 .critical).pc j).Holds) : j = i := by
    by_contra hne
    rw [pc_goto_ne s _ _ hne] at hj
    exact hnone j hj
  refine ⟨?_, ?_, ?_, ?_⟩
  · intro b hb
    exact (lockBtsl_other s.word hb).trans (hs.others b hb)
  · intro j k hj hk
    exact (honly j hj).trans (honly k hk).symm
  · refine iff_of_true (lockBtsl_locked s.word) ⟨i, ?_⟩
    rw [pc_goto, if_pos rfl]
    trivial
  · intro j value hj
    have hji : j = i := honly j (by rw [hj]; trivial)
    rw [pc_goto, if_pos hji] at hj
    cases hj

/-- The load of a release: the word stays, and the core still holds the lock. -/
theorem LockState.Inv.load {word : BitVec 32} {s : LockState Core} (hs : s.Inv word) {i : Core}
    (hi : s.pc i = .critical) :
    (s.goto i s.word (.release (spinlockCleared s.word))).Inv word := by
  have hsame (j : Core) :
      ((s.goto i s.word (.release (spinlockCleared s.word))).pc j).Holds ↔ (s.pc j).Holds := by
    rw [pc_goto]
    split
    · next h =>
      rw [h, hi]
      exact Iff.rfl
    · exact Iff.rfl
  refine hs.move hsame fun j value hj => ?_
  rw [pc_goto] at hj
  split at hj
  · cases hj
    rfl
  · exact hs.loaded j value hj

/-- The store of a release: the value is still the one the word gives, since no core wrote
between the load and the store. -/
theorem LockState.Inv.store {word value : BitVec 32} {s : LockState Core} (hs : s.Inv word) {i : Core}
    (hi : s.pc i = .release value) : (s.goto i value .outside).Inv word := by
  have hvalue : value = spinlockCleared s.word := hs.loaded i value hi
  have hholds : (s.pc i).Holds := by
    rw [hi]
    trivial
  have hnone (j : Core) : ¬ ((s.goto i value .outside).pc j).Holds := by
    intro hj
    rw [pc_goto] at hj
    split at hj
    · exact hj
    · next hne => exact hne (hs.excl j i hj hholds)
  refine ⟨?_, ?_, ?_, ?_⟩
  · intro b hb
    show value.getLsbD b = _
    rw [hvalue, spinlockCleared_other s.word hb, hs.others b hb]
  · intro j _ hj
    exact (hnone j hj).elim
  · refine iff_of_false ?_ fun ⟨j, hj⟩ => hnone j hj
    show ¬ value.getLsbD 0 = true
    rw [hvalue, spinlockCleared_free]
    exact Bool.false_ne_true
  · intro j value' hj
    exact (hnone j (by rw [hj]; trivial)).elim

theorem LockState.Inv.step {word : BitVec 32} {s : LockState Core} (hs : s.Inv word) (i : Core) :
    (lockStep s i).Inv word := by
  unfold lockStep
  cases hi : s.pc i with
  | outside => exact hs.wait (by rw [hi]; exact id) id
  | acquire =>
    cases hbit : s.word.getLsbD 0 with
    | false =>
      have hgoto := hs.take (i := i) hbit
      simpa only [lockBtsl, hbit, Bool.false_eq_true, if_false] using hgoto
    | true =>
      have hword : (lockBtsl s.word).2 = s.word := lockBtsl_of_set hbit
      have hfree : ¬ (s.pc i).Holds := by
        rw [hi]
        exact id
      have hgoto : (s.goto i s.word .spinPause).Inv word := hs.wait hfree id
      simpa only [hword, show (lockBtsl s.word).1 = true from hbit, if_true] using hgoto
  | spinPause =>
    refine hs.wait (by rw [hi]; exact id) ?_
    split <;> exact id
  | critical => exact hs.load hi
  | release value => exact hs.store hi

theorem LockState.Inv.run {word : BitVec 32} {s : LockState Core} (hs : s.Inv word)
    (schedule : List Core) : (lockRun s schedule).Inv word := by
  induction schedule generalizing s with
  | nil => exact hs
  | cons i schedule ih => exact ih (hs.step i)

/-! ## Mutual exclusion -/

/-- A step of one core leaves every other core where it is. -/
theorem lockStep_pc_ne (s : LockState Core) {i j : Core} (h : j ≠ i) :
    (lockStep s i).pc j = s.pc j := by
  unfold lockStep
  cases s.pc i <;> exact pc_goto_ne s _ _ h

/-- What the lock is for, said of a state reached from a lock word. -/
structure LockState.Excludes (word : BitVec 32) (s : LockState Core) : Prop where
  atMostOne : ∀ i j, (s.pc i).Holds → (s.pc j).Holds → i = j
  bit : s.word.getLsbD 0 = true ↔ ∃ i, (s.pc i).Holds
  otherBits : ∀ b ≠ 0, s.word.getLsbD b = word.getLsbD b
  kept : ∀ i j, j ≠ i → (s.pc j).Holds →
    ((lockStep s i).pc j).Holds ∧ (lockStep s i).word.getLsbD 0 = true

/-- Under every schedule at most one core holds the lock, bit 0 is set exactly while a core holds
it, the other bits are those of the start, and the acquire of a core is undone by no step of
another core. -/
theorem spinlock_mutualExclusion (word : BitVec 32) (schedule : List Core) :
    (lockRun (lockInit word) schedule : LockState Core).Excludes word := by
  have hs : (lockRun (lockInit word) schedule : LockState Core).Inv word :=
    (lockInit_inv word).run schedule
  refine ⟨hs.excl, hs.locked, hs.others, ?_⟩
  intro i j hne hj
  have hstill : ((lockStep (lockRun (lockInit word) schedule) i).pc j).Holds := by
    rw [lockStep_pc_ne _ hne]
    exact hj
  exact ⟨hstill, (hs.step i).locked.mpr ⟨j, hstill⟩⟩

/-- Core 1 spins while core 0 is in its critical section, and gets the lock after the release. -/
example : (lockRun (lockInit 6 : LockState (Fin 2)) [0, 0, 1, 1, 1, 0, 0]).pc 1 = .spinPause ∧
    (lockRun (lockInit 6 : LockState (Fin 2)) [0, 0, 1, 1, 1, 0, 0, 1, 1]).pc 1 = .critical := by
  decide

/-- `spinlock_is_acquired` tells whether a core holds the lock. -/
theorem spinlockIsAcquired_iff (word : BitVec 32) (schedule : List Core) :
    let s := lockRun (lockInit word) schedule
    spinlockIsAcquired s.word = true ↔ ∃ i, (s.pc i).Holds := by
  intro s
  rw [spinlockIsAcquired_eq]
  exact ((lockInit_inv word).run schedule).locked

end TalOS
