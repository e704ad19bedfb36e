-- SUMMARY: The ring queue of `libk/queue.c` and its byte macros refine a bounded FIFO.
import TalOS.Lib.MachineInt
import TalOS.Lib.Memory
import TalOS.Lib.Ring
import TalOS.Lib.Run

/-!
# `libk/queue.c` and the macros of `libk/queue.h`

A queue is a record over a buffer of `length * elem_size` bytes in memory. An
element is the run of bytes behind the pointer that the caller passes. The
functions copy elements of any size; the macros `queue_byte_insert` and
`queue_byte_remove` do the same for single bytes, without `memcpy` and without
a result.
-/

namespace TalOS

open MachineInt Memory

/-! ## The code -/

/-- `queue_t` -/
structure Queue where
  address : Nat
  length : Nat
  head : Nat
  tail : Nat
  elemSize : Nat
  elemNum : Nat
  deriving Repr, DecidableEq

abbrev Bytes := Nat → UInt8

/-- `_QUEUE_INC_MOD_` -/
def queueIncMod (num n : Nat) : Nat := if u32 (num + 1) ≥ n then 0 else u32 (num + 1)

/-- `queue->address + (i * queue->elem_size)` -/
def Queue.slot (q : Queue) (i : Nat) : Nat := u32 (q.address + u32 (i * q.elemSize))

/-- `queue_init` -/
def queueInit (bufAddress queueLength elemSize : Nat) : Queue where
  address := bufAddress
  head := 0
  tail := 0
  length := queueLength
  elemSize := elemSize
  elemNum := 0

/-- `queue_is_empty` -/
def queueIsEmpty (q : Queue) : Bool := q.elemNum == 0

/-- The head and the number of elements after an element came in. -/
def Queue.grown (q : Queue) : Queue :=
  { q with head := queueIncMod q.head q.length, elemNum := u32 (q.elemNum + 1) }

/-- The tail and the number of elements after an element went out. -/
def Queue.shrunk (q : Queue) : Queue :=
  { q with tail := queueIncMod q.tail q.length, elemNum := q.elemNum - 1 }

/-- `queue_insert` -/
def queueInsert (inElem : List UInt8) (q : Queue) (m : Bytes) : Bool × Queue × Bytes :=
  if q.elemNum = q.length then (false, q, m)
  else (true, q.grown, writeAt m (q.slot q.head) (inElem.take q.elemSize))

/-- `queue_remove`, with the bytes copied to `out_elem`. -/
def queueRemove (q : Queue) (m : Bytes) : Bool × Option (List UInt8) × Queue :=
  if q.elemNum > 0 then (true, some (readAt m (q.slot q.tail) q.elemSize), q.shrunk)
  else (false, none, q)

/-- `queue_get_tail`, with the bytes copied to `out_tail`. -/
def queueGetTail (q : Queue) (m : Bytes) : Bool × Option (List UInt8) :=
  if queueIsEmpty q then (false, none) else (true, some (readAt m (q.slot q.tail) q.elemSize))

/-- `queue_byte_insert` -/
def queueByteInsert (inElem : UInt8) (q : Queue) (m : Bytes) : Queue × Bytes :=
  if q.elemNum ≠ q.length then (q.grown, writeAt m (u32 (q.address + q.head)) [inElem]) else (q, m)

/-- `queue_byte_remove`, with the byte assigned to `out_elem`. -/
def queueByteRemove (q : Queue) (m : Bytes) : Option UInt8 × Queue :=
  if q.elemNum > 0 then (some (m (u32 (q.address + q.tail))), q.shrunk) else (none, q)

/-! ## Sequences of calls -/

inductive QueueOp where
  | insert (inElem : List UInt8)
  | remove
  | getTail
  | byteInsert (inElem : UInt8)
  | byteRemove
  deriving Repr, DecidableEq

/-- What the caller sees: the returned value, none for a macro, and the bytes handed out. -/
structure QueueOut where
  ret : Option Bool
  out : Option (List UInt8)
  deriving Repr, DecidableEq

def QueueOp.step : QueueOp → Queue × Bytes → QueueOut × (Queue × Bytes)
  | .insert inElem, (q, m) =>
    let r := queueInsert inElem q m
    (⟨some r.1, none⟩, r.2)
  | .remove, (q, m) =>
    let r := queueRemove q m
    (⟨some r.1, r.2.1⟩, (r.2.2, m))
  | .getTail, (q, m) =>
    let r := queueGetTail q m
    (⟨some r.1, r.2⟩, (q, m))
  | .byteInsert inElem, (q, m) => (⟨none, none⟩, queueByteInsert inElem q m)
  | .byteRemove, (q, m) =>
    let r := queueByteRemove q m
    (⟨none, r.1.map fun b => [b]⟩, (r.2, m))

/-- What a queue is for: the same operations on a list of at most `length` elements. -/
def QueueOp.fifoStep (length : Nat) : QueueOp → List (List UInt8) → QueueOut × List (List UInt8)
  | .insert inElem, l =>
    let r := Fifo.push length inElem l
    (⟨some r.1, none⟩, r.2)
  | .remove, l =>
    let r := Fifo.pop l
    (⟨some r.1.isSome, r.1⟩, r.2)
  | .getTail, l => (⟨some l.head?.isSome, l.head?⟩, l)
  | .byteInsert inElem, l => (⟨none, none⟩, (Fifo.push length [inElem] l).2)
  | .byteRemove, l =>
    let r := Fifo.pop l
    (⟨none, r.1⟩, r.2)

/-- A call that fits the element size: a whole element, and the macros on bytes only. -/
def QueueOp.Fits (elemSize : Nat) : QueueOp → Prop
  | .insert inElem => inElem.length = elemSize
  | .remove | .getTail => True
  | .byteInsert _ | .byteRemove => elemSize = 1

/-! ## The representation -/

/-- The buffer of `length` elements of `elemSize` bytes from `address` on. -/
structure QueueBuffer where
  address : Nat
  length : Nat
  elemSize : Nat
  address_lt : address < 2 ^ 32
  length_lt : length < 2 ^ 32
  fits : address + length * elemSize ≤ 2 ^ 32

/-- Slot `i` of the buffer. -/
def QueueBuffer.cell (b : QueueBuffer) (m : Bytes) (i : Nat) : List UInt8 :=
  readAt m (b.address + i * b.elemSize) b.elemSize

/-- The queue `q` over the memory `m` holds the elements `l`; outside the buffer the memory is
`m₀`. -/
structure QueueBuffer.Holds (b : QueueBuffer) (m₀ : Bytes) (qm : Queue × Bytes)
    (l : List (List UInt8)) : Prop where
  address_eq : qm.1.address = b.address
  length_eq : qm.1.length = b.length
  elemSize_eq : qm.1.elemSize = b.elemSize
  elemNum_eq : qm.1.elemNum = l.length
  bounded : l.length ≤ b.length
  tail_lt : qm.1.tail < b.length ∨ (b.length = 0 ∧ qm.1.tail = 0)
  head_eq : qm.1.head = (qm.1.tail + l.length) % b.length
  contents_eq : Ring.contents b.length (b.cell qm.2) qm.1.tail l.length = l
  frame : ∀ a, ¬ (b.address ≤ a ∧ a < b.address + b.length * b.elemSize) → qm.2 a = m₀ a

variable {b : QueueBuffer} {m₀ m : Bytes} {q : Queue} {l : List (List UInt8)}

theorem QueueBuffer.slot_add_le (b : QueueBuffer) {i : Nat} (hi : i < b.length) :
    b.address + i * b.elemSize + b.elemSize ≤ b.address + b.length * b.elemSize := by
  have hmul : (i + 1) * b.elemSize ≤ b.length * b.elemSize := Nat.mul_le_mul_right _ hi
  rw [Nat.succ_mul] at hmul
  rw [Nat.add_assoc]
  exact Nat.add_le_add_left hmul _

theorem QueueBuffer.slot_lt (b : QueueBuffer) {i : Nat} (hi : i < b.length) :
    b.address + i * b.elemSize < 2 ^ 32 := by
  have hend : b.address + i * b.elemSize + b.elemSize ≤ 2 ^ 32 :=
    Nat.le_trans (b.slot_add_le hi) b.fits
  rcases Nat.eq_zero_or_pos b.elemSize with hzero | hpos
  · rw [hzero, Nat.mul_zero, Nat.add_zero]
    exact b.address_lt
  · exact Nat.lt_of_lt_of_le (Nat.lt_add_of_pos_right hpos) hend

/-- The address that the functions compute for slot `i`. -/
theorem QueueBuffer.Holds.slot_eq (h : b.Holds m₀ (q, m) l) {i : Nat} (hi : i < b.length) :
    q.slot i = b.address + i * b.elemSize := by
  have hlt : b.address + i * b.elemSize < 2 ^ 32 := b.slot_lt hi
  have hoff : i * b.elemSize < 2 ^ 32 := Nat.lt_of_le_of_lt (Nat.le_add_left _ _) hlt
  rw [Queue.slot, show q.address = _ from h.address_eq, show q.elemSize = _ from h.elemSize_eq,
    u32_of_lt hoff, u32_of_lt hlt]

theorem queueIncMod_eq {i n : Nat} (hi : i < n) (hn : n < 2 ^ 32) : queueIncMod i n = Ring.next n i := by
  rw [queueIncMod, u32_of_lt (Nat.lt_of_le_of_lt hi hn)]
  rfl

/-- Writing an element into slot `j`. -/
theorem QueueBuffer.cell_writeAt_self (b : QueueBuffer) (m : Bytes) (j : Nat) {e : List UInt8}
    (he : e.length = b.elemSize) : b.cell (writeAt m (b.address + j * b.elemSize) e) j = e := by
  rw [QueueBuffer.cell, ← he]
  exact readAt_writeAt m _ e

theorem QueueBuffer.cell_writeAt_ne (b : QueueBuffer) (m : Bytes) {i j : Nat} {e : List UInt8}
    (he : e.length = b.elemSize) (hne : i ≠ j) :
    b.cell (writeAt m (b.address + j * b.elemSize) e) i = b.cell m i := by
  refine readAt_congr fun k hk => ?_
  rcases Nat.lt_or_gt_of_ne hne with hlt | hgt
  · have hmul : (i + 1) * b.elemSize ≤ j * b.elemSize := Nat.mul_le_mul_right _ hlt
    rw [Nat.succ_mul] at hmul
    exact writeAt_of_lt _ (by omega)
  · have hmul : (j + 1) * b.elemSize ≤ i * b.elemSize := Nat.mul_le_mul_right _ hgt
    rw [Nat.succ_mul] at hmul
    exact writeAt_of_ge (by omega)

theorem QueueBuffer.Holds.head_lt (h : b.Holds m₀ (q, m) l) (hspace : l.length < b.length) :
    q.head < b.length := by
  rw [show q.head = _ from h.head_eq]
  exact Nat.mod_lt _ (Nat.zero_lt_of_lt hspace)

theorem QueueBuffer.Holds.tail_lt_of_pos (h : b.Holds m₀ (q, m) l) (hpos : 0 < b.length) :
    q.tail < b.length := by
  rcases h.tail_lt with hlt | ⟨hzero, -⟩
  · exact hlt
  · exact absurd hzero (Nat.ne_of_gt hpos)

/-! ## One operation -/

/-- Storing an element in slot `head` of a queue that is not full. -/
theorem QueueBuffer.Holds.push (h : b.Holds m₀ (q, m) l) {e : List UInt8}
    (he : e.length = b.elemSize) (hspace : l.length < b.length) :
    b.Holds m₀ (q.grown, writeAt m (b.address + q.head * b.elemSize) e) (l ++ [e]) := by
  have hhead : q.head < b.length := h.head_lt hspace
  have hheadEq : q.head = (q.tail + l.length) % b.length := h.head_eq
  have hcells : ∀ i < b.length, i ≠ (q.tail + l.length) % b.length →
      b.cell (writeAt m (b.address + q.head * b.elemSize) e) i = b.cell m i := by
    intro i _ hne
    rw [← hheadEq] at hne
    exact b.cell_writeAt_ne m he hne
  refine ⟨h.address_eq, h.length_eq, h.elemSize_eq, ?_, ?_, h.tail_lt, ?_, ?_, ?_⟩
  · show u32 (q.elemNum + 1) = _
    rw [show q.elemNum = _ from h.elemNum_eq, List.length_append]
    exact u32_of_lt (Nat.lt_of_le_of_lt hspace b.length_lt)
  · rw [List.length_append]
    exact hspace
  · show queueIncMod q.head q.length = (q.tail + (l ++ [e]).length) % b.length
    rw [show q.length = _ from h.length_eq, queueIncMod_eq hhead b.length_lt, Ring.next_eq hhead,
      hheadEq, Nat.mod_add_mod, List.length_append, Nat.add_assoc]
    rfl
  · rw [List.length_append]
    refine (Ring.contents_push hspace hcells).trans ?_
    rw [show Ring.contents _ _ _ _ = l from h.contents_eq, ← hheadEq, b.cell_writeAt_self m _ he]
  · intro a ha
    have hend := b.slot_add_le hhead
    refine Eq.trans ?_ (h.frame a ha)
    rcases Nat.lt_or_ge a (b.address + q.head * b.elemSize) with hlt | hge
    · exact writeAt_of_lt _ hlt
    · refine writeAt_of_ge ?_
      rw [he]
      by_contra hin
      exact ha ⟨Nat.le_trans (Nat.le_add_right _ _) hge, by omega⟩

/-- Taking the element out of slot `tail` of a queue that is not empty. -/
theorem QueueBuffer.Holds.pop {e : List UInt8} (h : b.Holds m₀ (q, m) (e :: l)) :
    b.cell m q.tail = e ∧ b.Holds m₀ (q.shrunk, m) l := by
  have hpos : 0 < b.length := Nat.lt_of_lt_of_le (Nat.succ_pos _) h.bounded
  have htail : q.tail < b.length := h.tail_lt_of_pos hpos
  have hcontents := h.contents_eq
  rw [List.length_cons, Ring.contents_pop htail] at hcontents
  obtain ⟨he, hl⟩ := List.cons.inj hcontents
  have hnext : queueIncMod q.tail q.length = Ring.next b.length q.tail := by
    rw [show q.length = _ from h.length_eq]
    exact queueIncMod_eq htail b.length_lt
  refine ⟨he, h.address_eq, h.length_eq, h.elemSize_eq, ?_, ?_, ?_, ?_, ?_, h.frame⟩
  · show q.elemNum - 1 = _
    rw [show q.elemNum = _ from h.elemNum_eq]
    rfl
  · exact Nat.le_of_succ_le h.bounded
  · show queueIncMod q.tail q.length < b.length ∨ _
    rw [hnext, Ring.next_eq htail]
    exact Or.inl (Nat.mod_lt _ hpos)
  · show q.head = (queueIncMod q.tail q.length + l.length) % b.length
    rw [hnext, Ring.next_eq htail, show q.head = _ from h.head_eq, Nat.mod_add_mod, List.length_cons]
    show (q.tail + (l.length + 1)) % b.length = _
    rw [Nat.add_assoc q.tail, Nat.add_comm 1]
  · show Ring.contents b.length (b.cell m) (queueIncMod q.tail q.length) l.length = l
    rw [hnext]
    exact hl

/-- A full queue, seen from the record. -/
theorem QueueBuffer.Holds.full_iff (h : b.Holds m₀ (q, m) l) :
    q.elemNum = q.length ↔ l.length = b.length := by
  rw [show q.elemNum = _ from h.elemNum_eq, show q.length = _ from h.length_eq]

theorem QueueBuffer.Holds.space (h : b.Holds m₀ (q, m) l) (hfull : ¬ l.length = b.length) :
    l.length < b.length := Nat.lt_of_le_of_ne h.bounded hfull

/-- The element in slot `tail`, as the functions read it. -/
theorem QueueBuffer.Holds.readAt_tail {e : List UInt8} (h : b.Holds m₀ (q, m) (e :: l)) :
    readAt m (q.slot q.tail) q.elemSize = e := by
  have htail : q.tail < b.length :=
    h.tail_lt_of_pos (Nat.lt_of_lt_of_le (Nat.succ_pos _) h.bounded)
  rw [h.slot_eq htail, show q.elemSize = _ from h.elemSize_eq]
  exact h.pop.1

/-! ## The calls -/

/-- The element that a call brings. -/
def QueueOp.element : QueueOp → Option (List UInt8)
  | .insert inElem => some inElem
  | .byteInsert inElem => some [inElem]
  | .remove | .getTail | .byteRemove => none

/-- A call that brings an element stores it in slot `head`, unless the queue is full. -/
theorem QueueOp.step_of_element {op : QueueOp} {e : List UInt8} (helement : op.element = some e)
    (hop : op.Fits b.elemSize) (h : b.Holds m₀ (q, m) l) :
    e.length = b.elemSize ∧ (op.step (q, m)).1 = (op.fifoStep b.length l).1 ∧
      (op.step (q, m)).2 =
        if l.length = b.length then (q, m)
        else (q.grown, writeAt m (b.address + q.head * b.elemSize) e) := by
  cases op with
  | insert inElem =>
    obtain rfl := Option.some.inj helement
    have he : inElem.length = b.elemSize := hop
    have hbytes : inElem.take q.elemSize = inElem := by
      rw [show q.elemSize = _ from h.elemSize_eq, ← he, List.take_length]
    simp only [step, fifoStep, Fifo.push, queueInsert, h.full_iff, hbytes]
    split
    · exact ⟨he, rfl, rfl⟩
    · next hfull =>
      rw [h.slot_eq (h.head_lt (h.space hfull))]
      exact ⟨he, rfl, rfl⟩
  | byteInsert inElem =>
    obtain rfl := Option.some.inj helement
    -- The byte calls address the buffer by `head` and `tail` alone, as the elements are bytes.
    have hsize : b.elemSize = 1 := hop
    refine ⟨hsize.symm, rfl, ?_⟩
    simp only [step, queueByteInsert, ne_eq, h.full_iff]
    split
    · next hspace =>
      have hlt := b.slot_lt (h.head_lt (h.space hspace))
      rw [hsize, Nat.mul_one] at hlt
      rw [show q.address = _ from h.address_eq, u32_of_lt hlt, hsize, Nat.mul_one]
    · next hfull => rw [if_pos (not_not.mp hfull)]
  | remove => cases helement
  | getTail => cases helement
  | byteRemove => cases helement

/-- What a call that brings an element does to a bounded list. -/
theorem QueueOp.fifoStep_of_element {op : QueueOp} {e : List UInt8} (helement : op.element = some e) (length : Nat)
    (l : List (List UInt8)) : (op.fifoStep length l).2 = if l.length = length then l else l ++ [e] := by
  cases op with
  | insert inElem =>
    obtain rfl := Option.some.inj helement
    simp only [fifoStep, Fifo.push]
    split <;> rfl
  | byteInsert inElem =>
    obtain rfl := Option.some.inj helement
    simp only [fifoStep, Fifo.push]
    split <;> rfl
  | remove => cases helement
  | getTail => cases helement
  | byteRemove => cases helement

/-- Every operation gives the result of the list operation and keeps the representation. -/
theorem QueueOp.step_refines (op : QueueOp) (qm : Queue × Bytes) (l : List (List UInt8))
    (hop : op.Fits b.elemSize) (h : b.Holds m₀ qm l) :
    (op.step qm).1 = (op.fifoStep b.length l).1 ∧
      b.Holds m₀ (op.step qm).2 (op.fifoStep b.length l).2 := by
  obtain ⟨q, m⟩ := qm
  cases helement : op.element with
  | some e =>
    obtain ⟨he, hout, hstate⟩ := QueueOp.step_of_element helement hop h
    refine ⟨hout, ?_⟩
    rw [hstate, QueueOp.fifoStep_of_element helement]
    split
    · exact h
    · next hfull => exact h.push he (h.space hfull)
  | none =>
    cases op with
    | insert inElem => cases helement
    | byteInsert inElem => cases helement
    | remove =>
      have hnum : q.elemNum = l.length := h.elemNum_eq
      cases l with
      | nil => simpa [step, fifoStep, queueRemove, Fifo.pop, hnum] using h
      | cons e l =>
        have hpos : q.elemNum > 0 := hnum ▸ Nat.succ_pos _
        simp only [step, fifoStep, queueRemove, Fifo.pop, if_pos hpos, h.readAt_tail]
        exact ⟨rfl, h.pop.2⟩
    | getTail =>
      have hnum : q.elemNum = l.length := h.elemNum_eq
      cases l with
      | nil => simpa [step, fifoStep, queueGetTail, queueIsEmpty, hnum] using h
      | cons e l =>
        have hne : queueIsEmpty q = false := by simp [queueIsEmpty, hnum]
        simp only [step, fifoStep, queueGetTail, hne, h.readAt_tail]
        exact ⟨rfl, h⟩
    | byteRemove =>
      have hsize : b.elemSize = 1 := hop
      have hnum : q.elemNum = l.length := h.elemNum_eq
      cases l with
      | nil => simpa [step, fifoStep, queueByteRemove, Fifo.pop, hnum] using h
      | cons e l =>
        have hpos : q.elemNum > 0 := hnum ▸ Nat.succ_pos _
        have htail : q.tail < b.length :=
          h.tail_lt_of_pos (Nat.lt_of_lt_of_le (Nat.succ_pos _) h.bounded)
        have hlt := b.slot_lt htail
        rw [hsize, Nat.mul_one] at hlt
        have hbyte : [m (u32 (q.address + q.tail))] = e := by
          rw [← h.pop.1, show q.address = _ from h.address_eq, u32_of_lt hlt]
          simp [QueueBuffer.cell, hsize, readAt]
        simp only [step, fifoStep, queueByteRemove, Fifo.pop, if_pos hpos, Option.map_some, hbyte]
        exact ⟨trivial, h.pop.2⟩

/-! ## Sequences of operations -/

/-- A queue as `queue_init` leaves it is empty. -/
theorem queueInit_holds (b : QueueBuffer) (m : Bytes) :
    b.Holds m (queueInit b.address b.length b.elemSize, m) [] where
  address_eq := rfl
  length_eq := rfl
  elemSize_eq := rfl
  elemNum_eq := rfl
  bounded := Nat.zero_le _
  tail_lt := by
    rcases Nat.eq_zero_or_pos b.length with hzero | hpos
    · exact Or.inr ⟨hzero, rfl⟩
    · exact Or.inl hpos
  head_eq := (Nat.zero_mod _).symm
  contents_eq := rfl
  frame := fun _ _ => rfl

/-- Over every sequence of calls that fit the element size, an initialised queue gives the results
of a list of at most `length` elements, ends up holding that list, and writes nothing outside its
buffer. -/
theorem queue_refines_fifo (b : QueueBuffer) (m : Bytes) (ops : List QueueOp)
    (hops : ∀ op ∈ ops, op.Fits b.elemSize) :
    let queue := Run.runOut QueueOp.step ops (queueInit b.address b.length b.elemSize, m)
    let fifo := Run.runOut (QueueOp.fifoStep b.length) ops []
    queue.1 = fifo.1 ∧ b.Holds m queue.2 fifo.2 :=
  Run.runOut_simulates QueueOp.step_refines hops (queueInit_holds b m)

/-- Three elements of two bytes into a queue of two, and the oldest one out. -/
theorem queue_refines_fifo_two_slots :
    (Run.runOut QueueOp.step [.insert [1, 2], .insert [3, 4], .insert [5, 6], .remove, .getTail]
      (queueInit 100 2 2, fun _ => 0)).1 =
      [⟨some true, none⟩, ⟨some true, none⟩, ⟨some false, none⟩, ⟨some true, some [1, 2]⟩,
        ⟨some true, some [3, 4]⟩] :=
  (queue_refines_fifo ⟨100, 2, 2, by decide, by decide, by decide⟩ (fun _ => 0)
    [.insert [1, 2], .insert [3, 4], .insert [5, 6], .remove, .getTail]
    (by simp [QueueOp.Fits])).1

end TalOS
