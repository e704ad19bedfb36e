-- SUMMARY: `queue_get_head`: what the slot behind the newest element holds, over every history of the queue.
import TalOS.Libk.Queue

/-!
# Peeking at the head

`head` is the slot that the next element goes to. `queue_get_head` copies that
slot out: the oldest element if the queue is full, else one that has left, or
what the buffer held before the queue was initialised.
-/

namespace TalOS

open MachineInt Memory

/-- `queue_get_head`, with the bytes copied to `out_head`. -/
def queueGetHead (q : Queue) (m : Bytes) : Bool × Option (List UInt8) :=
  if queueIsEmpty q then (false, none) else (true, some (readAt m (q.slot q.head) q.elemSize))

/-! ## Histories -/

/-- The elements in the queue, and all that were ever accepted; the oldest first. -/
structure QueueHistory where
  elements : List (List UInt8)
  accepted : List (List UInt8)
  deriving Repr, DecidableEq

def QueueOp.record (length : Nat) (op : QueueOp) (h : QueueHistory) : QueueOut × QueueHistory :=
  let r := op.fifoStep length h.elements
  (r.1, ⟨r.2, if h.elements.length = length then h.accepted else h.accepted ++ op.element.toList⟩)

/-- What the slots hold. -/
def QueueBuffer.slots (b : QueueBuffer) (m : Bytes) : List (List UInt8) := (List.range b.length).map (b.cell m)

/-- The queue and its history; before the first call the memory was `m₀`. -/
structure QueueBuffer.Tracks (b : QueueBuffer) (m₀ : Bytes) (qm : Queue × Bytes) (h : QueueHistory) : Prop where
  holds : b.Holds m₀ qm h.elements
  head_eq : qm.1.head = h.accepted.length % b.length
  remembers : Ring.Remembers b.length (b.cell qm.2) h.accepted.length (b.slots m₀ ++ h.accepted)
  suffix : h.elements <:+ h.accepted

variable {b : QueueBuffer} {m₀ m : Bytes} {q : Queue} {l I : List (List UInt8)}

/-! ## One call -/

theorem QueueBuffer.Tracks.push (h : b.Tracks m₀ (q, m) ⟨l, I⟩) {e : List UInt8} (he : e.length = b.elemSize)
    (hspace : l.length < b.length) :
    b.Tracks m₀ (q.grown, writeAt m (b.address + q.head * b.elemSize) e) ⟨l ++ [e], I ++ [e]⟩ := by
  have hpos : 0 < b.length := Nat.zero_lt_of_lt hspace
  have hhead : q.head = I.length % b.length := h.head_eq
  have hlt : q.head < b.length := h.holds.head_lt hspace
  refine ⟨h.holds.push he hspace, ?_, ?_, ?_⟩
  · show queueIncMod q.head q.length = _
    rw [show q.length = _ from h.holds.length_eq, queueIncMod_eq hlt b.length_lt, Ring.next_eq hlt, hhead,
      Nat.mod_add_mod, List.length_append]
    rfl
  · have hsame : ∀ i < b.length, i ≠ I.length % b.length →
        b.cell (writeAt m (b.address + q.head * b.elemSize) e) i = b.cell m i := by
      intro i _ hne
      rw [← hhead] at hne
      exact b.cell_writeAt_ne m he hne
    have hpush := h.remembers.push hpos hsame
    rw [← hhead, b.cell_writeAt_self m _ he, List.append_assoc] at hpush
    rw [List.length_append]
    exact hpush
  · obtain ⟨gone, hgone⟩ := h.suffix
    exact ⟨gone, by rw [← List.append_assoc, show gone ++ l = I from hgone]⟩

/-- Any other call leaves the memory and `head` alone. -/
theorem QueueOp.step_of_none {op : QueueOp} (helement : op.element = none) (q : Queue) (m : Bytes) (length : Nat)
    (l : List (List UInt8)) :
    (op.step (q, m)).2.2 = m ∧ (op.step (q, m)).2.1.head = q.head ∧ (op.fifoStep length l).2 <:+ l := by
  cases op with
  | insert inElem => cases helement
  | byteInsert inElem => cases helement
  | remove =>
    simp only [step, queueRemove, fifoStep]
    refine ⟨trivial, ?_, Fifo.pop_suffix l⟩
    split <;> rfl
  | getTail => exact ⟨rfl, rfl, List.suffix_refl l⟩
  | byteRemove =>
    simp only [step, queueByteRemove, fifoStep]
    refine ⟨trivial, ?_, Fifo.pop_suffix l⟩
    split <;> rfl

theorem QueueOp.step_tracks (op : QueueOp) (qm : Queue × Bytes) (h : QueueHistory) (hop : op.Fits b.elemSize)
    (ht : b.Tracks m₀ qm h) :
    (op.step qm).1 = (op.record b.length h).1 ∧ b.Tracks m₀ (op.step qm).2 (op.record b.length h).2 := by
  obtain ⟨q, m⟩ := qm
  obtain ⟨l, I⟩ := h
  obtain ⟨hout, hholds⟩ := QueueOp.step_refines op (q, m) l hop ht.holds
  refine ⟨hout, ?_⟩
  cases helement : op.element with
  | some e =>
    obtain ⟨he, -, hstate⟩ := QueueOp.step_of_element helement hop ht.holds
    rw [hstate]
    simp only [record, QueueOp.fifoStep_of_element helement, helement, Option.toList_some]
    split
    · exact ht
    · next hfull => exact ht.push he (ht.holds.space hfull)
  | none =>
    obtain ⟨hmem, hhead, hsuffix⟩ := QueueOp.step_of_none helement q m b.length l
    have haccepted : (op.record b.length ⟨l, I⟩).2 = ⟨(op.fifoStep b.length l).2, I⟩ := by
      simp only [record, helement, Option.toList_none, List.append_nil, ite_self]
    rw [haccepted]
    exact ⟨hholds, hhead.trans ht.head_eq, by rw [hmem]; exact ht.remembers, hsuffix.trans ht.suffix⟩

/-! ## Over a history -/

theorem queueInit_tracks (b : QueueBuffer) (m : Bytes) :
    b.Tracks m (queueInit b.address b.length b.elemSize, m) ⟨[], []⟩ where
  holds := queueInit_holds b m
  head_eq := (Nat.zero_mod _).symm
  remembers := by
    rw [List.append_nil]
    exact Ring.Remembers.start b.length (b.cell m)
  suffix := List.suffix_refl []

theorem queue_tracks (b : QueueBuffer) (m : Bytes) {ops : List QueueOp} (hops : ∀ op ∈ ops, op.Fits b.elemSize) :
    b.Tracks m (Run.runOut QueueOp.step ops (queueInit b.address b.length b.elemSize, m)).2
      (Run.runOut (QueueOp.record b.length) ops ⟨[], []⟩).2 :=
  (Run.runOut_simulates QueueOp.step_tracks hops (queueInit_tracks b m)).2

/-- What comes out: of everything ever stored in the slots, the entry one round behind the next one. -/
theorem QueueBuffer.Tracks.queueGetHead_eq (h : b.Tracks m₀ (q, m) ⟨l, I⟩) (hne : l ≠ []) :
    queueGetHead q m = (true, (b.slots m₀ ++ I)[I.length]?) := by
  have hnum : q.elemNum = l.length := h.holds.elemNum_eq
  have hpos : 0 < b.length := Nat.lt_of_lt_of_le (List.length_pos_iff.mpr hne) h.holds.bounded
  have hhead : q.head = I.length % b.length := h.head_eq
  have hlt : q.head < b.length := hhead ▸ Nat.mod_lt _ hpos
  have hempty : queueIsEmpty q = false := by
    rw [queueIsEmpty, hnum]
    simpa using hne
  rw [queueGetHead, hempty, h.remembers.next_cell hpos, h.holds.slot_eq hlt,
    show q.elemSize = _ from h.holds.elemSize_eq, hhead]
  rfl

theorem QueueBuffer.Tracks.newest_eq (h : b.Tracks m₀ (q, m) ⟨l, I⟩) (hne : l ≠ []) :
    l.getLast? = I.getLast? := by
  obtain ⟨gone, hgone⟩ := h.suffix
  rw [← show gone ++ l = I from hgone, List.getLast?_append_of_ne_nil _ hne]

theorem QueueBuffer.Tracks.isEmpty_eq_false (h : b.Tracks m₀ (q, m) ⟨l, I⟩) :
    queueIsEmpty q = false ↔ l ≠ [] := by
  rw [queueIsEmpty, show q.elemNum = l.length from h.holds.elemNum_eq]
  simp

/-- A full queue gives out its oldest element. -/
theorem QueueBuffer.Tracks.queueGetHead_full (h : b.Tracks m₀ (q, m) ⟨l, I⟩) (hne : l ≠ [])
    (hfull : l.length = b.length) : queueGetHead q m = (true, l.head?) := by
  have hpos : 0 < b.length := hfull ▸ List.length_pos_iff.mpr hne
  have hhead : q.head = q.tail := by
    rw [show q.head = _ from h.holds.head_eq, hfull, Nat.add_mod_right]
    exact Nat.mod_eq_of_lt (h.holds.tail_lt_of_pos hpos)
  have hempty := h.isEmpty_eq_false.mpr hne
  cases l with
  | nil => exact absurd rfl hne
  | cons e l =>
    rw [queueGetHead, hempty, hhead, h.holds.readAt_tail]
    rfl

/-- For every history after which the queue is not empty, `queue_get_head` copies out the newest element iff the
newest one is equal to the one that was accepted `length - 1` insertions before it, or, where there is none, to
what the slot next in turn held at `queue_init`. -/
theorem queueGetHead_newest_iff (b : QueueBuffer) (m : Bytes) (ops : List QueueOp)
    (hops : ∀ op ∈ ops, op.Fits b.elemSize) :
    let queue := (Run.runOut QueueOp.step ops (queueInit b.address b.length b.elemSize, m)).2
    let history := (Run.runOut (QueueOp.record b.length) ops ⟨[], []⟩).2
    queueIsEmpty queue.1 = false →
      (queueGetHead queue.1 queue.2 = (true, history.elements.getLast?) ↔
        (b.slots m ++ history.accepted)[history.accepted.length]? = history.accepted.getLast?) := by
  have htracks := queue_tracks b m hops
  generalize (Run.runOut QueueOp.step ops (queueInit b.address b.length b.elemSize, m)).2 = queue at htracks ⊢
  generalize (Run.runOut (QueueOp.record b.length) ops ⟨[], []⟩).2 = history at htracks ⊢
  intro _ _ hempty
  have hne := htracks.isEmpty_eq_false.mp hempty
  rw [htracks.queueGetHead_eq hne, htracks.newest_eq hne, Prod.mk.injEq]
  exact and_iff_right rfl

/-- A queue of two slots, full of equal elements. -/
theorem queueGetHead_newest_equal :
    queueGetHead (Run.runOut QueueOp.step [.insert [7], .insert [7]] (queueInit 100 2 1, fun _ => 0)).2.1
      (Run.runOut QueueOp.step [.insert [7], .insert [7]] (queueInit 100 2 1, fun _ => 0)).2.2 =
      (true, some [7]) :=
  (queueGetHead_newest_iff ⟨100, 2, 1, by decide, by decide, by decide⟩ (fun _ => 0)
    [.insert [7], .insert [7]] (by simp [QueueOp.Fits]) (by decide)).mpr (by decide)

/-- In a queue of two slots, 1 and then 2 are inserted: the peek gives 1. -/
theorem not_queueGetHead_newest :
    ¬ ∀ (b : QueueBuffer) (m : Bytes) (ops : List QueueOp), (∀ op ∈ ops, op.Fits b.elemSize) →
      let queue := (Run.runOut QueueOp.step ops (queueInit b.address b.length b.elemSize, m)).2
      let history := (Run.runOut (QueueOp.record b.length) ops ⟨[], []⟩).2
      queueIsEmpty queue.1 = false → queueGetHead queue.1 queue.2 = (true, history.elements.getLast?) := by
  intro hall
  have hpeek := hall ⟨100, 2, 1, by decide, by decide, by decide⟩ (fun _ => 0) [.insert [1], .insert [2]]
    (by simp [QueueOp.Fits]) (by decide)
  revert hpeek
  decide

end TalOS
