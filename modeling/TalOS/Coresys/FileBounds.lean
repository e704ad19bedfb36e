-- SUMMARY: Which bytes reading and writing a file touches, and what a write leaves behind for which there is no room.
import TalOS.Coresys.FileBuffers
import TalOS.Libk.KheapBlocks

/-!
# Bounds of files

`ramfs_read` and `ramfs_write` compare a sum of two arguments with the length of the
file. The sum has 32 bits, and where it wraps around both go wrong. A write that makes
the file longer goes wrong a second way: `krealloc` copies and frees before it says
that there is no block.
-/

open MachineInt

namespace TalOS

variable {s s' : Ramfs} {T : Forest Nat} {node nbyte offset a : Nat} {buf : List UInt8}

/-! ## Reading -/

/-- `ramfs_read` should refuse an offset behind the file, and else copy the bytes from `offset` on, as
many as there are and no more than asked for. -/
def ReadBounded (s : Ramfs) (node nbyte offset : Nat) : Prop :=
  ramfsRead s node nbyte offset =
    if (s.node node).length < offset then none
    else
      some (Memory.readAt s.heap.mem ((s.node node).filePtr + offset)
        (min nbyte ((s.node node).length - offset)))

theorem IsRegFile.read_bounded_iff (h : IsRegFile s node) (hlen : (s.node node).length < 2 ^ 32)
    (hnbyte : nbyte < 2 ^ 32) :
    ReadBounded s node nbyte offset ↔
      (s.node node).length < offset ∨ nbyte + offset < 2 ^ 32 := by
  unfold ReadBounded
  by_cases hlarge : (s.node node).length < offset
  · rw [ramfsRead, if_pos (.inr (.inr (.inr hlarge))), if_pos hlarge]
    exact iff_of_true rfl (.inl hlarge)
  · have hoff := Nat.not_lt.mp hlarge
    rw [ramfsRead, if_neg (h.accepted hoff), if_neg hlarge, or_iff_right hlarge]
    dsimp only
    rcases Nat.lt_or_ge (nbyte + offset) (2 ^ 32) with hlt | hwrap
    · refine iff_of_true ?_ hlt
      rw [u32_of_lt hlt]
      split
      · rw [Nat.min_eq_right (by omega)]
      · rw [Nat.min_eq_left (by omega)]
    · -- The sum wraps to less than `offset`, and all that was asked for is copied.
      refine iff_of_false (fun heq => ?_) (Nat.not_lt.mpr hwrap)
      have hsum : u32 (nbyte + offset) = nbyte + offset - 2 ^ 32 := by
        rw [u32, Nat.mod_eq_sub_mod hwrap, Nat.mod_eq_of_lt (by omega)]
      rw [hsum, if_neg (by omega)] at heq
      have hlength := congrArg List.length (Option.some.inj heq)
      rw [Memory.length_readAt, Memory.length_readAt] at hlength
      omega

/-! ## Writing -/

/-- What `ramfs_write` does: whether it fails, the file and the pointer of the allocator after it, and
the places it copies to. -/
structure WriteEffect where
  failed : Bool
  filePtr : Nat
  length : Nat
  pointer : Nat
  stores : List Block
deriving Repr, DecidableEq

/-- `ramfs_write` with `krealloc` in it, for any arguments: sums wrap around as in the code. -/
def ramfsWriteEffect (s : Ramfs) (node nbyte offset : Nat) : WriteEffect :=
  let n := s.node node
  if node = 0 ∨ n.callbacks.readFn = false ∨ n.type ≠ .regular ∨ offset > n.length then
    ⟨true, n.filePtr, n.length, s.heap.currentPointer, []⟩
  else
    let newLen := u32 (nbyte + offset)
    if newLen > n.length then
      let r := krealloc s.heap n.filePtr newLen
      let copy : Block := ⟨r.1, copiedBytes s.heap n.filePtr newLen⟩
      if r.1 = 0 then ⟨true, n.filePtr, n.length, r.2.currentPointer, [copy]⟩
      else ⟨false, r.1, newLen, r.2.currentPointer, [copy, ⟨r.1 + offset, nbyte⟩]⟩
    else ⟨false, n.filePtr, n.length, s.heap.currentPointer, [⟨n.filePtr + offset, nbyte⟩]⟩

/-- It fails, and the file is the same and nothing is stored. -/
def WriteEffect.Unchanged (e : WriteEffect) (n : RamfsFileHeader) : Prop :=
  e.failed = true ∧ e.filePtr = n.filePtr ∧ e.length = n.length ∧ ∀ b ∈ e.stores, b.size = 0

/-- The file is long enough, in its old buffer or in a block of the heap, and no byte is stored outside
of it. -/
def WriteEffect.Inside (e : WriteEffect) (n : RamfsFileHeader) (nbyte offset : Nat) : Prop :=
  nbyte + offset ≤ e.length ∧
    (e.filePtr = n.filePtr ∧ e.length = n.length ∨ e.filePtr + e.length ≤ e.pointer) ∧
    ∀ b ∈ e.stores, ∀ a, b.Holds a → Block.Holds ⟨e.filePtr, e.length⟩ a

/-- What `ramfs_write` should do. -/
def WriteBounded (s : Ramfs) (node nbyte offset : Nat) : Prop :=
  (ramfsWriteEffect s node nbyte offset).Unchanged (s.node node) ∨
    (ramfsWriteEffect s node nbyte offset).Inside (s.node node) nbyte offset

/-- The offset lies behind the file, or the sum does not wrap and lies inside the file, or there is room
for a longer file, or there is none and `krealloc` copies nothing. -/
def WriteFits (s : Ramfs) (node nbyte offset : Nat) : Prop :=
  (s.node node).length < offset ∨ nbyte + offset ≤ (s.node node).length ∨
    nbyte + offset < 2 ^ 32 ∧
      (s.heap.Room (nbyte + offset) ∨
        s.heap.Refuses (nbyte + offset) ∧
          CopiesNothing s.heap (s.node node).filePtr (nbyte + offset))

/-- `krealloc` stores the marker and the bytes it copies. -/
theorem krealloc_frame (h : Kheap) (ptr : Nat) {size : Nat} (hsize : 0 < size)
    (hmarker : a ∉ kmallocStores h size)
    (hcopy : ¬ Block.Holds ⟨(krealloc h ptr size).1, copiedBytes h ptr size⟩ a) :
    (krealloc h ptr size).2.mem a = h.mem a := by
  rw [krealloc_eq h ptr hsize] at hcopy ⊢
  have hout : a < (kmalloc h size).1 + 0 ∨ (kmalloc h size).1 + 0 + copiedBytes h ptr size ≤ a := by
    by_contra hin
    exact hcopy ⟨by dsimp only; omega, by dsimp only; omega⟩
  dsimp only [kfree]
  rw [memcpyLoop_outside hout, kmalloc_frame hmarker]

theorem writeAt_frame {mem : Nat → UInt8} {start : Nat} (ha : ¬ Block.Holds ⟨start, buf.length⟩ a) :
    Memory.writeAt mem start buf a = mem a := by
  rcases Nat.lt_or_ge a start with hlt | hge
  · exact Memory.writeAt_of_lt _ hlt
  · exact Memory.writeAt_of_ge (Nat.not_lt.mp fun hin => ha ⟨hge, hin⟩)

/-- A write that has a result does what its effect says, and stores nowhere else. -/
theorem ramfsWrite_effect {n : Int} (hrun : ramfsWrite s node buf offset = some (s', n)) :
    n = (if (ramfsWriteEffect s node buf.length offset).failed then -1 else (buf.length : Int)) ∧
      (s'.node node).filePtr = (ramfsWriteEffect s node buf.length offset).filePtr ∧
      (s'.node node).length = (ramfsWriteEffect s node buf.length offset).length ∧
      s'.heap.currentPointer = (ramfsWriteEffect s node buf.length offset).pointer ∧
      ∀ a ∉ kmallocStores s.heap (u32 (buf.length + offset)),
        (∀ b ∈ (ramfsWriteEffect s node buf.length offset).stores, ¬ b.Holds a) →
        s'.heap.mem a = s.heap.mem a := by
  unfold ramfsWrite at hrun
  unfold ramfsWriteEffect
  dsimp only at hrun ⊢
  split at hrun
  · next hbad =>
    obtain ⟨rfl, rfl⟩ := Prod.mk.inj (Option.some.inj hrun)
    rw [if_pos hbad]
    exact ⟨rfl, rfl, rfl, rfl, fun _ _ _ => rfl⟩
  · next hfile =>
    have hne : node ≠ 0 := fun hzero => hfile (.inl hzero)
    rw [if_neg hfile]
    split at hrun
    · next hgrow =>
      have hframe {a : Nat} := krealloc_frame s.heap (s.node node).filePtr (a := a)
        (Nat.zero_lt_of_lt hgrow)
      rw [if_pos hgrow]
      generalize copiedBytes s.heap (s.node node).filePtr (u32 (buf.length + offset)) = copied at hframe ⊢
      generalize krealloc s.heap (s.node node).filePtr (u32 (buf.length + offset)) = r at hrun hframe ⊢
      split at hrun
      · next hzero =>
        obtain ⟨rfl, rfl⟩ := Prod.mk.inj (Option.some.inj hrun)
        rw [if_pos hzero]
        exact ⟨rfl, rfl, rfl, rfl, fun a hmarker hout => hframe hmarker (hout _ List.mem_cons_self)⟩
      · next hblock =>
        rw [if_neg hblock]
        split at hrun
        · cases hrun
        · rw [update_eq hne, Option.map_some] at hrun
          obtain ⟨rfl, rfl⟩ := Prod.mk.inj (Option.some.inj hrun)
          refine ⟨rfl, ?_, ?_, rfl, fun a hmarker hout => ?_⟩
          · rw [setNode_self]
          · rw [setNode_self]
          · refine (writeAt_frame ?_).trans (hframe hmarker (hout _ List.mem_cons_self))
            exact hout _ (List.mem_cons_of_mem _ List.mem_cons_self)
    · next hstay =>
      rw [if_neg hstay]
      split at hrun
      · cases hrun
      · obtain ⟨rfl, rfl⟩ := Prod.mk.inj (Option.some.inj hrun)
        exact ⟨rfl, rfl, rfl, rfl, fun a _ hout => writeAt_frame (hout _ List.mem_cons_self)⟩

/-- The effect of a write that makes the file longer. -/
theorem IsRegFile.effect_grows (h : IsRegFile s node) (hoff : offset ≤ (s.node node).length)
    (hlt : nbyte + offset < 2 ^ 32) (hgrow : (s.node node).length < nbyte + offset) :
    ramfsWriteEffect s node nbyte offset =
      let r := kmalloc s.heap (nbyte + offset)
      let copied := copiedBytes s.heap (s.node node).filePtr (nbyte + offset)
      if r.1 = 0 then
        ⟨true, (s.node node).filePtr, (s.node node).length, r.2.currentPointer, [⟨0, copied⟩]⟩
      else
        ⟨false, r.1, nbyte + offset, r.2.currentPointer, [⟨r.1, copied⟩, ⟨r.1 + offset, nbyte⟩]⟩ := by
  rw [ramfsWriteEffect, if_neg (h.accepted hoff), u32_of_lt hlt]
  dsimp only
  obtain ⟨mem, freed, hblock⟩ := krealloc_block s.heap (s.node node).filePtr (Nat.zero_lt_of_lt hgrow)
  rw [if_pos hgrow, hblock]
  dsimp only
  split
  · next hzero => rw [hzero]
  · rfl

/-- The effect of a write for which the sum, wrapped around, is not longer than the file. -/
theorem IsRegFile.effect_stays (h : IsRegFile s node) (hoff : offset ≤ (s.node node).length)
    (hstay : u32 (nbyte + offset) ≤ (s.node node).length) :
    ramfsWriteEffect s node nbyte offset =
      ⟨false, (s.node node).filePtr, (s.node node).length, s.heap.currentPointer,
        [⟨(s.node node).filePtr + offset, nbyte⟩]⟩ := by
  rw [ramfsWriteEffect, if_neg (h.accepted hoff)]
  dsimp only
  rw [if_neg (Nat.not_lt.mpr hstay)]

/-- A store of some bytes at the end of a range lies in it. -/
theorem holds_of_le {start size b n : Nat} (hlow : start ≤ b) (hhigh : b + n ≤ start + size)
    (ha : Block.Holds ⟨b, n⟩ a) : Block.Holds ⟨start, size⟩ a :=
  ⟨Nat.le_trans hlow ha.1, Nat.lt_of_lt_of_le ha.2 hhigh⟩

theorem copiedBytes_le (h : Kheap) (ptr : Nat) (size : Nat) : copiedBytes h ptr size ≤ size := by
  unfold copiedBytes
  dsimp only
  split <;> omega

/-- A write that makes the file longer stays in bounds if there is room, or nothing is copied. -/
theorem IsRegFile.grow_bounded_iff (h : IsRegFile s node) (hok : s.heap.Ok)
    (hoff : offset ≤ (s.node node).length) (hlt : nbyte + offset < 2 ^ 32)
    (hgrow : (s.node node).length < nbyte + offset) :
    WriteBounded s node nbyte offset ↔ s.heap.Room (nbyte + offset) ∨
      s.heap.Refuses (nbyte + offset) ∧ CopiesNothing s.heap (s.node node).filePtr (nbyte + offset) := by
  have hcopied := copiedBytes_le s.heap (s.node node).filePtr (nbyte + offset)
  have hnothing := copiedBytes_eq_zero_iff s.heap (s.node node).filePtr
    (Nat.zero_lt_of_lt hgrow) hlt
  have hbytes := le_roundUp (nbyte + offset)
  have hroomy : s.heap.Room (nbyte + offset) → (kmalloc s.heap (nbyte + offset)).1 ≠ 0 ∧
      (kmalloc s.heap (nbyte + offset)).2.currentPointer =
        s.heap.currentPointer + roundUp (nbyte + offset) := by
    intro hroom
    rw [kmalloc_of_room hroom]
    exact ⟨hok.pointer_ne, rfl⟩
  have hhanded : (kmalloc s.heap (nbyte + offset)).1 ≠ 0 →
      (kmalloc s.heap (nbyte + offset)).1 = s.heap.currentPointer := fun hne => (kmalloc_ne_zero hne).1
  have hpointer := kmalloc_pointer_le hok (nbyte + offset)
  have hinside : (kmalloc s.heap (nbyte + offset)).1 ≠ 0 →
      s.heap.currentPointer + (nbyte + offset) ≤ s.heap.limit → s.heap.Room (nbyte + offset) :=
    room_of_inside hok
  rw [WriteBounded, h.effect_grows hoff hlt hgrow, ← hnothing, ← kmalloc_eq_zero_iff hok]
  generalize copiedBytes s.heap (s.node node).filePtr (nbyte + offset) = copied at hcopied ⊢
  generalize kmalloc s.heap (nbyte + offset) = r at hroomy hhanded hpointer hinside ⊢
  by_cases hzero : r.1 = 0
  · rw [if_pos hzero, or_iff_right (a := s.heap.Room _) fun hroom => (hroomy hroom).1 hzero,
      and_iff_right hzero]
    constructor
    · rintro (⟨-, -, -, hstores⟩ | ⟨hlong, -⟩)
      · exact hstores _ List.mem_cons_self
      · exact absurd hgrow (Nat.not_lt.mpr hlong)
    · intro hnone
      refine .inl ⟨rfl, rfl, rfl, fun b hb => ?_⟩
      rw [List.mem_singleton.mp hb]
      exact hnone
  · have hstart := hhanded hzero
    rw [if_neg hzero, or_iff_left (b := r.1 = 0 ∧ copied = 0) fun hnull => hzero hnull.1]
    constructor
    · rintro (⟨hfail, -⟩ | ⟨-, hold | hin, -⟩)
      · cases hfail
      · exact absurd hgrow (Nat.not_lt.mpr (Nat.le_of_eq hold.2))
      · exact hinside hzero (hstart ▸ Nat.le_trans hin hpointer)
    · intro hroom
      obtain ⟨-, hnext⟩ := hroomy hroom
      refine .inr ⟨Nat.le_refl _, .inr ?_, fun b hb a ha => ?_⟩
      · dsimp only
        omega
      · rcases List.mem_cons.mp hb with rfl | hb
        · exact holds_of_le (Nat.le_refl _) (Nat.add_le_add_left hcopied _) ha
        · obtain rfl := List.mem_singleton.mp hb
          have hend : r.1 + offset + nbyte ≤ r.1 + (nbyte + offset) := by omega
          exact holds_of_le (Nat.le_add_right _ _) hend ha

/-- A write that leaves the length alone stays in bounds if its sum does not wrap around. -/
theorem IsRegFile.stay_bounded_iff (h : IsRegFile s node) (hoff : offset ≤ (s.node node).length)
    (hstay : u32 (nbyte + offset) ≤ (s.node node).length) :
    WriteBounded s node nbyte offset ↔ nbyte + offset ≤ (s.node node).length := by
  rw [WriteBounded, h.effect_stays hoff hstay]
  constructor
  · rintro (⟨hfail, -⟩ | ⟨hlong, -⟩)
    · cases hfail
    · exact hlong
  · intro hfit
    refine .inr ⟨hfit, .inl ⟨rfl, rfl⟩, fun b hb a ha => ?_⟩
    obtain rfl := List.mem_singleton.mp hb
    have hend : (s.node node).filePtr + offset + nbyte ≤
        (s.node node).filePtr + (s.node node).length := by omega
    exact holds_of_le (Nat.le_add_right _ _) hend ha

theorem IsRegFile.write_bounded_iff (h : IsRegFile s node) (hok : s.heap.Ok)
    (hlen : (s.node node).length < 2 ^ 32) (hnbyte : nbyte < 2 ^ 32) :
    WriteBounded s node nbyte offset ↔ WriteFits s node nbyte offset := by
  unfold WriteFits
  by_cases hlarge : (s.node node).length < offset
  · rw [WriteBounded, ramfsWriteEffect, if_pos (.inr (.inr (.inr hlarge)))]
    exact iff_of_true (.inl ⟨rfl, rfl, rfl, fun b hb => absurd hb List.not_mem_nil⟩) (.inl hlarge)
  · have hoff := Nat.not_lt.mp hlarge
    rw [or_iff_right hlarge]
    rcases Nat.lt_or_ge (nbyte + offset) (2 ^ 32) with hlt | hwrap
    · by_cases hfit : nbyte + offset ≤ (s.node node).length
      · rw [h.stay_bounded_iff hoff (by rw [u32_of_lt hlt]; exact hfit)]
        exact iff_of_true hfit (.inl hfit)
      · rw [h.grow_bounded_iff hok hoff hlt (Nat.not_le.mp hfit), or_iff_right hfit, and_iff_right hlt]
    · -- The sum wraps to less than `offset`, so the code does not make the file longer.
      have hsum : u32 (nbyte + offset) = nbyte + offset - 2 ^ 32 := by
        rw [u32, Nat.mod_eq_sub_mod hwrap, Nat.mod_eq_of_lt (by omega)]
      rw [h.stay_bounded_iff hoff (by omega), or_iff_left fun hlt => Nat.not_lt.mpr hwrap hlt.1]

/-! ## All arguments -/

/-- Reading stays in the file unless the sum wraps around; writing, unless the sum wraps around, or a
file is made longer for which the heap has no room and `krealloc` copies bytes to `NULL`. -/
theorem ramfsFile_bounded_iff (s : Ramfs) (node : Nat) (nbyte offset : BitVec 32) (hok : s.heap.Ok)
    (hfile : IsRegFile s node) (hlen : (s.node node).length < 2 ^ 32) :
    (ReadBounded s node nbyte.toNat offset.toNat ↔
      (s.node node).length < offset.toNat ∨ nbyte.toNat + offset.toNat < 2 ^ 32) ∧
    (WriteBounded s node nbyte.toNat offset.toNat ↔ WriteFits s node nbyte.toNat offset.toNat) :=
  ⟨hfile.read_bounded_iff hlen nbyte.isLt, hfile.write_bounded_iff hok hlen nbyte.isLt⟩

theorem exists_file_of_four : ∃ s node, IsRegFile s node ∧ s.heap.Ok ∧ (s.node node).length = 4 := by
  obtain ⟨s, T, node, hs, ht, hnode, htype, hcheck⟩ := kernelRun_file bootKernel_boot
    [.ramfs (.newRegFile [0x66] [SLASH]), .ramfs (.write [SLASH, 0x66] [1, 2, 3, 4] 0)] (by decide)
    [SLASH, 0x66] (fun s node => (s.node node).length = 4) (by decide +kernel)
  exact ⟨s, node, ht.isRegFile hnode htype, ht.heap, of_decide_eq_true hcheck⟩

/-- Four bytes that are read and written back. -/
theorem ramfsFile_bounded_four :
    ∃ s node, IsRegFile s node ∧ (s.node node).length = 4 ∧ ReadBounded s node 4 0 ∧
      WriteBounded s node 4 0 := by
  obtain ⟨s, node, hfile, hok, hlength⟩ := exists_file_of_four
  obtain ⟨hread, hwrite⟩ := ramfsFile_bounded_iff s node 4 0 hok hfile (by omega)
  refine ⟨s, node, hfile, hlength, hread.mpr (.inr (by decide)), hwrite.mpr (.inr (.inl ?_))⟩
  rw [hlength]
  decide

/-- Asked for 2^32 - 1 bytes from offset 1 on, both leave a file of four bytes. -/
theorem ramfsFile_leaves_buffer :
    ∃ s node, IsRegFile s node ∧ s.heap.Ok ∧ (s.node node).length = 4 ∧
      ¬ ReadBounded s node (2 ^ 32 - 1) 1 ∧ ¬ WriteBounded s node (2 ^ 32 - 1) 1 := by
  obtain ⟨s, node, hfile, hok, hlength⟩ := exists_file_of_four
  refine ⟨s, node, hfile, hok, hlength, ?_, ?_⟩
  · rw [hfile.read_bounded_iff (by omega) (by omega)]
    omega
  · rw [hfile.stay_bounded_iff (by omega) (by rw [u32]; omega)]
    omega

/-! ## Writes for which there is no room -/

/-- What a write that makes a file longer should do if there is no room: it fails, the file and its
bytes are as before, its buffer is not given to `kfree`, and nothing is stored at `NULL`. -/
def FailsIntact (s : Ramfs) (node : Nat) (buf : List UInt8) (offset : Nat) : Prop :=
  ∃ s' frees, ramfsWrite s node buf offset = some (s', (-1 : Int)) ∧ s'.node node = s.node node ∧
    (∀ i < (s.node node).length,
      s'.heap.mem ((s.node node).filePtr + i) = s.heap.mem ((s.node node).filePtr + i)) ∧
    s'.heap.freed = s.heap.freed ++ frees ∧
    ((s.node node).filePtr ≠ 0 → (s.node node).filePtr ∉ frees) ∧
    ∀ b ∈ (ramfsWriteEffect s node buf.length offset).stores, b.start = 0 → b.size = 0

/-- A write for which there is no room copies what `krealloc` makes of the old buffer to `NULL`, and
frees the old buffer. -/
theorem IsRegFile.write_refused (h : IsRegFile s node) (hok : s.heap.Ok)
    (hoff : offset ≤ (s.node node).length)
    (hgrow : (s.node node).length < u32 (buf.length + offset))
    (hrefuse : s.heap.Refuses (u32 (buf.length + offset))) :
    ∃ s', ramfsWrite s node buf offset = some (s', (-1 : Int)) ∧ s'.node = s.node ∧
      s'.heap.freed = s.heap.freed ++ [(s.node node).filePtr, 0] ∧
      (ramfsWriteEffect s node buf.length offset).stores =
        [⟨0, copiedBytes s.heap (s.node node).filePtr (u32 (buf.length + offset))⟩] := by
  obtain ⟨mem, hblock⟩ := krealloc_refused hok (s.node node).filePtr (Nat.zero_lt_of_lt hgrow) hrefuse
  rw [ramfsWrite, ramfsWriteEffect, if_neg (h.accepted hoff), if_neg (h.accepted hoff)]
  dsimp only
  rw [if_pos hgrow, if_pos hgrow, hblock]
  dsimp only
  rw [if_pos rfl, if_pos rfl]
  refine ⟨_, rfl, rfl, ?_, rfl⟩
  rw [Ramfs.kfree_freed, List.append_assoc, List.singleton_append]

/-- In every state that the kernel reaches, a write for which there is no room leaves the file intact
exactly if the file has no buffer yet and `krealloc` copies nothing. -/
theorem ramfsWrite_failsIntact_iff (s₀ : Ramfs) (ops : List KernelOp) (s : Ramfs) (T : Forest Nat)
    (node : Nat) (buf : List UInt8) (offset : Nat) (hboot : Boot s₀) (hops : ∀ op ∈ ops, op.Proper)
    (hrun : kernelRun s₀ ops = some s) (ht : FileTree s T) (hnode : node ∈ T.nodes)
    (htype : (s.node node).type = .regular) (hoff : offset ≤ (s.node node).length)
    (hgrow : (s.node node).length < u32 (buf.length + offset))
    (hrefuse : s.heap.Refuses (u32 (buf.length + offset))) :
    FailsIntact s node buf offset ↔
      (s.node node).filePtr = 0 ∧ CopiesNothing s.heap 0 (u32 (buf.length + offset)) := by
  have hbuffers := kernelRun_buffers hboot hops hrun ht
  have hfile := ht.isRegFile hnode htype
  obtain ⟨s₁, hwrite, hnodes, hfreed, hstores⟩ := hfile.write_refused ht.heap hoff hgrow hrefuse
  have hnothing := copiedBytes_eq_zero_iff s.heap (s.node node).filePtr
    (Nat.zero_lt_of_lt hgrow) (Nat.mod_lt _ (Nat.two_pow_pos 32))
  generalize copiedBytes s.heap (s.node node).filePtr (u32 (buf.length + offset)) = copied
    at hstores hnothing
  constructor
  · rintro ⟨s', frees, hwrite', -, -, hfreed', hkept, hnull⟩
    rw [hwrite] at hwrite'
    obtain ⟨rfl, -⟩ := Prod.mk.inj (Option.some.inj hwrite')
    rw [hfreed] at hfreed'
    obtain rfl := List.append_cancel_left hfreed'
    have hptr : (s.node node).filePtr = 0 := by
      by_contra hne
      exact hkept hne List.mem_cons_self
    have hcopied : copied = 0 := hnull ⟨0, copied⟩ (hstores ▸ List.mem_cons_self) rfl
    exact ⟨hptr, hptr ▸ hnothing.mp hcopied⟩
  · rintro ⟨hptr, hcopies⟩
    refine ⟨s₁, [(s.node node).filePtr, 0], hwrite, congrFun hnodes node, fun i hi => ?_, hfreed,
      fun hne => absurd hptr hne, fun b hb _ => ?_⟩
    · exact absurd hptr (Nat.ne_of_gt (hbuffers.below node hnode i hi).1)
    · rw [hstores, List.mem_singleton] at hb
      rw [hb]
      exact hnothing.mpr (hptr.symm ▸ hcopies)

/-- A heap of `size` bytes. -/
def bootTight (size : Nat) : Ramfs := { bootKernel with heap := { bootKernel.heap with heapMemSize := size } }

theorem bootTight_boot (size : Nat) (hsize : size < 2 ^ 31) : Boot (bootTight size) where
  heap := by
    refine ⟨bootKernel_boot.heap.start, Nat.le_refl _, Nat.le_add_right _ _, ?_⟩
    show 0x100000 + size + 2 ^ 16 ≤ 2 ^ 32
    omega
  above := bootKernel_boot.above
  zero := rfl

/-- The heap is full when the first byte of a file is written. -/
theorem ramfsWrite_failsIntact_first :
    ∃ s node, kernelRun (bootTight 600) [.ramfs (.newRegFile [0x66] [SLASH])] = some s ∧
      FailsIntact s node [1] 0 := by
  obtain ⟨s, T, node, hs, ht, hnode, htype, hcheck⟩ := kernelRun_file (bootTight_boot 600 (by decide))
    [.ramfs (.newRegFile [0x66] [SLASH])] (by decide) [SLASH, 0x66]
    (fun s node => (s.node node).length = 0 && (s.node node).filePtr = 0 && s.heap.Refuses 1 &&
      CopiesNothing s.heap 0 1) (by decide +kernel)
  simp only [Bool.and_eq_true, decide_eq_true_eq] at hcheck
  obtain ⟨⟨⟨hlength, hptr⟩, hrefuse⟩, hcopies⟩ := hcheck
  exact ⟨s, node, hs, (ramfsWrite_failsIntact_iff (bootTight 600) _ s T node [1] 0
    (bootTight_boot 600 (by decide)) (by decide) hs ht hnode htype (Nat.zero_le _)
    (by rw [hlength]; decide) hrefuse).mpr ⟨hptr, hcopies⟩⟩

/-- A file of four bytes cannot grow, and its buffer is freed. -/
theorem ramfsWrite_frees_buffer :
    ∃ s T node, kernelRun (bootTight 604) [.ramfs (.newRegFile [0x66] [SLASH]),
      .ramfs (.write [SLASH, 0x66] [1, 2, 3, 4] 0)] = some s ∧ FileTree s T ∧ node ∈ T.nodes ∧
      (s.node node).type = .regular ∧ (s.node node).length = 4 ∧ s.heap.Refuses 5 ∧
      ¬ FailsIntact s node [5] 4 := by
  obtain ⟨s, T, node, hs, ht, hnode, htype, hcheck⟩ := kernelRun_file (bootTight_boot 604 (by decide))
    [.ramfs (.newRegFile [0x66] [SLASH]), .ramfs (.write [SLASH, 0x66] [1, 2, 3, 4] 0)] (by decide)
    [SLASH, 0x66] (fun s node => (s.node node).length = 4 && (s.node node).filePtr ≠ 0 &&
      s.heap.Refuses 5) (by decide +kernel)
  simp only [Bool.and_eq_true, decide_eq_true_eq] at hcheck
  obtain ⟨⟨hlength, hptr⟩, hrefuse⟩ := hcheck
  refine ⟨s, T, node, hs, ht, hnode, htype, hlength, hrefuse, ?_⟩
  have hgrow : (s.node node).length < u32 ([(5 : UInt8)].length + 4) := by
    rw [hlength]
    decide
  obtain ⟨s₁, hwrite, -, hfreed, -⟩ := (ht.isRegFile hnode htype).write_refused ht.heap
    (Nat.le_of_eq hlength.symm) hgrow hrefuse
  rintro ⟨s', frees, hwrite', -, -, hfreed', hkept, -⟩
  rw [hwrite] at hwrite'
  obtain ⟨rfl, -⟩ := Prod.mk.inj (Option.some.inj hwrite')
  rw [hfreed] at hfreed'
  obtain rfl := List.append_cancel_left hfreed'
  exact hkept hptr List.mem_cons_self

end TalOS
