-- SUMMARY: The kernel heap: a bump allocator that marks the end of a block by a magic word.
import TalOS.Lib.MachineInt
import TalOS.Lib.Memory

/-!
# Kernel heap

`kmalloc` hands out consecutive blocks and stores a marker behind the last one.
No block size is kept: `krealloc` looks for the marker to guess how long a block
is. `kfree` gives nothing back.
-/

open MachineInt

namespace TalOS

/-- Memory and the three variables of the allocator. The marker is the address
of a string literal, `magic`. For the record, `freed` lists what was handed to
`kfree`, in order. -/
structure Kheap where
  mem : Nat → UInt8
  heapMem : Nat
  heapMemSize : Nat
  currentPointer : Nat
  magic : Nat
  freed : List Nat

def MEM_MIN_SIZE : Nat := 4

/-- The bytes of a 32-bit word, the lowest first. -/
def wordBytes (w : Nat) : List UInt8 :=
  [w.toUInt8, (w / 2 ^ 8).toUInt8, (w / 2 ^ 16).toUInt8, (w / 2 ^ 24).toUInt8]

theorem wordBytes_length (w : Nat) : (wordBytes w).length = 4 := rfl

/-- A size rounded up to whole words, as `kmalloc` computes it. -/
def sizeToAlloc (size : Nat) : Nat := u32 (size + MEM_MIN_SIZE - 1) / MEM_MIN_SIZE * MEM_MIN_SIZE

/-- A size rounded up to whole words, with no wrap. -/
def roundUp (size : Nat) : Nat := (size + MEM_MIN_SIZE - 1) / MEM_MIN_SIZE * MEM_MIN_SIZE

/-- `InitKernelHeap` -/
def initKernelHeap (mem : Nat → UInt8) (magic startAddr memSize : Nat) : Kheap :=
  let heapMem := sizeToAlloc startAddr
  ⟨mem, heapMem, memSize, heapMem, magic, []⟩

/-- `kmalloc`: the block, 0 if there is no room. The marker is stored either way. -/
def kmalloc (h : Kheap) (size : Nat) : Nat × Kheap :=
  let nextAddrInt := u32 (h.currentPointer + sizeToAlloc size)
  let mem := Memory.writeAt h.mem nextAddrInt (wordBytes h.magic)
  if nextAddrInt ≤ u32 (h.heapMemSize + h.heapMem) then
    (h.currentPointer, { h with mem, currentPointer := nextAddrInt })
  else (0, { h with mem })

/-- `kcalloc` -/
def kcalloc (h : Kheap) (nmemb size : Nat) : Nat × Kheap := kmalloc h (u32 (nmemb * size))

/-- `kfree`: nothing is given back. -/
def kfree (h : Kheap) (ptr : Nat) : Kheap := { h with freed := h.freed ++ [ptr] }

/-- Whether the marker stands at an address. -/
def markerAt (h : Kheap) (addr : Nat) : Bool := Memory.readAt h.mem addr 4 == wordBytes h.magic

/-- The search of `krealloc`: the number of bytes passed over, at most `count`. -/
def findMarker (h : Kheap) : Nat → Nat → Nat
  | 0, _ => 0
  | count + 1, ptrCount =>
    if markerAt h ptrCount then 0 else findMarker h count (ptrCount + 1) + 1

/-- `memcpy` inside memory, from the lowest address on. -/
def memcpyLoop (dst src : Nat) : Nat → Nat → (Nat → UInt8) → (Nat → UInt8)
  | 0, _, mem => mem
  | size + 1, i, mem =>
    memcpyLoop dst src size (i + 1) (Memory.writeAt mem (dst + i) [mem (src + i)])

/-- `krealloc`. One byte fewer than were passed over is copied; passing over none
wraps around, and the whole new size is copied. -/
def krealloc (h : Kheap) (ptr size : Nat) : Nat × Kheap :=
  let passed := sub32 (findMarker h size ptr) 1
  let oldSize := if passed > size then size else passed
  if size > 0 then
    let r := kmalloc h size
    let h' : Kheap := { r.2 with mem := memcpyLoop r.1 ptr oldSize 0 r.2.mem }
    (r.1, kfree h' ptr)
  else (0, kfree h ptr)

/-- There is room for a block: its end does not wrap and lies inside the heap. -/
def Kheap.Room (h : Kheap) (size : Nat) : Prop :=
  h.currentPointer + (size + MEM_MIN_SIZE - 1) / MEM_MIN_SIZE * MEM_MIN_SIZE ≤
      h.heapMem + h.heapMemSize ∧
    h.heapMem + h.heapMemSize < 2 ^ 32 - MEM_MIN_SIZE

theorem sizeToAlloc_of_lt {size : Nat} (h : size + MEM_MIN_SIZE - 1 < 2 ^ 32) :
    sizeToAlloc size = (size + MEM_MIN_SIZE - 1) / MEM_MIN_SIZE * MEM_MIN_SIZE := by
  rw [sizeToAlloc, u32_of_lt h]

theorem le_roundUp (size : Nat) : size ≤ roundUp size := by
  unfold roundUp MEM_MIN_SIZE
  omega

/-- A block for which there is room starts where the last one ended. -/
theorem kmalloc_of_room {h : Kheap} {size : Nat} (hroom : h.Room size) :
    kmalloc h size =
      (h.currentPointer,
        { h with
          mem := Memory.writeAt h.mem
            (h.currentPointer + (size + MEM_MIN_SIZE - 1) / MEM_MIN_SIZE * MEM_MIN_SIZE)
            (wordBytes h.magic)
          currentPointer :=
            h.currentPointer + (size + MEM_MIN_SIZE - 1) / MEM_MIN_SIZE * MEM_MIN_SIZE }) := by
  obtain ⟨hend, hlt⟩ := hroom
  have hsize : size + MEM_MIN_SIZE - 1 < 2 ^ 32 := by
    simp only [MEM_MIN_SIZE] at *
    omega
  have hnext : h.currentPointer + (size + MEM_MIN_SIZE - 1) / MEM_MIN_SIZE * MEM_MIN_SIZE < 2 ^ 32 :=
    Nat.lt_of_le_of_lt hend (Nat.lt_of_lt_of_le hlt (Nat.sub_le _ _))
  have hheap : h.heapMemSize + h.heapMem < 2 ^ 32 := by
    rw [Nat.add_comm]
    exact Nat.lt_of_lt_of_le hlt (Nat.sub_le _ _)
  rw [kmalloc, sizeToAlloc_of_lt hsize, u32_of_lt hnext, u32_of_lt hheap]
  exact if_pos (Nat.add_comm h.heapMem h.heapMemSize ▸ hend)

/-- A request for whole words, where no address wraps. -/
theorem kmalloc_of_words {h : Kheap} {size : Nat} (hdvd : MEM_MIN_SIZE ∣ size)
    (hnext : h.currentPointer + size + MEM_MIN_SIZE ≤ 2 ^ 32)
    (hheap : h.heapMem + h.heapMemSize < 2 ^ 32) :
    kmalloc h size =
      if h.currentPointer + size ≤ h.heapMem + h.heapMemSize then
        (h.currentPointer,
          { h with
            mem := Memory.writeAt h.mem (h.currentPointer + size) (wordBytes h.magic)
            currentPointer := h.currentPointer + size })
      else
        (0, { h with mem := Memory.writeAt h.mem (h.currentPointer + size) (wordBytes h.magic) }) := by
  have hsize : size + MEM_MIN_SIZE - 1 < 2 ^ 32 := by
    simp only [MEM_MIN_SIZE] at *
    omega
  have hwords : (size + MEM_MIN_SIZE - 1) / MEM_MIN_SIZE * MEM_MIN_SIZE = size := by
    simp only [MEM_MIN_SIZE] at *
    omega
  have hnext' : h.currentPointer + size < 2 ^ 32 := by
    simp only [MEM_MIN_SIZE] at *
    omega
  rw [kmalloc, sizeToAlloc_of_lt hsize, hwords, u32_of_lt hnext',
    u32_of_lt (Nat.add_comm h.heapMem h.heapMemSize ▸ hheap), Nat.add_comm h.heapMemSize]

/-! ## A heap in use -/

/-- The heap lies in memory, with room behind it, and the next block starts inside. -/
structure Kheap.Ok (h : Kheap) : Prop where
  start : 0 < h.heapMem
  above : h.heapMem ≤ h.currentPointer
  below : h.currentPointer ≤ h.heapMem + h.heapMemSize
  high : h.heapMem + h.heapMemSize + 2 ^ 16 ≤ 2 ^ 32

def Kheap.limit (h : Kheap) : Nat := h.heapMem + h.heapMemSize

theorem kmalloc_of_ok {h : Kheap} (hok : h.Ok) {size : Nat} (hdvd : MEM_MIN_SIZE ∣ size)
    (hsize : size + MEM_MIN_SIZE ≤ 2 ^ 16) :
    kmalloc h size =
      if h.currentPointer + size ≤ h.limit then
        (h.currentPointer,
          { h with
            mem := Memory.writeAt h.mem (h.currentPointer + size) (wordBytes h.magic)
            currentPointer := h.currentPointer + size })
      else
        (0, { h with mem := Memory.writeAt h.mem (h.currentPointer + size) (wordBytes h.magic) }) := by
  have hbelow := hok.below
  have hhigh := hok.high
  exact kmalloc_of_words hdvd (by omega) (by omega)

@[simp] theorem kmalloc_freed (h : Kheap) (size : Nat) : (kmalloc h size).2.freed = h.freed := by
  unfold kmalloc
  dsimp only
  split <;> rfl

/-- A request keeps the heap, and moves its pointer exactly if the block fits. -/
theorem Kheap.Ok.kmalloc {h : Kheap} (hok : h.Ok) (size : Nat) (hdvd : MEM_MIN_SIZE ∣ size)
    (hsize : size + MEM_MIN_SIZE ≤ 2 ^ 16) :
    (kmalloc h size).2.Ok ∧ (kmalloc h size).2.limit = h.limit ∧
      (kmalloc h size).1 = (if h.currentPointer + size ≤ h.limit then h.currentPointer else 0) ∧
      (kmalloc h size).2.currentPointer =
        if h.currentPointer + size ≤ h.limit then h.currentPointer + size else h.currentPointer := by
  rw [kmalloc_of_ok hok hdvd hsize]
  split
  · next hfit =>
    exact ⟨⟨hok.start, Nat.le_trans hok.above (Nat.le_add_right _ _), hfit, hok.high⟩, rfl, rfl, rfl⟩
  · exact ⟨⟨hok.start, hok.above, hok.below, hok.high⟩, rfl, rfl, rfl⟩

theorem Kheap.Ok.pointer_ne {h : Kheap} (hok : h.Ok) : h.currentPointer ≠ 0 :=
  Nat.ne_of_gt (Nat.lt_of_lt_of_le hok.start hok.above)

/-- A request that is refused changes memory only. -/
theorem kmalloc_zero {h : Kheap} (hok : h.Ok) {size : Nat} (hzero : (kmalloc h size).1 = 0) :
    ∃ mem, (kmalloc h size).2 = { h with mem := mem } := by
  unfold kmalloc at hzero ⊢
  dsimp only at hzero ⊢
  split at hzero
  · exact absurd hzero hok.pointer_ne
  · next hfull =>
    rw [if_neg hfull]
    exact ⟨_, rfl⟩

/-- The end of the heap, as `kmalloc` computes it. -/
theorem Kheap.Ok.end_eq {h : Kheap} (hok : h.Ok) : u32 (h.heapMemSize + h.heapMem) = h.limit := by
  have hhigh := hok.high
  rw [Nat.add_comm, u32_of_lt (by omega), Kheap.limit]

/-- The end of a block of this size, as `kmalloc` computes it, lies behind the heap. -/
def Kheap.Refuses (h : Kheap) (size : Nat) : Prop := h.limit < u32 (h.currentPointer + sizeToAlloc size)

instance (h : Kheap) (size : Nat) : Decidable (h.Refuses size) := inferInstanceAs (Decidable (_ < _))

theorem kmalloc_eq_zero_iff {h : Kheap} (hok : h.Ok) {size : Nat} :
    (kmalloc h size).1 = 0 ↔ h.Refuses size := by
  unfold kmalloc
  dsimp only
  rw [hok.end_eq, Kheap.Refuses]
  split
  · next hfits => exact iff_of_false hok.pointer_ne (Nat.not_lt.mpr hfits)
  · next hfull => exact iff_of_true rfl (Nat.not_le.mp hfull)

/-- A block that is handed out moves the pointer to its end, inside the heap. -/
theorem kmalloc_pointer_le {h : Kheap} (hok : h.Ok) (size : Nat) :
    (kmalloc h size).2.currentPointer ≤ h.limit := by
  unfold kmalloc
  dsimp only
  rw [hok.end_eq]
  split
  · next hfits => exact hfits
  · exact hok.below

theorem kmalloc_ne_zero {h : Kheap} {size : Nat} (hne : (kmalloc h size).1 ≠ 0) :
    (kmalloc h size).1 = h.currentPointer ∧ (kmalloc h size).2.limit = h.limit := by
  unfold kmalloc at hne ⊢
  dsimp only at hne ⊢
  split at hne
  · next hfits =>
    rw [if_pos hfits]
    exact ⟨rfl, rfl⟩
  · exact absurd rfl hne

/-- A block that was handed out and lies in the heap had room. -/
theorem room_of_inside {h : Kheap} (hok : h.Ok) {size : Nat} (hblock : (kmalloc h size).1 ≠ 0)
    (hin : h.currentPointer + size ≤ h.limit) : h.Room size := by
  have hhigh := hok.high
  have hlimit : h.limit = h.heapMem + h.heapMemSize := rfl
  have hsize : size + MEM_MIN_SIZE - 1 < 2 ^ 32 := by
    simp only [MEM_MIN_SIZE]
    omega
  have hnext : h.currentPointer + (size + MEM_MIN_SIZE - 1) / MEM_MIN_SIZE * MEM_MIN_SIZE < 2 ^ 32 := by
    simp only [MEM_MIN_SIZE]
    omega
  have hfits : h.currentPointer + (size + MEM_MIN_SIZE - 1) / MEM_MIN_SIZE * MEM_MIN_SIZE ≤
      h.heapMemSize + h.heapMem := by
    by_contra hfull
    refine hblock ?_
    rw [kmalloc, sizeToAlloc_of_lt hsize, u32_of_lt hnext, u32_of_lt (by omega)]
    exact congrArg Prod.fst (if_neg hfull)
  refine ⟨Nat.add_comm h.heapMem h.heapMemSize ▸ hfits, ?_⟩
  simp only [MEM_MIN_SIZE]
  omega

/-- What `krealloc` hands out is a new block; copying changes no variable of the allocator. -/
theorem krealloc_block (h : Kheap) (ptr : Nat) {size : Nat} (hsize : 0 < size) :
    ∃ mem freed, krealloc h ptr size =
      ((kmalloc h size).1, { (kmalloc h size).2 with mem := mem, freed := freed }) := by
  unfold krealloc
  generalize sub32 (findMarker h size ptr) 1 = passed
  dsimp only [kfree]
  rw [if_pos hsize]
  exact ⟨_, _, rfl⟩

theorem krealloc_zero {h : Kheap} (hok : h.Ok) (ptr : Nat) {size : Nat} (hsize : 0 < size)
    (hzero : (krealloc h ptr size).1 = 0) :
    ∃ mem freed, (krealloc h ptr size).2 = { h with mem := mem, freed := freed } := by
  obtain ⟨mem, freed, hblock⟩ := krealloc_block h ptr hsize
  rw [hblock] at hzero ⊢
  obtain ⟨mem', hheap⟩ := kmalloc_zero hok hzero
  refine ⟨mem, freed, ?_⟩
  dsimp only
  rw [hheap]

theorem krealloc_inside {h : Kheap} (hok : h.Ok) (ptr : Nat) {size : Nat} (hsize : 0 < size)
    (hne : (krealloc h ptr size).1 ≠ 0)
    (hin : (krealloc h ptr size).1 + size ≤ (krealloc h ptr size).2.limit) : h.Room size := by
  obtain ⟨mem, freed, hblock⟩ := krealloc_block h ptr hsize
  rw [hblock] at hne hin
  obtain ⟨hstart, hlimit⟩ := kmalloc_ne_zero hne
  exact room_of_inside hok hne (hlimit ▸ hstart ▸ hin)

theorem krealloc_room {h : Kheap} (hok : h.Ok) (ptr : Nat) {size : Nat} (hsize : 0 < size)
    (hroom : h.Room size) :
    (krealloc h ptr size).2.Ok ∧ (krealloc h ptr size).2.limit = h.limit ∧
      h.currentPointer ≤ (krealloc h ptr size).2.currentPointer := by
  obtain ⟨mem, freed, hblock⟩ := krealloc_block h ptr hsize
  rw [hblock, kmalloc_of_room hroom]
  refine ⟨?_, rfl, Nat.le_add_right _ _⟩
  exact ⟨hok.start, Nat.le_trans hok.above (Nat.le_add_right _ _), hroom.1, hok.high⟩

/-! ## What is copied -/

/-- `oldSize` of `krealloc`: the number of bytes that are copied. -/
def copiedBytes (h : Kheap) (ptr size : Nat) : Nat :=
  let passed := sub32 (findMarker h size ptr) 1
  if passed > size then size else passed

theorem krealloc_eq (h : Kheap) (ptr : Nat) {size : Nat} (hsize : 0 < size) :
    krealloc h ptr size =
      ((kmalloc h size).1,
        kfree { (kmalloc h size).2 with
          mem := memcpyLoop (kmalloc h size).1 ptr (copiedBytes h ptr size) 0 (kmalloc h size).2.mem }
          ptr) := by
  unfold krealloc copiedBytes
  dsimp only
  rw [if_pos hsize]

/-- A request that is refused gives the old block to `kfree` all the same. -/
theorem krealloc_refused {h : Kheap} (hok : h.Ok) (ptr : Nat) {size : Nat} (hsize : 0 < size)
    (hrefuse : h.Refuses size) :
    ∃ mem, krealloc h ptr size = (0, { h with mem := mem, freed := h.freed ++ [ptr] }) := by
  have hzero := (kmalloc_eq_zero_iff hok).mpr hrefuse
  obtain ⟨mem, hheap⟩ := kmalloc_zero hok hzero
  rw [krealloc_eq h ptr hsize, hzero, hheap]
  exact ⟨_, rfl⟩

theorem findMarker_le (h : Kheap) (count ptrCount : Nat) : findMarker h count ptrCount ≤ count := by
  induction count generalizing ptrCount with
  | zero => exact Nat.le_refl 0
  | succ count ih =>
    rw [findMarker]
    split
    · exact Nat.zero_le _
    · exact Nat.succ_le_succ (ih _)

/-- One byte fewer than the search passes over, but everything if it passes over none. -/
theorem copiedBytes_eq {h : Kheap} {ptr size : Nat} (hsize : size < 2 ^ 32) :
    copiedBytes h ptr size =
      if findMarker h size ptr = 0 then size else findMarker h size ptr - 1 := by
  have hle := findMarker_le h size ptr
  unfold copiedBytes
  generalize findMarker h size ptr = passed at hle ⊢
  dsimp only [sub32]
  split
  · split <;> omega
  · split <;> omega

/-- How far the search gets. -/
theorem lt_findMarker (h : Kheap) {count ptrCount i : Nat} :
    i < findMarker h count ptrCount ↔ i < count ∧ ∀ k ≤ i, markerAt h (ptrCount + k) = false := by
  induction count generalizing ptrCount i with
  | zero => exact iff_of_false (Nat.not_lt_zero i) fun hlt => Nat.not_lt_zero i hlt.1
  | succ count ih =>
    rw [findMarker]
    split
    · next hmarker =>
      refine iff_of_false (Nat.not_lt_zero i) fun hnone => ?_
      exact absurd (hnone.2 0 (Nat.zero_le i)) (by rw [Nat.add_zero, hmarker]; exact Bool.noConfusion)
    · next hmarker =>
      have hfirst : markerAt h (ptrCount + 0) = false := Bool.not_eq_true _ ▸ hmarker
      cases i with
      | zero =>
        refine iff_of_true (Nat.succ_pos _) ⟨Nat.succ_pos _, fun k hk => ?_⟩
        rw [Nat.le_zero.mp hk]
        exact hfirst
      | succ i =>
        rw [Nat.succ_lt_succ_iff, ih, Nat.succ_lt_succ_iff]
        refine and_congr_right fun _ => ⟨fun hrest k hk => ?_, fun hall k hk => ?_⟩
        · cases k with
          | zero => exact hfirst
          | succ k => exact Nat.add_right_comm ptrCount 1 k ▸ hrest k (Nat.le_of_succ_le_succ hk)
        · exact Nat.add_right_comm ptrCount 1 k ▸ hall (k + 1) (Nat.succ_le_succ hk)

/-- Byte `i` is copied if the marker stands nowhere up to the byte behind it, or right at the start. -/
theorem lt_copiedBytes (h : Kheap) (ptr : Nat) {size i : Nat} (hsize : size < 2 ^ 32) (hi : i + 1 < size) :
    i < copiedBytes h ptr size ↔
      markerAt h ptr = true ∨ ∀ k ≤ i + 1, markerAt h (ptr + k) = false := by
  have hnone : findMarker h size ptr = 0 ↔ markerAt h ptr = true := by
    obtain ⟨rest, rfl⟩ := Nat.exists_eq_add_one.mpr (Nat.zero_lt_of_lt hi)
    rw [findMarker]
    split
    · next hmarker => exact iff_of_true rfl hmarker
    · next hmarker => exact iff_of_false (Nat.succ_ne_zero _) hmarker
  rw [copiedBytes_eq hsize]
  split
  · next hzero => exact iff_of_true (Nat.lt_of_succ_lt hi) (.inl (hnone.mp hzero))
  · next hpassed =>
    rw [Nat.lt_sub_iff_add_lt, lt_findMarker, or_iff_right fun hstart => hpassed (hnone.mpr hstart)]
    exact and_iff_right hi

/-- Nothing is copied if the search passes over exactly one byte. -/
def CopiesNothing (h : Kheap) (ptr size : Nat) : Prop :=
  markerAt h ptr = false ∧ (size = 1 ∨ markerAt h (ptr + 1) = true)

instance (h : Kheap) (ptr size : Nat) : Decidable (CopiesNothing h ptr size) :=
  inferInstanceAs (Decidable (_ ∧ _))

theorem copiedBytes_eq_zero_iff (h : Kheap) (ptr : Nat) {size : Nat} (hpos : 0 < size) (hsize : size < 2 ^ 32) :
    copiedBytes h ptr size = 0 ↔ CopiesNothing h ptr size := by
  rw [CopiesNothing]
  by_cases hone : size = 1
  · subst hone
    rw [copiedBytes_eq hsize, findMarker, findMarker]
    cases markerAt h ptr <;> simp
  · have hfirst := lt_copiedBytes h ptr (i := 0) hsize (by omega)
    have hnone : (∀ k ≤ 0 + 1, markerAt h (ptr + k) = false) ↔
        markerAt h ptr = false ∧ markerAt h (ptr + 1) = false := by
      constructor
      · exact fun hall => ⟨hall 0 (Nat.zero_le _), hall 1 (Nat.le_refl _)⟩
      · rintro ⟨h₀, h₁⟩ k hk
        rcases Nat.le_one_iff_eq_zero_or_eq_one.mp hk with rfl | rfl
        · exact h₀
        · exact h₁
    rw [← Nat.le_zero, ← Nat.not_lt, hfirst, hnone, or_iff_right hone]
    cases markerAt h ptr <;> cases markerAt h (ptr + 1) <;> simp

theorem memcpyLoop_outside {dst src size i a : Nat} {mem : Nat → UInt8}
    (h : a < dst + i ∨ dst + i + size ≤ a) : memcpyLoop dst src size i mem a = mem a := by
  induction size generalizing i mem with
  | zero => rfl
  | succ size ih =>
    rw [memcpyLoop, ih (by omega)]
    rcases h with hlt | hge
    · exact Memory.writeAt_of_lt _ hlt
    · refine Memory.writeAt_of_ge ?_
      rw [List.length_singleton]
      omega

/-- A byte whose source lies below the destination is copied. -/
theorem memcpyLoop_copied {dst src size i j : Nat} {mem : Nat → UInt8} (hij : i ≤ j)
    (hj : j < i + size) (hsrc : src + j < dst + i) :
    memcpyLoop dst src size i mem (dst + j) = mem (src + j) := by
  induction size generalizing i mem with
  | zero => omega
  | succ size ih =>
    rw [memcpyLoop]
    rcases Nat.lt_or_eq_of_le hij with hlt | rfl
    · rw [ih hlt (by omega) (by omega)]
      exact Memory.writeAt_of_lt _ hsrc
    · rw [memcpyLoop_outside (.inl (Nat.lt_succ_self _))]
      exact Memory.writeAt_getElem (l := [mem (src + i)]) Nat.zero_lt_one

end TalOS
