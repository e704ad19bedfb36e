-- SUMMARY: The blocks that the kernel heap hands out, and the bytes it stores: where they lie along a run of calls.
import TalOS.Libk.Kheap
import TalOS.Lib.Run

/-!
# Blocks of the kernel heap

A run of calls is followed with the list of the blocks handed out so far. Along a run
in which every block, rounded up to words, and the marker behind it end inside the
region, the blocks are disjoint and nothing else is stored to.
-/

open MachineInt

namespace TalOS

/-! ## Calls -/

/-- The bytes from an address on. -/
structure Block where
  start : Nat
  size : Nat
deriving Repr, DecidableEq

def Block.Holds (b : Block) (a : Nat) : Prop := b.start ≤ a ∧ a < b.start + b.size

instance (b : Block) : DecidablePred b.Holds :=
  fun a => inferInstanceAs (Decidable (b.start ≤ a ∧ a < b.start + b.size))

/-- A call of the allocator; arguments are 32-bit values. -/
inductive HeapCall where
  | kmalloc (size : BitVec 32)
  | kcalloc (nmemb size : BitVec 32)
  | kfree (ptr : BitVec 32)
deriving Repr, DecidableEq

namespace HeapCall

/-- The number of bytes asked for. -/
def requested : HeapCall → Nat
  | .kmalloc size => size.toNat
  | .kcalloc nmemb size => nmemb.toNat * size.toNat
  | .kfree _ => 0

/-- The result, 0 for none, and the heap after the call. -/
def call : HeapCall → Kheap → Nat × Kheap
  | .kmalloc size, h => TalOS.kmalloc h size.toNat
  | .kcalloc nmemb size, h => TalOS.kcalloc h nmemb.toNat size.toNat
  | .kfree ptr, h => (0, TalOS.kfree h ptr.toNat)

end HeapCall

/-- The addresses that `kmalloc` stores to: those of the marker. -/
def kmallocStores (h : Kheap) (size : Nat) : List Nat :=
  (List.range 4).map fun i => u32 (h.currentPointer + sizeToAlloc size) + i

/-- The addresses that a call stores to. -/
def HeapCall.stores : HeapCall → Kheap → List Nat
  | .kmalloc size, h => kmallocStores h size.toNat
  | .kcalloc nmemb size, h => kmallocStores h (u32 (nmemb.toNat * size.toNat))
  | .kfree _, _ => []

/-- The heap with the blocks that it has handed out. -/
structure HeapUse where
  heap : Kheap
  blocks : List Block

def HeapCall.step (c : HeapCall) (u : HeapUse) : Option HeapUse :=
  let r := c.call u.heap
  some ⟨r.2, if r.1 = 0 then u.blocks else u.blocks ++ [⟨r.1, c.requested⟩]⟩

/-- What a call should do: hand out bytes of the region that are in no block yet, or none, and store
to bytes of the region that are in no block yet, if at all. -/
structure HeapCall.Sound (region : Block) (c : HeapCall) (u : HeapUse) : Prop where
  inside : (c.call u.heap).1 ≠ 0 → ∀ a, Block.Holds ⟨(c.call u.heap).1, c.requested⟩ a → region.Holds a
  disjoint : (c.call u.heap).1 ≠ 0 → ∀ a, Block.Holds ⟨(c.call u.heap).1, c.requested⟩ a →
    ∀ b ∈ u.blocks, ¬ b.Holds a
  stores : ∀ a ∈ c.stores u.heap, region.Holds a ∧ ∀ b ∈ u.blocks, ¬ b.Holds a
  frame : ∀ a, a ∉ c.stores u.heap → (c.call u.heap).2.mem a = u.heap.mem a

/-- The bytes asked for, rounded up to words, and the marker behind them lie in the region. -/
def HeapCall.Fits (region : Block) : HeapCall → HeapUse → Prop
  | .kfree _, _ => True
  | c, u => region.start ≤ u.heap.currentPointer ∧
      u.heap.currentPointer + roundUp c.requested +
        MEM_MIN_SIZE ≤ region.start + region.size

/-! ## One call -/

section Step

variable {region : Block} {h : Kheap} {u u' : HeapUse} {size : Nat}

theorem kmalloc_mem (h : Kheap) (size : Nat) : (kmalloc h size).2.mem =
    Memory.writeAt h.mem (u32 (h.currentPointer + sizeToAlloc size)) (wordBytes h.magic) := by
  unfold kmalloc
  dsimp only
  split <;> rfl

/-- Only the marker is stored. -/
theorem kmalloc_frame {a : Nat} (ha : a ∉ kmallocStores h size) :
    (kmalloc h size).2.mem a = h.mem a := by
  rw [kmalloc_mem]
  rcases Nat.lt_or_ge a (u32 (h.currentPointer + sizeToAlloc size)) with hlt | hge
  · exact Memory.writeAt_of_lt _ hlt
  · refine Memory.writeAt_of_ge (Nat.not_lt.mp fun hlt => ha ?_)
    rw [wordBytes_length] at hlt
    exact List.mem_map.mpr ⟨a - _, List.mem_range.mpr (by omega), Nat.add_sub_cancel' hge⟩

/-- Where a request that fits is stored to, and what it gives. -/
theorem kmalloc_of_fits (hregion : region.start + region.size ≤ 2 ^ 32)
    (hfits : h.currentPointer + roundUp size +
      MEM_MIN_SIZE ≤ region.start + region.size) :
    u32 (h.currentPointer + sizeToAlloc size) =
        h.currentPointer + roundUp size ∧
      ((kmalloc h size).1 = 0 ∧ (kmalloc h size).2.currentPointer = h.currentPointer ∨
        (kmalloc h size).1 = h.currentPointer ∧ (kmalloc h size).2.currentPointer =
          h.currentPointer + roundUp size) := by
  have hmin : MEM_MIN_SIZE = 4 := rfl
  have hbytes := le_roundUp size
  have hsize : size + MEM_MIN_SIZE - 1 < 2 ^ 32 := by omega
  have hnext : u32 (h.currentPointer + sizeToAlloc size) =
      h.currentPointer + roundUp size := by
    rw [sizeToAlloc_of_lt hsize, ← roundUp]
    exact u32_of_lt (by omega)
  refine ⟨hnext, ?_⟩
  unfold kmalloc
  dsimp only
  split
  · exact .inr ⟨rfl, hnext⟩
  · exact .inl ⟨rfl, rfl⟩

/-- Every block ends before the next one starts. -/
def HeapUse.Stacked (u : HeapUse) : Prop :=
  ∀ b ∈ u.blocks, b.start + b.size ≤ u.heap.currentPointer

theorem HeapUse.Stacked.not_holds (h : u.Stacked) {a : Nat} (ha : u.heap.currentPointer ≤ a) :
    ∀ b ∈ u.blocks, ¬ b.Holds a := by
  intro b hb hholds
  exact Nat.lt_irrefl _ (Nat.lt_of_lt_of_le hholds.2 (Nat.le_trans (h b hb) ha))

/-- A call of `kmalloc` for `size` bytes, for a caller who has asked for that many. -/
theorem kmalloc_sound (hregion : region.start + region.size ≤ 2 ^ 32) (hstacked : u.Stacked)
    (hstart : region.start ≤ u.heap.currentPointer)
    (hfits : u.heap.currentPointer + roundUp size +
      MEM_MIN_SIZE ≤ region.start + region.size) {c : HeapCall} (hsize : c.requested = size)
    (hcall : c.call u.heap = kmalloc u.heap size) (hstores : c.stores u.heap = kmallocStores u.heap size) :
    c.Sound region u ∧ ∀ u', c.step u = some u' → u'.Stacked := by
  have hmin : MEM_MIN_SIZE = 4 := rfl
  obtain ⟨hnext, hresult⟩ := kmalloc_of_fits hregion hfits
  have hbytes := le_roundUp size
  refine ⟨⟨?_, ?_, ?_, ?_⟩, ?_⟩
  · intro hne a ha
    rw [hcall] at hne
    rw [hcall, hsize, (hresult.resolve_left fun hnull => hne hnull.1).1] at ha
    obtain ⟨hlow, hhigh⟩ : u.heap.currentPointer ≤ a ∧ a < u.heap.currentPointer + size := ha
    exact ⟨by omega, by omega⟩
  · intro hne a ha
    rw [hcall] at hne
    rw [hcall, hsize, (hresult.resolve_left fun hnull => hne hnull.1).1] at ha
    exact hstacked.not_holds ha.1
  · intro a ha
    rw [hstores, kmallocStores, hnext] at ha
    obtain ⟨i, hi, rfl⟩ := List.mem_map.mp ha
    rw [List.mem_range] at hi
    exact ⟨⟨by omega, by omega⟩, hstacked.not_holds (by omega)⟩
  · intro a ha
    rw [hstores] at ha
    rw [hcall]
    exact kmalloc_frame ha
  · intro u' hstep
    obtain rfl := Option.some.inj hstep
    intro b hb
    dsimp only at hb ⊢
    rw [hcall] at hb ⊢
    rcases hresult with ⟨hnull, hpointer⟩ | ⟨hblock, hpointer⟩
    · rw [if_pos hnull] at hb
      rw [hpointer]
      exact hstacked b hb
    · rw [hpointer]
      split at hb
      · exact Nat.le_trans (hstacked b hb) (Nat.le_add_right _ _)
      · rcases List.mem_append.mp hb with hold | hnew
        · exact Nat.le_trans (hstacked b hold) (Nat.le_add_right _ _)
        · rw [List.mem_singleton.mp hnew, hblock, hsize]
          exact Nat.add_le_add_left hbytes _

/-- A call that fits is sound, and leaves the blocks stacked. -/
theorem HeapCall.Fits.sound {c : HeapCall} (hregion : region.start + region.size ≤ 2 ^ 32)
    (hfits : c.Fits region u) (hstacked : u.Stacked) :
    c.Sound region u ∧ ∀ u', c.step u = some u' → u'.Stacked := by
  cases c with
  | kmalloc size => exact kmalloc_sound hregion hstacked hfits.1 hfits.2 rfl rfl rfl
  | kcalloc nmemb size =>
    have hmin : MEM_MIN_SIZE = 4 := rfl
    have hbytes := le_roundUp (nmemb.toNat * size.toNat)
    have hend := hfits.2
    have hproduct : u32 (nmemb.toNat * size.toNat) = nmemb.toNat * size.toNat := by
      refine u32_of_lt ?_
      rw [requested] at hend
      omega
    refine kmalloc_sound hregion hstacked hfits.1 hfits.2 rfl ?_ ?_
    · rw [call, TalOS.kcalloc, hproduct, requested]
    · rw [HeapCall.stores, hproduct, requested]
  | kfree ptr =>
    refine ⟨⟨fun hne => absurd rfl hne, fun hne => absurd rfl hne, ?_, fun _ _ => rfl⟩, ?_⟩
    · exact fun a ha => absurd ha List.not_mem_nil
    · intro u' hstep
      obtain rfl := Option.some.inj hstep
      exact hstacked

end Step

/-! ## A run of calls -/

/-- After `InitKernelHeap`, every call of a run whose calls fit is sound. -/
theorem heapCalls_sound (mem : Nat → UInt8) (magic : Nat) (region : Block)
    (hregion : region.start + region.size ≤ 2 ^ 32) (calls : List HeapCall)
    (hfits : Run.Along HeapCall.step (HeapCall.Fits region) calls
      ⟨initKernelHeap mem magic region.start region.size, []⟩) :
    Run.Along HeapCall.step (HeapCall.Sound region) calls
      ⟨initKernelHeap mem magic region.start region.size, []⟩ :=
  Run.Along.of_invariant (I := HeapUse.Stacked)
    (fun _ _ hfits hstacked => (hfits.sound hregion hstacked).1)
    (fun _ _ u' hfits hstacked hstep => (hfits.sound hregion hstacked).2 u' hstep) hfits
    fun _ hb => absurd hb List.not_mem_nil

/-- Two requests and a `kfree` in 64 bytes at 1 MiB. -/
theorem heapCalls_sound_two :
    Run.Along HeapCall.step (HeapCall.Sound ⟨0x100000, 64⟩)
      [.kmalloc 10, .kfree 0x100000, .kcalloc 3 8] ⟨initKernelHeap (fun _ => 0) 0 0x100000 64, []⟩ :=
  heapCalls_sound (fun _ => 0) 0 ⟨0x100000, 64⟩ (by decide) [.kmalloc 10, .kfree 0x100000, .kcalloc 3 8]
    ⟨⟨by decide, by decide⟩, fun u₁ h₁ => ⟨trivial, fun u₂ h₂ => by
      obtain rfl := Option.some.inj h₁
      obtain rfl := Option.some.inj h₂
      exact ⟨⟨by decide, by decide⟩, fun _ _ => trivial⟩⟩⟩

/-- A block that fills the region: the marker is stored behind the region. -/
theorem heapCalls_marker_outside :
    ¬ Run.Along HeapCall.step (HeapCall.Sound ⟨0x100000, 16⟩) [.kmalloc 16]
      ⟨initKernelHeap (fun _ => 0) 0 0x100000 16, []⟩ := by
  rintro ⟨hsound, -⟩
  exact absurd (hsound.stores 0x100010 (by decide)).1 (by decide)

end TalOS
