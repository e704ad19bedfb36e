-- SUMMARY: New files behind everything on the heap: what making and writing them leaves alone.
import TalOS.Coresys.FileBounds
import TalOS.Coresys.InitrdLoading

/-!
# Fresh files

A new node and its contents are blocks behind everything the heap has handed out. Whatever
the pointers between nodes look like, making a file changes no more below them than the
`next` pointer of the node that it is linked to, so that a file goes on holding its bytes
while others are made.
-/

open MachineInt

namespace TalOS

variable {s s₁ s' : Ramfs} {x a P t size : Nat} {name path bytes buf : List UInt8}

/-! ## What lies below -/

/-- Of what lies below the allocator's pointer, at most `next` pointers have changed. -/
structure Behind (s s' : Ramfs) : Prop where
  heap : s'.heap.Ok
  limit : s'.heap.limit = s.heap.limit
  grow : s.heap.currentPointer ≤ s'.heap.currentPointer
  node : ∀ x < s.heap.currentPointer, s'.node x = { s.node x with next := s'.nextPtr x }
  mem : ∀ a < s.heap.currentPointer, s'.heap.mem a = s.heap.mem a

theorem Behind.trans (h : Behind s s₁) (h' : Behind s₁ s') : Behind s s' where
  heap := h'.heap
  limit := h'.limit.trans h.limit
  grow := Nat.le_trans h.grow h'.grow
  node := fun x hx => by rw [h'.node x (Nat.lt_of_lt_of_le hx h.grow), h.node x hx]
  mem := fun a ha => (h'.mem a (Nat.lt_of_lt_of_le ha h.grow)).trans (h.mem a ha)

theorem Behind.name_eq (h : Behind s s') (hx : x < s.heap.currentPointer) :
    (s'.node x).name = (s.node x).name := by
  rw [h.node x hx]

/-- Where the node that may change lies behind the pointer, none below it has changed. -/
theorem LoadKeeps.behind (h : LoadKeeps t s s') (ht : s.heap.currentPointer ≤ t) : Behind s s' where
  heap := h.heap
  limit := h.limit
  grow := h.grow
  node := fun x hx => by
    rw [Ramfs.nextPtr, h.node x hx (Nat.ne_of_lt (Nat.lt_of_lt_of_le hx ht))]
  mem := h.mem

/-- Linking a child changes a `next` pointer, and nothing on the heap. -/
theorem appendChild_node (hrun : appendChild s P a = some s') (x : Nat) :
    s'.heap = s.heap ∧ s'.node x = { s.node x with next := s'.nextPtr x } := by
  obtain ⟨last, -, hupdate⟩ := Option.bind_eq_some_iff.mp hrun
  rw [update_eq_some hupdate]
  refine ⟨rfl, ?_⟩
  by_cases hlast : x = last
  · rw [hlast, nextPtr_setNode_self, setNode_self]
  · rw [nextPtr_setNode_ne _ hlast, setNode_ne _ hlast]
    rfl

theorem Behind.link (h : Behind s s₁) (hrun : appendChild s₁ P a = some s') : Behind s s' := by
  have hheap := (appendChild_node hrun 0).1
  constructor
  · exact hheap ▸ h.heap
  · exact hheap ▸ h.limit
  · exact hheap ▸ h.grow
  · intro x hx
    rw [(appendChild_node hrun x).2, h.node x hx]
  · intro a ha
    rw [hheap]
    exact h.mem a ha

/-! ## Files that hold bytes -/

/-- The regular file `x` holds `bytes`, in a buffer below the allocator's pointer. -/
structure HoldsBytes (s : Ramfs) (x : Nat) (bytes : List UInt8) : Prop where
  file : IsRegFile s x
  below : x < s.heap.currentPointer
  length : (s.node x).length = bytes.length
  buffer : (s.node x).filePtr + bytes.length ≤ s.heap.currentPointer
  content : Memory.readAt s.heap.mem (s.node x).filePtr bytes.length = bytes

theorem HoldsBytes.behind (h : HoldsBytes s x bytes) (hbehind : Behind s s') : HoldsBytes s' x bytes := by
  have hnode := hbehind.node x h.below
  have hbuffer := h.buffer
  constructor
  · exact ⟨h.file.ne, by rw [hnode]; exact h.file.readFn, by rw [hnode]; exact h.file.type⟩
  · exact Nat.lt_of_lt_of_le h.below hbehind.grow
  · rw [hnode]
    exact h.length
  · rw [hnode]
    exact Nat.le_trans h.buffer hbehind.grow
  · rw [hnode]
    refine (Memory.readAt_congr fun i hi => ?_).trans h.content
    exact hbehind.mem _ (by dsimp only; omega)

/-- A read of the whole file. -/
theorem HoldsBytes.read (h : HoldsBytes s x bytes) (hlt : bytes.length < 2 ^ 32) :
    ramfsRead s x bytes.length 0 = some bytes := by
  rw [ramfsRead, if_neg (h.file.accepted (Nat.zero_le _))]
  dsimp only
  rw [Nat.add_zero, Nat.add_zero, u32_of_lt hlt, h.length, if_neg (Nat.lt_irrefl _), h.content]

/-! ## Making files -/

/-- A node was made at the allocator's pointer and linked. -/
structure NewAt (s s' : Ramfs) (x : Nat) (n : RamfsFileHeader) : Prop where
  behind : Behind s s'
  addr : x = s.heap.currentPointer
  pos : x ≠ 0
  pointer : x + SIZEOF_NODE ≤ s'.heap.currentPointer
  node : s'.node x = { n with next := s'.nextPtr x }

theorem ramfsNewRegFile_new {err : RfsErr} (hok : s.heap.Ok)
    (hrun : ramfsNewRegFile s name path = some (s', x, err)) (hx : x ≠ 0) :
    NewAt s s' x (newNode name s.lastIno .regular 0) := by
  obtain ⟨parent, -, hrun⟩ := Option.bind_eq_some_iff.mp hrun
  split at hrun
  · cases hrun
    exact absurd rfl hx
  · dsimp only at hrun
    split at hrun
    · cases hrun
      exact absurd rfl hx
    · next hne =>
      obtain ⟨s₁, halloc, hfresh, hkeeps⟩ :=
        ramfsAllocNode_fits (t := s.heap.currentPointer) hok (ramfsAllocNode_room hok hne)
      rw [halloc, show regCallbacks = callbacksOf .regular from rfl, hfresh.fill name .regular,
        Option.bind_some] at hrun
      obtain ⟨s₂, happend, hresult⟩ := Option.map_eq_some_iff.mp hrun
      cases hresult
      have hbehind := (hkeeps.takeIno.setNode (newNode name s.lastIno .regular 0)
        (.inl rfl)).behind (Nat.le_refl _)
      obtain ⟨hheap, hnode⟩ := appendChild_node happend s.heap.currentPointer
      refine ⟨hbehind.link happend, rfl, hx, ?_, ?_⟩
      · rw [hheap]
        exact Nat.le_of_eq hfresh.pointer.symm
      · rw [hnode, setNode_self]

/-- A write to an empty file makes it longer where there is room for its bytes. -/
theorem IsRegFile.write_empty {n : Int} (h : IsRegFile s x) (hok : s.heap.Ok) (hlength : (s.node x).length = 0)
    (hbuf : buf ≠ []) (hfits : s.Fits (roundUp buf.length)) (hrun : ramfsWrite s x buf 0 = some (s', n)) :
    Grown s s' x buf 0 := by
  have hpos := List.length_pos_of_ne_nil hbuf
  have hroom : s.heap.Room (buf.length + 0) := roomFor hok hfits
  have hlt : buf.length + 0 < 2 ^ 32 := by
    have hend := hroom.1
    have hhigh := hok.high
    have hbytes := le_roundUp (buf.length + 0)
    rw [← roundUp] at hend
    omega
  rcases ramfsWrite_cases hok hrun with ⟨hfail, -⟩ | ⟨-, ⟨hfit, -⟩ | hgrown⟩
  · have heffect := (ramfsWrite_effect hrun).1
    rw [h.effect_grows (Nat.zero_le _) hlt (by omega), kmalloc_of_room hroom] at heffect
    dsimp only at heffect
    rw [if_neg hok.pointer_ne, if_neg Bool.false_ne_true] at heffect
    omega
  · omega
  · exact hgrown

/-- The file that a write makes longer may lie behind what is kept. -/
theorem Grown.behind {offset : Nat} (h : Grown s₁ s' x buf offset) (hkeeps : WriteKeeps s₁ s')
    (hbehind : Behind s s₁) (hx : s.heap.currentPointer ≤ x) : Behind s s' where
  heap := hkeeps.heap
  limit := hkeeps.limit.trans hbehind.limit
  grow := Nat.le_trans hbehind.grow hkeeps.grow
  node := fun y hy => by
    have hne : y ≠ x := Nat.ne_of_lt (Nat.lt_of_lt_of_le hy hx)
    rw [Ramfs.nextPtr, h.other y hne]
    exact hbehind.node y hy
  mem := fun a ha => (h.mem_below (Nat.lt_of_lt_of_le ha hbehind.grow)).trans (hbehind.mem a ha)

theorem Grown.holds (h : Grown s s' x buf 0) (hfile : IsRegFile s x) (hx : x < s.heap.currentPointer) :
    HoldsBytes s' x buf := by
  have hptr : (s'.node x).filePtr = s.heap.currentPointer := by rw [h.file]
  constructor
  · exact ⟨hfile.ne, by rw [h.file]; exact hfile.readFn, by rw [h.file]; exact hfile.type⟩
  · rw [h.pointer]
    exact Nat.lt_add_right _ hx
  · rw [h.file]
    rfl
  · rw [hptr, h.pointer]
    exact Nat.add_le_add_left (le_roundUp _) _
  · rw [hptr, h.mem]
    exact Memory.readAt_writeAt _ _ _

/-- A file with a name, cut to the length of its array, that holds `bytes`. -/
structure FileWith (s : Ramfs) (x : Nat) (name bytes : List UInt8) : Prop where
  name : (s.node x).name = (strncpy name MAX_FNAME).bytes
  holds : HoldsBytes s x bytes

theorem FileWith.behind (h : FileWith s x name bytes) (hbehind : Behind s s') : FileWith s' x name bytes :=
  ⟨(hbehind.name_eq h.holds.below).trans h.name, h.holds.behind hbehind⟩

/-- Making a file and writing to it. The write may fail for want of room; the pointer has moved over the
node all the same. -/
theorem newRegFile_written {err : RfsErr} {n : Int} (hok : s.heap.Ok)
    (hmade : ramfsNewRegFile s name path = some (s₁, x, err)) (hx : x ≠ 0) (hbuf : buf ≠ [])
    (hwrite : ramfsWrite s₁ x buf 0 = some (s', n)) :
    (s'.heap.Ok ∧ s'.heap.limit = s.heap.limit ∧ s.heap.currentPointer ≤ s'.heap.currentPointer) ∧
      (s'.Fits (roundUp buf.length) → Behind s s' ∧ FileWith s' x name buf) := by
  have hnew := ramfsNewRegFile_new hok hmade hx
  have hkeeps := ramfsWrite_keeps hnew.behind.heap hwrite
  refine ⟨⟨hkeeps.heap, hkeeps.limit.trans hnew.behind.limit, Nat.le_trans hnew.behind.grow hkeeps.grow⟩,
    fun hfits => ?_⟩
  have hfits₁ : s₁.Fits (roundUp buf.length) := by
    rw [Ramfs.Fits, ← hkeeps.limit]
    exact Nat.le_trans (Nat.add_le_add_right hkeeps.grow _) hfits
  have hfile : IsRegFile s₁ x := ⟨hx, by rw [hnew.node]; rfl, by rw [hnew.node]; rfl⟩
  have hlength : (s₁.node x).length = 0 := by
    rw [hnew.node]
    rfl
  have hgrown := hfile.write_empty hnew.behind.heap hlength hbuf hfits₁ hwrite
  refine ⟨hgrown.behind hkeeps hnew.behind (Nat.le_of_eq hnew.addr.symm), ?_, hgrown.holds hfile ?_⟩
  · rw [hgrown.file, hnew.node]
    rfl
  · exact Nat.lt_of_lt_of_le (Nat.lt_add_of_pos_right (by decide)) hnew.pointer

end TalOS
