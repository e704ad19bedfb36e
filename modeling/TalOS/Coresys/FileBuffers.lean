-- SUMMARY: Where the contents of files lie in the heap, and when a write changes exactly the bytes it should.
import TalOS.Coresys.FileSystem

/-!
# Contents of files

The contents of a file are a block of the heap. Every run keeps the blocks of all files
disjoint and below the allocator's pointer, whatever the rest of the kernel allocates
and stores. A write that makes a file longer moves it to a new block, with as many of
its bytes as `krealloc` copies.
-/

open MachineInt

namespace TalOS

variable {s s' : Ramfs} {T T' : Forest Nat} {node offset x y i : Nat} {buf : List UInt8}

/-! ## Regular files -/

/-- A regular file, as `ramfs_read` and `ramfs_write` accept it. -/
structure IsRegFile (s : Ramfs) (node : Nat) : Prop where
  ne : node ≠ 0
  readFn : (s.node node).callbacks.readFn = true
  type : (s.node node).type = .regular

theorem FileTree.isRegFile (h : FileTree s T) (hx : x ∈ T.nodes) (htype : (s.node x).type = .regular) :
    IsRegFile s x where
  ne := h.ne_zero hx
  readFn := by
    rw [(h.kind x hx).callbacks, htype]
    rfl
  type := htype

theorem IsRegFile.accepted (h : IsRegFile s node) (hoff : offset ≤ (s.node node).length) :
    ¬ (node = 0 ∨ (s.node node).callbacks.readFn = false ∨ (s.node node).type ≠ .regular ∨
      offset > (s.node node).length) := by
  rintro (hzero | hfn | htype | hlarge)
  · exact h.ne hzero
  · rw [h.readFn] at hfn
    cases hfn
  · exact htype h.type
  · exact Nat.not_lt.mpr hoff hlarge

/-- Reading one byte. -/
theorem IsRegFile.read_one (h : IsRegFile s node) (hi : i < (s.node node).length)
    (hlen : (s.node node).length < 2 ^ 32) :
    ramfsRead s node 1 i = some [s.heap.mem ((s.node node).filePtr + i)] := by
  have hfits : ¬ u32 (1 + i) > (s.node node).length := by
    rw [u32_of_lt (by omega)]
    omega
  rw [ramfsRead, if_neg (h.accepted (Nat.le_of_lt hi))]
  dsimp only
  rw [if_neg hfits]
  rfl

/-- The heap after a `krealloc` for which there is room. -/
theorem krealloc_of_room {h : Kheap} (ptr : Nat) {size : Nat} (hsize : 0 < size)
    (hroom : h.Room size) :
    krealloc h ptr size = (h.currentPointer,
      { h with
        mem := memcpyLoop h.currentPointer ptr (copiedBytes h ptr size) 0
          (Memory.writeAt h.mem (h.currentPointer + roundUp size) (wordBytes h.magic))
        currentPointer := h.currentPointer + roundUp size
        freed := h.freed ++ [ptr] }) := by
  rw [krealloc_eq h ptr hsize, kmalloc_of_room hroom]
  simp only [kfree, roundUp]

/-- What a write that makes the file longer leaves behind. -/
structure Grown (s s' : Ramfs) (node : Nat) (buf : List UInt8) (offset : Nat) : Prop where
  longer : (s.node node).length < buf.length + offset
  room : s.heap.Room (buf.length + offset)
  file : s'.node node = { s.node node with
    filePtr := s.heap.currentPointer, length := buf.length + offset }
  other : ∀ q, q ≠ node → s'.node q = s.node q
  pointer : s'.heap.currentPointer = s.heap.currentPointer + roundUp (buf.length + offset)
  mem : s'.heap.mem = Memory.writeAt
    (memcpyLoop s.heap.currentPointer (s.node node).filePtr
      (copiedBytes s.heap (s.node node).filePtr (buf.length + offset)) 0
      (Memory.writeAt s.heap.mem (s.heap.currentPointer + roundUp (buf.length + offset))
        (wordBytes s.heap.magic)))
    (s.heap.currentPointer + offset) buf

/-- A write either returns -1 and leaves the nodes and the pointer of the allocator, or stores inside
the file, or makes it longer. -/
theorem ramfsWrite_cases {n : Int} (hok : s.heap.Ok)
    (hrun : ramfsWrite s node buf offset = some (s', n)) :
    n = -1 ∧ s'.node = s.node ∧ s'.heap.currentPointer = s.heap.currentPointer ∨
      n = buf.length ∧ (buf.length + offset ≤ (s.node node).length ∧
          s' = { s with
            heap := { s.heap with
              mem := Memory.writeAt s.heap.mem ((s.node node).filePtr + offset) buf } } ∨
        Grown s s' node buf offset) := by
  unfold ramfsWrite at hrun
  split at hrun
  · obtain ⟨rfl, rfl⟩ : s = s' ∧ (-1 : Int) = n := by simpa using hrun
    exact .inl ⟨rfl, rfl, rfl⟩
  · next hfile =>
    have hne : node ≠ 0 := fun hzero => hfile (.inl hzero)
    dsimp only at hrun
    split at hrun
    · next hgrow =>
      have hsize := Nat.zero_lt_of_lt hgrow
      have hfail := krealloc_zero hok (s.node node).filePtr hsize
      have hfits := krealloc_inside hok (s.node node).filePtr hsize
      have hroomy := krealloc_of_room (h := s.heap) (s.node node).filePtr hsize
      generalize krealloc s.heap (s.node node).filePtr (u32 (buf.length + offset)) = r
        at hrun hfail hfits hroomy
      split at hrun
      · next hzero =>
        obtain ⟨rfl, rfl⟩ := Prod.mk.inj (Option.some.inj hrun)
        obtain ⟨mem, freed, hheap⟩ := hfail hzero
        refine .inl ⟨rfl, rfl, ?_⟩
        show r.2.currentPointer = _
        rw [hheap]
      · next hblock =>
        split at hrun
        · cases hrun
        · next hin =>
          -- The end of the write is inside the block, so the 32-bit length was not cut.
          rw [not_or, Nat.not_lt, Nat.not_lt] at hin
          have hlen : u32 (buf.length + offset) = buf.length + offset :=
            Nat.le_antisymm (Nat.mod_le _ _) hin.1
          have hroom := hfits hblock hin.2
          have hr := hroomy hroom
          rw [hlen] at hgrow hroom hr
          generalize hmem : memcpyLoop s.heap.currentPointer _ _ 0 _ = mem at hr
          generalize hptr : s.heap.currentPointer + roundUp (buf.length + offset) = ptr at hr
          rw [update_eq hne, Option.map_some, hlen, hr] at hrun
          obtain ⟨rfl, rfl⟩ := Prod.mk.inj (Option.some.inj hrun)
          refine .inr ⟨rfl, .inr ⟨hgrow, hroom, ?_, ?_, ?_, ?_⟩⟩
          · exact setNode_self _
          · exact fun q hq => setNode_ne _ hq
          · exact hptr.symm
          · exact congrArg (fun m => Memory.writeAt m (s.heap.currentPointer + offset) buf) hmem.symm
    · split at hrun
      · cases hrun
      · next hfit =>
        obtain ⟨rfl, rfl⟩ := Prod.mk.inj (Option.some.inj hrun)
        exact .inr ⟨rfl, .inl ⟨Nat.not_lt.mp hfit, rfl⟩⟩

/-! ## Where the buffers lie -/

/-- The buffers of the files are bytes below the allocator's pointer, and no byte is in two of them. -/
structure BuffersOk (s : Ramfs) (T : Forest Nat) : Prop where
  below : ∀ x ∈ T.nodes, ∀ i < (s.node x).length,
    0 < (s.node x).filePtr ∧ (s.node x).filePtr + i < s.heap.currentPointer
  disjoint : ∀ x ∈ T.nodes, ∀ y ∈ T.nodes, ∀ i < (s.node x).length, ∀ j < (s.node y).length,
    (s.node x).filePtr + i = (s.node y).filePtr + j → x = y

/-- Nodes without contents come, nodes go, and the pointer grows. -/
theorem BuffersOk.mono (h : BuffersOk s T)
    (hnode : ∀ x ∈ T'.nodes, (s'.node x).length = 0 ∨ x ∈ T.nodes ∧
      (s'.node x).length = (s.node x).length ∧ (s'.node x).filePtr = (s.node x).filePtr)
    (hgrow : s.heap.currentPointer ≤ s'.heap.currentPointer) : BuffersOk s' T' := by
  have hold {x i : Nat} (hx : x ∈ T'.nodes) (hi : i < (s'.node x).length) : x ∈ T.nodes ∧
      i < (s.node x).length ∧ (s'.node x).filePtr = (s.node x).filePtr := by
    rcases hnode x hx with hzero | ⟨hmem, hlength, hptr⟩
    · rw [hzero] at hi
      cases hi
    · exact ⟨hmem, hlength ▸ hi, hptr⟩
  constructor
  · intro x hx i hi
    obtain ⟨hmem, hlt, hptr⟩ := hold hx hi
    obtain ⟨hpos, hbelow⟩ := h.below x hmem i hlt
    rw [hptr]
    exact ⟨hpos, Nat.lt_of_lt_of_le hbelow hgrow⟩
  · intro x hx y hy i hi j hj heq
    obtain ⟨hmem, hlt, hptr⟩ := hold hx hi
    obtain ⟨hmem', hlt', hptr'⟩ := hold hy hj
    rw [hptr, hptr'] at heq
    exact h.disjoint x hmem y hmem' i hlt j hlt' heq

theorem BuffersOk.keep (h : BuffersOk s T) (hk : KeepsTree T s s') : BuffersOk s' T :=
  h.mono (fun x hx => .inr ⟨hx, by rw [hk.node x hx], by rw [hk.node x hx]⟩) hk.grow

theorem BuffersOk.attach {P a : Nat} {k : Forest Nat} (h : BuffersOk s T)
    (ht : FileTree s T) (hnew : Attached T P a k s s') : BuffersOk s' (Forest.addChild P a k T) := by
  refine h.mono (fun x hx => ?_) hnew.grow
  rcases (hnew.mem_nodes ht).mp hx with hold | hfresh
  · obtain ⟨next, hnext⟩ := hnew.node hold
    rw [hnext]
    exact .inr ⟨hold, rfl, rfl⟩
  · exact .inl (hnew.empty x hfresh)

theorem BuffersOk.unlink {D : Nat} (h : BuffersOk s T) (hunlinked : Unlinked T D x s s')
    (nodes : List Nat) : BuffersOk (s'.freed nodes) (T.remove x) := by
  refine h.mono (fun y hy => ?_) (Nat.le_of_eq ?_)
  · obtain ⟨children, next, hnode, -⟩ := hunlinked.node y
    rw [freed_node, hnode]
    exact .inr ⟨(Forest.nodes_remove_sublist x T).subset hy, rfl, rfl⟩
  · show s.heap.currentPointer = s'.heap.currentPointer
    rw [hunlinked.heap]

/-- The block that a file moves to lies behind all others. -/
theorem BuffersOk.grown (h : BuffersOk s T) (hok : s.heap.Ok) (hgrown : Grown s s' node buf offset) :
    BuffersOk s' T := by
  have hbytes := le_roundUp (buf.length + offset)
  have hstart := Nat.lt_of_lt_of_le hok.start hok.above
  have hpointer := hgrown.pointer
  have hnew {i : Nat} (hi : i < (s'.node node).length) : i < buf.length + offset ∧
      (s'.node node).filePtr = s.heap.currentPointer := by
    rw [hgrown.file] at hi ⊢
    exact ⟨hi, rfl⟩
  have hold {y j : Nat} (hy : y ∈ T.nodes) (hne : y ≠ node) (hj : j < (s'.node y).length) :
      j < (s.node y).length ∧ (s'.node y).filePtr = (s.node y).filePtr ∧
        0 < (s.node y).filePtr ∧ (s.node y).filePtr + j < s.heap.currentPointer := by
    rw [hgrown.other y hne] at hj ⊢
    exact ⟨hj, rfl, h.below y hy j hj⟩
  constructor
  · intro x hx i hi
    by_cases heq : x = node
    · subst heq
      obtain ⟨hlt, hptr⟩ := hnew hi
      rw [hptr]
      exact ⟨hstart, by omega⟩
    · obtain ⟨-, hptr, hpos, hbelow⟩ := hold hx heq hi
      rw [hptr]
      exact ⟨hpos, by omega⟩
  · intro x hx y hy i hi j hj heq
    by_cases hxn : x = node
    · subst hxn
      by_contra hne
      obtain ⟨-, hptr⟩ := hnew hi
      obtain ⟨-, hptr', -, hbelow⟩ := hold hy (Ne.symm hne) hj
      omega
    · obtain ⟨hlt, hptr, -, hbelow⟩ := hold hx hxn hi
      by_cases hyn : y = node
      · subst hyn
        obtain ⟨-, hptr'⟩ := hnew hj
        omega
      · obtain ⟨hlt', hptr', -, -⟩ := hold hy hyn hj
        rw [hptr, hptr'] at heq
        exact h.disjoint x hx y hy i hlt j hlt' heq

theorem BuffersOk.write {n : Int} (h : BuffersOk s T) (hok : s.heap.Ok)
    (hrun : ramfsWrite s node buf offset = some (s', n)) : BuffersOk s' T := by
  rcases ramfsWrite_cases hok hrun with ⟨-, hnode, hpointer⟩ | ⟨-, ⟨-, rfl⟩ | hgrown⟩
  · exact h.mono (fun x hx => .inr ⟨hx, by rw [hnode], by rw [hnode]⟩) (Nat.le_of_eq hpointer.symm)
  · exact h.mono (fun x hx => .inr ⟨hx, rfl, rfl⟩) (Nat.le_refl _)
  · exact h.grown hok hgrown

/-- Every call keeps the tree and its buffers. -/
theorem RamfsOp.buffers_step {op : RamfsOp} (hproper : op.Proper) (ht : FileTree s T)
    (h : BuffersOk s T) (hstep : op.step s = some s') : ∃ T', FileTree s' T' ∧ BuffersOk s' T' := by
  have hcreation (hcreates : op.Creates) : ∃ T', FileTree s' T' ∧ BuffersOk s' T' := by
    rcases RamfsOp.creation_step hcreates hproper ht hstep with hkeeps | hcreated
    · exact ⟨T, ht.keep hkeeps, h.keep hkeeps⟩
    · obtain ⟨P, a, k, name, path, -, -, hcreated⟩ := hcreated
      exact ⟨_, hcreated.toAttached.fileTree ht, h.attach ht hcreated.toAttached⟩
  cases op with
  | mkDir name path => exact hcreation trivial
  | newRegFile name path => exact hcreation trivial
  | write path buf offset =>
    obtain ⟨node, -, hwrite⟩ := Option.bind_eq_some_iff.mp hstep
    obtain ⟨⟨s₁, n⟩, hrun, rfl⟩ := Option.map_eq_some_iff.mp hwrite
    exact ⟨T, ht.alike (ht.write_alike hrun), h.write ht.heap hrun⟩
  | deleteNode path =>
    obtain ⟨⟨s₁, err⟩, hrun, rfl⟩ := Option.map_eq_some_iff.mp hstep
    rcases ht.deleteNode_outcome hrun with ⟨rfl, -⟩ | ⟨D, x, s₂, nodes, -, -, hunlinked, rfl, -⟩
    · exact ⟨T, ht, h⟩
    · exact ⟨_, (hunlinked.fileTree ht).freed nodes, h.unlink hunlinked nodes⟩

/-! ## Runs of the kernel -/

/-- A call of ramfs, or something else the kernel does: it stores any bytes anywhere and asks for a
block. -/
inductive KernelOp where
  | ramfs (op : RamfsOp)
  | other (mem : Nat → UInt8) (size : Nat)

/-- A block of which the end wraps around has no result. -/
def KernelOp.step : KernelOp → Ramfs → Option Ramfs
  | .ramfs op, s => op.step s
  | .other mem size, s =>
    if s.heap.currentPointer + roundUp size < 2 ^ 32 then
      some { s with heap := (kmalloc { s.heap with mem } size).2 }
    else none

def KernelOp.Proper : KernelOp → Prop
  | .ramfs op => op.Proper
  | .other _ _ => True

instance : DecidablePred KernelOp.Proper
  | .ramfs op => inferInstanceAs (Decidable op.Proper)
  | .other _ _ => inferInstanceAs (Decidable True)

/-- `ramfs_init` succeeds, and then anything happens. -/
def kernelRun (s : Ramfs) (ops : List KernelOp) : Option Ramfs :=
  (ramfsInit s).bind fun r => if r.2 = .ok then Run.run KernelOp.step ops r.1 else none

theorem kmalloc_keeps (mem : Nat → UInt8) {size : Nat} (h : FileTree s T)
    (hlt : s.heap.currentPointer + roundUp size < 2 ^ 32) :
    KeepsTree T s { s with heap := (kmalloc { s.heap with mem } size).2 } := by
  have hok := h.heap
  have hend : u32 (s.heap.heapMemSize + s.heap.heapMem) = s.heap.limit := hok.end_eq
  have hsize : size + MEM_MIN_SIZE - 1 < 2 ^ 32 := by
    unfold roundUp at hlt
    unfold MEM_MIN_SIZE at hlt ⊢
    omega
  have hnext : u32 (s.heap.currentPointer + sizeToAlloc size) = s.heap.currentPointer + roundUp size := by
    rw [sizeToAlloc_of_lt hsize, ← roundUp, u32_of_lt hlt]
  unfold kmalloc
  dsimp only
  rw [hnext, hend]
  split
  · next hfits =>
    exact ⟨rfl, fun _ _ => rfl, ⟨hok.start, Nat.le_trans hok.above (Nat.le_add_right _ _), hfits, hok.high⟩,
      Nat.le_add_right _ _⟩
  · exact ⟨rfl, fun _ _ => rfl, ⟨hok.start, hok.above, hok.below, hok.high⟩, Nat.le_refl _⟩

theorem KernelOp.buffers_step {op : KernelOp} (hproper : op.Proper) (ht : FileTree s T)
    (h : BuffersOk s T) (hstep : op.step s = some s') : ∃ T', FileTree s' T' ∧ BuffersOk s' T' := by
  cases op with
  | ramfs op => exact RamfsOp.buffers_step hproper ht h hstep
  | other mem size =>
    rw [KernelOp.step] at hstep
    split at hstep
    · next hlt =>
      obtain rfl := Option.some.inj hstep
      have hkeeps := kmalloc_keeps mem ht hlt
      exact ⟨T, ht.keep hkeeps, h.keep hkeeps⟩
    · cases hstep

/-- The tree of a state. -/
theorem FileTree.unique (h : FileTree s T) (h' : FileTree s T') : T = T' := h.spans.unique h'.spans

/-- Every state that the kernel reaches is a file tree with its buffers in order. -/
theorem kernelRun_tree {s₀ : Ramfs} (hboot : Boot s₀) {ops : List KernelOp}
    (hops : ∀ op ∈ ops, op.Proper) (hrun : kernelRun s₀ ops = some s) :
    ∃ T, FileTree s T ∧ BuffersOk s T := by
  obtain ⟨s₁, hinit, hrun⟩ := ramfsInit_bind_eq_some hrun
  obtain ⟨c, u, htree, hroot, ⟨_, hdot⟩, ⟨_, hdotdot⟩⟩ := hboot.init_links hinit
  have hempty : ∀ x ∈ (Forest.cons ROOT (linkPair c u) .nil).nodes, (s₁.node x).length = 0 := by
    intro x hx
    rcases mem_linkPair.mp hx with rfl | rfl | rfl
    · exact hroot
    · rw [hdot]
      rfl
    · rw [hdotdot]
      rfl
  have hfirst : BuffersOk s₁ (.cons ROOT (linkPair c u) .nil) := by
    refine ⟨fun x hx i hi => ?_, fun x hx y hy i hi => ?_⟩
    · rw [hempty x hx] at hi
      cases hi
    · rw [hempty x hx] at hi
      cases hi
  refine Run.run_preserves (I := fun s => ∃ T, FileTree s T ∧ BuffersOk s T) ?_
    (.of_forall hops s₁) hrun ⟨_, htree, hfirst⟩
  rintro op s s' hproper ⟨T, ht, hb⟩ hstep
  exact KernelOp.buffers_step hproper ht hb hstep

theorem kernelRun_buffers {s₀ : Ramfs} (hboot : Boot s₀) {ops : List KernelOp}
    (hops : ∀ op ∈ ops, op.Proper) (hrun : kernelRun s₀ ops = some s) (h : FileTree s T) :
    BuffersOk s T := by
  obtain ⟨T', h', hbuffers⟩ := kernelRun_tree hboot hops hrun
  rw [h.unique h']
  exact hbuffers

/-- A run that leads to a regular file which a check accepts. -/
theorem kernelRun_file {s₀ : Ramfs} (hboot : Boot s₀) (ops : List KernelOp)
    (hops : ∀ op ∈ ops, op.Proper) (path : List UInt8) (check : Ramfs → Nat → Bool)
    (hrun : (kernelRun s₀ ops).any (fun s => (fsGetNode s 0 path).any fun node =>
      node ≠ 0 && (s.node node).type = .regular && check s node) = true) :
    ∃ s T node, kernelRun s₀ ops = some s ∧ FileTree s T ∧ node ∈ T.nodes ∧
      (s.node node).type = .regular ∧ check s node = true := by
  obtain ⟨s, hs, hcheck⟩ := (Option.any_eq_true ..).mp hrun
  obtain ⟨node, hget, hcheck⟩ := (Option.any_eq_true ..).mp hcheck
  simp only [Bool.and_eq_true, decide_eq_true_eq] at hcheck
  obtain ⟨⟨hne, htype⟩, hcheck⟩ := hcheck
  obtain ⟨T, ht, -⟩ := kernelRun_tree hboot hops hs
  exact ⟨s, T, node, hs, ht, (ht.fsGetNode_some hget hne).2.2.2, htype, hcheck⟩

/-! ## What a write changes -/

/-- What a write of `buf` at `offset` should do to a file: it becomes as long as it must, has the
bytes of `buf` there and its old bytes elsewhere, and no other file changes. -/
structure Writes (s s' : Ramfs) (T : Forest Nat) (node : Nat) (buf : List UInt8) (offset : Nat) : Prop where
  length : (s'.node node).length = max (s.node node).length (offset + buf.length)
  inside : ∀ i, (hi : i < buf.length) → ramfsRead s' node 1 (offset + i) = some [buf[i]]
  outside : ∀ i < (s.node node).length, i < offset ∨ offset + buf.length ≤ i →
    ramfsRead s' node 1 i = ramfsRead s node 1 i
  others : ∀ y ∈ T.nodes, y ≠ node → (s.node y).type = .regular →
    (s'.node y).length = (s.node y).length ∧
      ∀ i < (s.node y).length, ramfsRead s' y 1 i = ramfsRead s y 1 i

/-- The file does not move, or it holds no marker that `krealloc` finds before the bytes behind
`offset`; a byte that is not copied is the one that lies in the new block already. -/
def KeepsPrefix (s : Ramfs) (node : Nat) (buf : List UInt8) (offset : Nat) : Prop :=
  buf.length + offset ≤ (s.node node).length ∨ markerAt s.heap (s.node node).filePtr = true ∨
    ∀ i < offset, (∃ k ≤ i + 1, markerAt s.heap ((s.node node).filePtr + k) = true) →
      s.heap.mem (s.heap.currentPointer + i) = s.heap.mem ((s.node node).filePtr + i)

instance : Decidable (KeepsPrefix s node buf offset) :=
  inferInstanceAs (Decidable (_ ∨ _ ∨ ∀ i < offset, (∃ k ≤ i + 1, _) → _))

theorem BuffersOk.length_lt (h : BuffersOk s T) (hok : s.heap.Ok) (hx : x ∈ T.nodes) :
    (s.node x).length < 2 ^ 32 := by
  have hbelow := hok.below
  have hhigh := hok.high
  by_contra hlong
  obtain ⟨-, hlast⟩ := h.below x hx (2 ^ 32 - 1) (by omega)
  omega

theorem IsRegFile.of_contents (h : IsRegFile s x) {length filePtr : Nat}
    (hnode : s'.node x = { s.node x with length := length, filePtr := filePtr }) : IsRegFile s' x where
  ne := h.ne
  readFn := by
    rw [hnode]
    exact h.readFn
  type := by
    rw [hnode]
    exact h.type

/-- A byte of another file lies nowhere in the part of the file that is written. -/
theorem BuffersOk.not_written (h : BuffersOk s T) (hx : x ∈ T.nodes) (hy : y ∈ T.nodes) (hne : y ≠ x)
    (hi : i < (s.node y).length) (hfit : buf.length + offset ≤ (s.node x).length) :
    Memory.writeAt s.heap.mem ((s.node x).filePtr + offset) buf ((s.node y).filePtr + i) =
      s.heap.mem ((s.node y).filePtr + i) := by
  rcases Nat.lt_or_ge ((s.node y).filePtr + i) ((s.node x).filePtr + offset) with hlt | hge
  · exact Memory.writeAt_of_lt _ hlt
  · refine Memory.writeAt_of_ge (Nat.not_lt.mp fun hin => hne ?_)
    exact h.disjoint y hy x hx i hi ((s.node y).filePtr + i - (s.node x).filePtr) (by omega) (by omega)

/-- A write inside a file does what it should. -/
theorem BuffersOk.writes_inside (h : BuffersOk s T) (ht : FileTree s T) (hnode : node ∈ T.nodes)
    (htype : (s.node node).type = .regular) (hfit : buf.length + offset ≤ (s.node node).length)
    (hs' : s' = { s with
      heap := { s.heap with mem := Memory.writeAt s.heap.mem ((s.node node).filePtr + offset) buf } }) :
    Writes s s' T node buf offset := by
  have hnodes : s'.node = s.node := by rw [hs']
  have hmem : s'.heap.mem = Memory.writeAt s.heap.mem ((s.node node).filePtr + offset) buf := by
    rw [hs']
  have hread {y i : Nat} (hy : y ∈ T.nodes) (hytype : (s.node y).type = .regular)
      (hi : i < (s.node y).length) : ramfsRead s' y 1 i = some [s'.heap.mem ((s.node y).filePtr + i)] ∧
        ramfsRead s y 1 i = some [s.heap.mem ((s.node y).filePtr + i)] := by
    have hfile := ht.isRegFile hy hytype
    have hfile' : IsRegFile s' y := hfile.of_contents (congrFun hnodes y)
    have hlt := h.length_lt ht.heap hy
    have hread' := hfile'.read_one (i := i) (hnodes ▸ hi) (hnodes ▸ hlt)
    rw [hnodes] at hread'
    exact ⟨hread', hfile.read_one hi hlt⟩
  constructor
  · rw [hnodes]
    omega
  · intro i hi
    rw [(hread hnode htype (by omega)).1, hmem, ← Nat.add_assoc, Memory.writeAt_getElem hi]
  · intro i hi hout
    obtain ⟨hnew, hold⟩ := hread hnode htype hi
    rw [hnew, hold, hmem]
    rcases hout with hlt | hge
    · rw [Memory.writeAt_of_lt _ (Nat.add_lt_add_left hlt _)]
    · rw [Memory.writeAt_of_ge (by omega)]
  · intro y hy hne hytype
    refine ⟨by rw [hnodes], fun i hi => ?_⟩
    obtain ⟨hnew, hold⟩ := hread hy hytype hi
    rw [hnew, hold, hmem, h.not_written hnode hy hne hi hfit]

/-- What stands below the new block is as before. -/
theorem Grown.mem_below {a : Nat} (h : Grown s s' node buf offset) (ha : a < s.heap.currentPointer) :
    s'.heap.mem a = s.heap.mem a := by
  rw [h.mem, Memory.writeAt_of_lt _ (Nat.lt_add_right _ ha), memcpyLoop_outside (.inl ha),
    Memory.writeAt_of_lt _ (Nat.lt_add_right _ ha)]

/-- The bytes of the new block before those that are written. -/
theorem Grown.mem_prefix (h : Grown s s' node buf offset) (hi : i < offset)
    (hsrc : (s.node node).filePtr + i < s.heap.currentPointer) :
    s'.heap.mem (s.heap.currentPointer + i) =
      if i < copiedBytes s.heap (s.node node).filePtr (buf.length + offset) then
        s.heap.mem ((s.node node).filePtr + i)
      else s.heap.mem (s.heap.currentPointer + i) := by
  have hbytes := le_roundUp (buf.length + offset)
  rw [h.mem, Memory.writeAt_of_lt _ (Nat.add_lt_add_left hi _)]
  split
  · next hcopied =>
    rw [memcpyLoop_copied (Nat.zero_le i) (by omega) hsrc, Memory.writeAt_of_lt _ (by omega)]
  · next hleft =>
    rw [memcpyLoop_outside (.inr (by omega)), Memory.writeAt_of_lt _ (by omega)]

/-- A write that makes a file longer does what it should if the bytes before it arrive. -/
theorem BuffersOk.writes_grown_iff (h : BuffersOk s T) (ht : FileTree s T) (hnode : node ∈ T.nodes)
    (htype : (s.node node).type = .regular) (hoff : offset ≤ (s.node node).length)
    (hgrown : Grown s s' node buf offset) :
    Writes s s' T node buf offset ↔
      ∀ i < offset, s'.heap.mem (s.heap.currentPointer + i) = s.heap.mem ((s.node node).filePtr + i) := by
  have hfile := ht.isRegFile hnode htype
  have hfile' : IsRegFile s' node := hfile.of_contents hgrown.file
  have hlonger := hgrown.longer
  have hlength : (s'.node node).length = buf.length + offset := by rw [hgrown.file]
  have hptr : (s'.node node).filePtr = s.heap.currentPointer := by rw [hgrown.file]
  have hlt : buf.length + offset < 2 ^ 32 := by
    have hroom := hgrown.room
    have hbytes := le_roundUp (buf.length + offset)
    have hend := hroom.1
    rw [← roundUp] at hend
    have hhigh := ht.heap.high
    omega
  have hread {i : Nat} (hi : i < buf.length + offset) :
      ramfsRead s' node 1 i = some [s'.heap.mem (s.heap.currentPointer + i)] := by
    have hone := hfile'.read_one (hlength ▸ hi) (hlength ▸ hlt)
    rwa [hptr] at hone
  have hold {i : Nat} (hi : i < (s.node node).length) :
      ramfsRead s node 1 i = some [s.heap.mem ((s.node node).filePtr + i)] :=
    hfile.read_one hi (h.length_lt ht.heap hnode)
  constructor
  · intro hwrites i hi
    have hsame := hwrites.outside i (Nat.lt_of_lt_of_le hi hoff) (.inl hi)
    rw [hread (by omega), hold (Nat.lt_of_lt_of_le hi hoff)] at hsame
    exact (List.cons.inj (Option.some.inj hsame)).1
  · intro hprefix
    constructor
    · rw [hlength]
      omega
    · intro i hi
      rw [hread (by omega), hgrown.mem, ← Nat.add_assoc, Memory.writeAt_getElem hi]
    · intro i hi hout
      have hbefore : i < offset := hout.resolve_right (by omega)
      rw [hread (by omega), hold hi, hprefix i hbefore]
    · intro y hy hne hytype
      have hother := hgrown.other y hne
      have hyfile := ht.isRegFile hy hytype
      have hyfile' : IsRegFile s' y := hyfile.of_contents hother
      have hylt := h.length_lt ht.heap hy
      refine ⟨by rw [hother], fun i hi => ?_⟩
      have hone := hyfile'.read_one (i := i) (hother ▸ hi) (hother ▸ hylt)
      rw [hother, hgrown.mem_below (h.below y hy i hi).2] at hone
      rw [hone, hyfile.read_one hi hylt]

/-- In every state that the kernel reaches, a write to a file that reports success does what it should
exactly if the bytes before `offset` survive the move of the file. -/
theorem ramfsWrite_writes_iff (s₀ : Ramfs) (ops : List KernelOp) (s s' : Ramfs) (T : Forest Nat)
    (node : Nat) (buf : List UInt8) (offset : Nat) (hboot : Boot s₀) (hops : ∀ op ∈ ops, op.Proper)
    (hrun : kernelRun s₀ ops = some s) (ht : FileTree s T) (hnode : node ∈ T.nodes)
    (htype : (s.node node).type = .regular) (hoff : offset ≤ (s.node node).length)
    (hwrite : ramfsWrite s node buf offset = some (s', (buf.length : Int))) :
    Writes s s' T node buf offset ↔ KeepsPrefix s node buf offset := by
  have h := kernelRun_buffers hboot hops hrun ht
  rcases ramfsWrite_cases ht.heap hwrite with ⟨hfail, -⟩ | ⟨-, ⟨hfit, hs'⟩ | hgrown⟩
  · omega
  · exact iff_of_true (h.writes_inside ht hnode htype hfit hs') (.inl hfit)
  · have hlonger := hgrown.longer
    have hroom := hgrown.room.1
    have hlt : buf.length + offset < 2 ^ 32 := by
      have hbytes := le_roundUp (buf.length + offset)
      have hhigh := ht.heap.high
      rw [← roundUp] at hroom
      omega
    rw [h.writes_grown_iff ht hnode htype hoff hgrown, KeepsPrefix,
      or_iff_right (Nat.not_le.mpr hlonger)]
    have hbyte {i : Nat} (hi : i < offset) :=
      hgrown.mem_prefix hi (h.below node hnode i (Nat.lt_of_lt_of_le hi hoff)).2
    have hcopied {i : Nat} (hi : i < offset) := lt_copiedBytes s.heap (s.node node).filePtr
      (i := i) hlt (by omega)
    constructor
    · intro hall
      refine or_iff_not_imp_left.mpr fun hstart i hi hmarker => ?_
      have hleft : ¬ i < copiedBytes s.heap (s.node node).filePtr (buf.length + offset) := by
        rw [hcopied hi, or_iff_right hstart]
        obtain ⟨k, hk, hat⟩ := hmarker
        exact fun hnone => Bool.noConfusion ((hnone k hk).symm.trans hat)
      rw [← hall i hi, hbyte hi, if_neg hleft]
    · intro hkeeps i hi
      rw [hbyte hi]
      split
      · rfl
      · next hleft =>
        rw [hcopied hi, not_or] at hleft
        refine hkeeps.resolve_left hleft.1 i hi ?_
        simpa using hleft.2

/-- The heap of `bootRamfs`, with a marker that is not zero. -/
def bootKernel : Ramfs := { bootRamfs with heap := { bootRamfs.heap with magic := 0x80000 } }

theorem bootKernel_boot : Boot bootKernel :=
  ⟨⟨by decide, by decide, by decide, by decide⟩, by decide, rfl⟩

/-- A file of three bytes gets a fourth. -/
theorem ramfsWrite_writes_fourth :
    ∃ s s' T node, kernelRun bootKernel [.ramfs (.newRegFile [0x66] [SLASH]),
      .ramfs (.write [SLASH, 0x66] [1, 2, 3] 0)] = some s ∧
      ramfsWrite s node [4] 3 = some (s', 1) ∧ Writes s s' T node [4] 3 := by
  obtain ⟨s, T, node, hs, ht, hnode, htype, hcheck⟩ := kernelRun_file bootKernel_boot
    [.ramfs (.newRegFile [0x66] [SLASH]), .ramfs (.write [SLASH, 0x66] [1, 2, 3] 0)] (by decide)
    [SLASH, 0x66] (fun s node => (s.node node).length = 3 && KeepsPrefix s node [4] 3 &&
      (ramfsWrite s node [4] 3).any fun r => r.2 = 1) (by decide +kernel)
  simp only [Bool.and_eq_true, decide_eq_true_eq] at hcheck
  obtain ⟨⟨hlength, hkeeps⟩, hwrite⟩ := hcheck
  obtain ⟨⟨s', n⟩, hwrite, hn⟩ := (Option.any_eq_true ..).mp hwrite
  obtain rfl : n = 1 := of_decide_eq_true hn
  exact ⟨s, s', T, node, hs, hwrite,
    (ramfsWrite_writes_iff bootKernel _ s s' T node [4] 3 bootKernel_boot (by decide) hs ht hnode htype
      (Nat.le_of_eq hlength.symm) hwrite).mpr hkeeps⟩

/-- A file of four bytes loses the last of them when it gets a fifth. -/
theorem ramfsWrite_loses_byte :
    ∃ s s' T node, kernelRun bootKernel [.ramfs (.newRegFile [0x66] [SLASH]),
      .ramfs (.write [SLASH, 0x66] [1, 2, 3, 4] 0)] = some s ∧ FileTree s T ∧ node ∈ T.nodes ∧
      (s.node node).type = .regular ∧ (s.node node).length = 4 ∧
      ramfsWrite s node [5] 4 = some (s', 1) ∧ ¬ Writes s s' T node [5] 4 := by
  obtain ⟨s, T, node, hs, ht, hnode, htype, hcheck⟩ := kernelRun_file bootKernel_boot
    [.ramfs (.newRegFile [0x66] [SLASH]), .ramfs (.write [SLASH, 0x66] [1, 2, 3, 4] 0)] (by decide)
    [SLASH, 0x66] (fun s node => (s.node node).length = 4 && (ramfsWrite s node [5] 4).any fun r =>
      r.2 = 1 && ramfsRead r.1 node 1 3 ≠ ramfsRead s node 1 3) (by decide +kernel)
  simp only [Bool.and_eq_true, decide_eq_true_eq] at hcheck
  obtain ⟨hlength, hwrite⟩ := hcheck
  obtain ⟨⟨s', n⟩, hwrite, hlost⟩ := (Option.any_eq_true ..).mp hwrite
  simp only [Bool.and_eq_true, decide_eq_true_eq] at hlost
  obtain ⟨rfl, hlost⟩ := hlost
  refine ⟨s, s', T, node, hs, ht, hnode, htype, hlength, hwrite, fun hwrites => ?_⟩
  exact hlost (hwrites.outside 3 (by omega) (.inl (by decide)))

end TalOS
