-- SUMMARY: Creating nodes keeps the file tree: what `ramfs_mkDir` and `ramfs_newRegFile` do to it.
import TalOS.Coresys.FileTree

/-!
# Creating nodes

A node that is created lies behind everything the heap has handed out, so it is
none of the tree. Filling it in changes nothing the tree sees; the one store that
does is the last, the `next` pointer of the last child of the parent.
-/

namespace TalOS

open Forest (Seg)

/-! ## States that agree on a tree -/

/-- Nothing a tree sees has changed. -/
structure KeepsTree (T : Forest Nat) (s s' : Ramfs) : Prop where
  root : s'.root = s.root
  node : ∀ x ∈ T.nodes, s'.node x = s.node x
  heap : s'.heap.Ok
  grow : s.heap.currentPointer ≤ s'.heap.currentPointer

variable {s s' s'' : Ramfs} {T k : Forest Nat} {x y a p P D last : Nat} {name : List UInt8}

theorem KeepsTree.refl (h : s.heap.Ok) : KeepsTree T s s := ⟨rfl, fun _ _ => rfl, h, Nat.le_refl _⟩

/-- Of the nodes of a tree at most the contents have changed. -/
structure Alike (T : Forest Nat) (s s' : Ramfs) : Prop where
  root : s'.root = s.root
  node : ∀ x ∈ T.nodes, ∃ length filePtr,
    s'.node x = { s.node x with length := length, filePtr := filePtr }
  heap : s'.heap.Ok
  grow : s.heap.currentPointer ≤ s'.heap.currentPointer

theorem KeepsTree.alike (h : KeepsTree T s s') : Alike T s s' :=
  ⟨h.root, fun x hx => ⟨_, _, h.node x hx⟩, h.heap, h.grow⟩

theorem FileTree.alike (h : FileTree s T) (hk : Alike T s s') : FileTree s' T where
  root := hk.root.trans h.root
  top := h.top
  spans := h.spans.congr fun x hx => by
    obtain ⟨_, _, hnode⟩ := hk.node x hx
    simp only [Ramfs.childPtr, Ramfs.nextPtr, hnode, and_self]
  once := h.once
  below := fun x hx => Nat.lt_of_lt_of_le (h.below x hx) hk.grow
  heap := hk.heap
  rootDir := by
    obtain ⟨_, _, hnode⟩ := hk.node _ h.root_mem
    rw [hnode]
    exact h.rootDir
  kind := fun x hx => by
    obtain ⟨_, _, hnode⟩ := hk.node x hx
    have hkind := h.kind x hx
    rw [hnode]
    exact ⟨hkind.type, hkind.callbacks, hkind.children⟩
  links := fun D x hx => by
    obtain ⟨_, _, hnode⟩ := hk.node x (Forest.childrenOf_subset T hx)
    rw [LinkOk, hnode]
    exact h.links D x hx
  names := fun D x hx => by
    obtain ⟨_, _, hnode⟩ := hk.node x (Forest.childrenOf_subset T hx)
    rw [hnode]
    exact h.names D x hx

theorem DotsFirst.alike (h : DotsFirst s T) (hk : Alike T s s') : DotsFirst s' T := by
  intro D hD htype
  obtain ⟨_, _, hnode⟩ := hk.node D hD
  rw [hnode] at htype
  obtain ⟨dot, dotdot, rest, hlist, hdots⟩ := h D hD htype
  have hdot : dot ∈ T.nodes := Forest.childrenOf_subset T (hlist ▸ List.mem_cons_self)
  have hdotdot : dotdot ∈ T.nodes :=
    Forest.childrenOf_subset T (hlist ▸ List.mem_cons_of_mem _ List.mem_cons_self)
  obtain ⟨_, _, hnode₁⟩ := hk.node dot hdot
  obtain ⟨_, _, hnode₂⟩ := hk.node dotdot hdotdot
  refine ⟨dot, dotdot, rest, hlist, ?_⟩
  rw [hnode₁, hnode₂]
  exact hdots

theorem NamesDistinct.alike (h : NamesDistinct s T) (hk : Alike T s s') : NamesDistinct s' T := by
  intro D
  have hsame : (T.childrenOf D).map (fun x => (s'.node x).name) =
      (T.childrenOf D).map fun x => (s.node x).name := by
    refine List.map_congr_left fun x hx => ?_
    obtain ⟨_, _, hnode⟩ := hk.node x (Forest.childrenOf_subset T hx)
    rw [hnode]
  rw [hsame]
  exact h D

theorem FileTree.keep (h : FileTree s T) (hk : KeepsTree T s s') : FileTree s' T := h.alike hk.alike

theorem DotsFirst.keep (h : DotsFirst s T) (hk : KeepsTree T s s') : DotsFirst s' T := h.alike hk.alike

theorem NamesDistinct.keep (h : NamesDistinct s T) (hk : KeepsTree T s s') : NamesDistinct s' T :=
  h.alike hk.alike

/-! ## Single steps -/

/-- The state with one node replaced. -/
def Ramfs.setNode (s : Ramfs) (p : Nat) (n : RamfsFileHeader) : Ramfs :=
  { s with node := fun q => if q = p then n else s.node q }

@[simp] theorem setNode_root (n : RamfsFileHeader) : (s.setNode p n).root = s.root := rfl
@[simp] theorem setNode_heap (n : RamfsFileHeader) : (s.setNode p n).heap = s.heap := rfl

@[simp] theorem Ramfs.kfree_freed (ptr : Nat) :
    (s.kfree ptr).heap.freed = s.heap.freed ++ [ptr] := rfl
@[simp] theorem setNode_self (n : RamfsFileHeader) : (s.setNode p n).node p = n := if_pos rfl

theorem setNode_ne (n : RamfsFileHeader) (h : x ≠ p) : (s.setNode p n).node x = s.node x := if_neg h

@[simp] theorem childPtr_setNode_self (n : RamfsFileHeader) :
    (s.setNode p n).childPtr p = n.children := congrArg RamfsFileHeader.children (setNode_self n)

@[simp] theorem nextPtr_setNode_self (n : RamfsFileHeader) :
    (s.setNode p n).nextPtr p = n.next := congrArg RamfsFileHeader.next (setNode_self n)

theorem childPtr_setNode_ne (n : RamfsFileHeader) (h : x ≠ p) :
    (s.setNode p n).childPtr x = s.childPtr x := congrArg RamfsFileHeader.children (setNode_ne n h)

theorem nextPtr_setNode_ne (n : RamfsFileHeader) (h : x ≠ p) :
    (s.setNode p n).nextPtr x = s.nextPtr x := congrArg RamfsFileHeader.next (setNode_ne n h)

theorem update_eq (hp : p ≠ 0) (f : RamfsFileHeader → RamfsFileHeader) :
    s.update p f = some (s.setNode p (f (s.node p))) := if_neg hp

theorem lastChildLoop_seg {pre : List Nat} {p fuel : Nat}
    (hseg : Seg s.nextPtr 0 p (pre ++ [last])) (hfuel : pre.length < fuel) :
    lastChildLoop s fuel p = some last := by
  induction pre generalizing p fuel with
  | nil =>
    obtain ⟨rfl, hp, hend⟩ := hseg
    obtain ⟨fuel, rfl⟩ := Nat.exists_eq_add_one.mpr hfuel
    rw [lastChildLoop, Ramfs.deref, if_neg hp, Option.bind_some]
    exact if_pos hend
  | cons b pre ih =>
    obtain ⟨rfl, hp, hrest⟩ := hseg
    obtain ⟨fuel, rfl⟩ := Nat.exists_eq_add_one.mpr (Nat.zero_lt_of_lt hfuel)
    have hnext : (s.node p).next ≠ 0 := by
      intro hzero
      cases pre with
      | nil => exact hrest.2.1 (hrest.1.symm.trans hzero)
      | cons c pre => exact hrest.2.1 (hrest.1.symm.trans hzero)
    rw [lastChildLoop, Ramfs.deref, if_neg hp, Option.bind_some, if_neg hnext]
    exact ih hrest (Nat.lt_of_succ_lt_succ hfuel)

/-- Without children there is nothing to append to. -/
theorem FileTree.appendChild_of_nil (h : FileTree s T) (hP : P ∈ T.nodes) (hnil : T.childrenOf P = []) (a : Nat) :
    appendChild s P a = none := by
  rw [appendChild, ramfsGetLastChild, Ramfs.deref, if_neg (h.ne_zero hP), Option.bind_some,
    (h.children_eq_zero hP).mpr hnil]
  rfl

/-- A node is appended to the last child. -/
theorem FileTree.appendChild_of_concat (h : FileTree s T) (hP : P ∈ T.nodes) {pre : List Nat} {last : Nat}
    (hlist : T.childrenOf P = pre ++ [last]) (a : Nat) :
    appendChild s P a = some (s.setNode last { s.node last with next := a }) := by
  have hseg := h.seg hP
  have hlength := h.length_childrenOf (D := P)
  rw [hlist] at hseg hlength
  have hlast : last ∈ T.nodes := by
    refine Forest.childrenOf_subset T (x := P) ?_
    rw [hlist]
    exact List.mem_append_right _ List.mem_cons_self
  rw [List.length_append] at hlength
  rw [appendChild, ramfsGetLastChild, Ramfs.deref, if_neg (h.ne_zero hP), Option.bind_some,
    lastChildLoop_seg hseg (Nat.lt_of_succ_lt hlength), Option.bind_some, update_eq (h.ne_zero hlast)]

/-- A node can be appended exactly where there is a last child. -/
theorem FileTree.appended (h : FileTree s T) (hP : P ∈ T.nodes)
    (hrun : appendChild s P a = some s') :
    ∃ pre last, T.childrenOf P = pre ++ [last] ∧
      s' = s.setNode last { s.node last with next := a } := by
  rcases List.eq_nil_or_concat (T.childrenOf P) with hnil | ⟨pre, last, hlist⟩
  · rw [h.appendChild_of_nil hP hnil] at hrun
    cases hrun
  · rw [List.concat_eq_append] at hlist
    rw [h.appendChild_of_concat hP hlist] at hrun
    exact ⟨pre, last, hlist, (Option.some.inj hrun).symm⟩

/-! ## A new child -/

/-- A node `a` with the forest `k` below it has become the last child of `P`; every node in `k` is
a link. -/
structure Attached (T : Forest Nat) (P a : Nat) (k : Forest Nat) (s s' : Ramfs) : Prop where
  parent : P ∈ T.nodes
  root : s'.root = s.root
  heap : s'.heap.Ok
  grow : s.heap.currentPointer ≤ s'.heap.currentPointer
  append : ∃ pre last, T.childrenOf P = pre ++ [last] ∧ s'.nextPtr last = a ∧
    ∀ x ∈ T.nodes, ∃ next, s'.node x = { s.node x with next := next } ∧
      (x ≠ last → next = (s.node x).next)
  fresh : ∀ x ∈ (Forest.cons a k .nil).nodes,
    s.heap.currentPointer ≤ x ∧ x < s'.heap.currentPointer
  once : (Forest.cons a k .nil).nodes.Nodup
  spans : (Forest.cons a k .nil).Spans s'.childPtr s'.nextPtr 0 a
  kind : ∀ x ∈ (Forest.cons a k .nil).nodes, NodeOk (s'.node x)
  type : (s'.node a).type ≠ .symlink
  legal : FileName (s'.node a).name
  links : ∀ D, ∀ x ∈ (Forest.cons a k .nil).childrenOf D, (s'.node x).type = .symlink ∧
    ((s'.node x).name = DOT_NAME ∧ (s'.node x).nodePtr = D ∨
      (s'.node x).name = DOTDOT_NAME ∧ D = a ∧ (s'.node x).nodePtr = P)
  empty : ∀ x ∈ (Forest.cons a k .nil).nodes, (s'.node x).length = 0

section Attach

theorem Attached.node (h : Attached T P a k s s') (hx : x ∈ T.nodes) :
    ∃ next, s'.node x = { s.node x with next := next } := by
  obtain ⟨_, _, _, _, hnode⟩ := h.append
  obtain ⟨next, hnext, -⟩ := hnode x hx
  exact ⟨next, hnext⟩

/-- New nodes are not in the tree. -/
theorem Attached.new (h : Attached T P a k s s') (ht : FileTree s T)
    (hx : x ∈ (Forest.cons a k .nil).nodes) : x ∉ T.nodes := fun hmem =>
  Nat.not_lt.mpr (h.fresh x hx).1 (ht.below x hmem)

theorem Attached.childrenOf (h : Attached T P a k s s') (ht : FileTree s T) (hD : D ∈ T.nodes) :
    (Forest.addChild P a k T).childrenOf D = if D = P then T.childrenOf D ++ [a] else T.childrenOf D :=
  Forest.childrenOf_addChild ht.once (h.new ht List.mem_cons_self)
    (fun _ hy => h.new ht (List.mem_cons_of_mem _ (List.mem_append_left _ hy))) hD

theorem Attached.childrenOf_new (h : Attached T P a k s s') (ht : FileTree s T)
    (hD : D ∉ T.nodes) :
    (Forest.addChild P a k T).childrenOf D = (Forest.cons a k .nil).childrenOf D :=
  Forest.childrenOf_addChild_new ht.once h.parent hD

/-- The children in the grown tree: the old ones, the new node, and what came with it. -/
theorem Attached.mem_childrenOf (h : Attached T P a k s s') (ht : FileTree s T)
    (hx : x ∈ (Forest.addChild P a k T).childrenOf D) :
    x ∈ T.childrenOf D ∨ D = P ∧ x = a ∨ D ∉ T.nodes ∧ x ∈ (Forest.cons a k .nil).childrenOf D := by
  by_cases hD : D ∈ T.nodes
  · rw [h.childrenOf ht hD] at hx
    split at hx
    · next heq =>
      rcases List.mem_append.mp hx with hold | hnew
      · exact .inl hold
      · exact .inr (.inl ⟨heq, List.mem_singleton.mp hnew⟩)
    · exact .inl hx
  · rw [h.childrenOf_new ht hD] at hx
    exact .inr (.inr ⟨hD, hx⟩)

theorem Attached.childrenOf_mono (h : Attached T P a k s s') (ht : FileTree s T)
    (hx : x ∈ T.childrenOf D) : x ∈ (Forest.addChild P a k T).childrenOf D := by
  rw [h.childrenOf ht (Forest.parent_mem hx)]
  split
  · exact List.mem_append_left _ hx
  · exact hx

theorem Attached.mem_parent (h : Attached T P a k s s') (ht : FileTree s T) :
    a ∈ (Forest.addChild P a k T).childrenOf P := by
  rw [h.childrenOf ht h.parent, if_pos rfl]
  exact List.mem_append_right _ List.mem_cons_self

theorem Attached.mem_nodes (h : Attached T P a k s s') (ht : FileTree s T) :
    x ∈ (Forest.addChild P a k T).nodes ↔ x ∈ T.nodes ∨ x ∈ (Forest.cons a k .nil).nodes := by
  have hnew : x ∈ (Forest.cons a k .nil).nodes ↔ x = a ∨ x ∈ k.nodes := by
    rw [Forest.nodes, Forest.nodes, List.append_nil, List.mem_cons]
  rw [Forest.mem_nodes_addChild ht.once h.parent, hnew]

/-- A tree with a new child is a file tree. -/
theorem Attached.fileTree (h : Attached T P a k s s') (ht : FileTree s T) :
    FileTree s' (Forest.addChild P a k T) := by
  obtain ⟨pre, last, hlist, hlast, hnode⟩ := h.append
  have hsplit {x : Nat} (hx : x ∈ (Forest.addChild P a k T).nodes) :
      x ∈ T.nodes ∨ x ∈ (Forest.cons a k .nil).nodes := (h.mem_nodes ht).mp hx
  refine ⟨h.root.trans ht.root, ?_, ?_, ?_, ?_, h.heap, ?_, ?_, ?_, ?_⟩
  · rw [Forest.roots_addChild]
    exact ht.top
  · refine ht.spans.addChild ht.once h.parent hlist h.spans hlast fun x hx => ?_
    obtain ⟨next, hnext, hkeep⟩ := hnode x hx
    rw [Ramfs.childPtr, Ramfs.childPtr, Ramfs.nextPtr, Ramfs.nextPtr, hnext]
    exact ⟨rfl, hkeep⟩
  · refine (Forest.nodes_addChild ht.once h.parent).nodup_iff.mpr ?_
    have hnew : (a :: k.nodes).Nodup := by
      have hnodup := h.once
      rwa [Forest.nodes, Forest.nodes, List.append_nil] at hnodup
    refine List.nodup_append.mpr ⟨ht.once, hnew, fun x hx y hy heq => ?_⟩
    have hmem : y ∈ (Forest.cons a k .nil).nodes := by
      rwa [Forest.nodes, Forest.nodes, List.append_nil]
    exact h.new ht hmem (heq ▸ hx)
  · intro x hx
    rcases hsplit hx with hold | hnew
    · exact Nat.lt_of_lt_of_le (ht.below x hold) h.grow
    · exact (h.fresh x hnew).2
  · obtain ⟨next, hnext⟩ := h.node ht.root_mem
    rw [hnext]
    exact ht.rootDir
  · intro x hx
    rcases hsplit hx with hold | hnew
    · obtain ⟨next, hnext⟩ := h.node hold
      have hkind := ht.kind x hold
      rw [hnext]
      exact ⟨hkind.type, hkind.callbacks, hkind.children⟩
    · exact h.kind x hnew
  · intro D x hx htype
    rcases h.mem_childrenOf ht hx with hold | ⟨-, rfl⟩ | ⟨-, hnew⟩
    · obtain ⟨next, hnext⟩ := h.node (Forest.childrenOf_subset T hold)
      rw [hnext] at htype
      rw [LinkOk, hnext]
      refine (ht.links D x hold htype).imp_right fun hup => ⟨hup.1, ?_⟩
      exact hup.2.imp_left fun hparent => h.childrenOf_mono ht hparent
    · exact absurd htype h.type
    · refine (h.links D x hnew).2.imp_right fun hup => ⟨hup.1, .inl ?_⟩
      rw [hup.2.2, hup.2.1]
      exact h.mem_parent ht
  · intro D x hx htype
    rcases h.mem_childrenOf ht hx with hold | ⟨-, rfl⟩ | ⟨-, hnew⟩
    · obtain ⟨next, hnext⟩ := h.node (Forest.childrenOf_subset T hold)
      rw [hnext] at htype ⊢
      exact ht.names D x hold htype
    · exact h.legal
    · exact absurd (h.links D x hnew).1 htype

end Attach

/-! ## The nodes that are filled in -/

/-- A node as `ramfs_mkDir` and `ramfs_newRegFile` leave it. -/
def newNode (name : List UInt8) (ino : Nat) (type : FType) (children : Nat) : RamfsFileHeader where
  name := (strncpy name MAX_FNAME).bytes
  ino := ino
  type := type
  length := 0
  callbacks := callbacksOf type
  nodePtr := 0
  filePtr := 0
  next := 0
  children := children

/-- A node as `fs_get_simlink` leaves it. -/
def linkNode (name : List UInt8) (ino target next : Nat) : RamfsFileHeader where
  name := name
  ino := ino
  type := .symlink
  length := 0
  callbacks := noCallbacks
  nodePtr := target
  filePtr := 0
  next := next
  children := 0

/-- The state with the next inode number taken. -/
def Ramfs.takeIno (s : Ramfs) : Ramfs := { s with lastIno := MachineInt.u32 (s.lastIno + 1) }

@[simp] theorem takeIno_heap : s.takeIno.heap = s.heap := rfl

theorem fillNode_zero (hp : p ≠ 0) (hzero : s.node p = zeroNode) (name : List UInt8) (type : FType) :
    fillNode s p name type (callbacksOf type) =
      some (s.takeIno.setNode p (newNode name s.lastIno type 0)) := by
  rw [fillNode, update_eq hp]
  dsimp only [fsNewInoId]
  rw [hzero]
  rfl

theorem fsGetSimlink_zero (hp : p ≠ 0) (hzero : s.node p = zeroNode) {name : List UInt8}
    (hname : name.length ≤ MAX_FNAME) (target : Nat) :
    fsGetSimlink s name target p = some (s.takeIno.setNode p (linkNode name s.lastIno target 0)) := by
  rw [fsGetSimlink, update_eq hp]
  dsimp only [fsNewInoId]
  rw [hzero, strncpy, List.take_of_length_le hname]
  rfl

/-- A fresh node: nothing else has changed. -/
structure Fresh (s s₁ : Ramfs) (a : Nat) : Prop where
  addr : a = s.heap.currentPointer
  pos : a ≠ 0
  root : s₁.root = s.root
  lastIno : s₁.lastIno = s.lastIno
  heap : s₁.heap.Ok
  limit : s₁.heap.limit = s.heap.limit
  pointer : s₁.heap.currentPointer = a + SIZEOF_NODE
  freed : s₁.heap.freed = s.heap.freed
  zero : s₁.node a = zeroNode
  other : ∀ q ≠ a, s₁.node q = s.node q

theorem ramfsAllocNode_fresh (hok : s.heap.Ok) (hne : (ramfsAllocNode s).1 ≠ 0) :
    Fresh s (ramfsAllocNode s).2 (ramfsAllocNode s).1 := by
  obtain ⟨hok', hlimit, hblock, hptr⟩ := hok.kmalloc SIZEOF_NODE (by decide) (by decide)
  have hfreed := kmalloc_freed s.heap SIZEOF_NODE
  unfold ramfsAllocNode at hne ⊢
  dsimp only at hne ⊢
  generalize kmalloc s.heap SIZEOF_NODE = r at *
  split at hne
  · exact absurd rfl hne
  · next hpos =>
    have hfit : s.heap.currentPointer + SIZEOF_NODE ≤ s.heap.limit := by
      by_contra hfull
      rw [if_neg hfull] at hblock
      exact hpos hblock
    rw [if_pos hfit] at hblock hptr
    rw [if_neg hpos]
    refine ⟨hblock, hpos, rfl, rfl, hok', hlimit, ?_, hfreed, if_pos rfl, fun q hq => if_neg hq⟩
    dsimp only
    rw [hptr, hblock]

/-- No node, since the heap is full: nothing has changed but memory. -/
structure NoNode (s s₁ : Ramfs) : Prop where
  full : s.heap.limit < s.heap.currentPointer + SIZEOF_NODE
  root : s₁.root = s.root
  heap : s₁.heap.Ok
  pointer : s₁.heap.currentPointer = s.heap.currentPointer
  freed : s₁.heap.freed = s.heap.freed
  node : s₁.node = s.node

theorem ramfsAllocNode_none (hok : s.heap.Ok) (hzero : (ramfsAllocNode s).1 = 0) :
    NoNode s (ramfsAllocNode s).2 := by
  obtain ⟨hok', -, hblock, hptr⟩ := hok.kmalloc SIZEOF_NODE (by decide) (by decide)
  have hfreed := kmalloc_freed s.heap SIZEOF_NODE
  unfold ramfsAllocNode at hzero ⊢
  dsimp only at hzero ⊢
  generalize kmalloc s.heap SIZEOF_NODE = r at *
  split at hzero
  · next hnull =>
    have hfull : ¬ s.heap.currentPointer + SIZEOF_NODE ≤ s.heap.limit := by
      intro hfit
      rw [if_pos hfit] at hblock
      exact hok.pointer_ne (hblock.symm.trans hnull)
    rw [if_neg hfull] at hptr
    rw [if_pos hnull]
    exact ⟨Nat.not_le.mp hfull, rfl, hok', hptr, hfreed, rfl⟩
  · next hpos => exact absurd hzero hpos

theorem NoNode.keeps {s₁ : Ramfs} (h : NoNode s s₁) : KeepsTree T s s₁ :=
  ⟨h.root, fun _ _ => congrFun h.node _, h.heap, Nat.le_of_eq h.pointer.symm⟩

/-- After `k` nodes there was no room for the next one, and the blocks `frees` were freed: nothing below
the allocator's pointer has changed. -/
structure OutOfRoom (s s' : Ramfs) (k : Nat) (frees : List Nat) : Prop where
  fits : s.heap.currentPointer + k * SIZEOF_NODE ≤ s.heap.limit
  full : s.heap.limit < s.heap.currentPointer + (k + 1) * SIZEOF_NODE
  root : s'.root = s.root
  heap : s'.heap.Ok
  pointer : s'.heap.currentPointer = s.heap.currentPointer + k * SIZEOF_NODE
  freed : s'.heap.freed = s.heap.freed ++ frees
  node : ∀ x < s.heap.currentPointer, s'.node x = s.node x

theorem NoNode.outOfRoom {s₁ : Ramfs} (hok : s.heap.Ok) (h : NoNode s s₁) : OutOfRoom s s₁ 0 [] where
  fits := by
    rw [Nat.zero_mul]
    exact hok.below
  full := by
    rw [Nat.zero_add, Nat.one_mul]
    exact h.full
  root := h.root
  heap := h.heap
  pointer := by
    rw [Nat.zero_mul]
    exact h.pointer
  freed := by
    rw [List.append_nil]
    exact h.freed
  node := fun _ _ => congrFun h.node _

theorem OutOfRoom.kfree {i : Nat} {frees : List Nat} (h : OutOfRoom s s' i frees) (ptr : Nat) :
    OutOfRoom s (s'.kfree ptr) i (frees ++ [ptr]) where
  fits := h.fits
  full := h.full
  root := h.root
  heap := ⟨h.heap.start, h.heap.above, h.heap.below, h.heap.high⟩
  pointer := h.pointer
  freed := by
    rw [Ramfs.kfree_freed, h.freed, List.append_assoc]
  node := h.node

/-- A node that fitted comes on top. -/
theorem OutOfRoom.of_fresh {s₁ : Ramfs} {i : Nat} {frees : List Nat} {n : RamfsFileHeader}
    (h : Fresh s s₁ a) (hroom : OutOfRoom (s₁.takeIno.setNode a n) s' i frees) :
    OutOfRoom s s' (i + 1) frees := by
  have hpointer : (s₁.takeIno.setNode a n).heap.currentPointer =
      s.heap.currentPointer + SIZEOF_NODE := by
    rw [setNode_heap, takeIno_heap, h.pointer, h.addr]
  have hlimit : (s₁.takeIno.setNode a n).heap.limit = s.heap.limit := h.limit
  have hfits := hroom.fits
  have hfull := hroom.full
  have hpointer' := hroom.pointer
  rw [hpointer] at hfits hfull hpointer'
  rw [hlimit] at hfits hfull
  refine ⟨?_, ?_, hroom.root.trans h.root, hroom.heap, ?_, ?_, ?_⟩
  · rwa [Nat.add_one_mul, Nat.add_comm (i * _), ← Nat.add_assoc]
  · rwa [Nat.add_one_mul, Nat.add_comm _ SIZEOF_NODE, ← Nat.add_assoc]
  · rwa [Nat.add_one_mul, Nat.add_comm (i * _), ← Nat.add_assoc]
  · rw [hroom.freed, setNode_heap, takeIno_heap, h.freed]
  · intro x hx
    have hne : x ≠ a := Nat.ne_of_lt (h.addr ▸ hx)
    rw [hroom.node x (hpointer ▸ Nat.lt_add_right _ hx), setNode_ne _ hne]
    exact h.other x hne

theorem OutOfRoom.keeps {i : Nat} {frees : List Nat} (h : OutOfRoom s s' i frees)
    (hbelow : ∀ x ∈ T.nodes, x < s.heap.currentPointer) : KeepsTree T s s' where
  root := h.root
  node := fun x hx => h.node x (hbelow x hx)
  heap := h.heap
  grow := by
    rw [h.pointer]
    exact Nat.le_add_right _ _

/-- Filling a fresh node in changes nothing of the tree. -/
theorem Fresh.keeps {s₁ : Ramfs} (h : Fresh s s₁ a) (hbelow : ∀ x ∈ T.nodes, x < s.heap.currentPointer)
    (n : RamfsFileHeader) : KeepsTree T s (s₁.takeIno.setNode a n) where
  root := h.root
  node := fun x hx => by
    have hne : x ≠ a := Nat.ne_of_lt (h.addr ▸ hbelow x hx)
    rw [setNode_ne _ hne]
    exact h.other x hne
  heap := h.heap
  grow := by
    refine Nat.le_trans ?_ (Nat.le_of_eq h.pointer.symm)
    rw [h.addr]
    exact Nat.le_add_right _ _

/-- The three nodes of a new directory, before it is appended to its parent. -/
structure NewDir (s s₁ : Ramfs) (P d : Nat) (name : List UInt8) : Prop where
  addr : d = s.heap.currentPointer
  pos : d ≠ 0
  root : s₁.root = s.root
  heap : s₁.heap.Ok
  pointer : s₁.heap.currentPointer = d + 3 * SIZEOF_NODE
  dir : s₁.node d = newNode name s.lastIno .directory (d + SIZEOF_NODE)
  dot : ∃ ino, s₁.node (d + SIZEOF_NODE) = linkNode DOT_NAME ino d (d + 2 * SIZEOF_NODE)
  dotdot : ∃ ino, s₁.node (d + 2 * SIZEOF_NODE) = linkNode DOTDOT_NAME ino P 0
  other : ∀ q < d, s₁.node q = s.node q

theorem Fresh.fill {s₁ : Ramfs} (h : Fresh s s₁ a) (name : List UInt8) (type : FType) :
    fillNode s₁ a name type (callbacksOf type) =
      some (s₁.takeIno.setNode a (newNode name s.lastIno type 0)) := by
  rw [fillNode_zero h.pos h.zero, h.lastIno]

theorem Fresh.link {s₁ : Ramfs} (h : Fresh s s₁ a) {name : List UInt8}
    (hname : name.length ≤ MAX_FNAME) (target : Nat) :
    fsGetSimlink s₁ name target a =
      some (s₁.takeIno.setNode a (linkNode name s.lastIno target 0)) := by
  rw [fsGetSimlink_zero h.pos h.zero hname, h.lastIno]

/-- The links of a directory that has no children yet. -/
theorem linkDots_eq {d c u : Nat} (hd : d ≠ 0) (hc : c ≠ 0) (hu : u ≠ 0)
    (hchildren : (s.node d).children = 0) :
    linkDots s d c u =
      some (let s₁ := s.setNode d { s.node d with children := c }
        let s₂ := s₁.setNode c { s₁.node c with next := u }
        s₂.setNode u { s₂.node u with next := 0 }) := by
  rw [linkDots, Ramfs.deref, if_neg hd, Option.bind_some, if_pos hchildren, update_eq hd,
    Option.bind_some, update_eq hc, Option.bind_some, update_eq hu]

/-- A directory without children has got its links: two fresh nodes. -/
structure Dotted (s s₁ : Ramfs) (d P c u : Nat) : Prop where
  dotAddr : c = s.heap.currentPointer
  dotdotAddr : u = c + SIZEOF_NODE
  root : s₁.root = s.root
  heap : s₁.heap.Ok
  pointer : s₁.heap.currentPointer = u + SIZEOF_NODE
  dir : s₁.node d = { s.node d with children := c }
  dot : ∃ ino, s₁.node c = linkNode DOT_NAME ino d u
  dotdot : ∃ ino, s₁.node u = linkNode DOTDOT_NAME ino P 0
  other : ∀ q, q ≠ d → q ≠ c → q ≠ u → s₁.node q = s.node q

theorem Dotted.of_fresh {s₃ s₄ s₅ s₆ : Ramfs} {d c u P : Nat} (hd : d ≠ 0)
    (hbelow : d < s.heap.currentPointer) (hchildren : (s.node d).children = 0) (h₃ : Fresh s s₃ c)
    (hs₄ : s₄ = s₃.takeIno.setNode c (linkNode DOT_NAME s.lastIno d 0)) (h₅ : Fresh s₄ s₅ u)
    (hs₆ : s₆ = s₅.takeIno.setNode u (linkNode DOTDOT_NAME s₄.lastIno P 0)) :
    ∃ s₇, linkDots s₆ d c u = some s₇ ∧ Dotted s s₇ d P c u := by
  have hsize : SIZEOF_NODE = 200 := rfl
  have hc : c = s.heap.currentPointer := h₃.addr
  have hu : u = c + SIZEOF_NODE := by
    rw [h₅.addr, hs₄]
    exact h₃.pointer
  have hdc : d ≠ c := by omega
  have hdu : d ≠ u := by omega
  have hcu : c ≠ u := by omega
  have hd₆ : s₆.node d = s.node d := by
    rw [hs₆, setNode_ne _ hdu]
    refine (h₅.other d hdu).trans ?_
    rw [hs₄, setNode_ne _ hdc]
    exact h₃.other d hdc
  have hc₆ : s₆.node c = linkNode DOT_NAME s.lastIno d 0 := by
    rw [hs₆, setNode_ne _ hcu]
    refine (h₅.other c hcu).trans ?_
    rw [hs₄, setNode_self]
  have hu₆ : s₆.node u = linkNode DOTDOT_NAME s₄.lastIno P 0 := by
    rw [hs₆, setNode_self]
  have hchildren₆ : (s₆.node d).children = 0 := by
    rw [hd₆]
    exact hchildren
  refine ⟨_, linkDots_eq hd h₃.pos h₅.pos hchildren₆, hc, hu, ?_, ?_, ?_, ?_, ?_, ?_, ?_⟩
  · rw [setNode_root, setNode_root, setNode_root, hs₆]
    refine h₅.root.trans ?_
    rw [hs₄]
    exact h₃.root
  · rw [setNode_heap, setNode_heap, setNode_heap, hs₆]
    exact h₅.heap
  · rw [setNode_heap, setNode_heap, setNode_heap, hs₆]
    exact h₅.pointer
  · rw [setNode_ne _ hdu, setNode_ne _ hdc, setNode_self, hd₆]
  · refine ⟨s.lastIno, ?_⟩
    rw [setNode_ne _ hcu, setNode_self, setNode_ne _ (Ne.symm hdc), hc₆]
    rfl
  · refine ⟨s₄.lastIno, ?_⟩
    rw [setNode_self, setNode_ne _ (Ne.symm hcu), setNode_ne _ (Ne.symm hdu), hu₆]
    rfl
  · intro q hqd hqc hqu
    rw [setNode_ne _ hqu, setNode_ne _ hqc, setNode_ne _ hqd, hs₆, setNode_ne _ hqu]
    refine (h₅.other q hqu).trans ?_
    rw [hs₄, setNode_ne _ hqc]
    exact h₃.other q hqc

/-- The two nodes for the links of a directory `d`: the first or the second does not fit, or both are
filled in and can be linked. -/
theorem allocDots_cases (hok : s.heap.Ok) (d P : Nat) :
    (ramfsAllocNode s).1 = 0 ∧ OutOfRoom s (ramfsAllocNode s).2 0 [] ∨
      (ramfsAllocNode s).1 ≠ 0 ∧ (ramfsAllocNode s).1 = s.heap.currentPointer ∧
      ∃ s₄, fsGetSimlink (ramfsAllocNode s).2 DOT_NAME d (ramfsAllocNode s).1 = some s₄ ∧
        ((ramfsAllocNode s₄).1 = 0 ∧ OutOfRoom s (ramfsAllocNode s₄).2 1 [] ∨
          (ramfsAllocNode s₄).1 ≠ 0 ∧ s.heap.currentPointer + 2 * SIZEOF_NODE ≤ s.heap.limit ∧
          ∃ s₆, fsGetSimlink (ramfsAllocNode s₄).2 DOTDOT_NAME P (ramfsAllocNode s₄).1 = some s₆ ∧
            (d ≠ 0 → d < s.heap.currentPointer → (s.node d).children = 0 →
              ∃ s₇, linkDots s₆ d (ramfsAllocNode s).1 (ramfsAllocNode s₄).1 = some s₇ ∧
                Dotted s s₇ d P (ramfsAllocNode s).1 (ramfsAllocNode s₄).1)) := by
  by_cases hc : (ramfsAllocNode s).1 = 0
  · exact .inl ⟨hc, (ramfsAllocNode_none hok hc).outOfRoom hok⟩
  · have h₃ := ramfsAllocNode_fresh hok hc
    refine .inr ⟨hc, h₃.addr, _, h₃.link (by decide) d, ?_⟩
    have hroom : ∀ s' k frees, OutOfRoom ((ramfsAllocNode s).2.takeIno.setNode (ramfsAllocNode s).1
        (linkNode DOT_NAME s.lastIno d 0)) s' k frees → OutOfRoom s s' (k + 1) frees :=
      fun _ _ _ => .of_fresh h₃
    generalize hs₄ : (ramfsAllocNode s).2.takeIno.setNode (ramfsAllocNode s).1
      (linkNode DOT_NAME s.lastIno d 0) = s₄ at hroom ⊢
    have hheap : s₄.heap = (ramfsAllocNode s).2.heap := by
      rw [← hs₄, setNode_heap, takeIno_heap]
    have hok₄ : s₄.heap.Ok := by
      rw [hheap]
      exact h₃.heap
    by_cases hu : (ramfsAllocNode s₄).1 = 0
    · exact .inl ⟨hu, hroom _ _ _ ((ramfsAllocNode_none hok₄ hu).outOfRoom hok₄)⟩
    · have h₅ := ramfsAllocNode_fresh hok₄ hu
      refine .inr ⟨hu, ?_, _, h₅.link (by decide) P, fun hd hbelow hchildren =>
        Dotted.of_fresh hd hbelow hchildren h₃ hs₄.symm h₅ rfl⟩
      have hfits := h₅.heap.below
      have hlimit : (ramfsAllocNode s₄).2.heap.limit = s.heap.limit :=
        h₅.limit.trans ((congrArg Kheap.limit hheap).trans h₃.limit)
      have hpointer : s₄.heap.currentPointer = s.heap.currentPointer + SIZEOF_NODE := by
        rw [hheap, h₃.pointer, h₃.addr]
      rw [← Kheap.limit, hlimit, h₅.pointer, h₅.addr, hpointer] at hfits
      rwa [Nat.two_mul, ← Nat.add_assoc]

/-- The three nodes of a new directory are three blocks in a row. -/
theorem NewDir.of_dotted {s₁ s₇ : Ramfs} {d c u P : Nat} (h : Fresh s s₁ d)
    (hdotted : Dotted (s₁.takeIno.setNode d (newNode name s.lastIno .directory 0)) s₇ d P c u) :
    NewDir s s₇ P d name := by
  have hsize : SIZEOF_NODE = 200 := rfl
  have hc : c = d + SIZEOF_NODE := hdotted.dotAddr.trans h.pointer
  have hu : u = d + 2 * SIZEOF_NODE := by
    have haddr := hdotted.dotdotAddr
    omega
  refine ⟨h.addr, h.pos, ?_, hdotted.heap, ?_, ?_, ?_, ?_, ?_⟩
  · exact hdotted.root.trans h.root
  · have hpointer := hdotted.pointer
    omega
  · rw [hdotted.dir, setNode_self, hc]
    rfl
  · rw [← hc, ← hu]
    exact hdotted.dot
  · rw [← hu]
    exact hdotted.dotdot
  · intro q hq
    have hqd : q ≠ d := Nat.ne_of_lt hq
    have hqc : q ≠ c := by omega
    have hqu : q ≠ u := by omega
    rw [hdotted.other q hqd hqc hqu, setNode_ne _ hqd]
    exact h.other q hqd

/-! ## The two calls -/

/-- What a `ramfs_mkDir` frees when there is room for `k` nodes only. -/
def mkDirFrees (currentPointer : Nat) : Nat → List Nat
  | 0 => []
  | 1 => [currentPointer, 0]
  | _ => [currentPointer + SIZEOF_NODE]

theorem ramfsMkDir_refused {path : List UInt8} {err : RfsErr}
    (hparent : creationParent s name path = some (err, P)) (herr : err ≠ .ok) :
    ramfsMkDir s name path = some (s, 0, err) := by
  rw [ramfsMkDir, hparent, Option.bind_some, if_pos herr]

theorem ramfsNewRegFile_refused {path : List UInt8} {err : RfsErr}
    (hparent : creationParent s name path = some (err, P)) (herr : err ≠ .ok) :
    ramfsNewRegFile s name path = some (s, 0, err) := by
  rw [ramfsNewRegFile, hparent, Option.bind_some, if_pos herr]

/-- A call that is refused, or fails, or ends with an append: `failed` holds of the state after a failure,
`made` of the state before the append. -/
theorem creation_outcome {path : List UInt8} {err : RfsErr} {create : Option (Ramfs × Nat × RfsErr)}
    {failed : Ramfs → Prop} {made : Nat → Ramfs → Nat → Prop}
    (hparent : ∃ r, creationParent s name path = some r) (hself : failed s)
    (hrefused : ∀ P err, creationParent s name path = some (err, P) → err ≠ .ok → create = some (s, 0, err))
    (haccepted : ∀ P, creationParent s name path = some (.ok, P) →
      (∃ s₁, create = some (s₁, 0, .nok) ∧ failed s₁) ∨
        ∃ s₁ a, made P s₁ a ∧ create = (appendChild s₁ P a).map fun s => (s, a, .ok))
    (hrun : create = some (s', x, err)) :
    x = 0 ∧ err ≠ .ok ∧ failed s' ∨
      err = .ok ∧ ∃ P s₁, creationParent s name path = some (.ok, P) ∧ made P s₁ x ∧
        appendChild s₁ P x = some s' := by
  obtain ⟨⟨err', P⟩, hparent⟩ := hparent
  by_cases hok : err' = .ok
  · subst hok
    rcases haccepted P hparent with ⟨s₁, hfail, hfailed⟩ | ⟨s₁, a, hmade, happend⟩
    · rw [hfail] at hrun
      obtain ⟨rfl, rfl, rfl⟩ : s₁ = s' ∧ 0 = x ∧ RfsErr.nok = err := by simpa using hrun
      exact .inl ⟨rfl, RfsErr.noConfusion, hfailed⟩
    · rw [happend] at hrun
      obtain ⟨s₂, happend, hresult⟩ := Option.map_eq_some_iff.mp hrun
      obtain ⟨rfl, rfl, rfl⟩ : s₂ = s' ∧ a = x ∧ RfsErr.ok = err := by simpa using hresult
      exact .inr ⟨rfl, P, s₁, hparent, hmade, happend⟩
  · rw [hrefused P err' hparent hok] at hrun
    obtain ⟨rfl, rfl, rfl⟩ : s = s' ∧ 0 = x ∧ err' = err := by simpa using hrun
    exact .inl ⟨rfl, hok, hself⟩

/-- Once the parent is found, `ramfs_mkDir` fails for want of memory, or appends a new directory. -/
theorem ramfsMkDir_cases {path : List UInt8} (hok : s.heap.Ok)
    (hparent : creationParent s name path = some (.ok, P)) :
    (∃ s' k, k < 3 ∧ ramfsMkDir s name path = some (s', 0, .nok) ∧
      OutOfRoom s s' k (mkDirFrees s.heap.currentPointer k)) ∨
      s.heap.currentPointer + 3 * SIZEOF_NODE ≤ s.heap.limit ∧ ∃ s₇ d, NewDir s s₇ P d name ∧
        ramfsMkDir s name path = (appendChild s₇ P d).map fun s => (s, d, .ok) := by
  rw [ramfsMkDir, hparent, Option.bind_some, if_neg (not_not.mpr rfl)]
  dsimp only
  split
  · next hzero =>
    exact .inl ⟨_, 0, by decide, rfl, (ramfsAllocNode_none hok hzero).outOfRoom hok⟩
  · next hd =>
    have h₁ := ramfsAllocNode_fresh hok hd
    have hdir : ((ramfsAllocNode s).2.takeIno.setNode (ramfsAllocNode s).1
        (newNode name s.lastIno .directory 0)).node (ramfsAllocNode s).1 =
          newNode name s.lastIno .directory 0 := setNode_self _
    have hheap : ((ramfsAllocNode s).2.takeIno.setNode (ramfsAllocNode s).1
        (newNode name s.lastIno .directory 0)).heap = (ramfsAllocNode s).2.heap := by
      rw [setNode_heap, takeIno_heap]
    rw [show dirCallbacks = callbacksOf .directory from rfl, h₁.fill name .directory, Option.bind_some,
      ← h₁.addr]
    have hroom : ∀ s' k frees, OutOfRoom ((ramfsAllocNode s).2.takeIno.setNode (ramfsAllocNode s).1
        (newNode name s.lastIno .directory 0)) s' k frees → OutOfRoom s s' (k + 1) frees :=
      fun _ _ _ => .of_fresh h₁
    have hnewDir : ∀ s₇ c u, Dotted ((ramfsAllocNode s).2.takeIno.setNode (ramfsAllocNode s).1
        (newNode name s.lastIno .directory 0)) s₇ (ramfsAllocNode s).1 P c u →
          NewDir s s₇ P (ramfsAllocNode s).1 name := fun _ _ _ => .of_dotted h₁
    -- From the directory's node on, only these facts about the state with it count.
    generalize (ramfsAllocNode s).2.takeIno.setNode (ramfsAllocNode s).1
      (newNode name s.lastIno .directory 0) = s₂ at hdir hheap hroom hnewDir ⊢
    have haddr : s₂.heap.currentPointer = (ramfsAllocNode s).1 + SIZEOF_NODE := by
      rw [hheap]
      exact h₁.pointer
    have hok₂ : s₂.heap.Ok := by
      rw [hheap]
      exact h₁.heap
    rcases allocDots_cases hok₂ (ramfsAllocNode s).1 P with ⟨hc, hfull⟩ | ⟨hc, hcaddr, s₄, hdot, hup⟩
    · rw [if_pos hc]
      refine .inl ⟨_, 1, by decide, rfl, ?_⟩
      rw [hc]
      exact ((hroom _ _ _ hfull).kfree _).kfree 0
    · rw [if_neg hc, hdot, Option.bind_some]
      rcases hup with ⟨hu, hfull⟩ | ⟨hu, hlimit, s₆, hdotdot, hlink⟩
      · rw [if_pos hu]
        refine .inl ⟨_, 2, by decide, rfl, ?_⟩
        rw [mkDirFrees, ← haddr, hcaddr]
        · exact (hroom _ _ _ hfull).kfree _
        all_goals decide
      · obtain ⟨s₇, hlinked, hdotted⟩ := hlink hd
          (haddr ▸ Nat.lt_add_of_pos_right (by decide)) (by rw [hdir]; rfl)
        rw [if_neg hu, hdotdot, Option.bind_some, hlinked, Option.bind_some]
        refine .inr ⟨?_, s₇, _, hnewDir _ _ _ hdotted, rfl⟩
        have hsame : s₂.heap.limit = s.heap.limit := (congrArg Kheap.limit hheap).trans h₁.limit
        rw [haddr, hsame] at hlimit
        omega

/-- `ramfs_mkDir` leaves the tree alone, or appends a new directory with its links. -/
theorem FileTree.mkDir {path : List UInt8} {err : RfsErr} (h : FileTree s T)
    (hrun : ramfsMkDir s name path = some (s', x, err)) :
    x = 0 ∧ err ≠ .ok ∧ KeepsTree T s s' ∨
      err = .ok ∧ ∃ P s₇, creationParent s name path = some (.ok, P) ∧ NewDir s s₇ P x name ∧
        appendChild s₇ P x = some s' := by
  have haccepted (P : Nat) (hparent : creationParent s name path = some (.ok, P)) :
      (∃ s₁, ramfsMkDir s name path = some (s₁, 0, .nok) ∧ KeepsTree T s s₁) ∨
        ∃ s₇ d, NewDir s s₇ P d name ∧
          ramfsMkDir s name path = (appendChild s₇ P d).map fun s => (s, d, .ok) := by
    rcases ramfsMkDir_cases h.heap hparent with ⟨s₁, _, -, hfail, hroom⟩ | ⟨-, hnew⟩
    · exact .inl ⟨s₁, hfail, hroom.keeps h.below⟩
    · exact .inr hnew
  exact creation_outcome ((Option.bind_eq_some_iff.mp hrun).imp fun _ h => h.1) (KeepsTree.refl h.heap)
    (fun _ _ => ramfsMkDir_refused) haccepted hrun

/-- Once the parent is found, `ramfs_newRegFile` fails for want of memory, or appends a new file. -/
theorem FileTree.newRegFile_cases {path : List UInt8} (h : FileTree s T)
    (hparent : creationParent s name path = some (.ok, P)) :
    (s.heap.limit < s.heap.currentPointer + SIZEOF_NODE ∧
      ∃ s', ramfsNewRegFile s name path = some (s', 0, .nok) ∧ KeepsTree T s s') ∨
      s.heap.currentPointer + SIZEOF_NODE ≤ s.heap.limit ∧ ∃ s₁ x, Fresh s s₁ x ∧
        ramfsNewRegFile s name path =
          (appendChild (s₁.takeIno.setNode x (newNode name s.lastIno .regular 0)) P x).map
            fun s => (s, x, .ok) := by
  rw [ramfsNewRegFile, hparent, Option.bind_some, if_neg (not_not.mpr rfl)]
  dsimp only
  split
  · next hzero =>
    have hnone := ramfsAllocNode_none h.heap hzero
    exact .inl ⟨hnone.full, _, rfl, hnone.keeps⟩
  · next hfile =>
    have h₁ := ramfsAllocNode_fresh h.heap hfile
    have haddr₁ := h₁.addr
    have hpointer₁ := h₁.pointer
    have hbelow₁ := h₁.heap.below
    have hlimit₁ := h₁.limit
    rw [Kheap.limit] at hlimit₁
    rw [show regCallbacks = callbacksOf .regular from rfl, h₁.fill name .regular, Option.bind_some]
    exact .inr ⟨by omega, _, _, h₁, rfl⟩

/-- `ramfs_newRegFile` leaves the tree alone, or appends a new file. -/
theorem FileTree.newRegFile {path : List UInt8} {err : RfsErr} (h : FileTree s T)
    (hrun : ramfsNewRegFile s name path = some (s', x, err)) :
    x = 0 ∧ err ≠ .ok ∧ KeepsTree T s s' ∨
      err = .ok ∧ ∃ P s₁, creationParent s name path = some (.ok, P) ∧ Fresh s s₁ x ∧
        appendChild (s₁.takeIno.setNode x (newNode name s.lastIno .regular 0)) P x = some s' := by
  have haccepted (P : Nat) (hparent : creationParent s name path = some (.ok, P)) :
      (∃ s₁, ramfsNewRegFile s name path = some (s₁, 0, .nok) ∧ KeepsTree T s s₁) ∨
        ∃ s₂ a, (∃ s₁, Fresh s s₁ a ∧ s₂ = s₁.takeIno.setNode a (newNode name s.lastIno .regular 0)) ∧
          ramfsNewRegFile s name path = (appendChild s₂ P a).map fun s => (s, a, .ok) := by
    rcases h.newRegFile_cases hparent with ⟨-, s₁, hfail, hkeeps⟩ | ⟨-, s₁, a, hfresh, happend⟩
    · exact .inl ⟨s₁, hfail, hkeeps⟩
    · exact .inr ⟨_, a, ⟨s₁, hfresh, rfl⟩, happend⟩
  rcases creation_outcome ((Option.bind_eq_some_iff.mp hrun).imp fun _ h => h.1) (KeepsTree.refl h.heap)
    (fun _ _ => ramfsNewRegFile_refused) haccepted hrun with
    hfailed | ⟨herr, P, _, hparent, ⟨s₁, hfresh, rfl⟩, happend⟩
  · exact .inl hfailed
  · exact .inr ⟨herr, P, s₁, hparent, hfresh, happend⟩

/-! ## What is appended -/

/-- New nodes before they are appended: `a`, and below it the links `k`. -/
structure Sprout (s s₁ : Ramfs) (P a : Nat) (k : Forest Nat) : Prop where
  root : s₁.root = s.root
  heap : s₁.heap.Ok
  fresh : ∀ x ∈ (Forest.cons a k .nil).nodes,
    s.heap.currentPointer ≤ x ∧ x < s₁.heap.currentPointer
  once : (Forest.cons a k .nil).nodes.Nodup
  spans : (Forest.cons a k .nil).Spans s₁.childPtr s₁.nextPtr 0 a
  kind : ∀ x ∈ (Forest.cons a k .nil).nodes, NodeOk (s₁.node x)
  type : (s₁.node a).type ≠ .symlink
  legal : FileName (s₁.node a).name
  links : ∀ D, ∀ x ∈ (Forest.cons a k .nil).childrenOf D, (s₁.node x).type = .symlink ∧
    ((s₁.node x).name = DOT_NAME ∧ (s₁.node x).nodePtr = D ∨
      (s₁.node x).name = DOTDOT_NAME ∧ D = a ∧ (s₁.node x).nodePtr = P)
  empty : ∀ x ∈ (Forest.cons a k .nil).nodes, (s₁.node x).length = 0
  other : ∀ q < s.heap.currentPointer, s₁.node q = s.node q

theorem Sprout.keeps {s₁ : Ramfs} (h : Sprout s s₁ P a k)
    (hbelow : ∀ x ∈ T.nodes, x < s.heap.currentPointer) : KeepsTree T s s₁ where
  root := h.root
  node := fun x hx => h.other x (hbelow x hx)
  heap := h.heap
  grow := by
    have hfresh := h.fresh a List.mem_cons_self
    omega

theorem Sprout.attached {s₁ : Ramfs} (h : Sprout s s₁ P a k) (ht : FileTree s T) (hP : P ∈ T.nodes)
    (happend : appendChild s₁ P a = some s') : Attached T P a k s s' := by
  have hkeeps := h.keeps ht.below
  obtain ⟨pre, last, hlist, rfl⟩ := (ht.keep hkeeps).appended hP happend
  have hlast : last ∈ T.nodes := by
    refine Forest.childrenOf_subset T (x := P) ?_
    rw [hlist]
    exact List.mem_append_right _ List.mem_cons_self
  have hnew : ∀ x ∈ (Forest.cons a k .nil).nodes,
      (s₁.setNode last { s₁.node last with next := a }).node x = s₁.node x := by
    intro x hx
    refine setNode_ne _ fun heq => ?_
    exact Nat.not_lt.mpr (h.fresh x hx).1 (heq ▸ ht.below last hlast)
  have hself := hnew a List.mem_cons_self
  constructor
  · exact hP
  · exact h.root
  · exact h.heap
  · exact hkeeps.grow
  · refine ⟨pre, last, hlist, ?_, fun x hx => ?_⟩
    · rw [Ramfs.nextPtr, setNode_self]
    · by_cases heq : x = last
      · subst heq
        rw [setNode_self, hkeeps.node x hx]
        exact ⟨a, rfl, fun hne => absurd rfl hne⟩
      · rw [setNode_ne _ heq, hkeeps.node x hx]
        exact ⟨(s.node x).next, rfl, fun _ => rfl⟩
  · exact h.fresh
  · exact h.once
  · refine h.spans.congr fun x hx => ?_
    rw [Ramfs.childPtr, Ramfs.childPtr, Ramfs.nextPtr, Ramfs.nextPtr, hnew x hx]
    exact ⟨rfl, rfl⟩
  · intro x hx
    rw [hnew x hx]
    exact h.kind x hx
  · rw [hself]
    exact h.type
  · rw [hself]
    exact h.legal
  · intro D x hx
    rw [hnew x (Forest.childrenOf_subset _ hx)]
    exact h.links D x hx
  · intro x hx
    rw [hnew x hx]
    exact h.empty x hx

theorem newNode_ok (name : List UInt8) (ino : Nat) {type : FType} {children : Nat}
    (htype : type = .directory ∨ type = .regular) (hchildren : type ≠ .directory → children = 0) :
    NodeOk (newNode name ino type children) :=
  ⟨htype.imp_right .inl, rfl, hchildren⟩

theorem linkNode_ok (name : List UInt8) (ino target next : Nat) :
    NodeOk (linkNode name ino target next) :=
  ⟨.inr (.inr rfl), rfl, fun _ => rfl⟩

theorem Fresh.sprout {s₁ : Ramfs} (h : Fresh s s₁ a)
    (hname : FileName (strncpy name MAX_FNAME).bytes) (P : Nat) :
    Sprout s (s₁.takeIno.setNode a (newNode name s.lastIno .regular 0)) P a .nil := by
  have hself : (s₁.takeIno.setNode a (newNode name s.lastIno .regular 0)).node a =
      newNode name s.lastIno .regular 0 := setNode_self _
  have honly {x : Nat} (hx : x ∈ (Forest.cons a .nil .nil).nodes) : x = a := List.mem_singleton.mp hx
  constructor
  · exact h.root
  · exact h.heap
  · intro x hx
    rw [honly hx]
    exact ⟨Nat.le_of_eq h.addr.symm, Nat.lt_of_lt_of_eq (Nat.lt_add_of_pos_right (by decide))
      h.pointer.symm⟩
  · exact List.nodup_singleton a
  · rw [Forest.Spans, Ramfs.childPtr, Ramfs.nextPtr, hself]
    exact ⟨rfl, h.pos, rfl, rfl⟩
  · intro x hx
    rw [honly hx, hself]
    exact newNode_ok _ _ (.inr rfl) fun _ => rfl
  · rw [hself]
    exact FType.noConfusion
  · rw [hself]
    exact hname
  · intro D x hx
    rw [Forest.childrenOf_cons] at hx
    split at hx
    · cases hx
    · cases hx
  · intro x hx
    rw [honly hx, hself]
    rfl
  · intro q hq
    have hne : q ≠ a := Nat.ne_of_lt (h.addr ▸ hq)
    rw [setNode_ne _ hne]
    exact h.other q hne

/-- The two links of a new directory. -/
def linkPair (c u : Nat) : Forest Nat := .cons c .nil (.cons u .nil .nil)

theorem mem_linkPair {d c u : Nat} :
    x ∈ (Forest.cons d (linkPair c u) .nil).nodes ↔ x = d ∨ x = c ∨ x = u := by
  simp [linkPair, Forest.nodes]

theorem childrenOf_linkPair_self (d c u : Nat) :
    (Forest.cons d (linkPair c u) .nil).childrenOf d = [c, u] := by
  rw [Forest.childrenOf_cons, if_pos rfl]
  rfl

theorem childrenOf_linkPair {d c u : Nat}
    (hx : x ∈ (Forest.cons d (linkPair c u) .nil).childrenOf D) : D = d ∧ (x = c ∨ x = u) := by
  rw [Forest.childrenOf_cons] at hx
  split at hx
  · next heq => exact ⟨heq.symm, by simpa [linkPair, Forest.roots] using hx⟩
  · split at hx
    · rw [linkPair, Forest.childrenOf_cons] at hx
      split at hx
      · cases hx
      · split at hx
        · next hmem => cases hmem
        · rw [Forest.childrenOf_cons] at hx
          split at hx
          · cases hx
          · exact absurd hx List.not_mem_nil
    · exact absurd hx List.not_mem_nil

theorem NewDir.sprout {s₁ : Ramfs} {d : Nat} (h : NewDir s s₁ P d name)
    (hname : FileName (strncpy name MAX_FNAME).bytes) :
    Sprout s s₁ P d (linkPair (d + SIZEOF_NODE) (d + 2 * SIZEOF_NODE)) := by
  have hsize : SIZEOF_NODE = 200 := rfl
  obtain ⟨dotIno, hdot⟩ := h.dot
  obtain ⟨dotdotIno, hdotdot⟩ := h.dotdot
  constructor
  · exact h.root
  · exact h.heap
  · intro x hx
    have haddr := h.addr
    have hpointer := h.pointer
    rcases mem_linkPair.mp hx with rfl | rfl | rfl <;> constructor <;> omega
  · simp only [linkPair, Forest.nodes, List.append_nil, List.nil_append, List.nodup_cons,
      List.mem_cons, List.not_mem_nil, or_false, not_or, List.nodup_nil, and_true, not_false_eq_true]
    refine ⟨⟨?_, ?_⟩, ?_⟩ <;> omega
  · have hd : s₁.childPtr d = d + SIZEOF_NODE ∧ s₁.nextPtr d = 0 := by
      rw [Ramfs.childPtr, Ramfs.nextPtr, h.dir]
      exact ⟨rfl, rfl⟩
    have hc : s₁.childPtr (d + SIZEOF_NODE) = 0 ∧
        s₁.nextPtr (d + SIZEOF_NODE) = d + 2 * SIZEOF_NODE := by
      rw [Ramfs.childPtr, Ramfs.nextPtr, hdot]
      exact ⟨rfl, rfl⟩
    have hu : s₁.childPtr (d + 2 * SIZEOF_NODE) = 0 ∧ s₁.nextPtr (d + 2 * SIZEOF_NODE) = 0 := by
      rw [Ramfs.childPtr, Ramfs.nextPtr, hdotdot]
      exact ⟨rfl, rfl⟩
    exact ⟨rfl, h.pos, ⟨hd.1, by omega, hc.1, hc.2, by omega, hu.1, hu.2⟩, hd.2⟩
  · intro x hx
    rcases mem_linkPair.mp hx with rfl | rfl | rfl
    · rw [h.dir]
      exact newNode_ok _ _ (.inl rfl) fun hne => absurd rfl hne
    · rw [hdot]
      exact linkNode_ok _ _ _ _
    · rw [hdotdot]
      exact linkNode_ok _ _ _ _
  · rw [h.dir]
    exact FType.noConfusion
  · rw [h.dir]
    exact hname
  · intro D x hx
    obtain ⟨rfl, rfl | rfl⟩ := childrenOf_linkPair hx
    · rw [hdot]
      exact ⟨rfl, .inl ⟨rfl, rfl⟩⟩
    · rw [hdotdot]
      exact ⟨rfl, .inr ⟨rfl, rfl, rfl⟩⟩
  · intro x hx
    rcases mem_linkPair.mp hx with rfl | rfl | rfl
    · rw [h.dir]
      rfl
    · rw [hdot]
      rfl
    · rw [hdotdot]
      rfl
  · intro q hq
    exact h.other q (h.addr ▸ hq)

/-! ## The checks before a creation -/

theorem strncmp_self {f : Nat → UInt8} {n i : Nat} : strncmp f f n i = 0 := by
  induction n generalizing i with
  | zero => rw [strncmp, Int.sub_self]
  | succ n ih =>
    rw [strncmp]
    split
    · exact ih
    · exact Int.sub_self _

/-- A name that passes the check is legal, once it is cut to the length of the array. -/
theorem fileName_of_check (hcheck : fsCheckFileName name = true) (hnul : 0 ∉ name) :
    FileName (strncpy name MAX_FNAME).bytes := by
  obtain ⟨hdot, hdotdot, hslash⟩ := of_decide_eq_true hcheck
  have hshort {word : List UInt8} (hword : word.length < MAX_FNAME)
      (h : name.take MAX_FNAME = word) : name = word := by
    rcases Nat.lt_or_ge MAX_FNAME name.length with hlong | hle
    · have hlength := congrArg List.length h
      rw [List.length_take_of_le (Nat.le_of_lt hlong)] at hlength
      exact absurd hlength.symm (Nat.ne_of_lt hword)
    · rwa [List.take_of_length_le hle] at h
  refine ⟨List.length_take_le _ _, fun h => hnul (List.mem_of_mem_take h), hslash, ?_, ?_⟩
  · intro h
    rw [hshort (by decide) h] at hdot
    exact hdot strncmp_self
  · intro h
    rw [hshort (by decide) h] at hdotdot
    exact hdotdot strncmp_self

theorem FileTree.creationParent {path : List UInt8} (h : FileTree s T)
    (hrun : creationParent s name path = some (.ok, P)) :
    fsCheckFileName name = true ∧ TalOS.fsGetNode s 0 path = some P ∧ P ∈ T.nodes ∧
      findIn s T P name = 0 := by
  unfold TalOS.creationParent at hrun
  split at hrun
  · cases hrun
  · next hcheck =>
    obtain ⟨P', hget, hrun⟩ := Option.bind_eq_some_iff.mp hrun
    split at hrun
    · cases hrun
    · next hP =>
      have hmem := (h.fsGetNode_some hget hP).2.2.2
      rw [h.fsFind hmem, Option.bind_some] at hrun
      split at hrun
      · cases hrun
      · next hfind =>
        obtain rfl : P' = P := by simpa using hrun
        exact ⟨by simpa using hcheck, hget, hmem, not_not.mp hfind⟩

/-! ## Creating keeps the tree -/

/-- What a successful creation has done: a new last child of `P` with the name, cut to the length
of its array, and in a new directory its links. -/
structure Created (T : Forest Nat) (P a : Nat) (k : Forest Nat) (name : List UInt8)
    (s s' : Ramfs) : Prop extends Attached T P a k s s' where
  nameEq : (s'.node a).name = name.take MAX_FNAME
  ino : (s'.node a).ino = s.lastIno
  dots : (s'.node a).type = .directory → ∃ dot dotdot, k.roots = [dot, dotdot] ∧
    (s'.node dot).name = DOT_NAME ∧ (s'.node dotdot).name = DOTDOT_NAME

/-- The outcome of a creation: refused, with the tree as it was, or a new node. -/
def CreationOutcome (T : Forest Nat) (name path : List UInt8) (s s' : Ramfs) (x : Nat)
    (err : RfsErr) : Prop :=
  x = 0 ∧ err ≠ .ok ∧ KeepsTree T s s' ∨
    err = .ok ∧ ∃ P k, creationParent s name path = some (.ok, P) ∧ Created T P x k name s s'

theorem Sprout.node_new {s₁ : Ramfs} (h : Sprout s s₁ P a k) (ht : FileTree s T) (hP : P ∈ T.nodes)
    (happend : appendChild s₁ P a = some s') (hx : s.heap.currentPointer ≤ x) :
    s'.node x = s₁.node x := by
  obtain ⟨pre, last, hlist, rfl⟩ := (ht.keep (h.keeps ht.below)).appended hP happend
  have hlast : last ∈ T.nodes := by
    refine Forest.childrenOf_subset T (x := P) ?_
    rw [hlist]
    exact List.mem_append_right _ List.mem_cons_self
  exact setNode_ne _ fun heq => Nat.not_lt.mpr hx (heq ▸ ht.below last hlast)

theorem FileTree.mkDir_outcome {path : List UInt8} {err : RfsErr} (h : FileTree s T)
    (hnul : 0 ∉ name) (hrun : ramfsMkDir s name path = some (s', x, err)) :
    CreationOutcome T name path s s' x err := by
  rcases h.mkDir hrun with hrefused | ⟨herr, P, s₁, hparent, hnew, happend⟩
  · exact .inl hrefused
  · obtain ⟨hcheck, -, hP, -⟩ := h.creationParent hparent
    have hsprout := hnew.sprout (fileName_of_check hcheck hnul)
    have hnode {y : Nat} (hy : s.heap.currentPointer ≤ y) : s'.node y = s₁.node y :=
      hsprout.node_new h hP happend hy
    have haddr : s.heap.currentPointer ≤ x := Nat.le_of_eq hnew.addr.symm
    refine .inr ⟨herr, P, _, hparent, hsprout.attached h hP happend, ?_, ?_, ?_⟩
    · rw [hnode haddr, hnew.dir]
      rfl
    · rw [hnode haddr, hnew.dir]
      rfl
    · intro _
      obtain ⟨dotIno, hdot⟩ := hnew.dot
      obtain ⟨dotdotIno, hdotdot⟩ := hnew.dotdot
      refine ⟨_, _, rfl, ?_, ?_⟩
      · rw [hnode (Nat.le_trans haddr (Nat.le_add_right _ _)), hdot]
        rfl
      · rw [hnode (Nat.le_trans haddr (Nat.le_add_right _ _)), hdotdot]
        rfl

theorem FileTree.newRegFile_outcome {path : List UInt8} {err : RfsErr} (h : FileTree s T)
    (hnul : 0 ∉ name) (hrun : ramfsNewRegFile s name path = some (s', x, err)) :
    CreationOutcome T name path s s' x err := by
  rcases h.newRegFile hrun with hrefused | ⟨herr, P, s₁, hparent, hnew, happend⟩
  · exact .inl hrefused
  · obtain ⟨hcheck, -, hP, -⟩ := h.creationParent hparent
    have hsprout := hnew.sprout (fileName_of_check hcheck hnul) P
    have hnode : s'.node x = newNode name s.lastIno .regular 0 := by
      rw [hsprout.node_new h hP happend (Nat.le_of_eq hnew.addr.symm), setNode_self]
    refine .inr ⟨herr, P, .nil, hparent, hsprout.attached h hP happend, ?_, ?_, ?_⟩
    · rw [hnode]
      rfl
    · rw [hnode]
      rfl
    · intro hdir
      rw [hnode] at hdir
      cases hdir

/-- The new directory has its links first and nothing else. -/
theorem Created.new_directory (h : Created T P a k name s s') (ht : FileTree s T)
    (hD : D ∈ (Forest.addChild P a k T).nodes) (hnew : D ∉ T.nodes)
    (htype : (s'.node D).type = .directory) :
    ∃ dot dotdot, (Forest.addChild P a k T).childrenOf D = [dot, dotdot] ∧
      (s'.node dot).type = .symlink ∧ (s'.node dot).name = DOT_NAME ∧
      (s'.node dotdot).type = .symlink ∧ (s'.node dotdot).name = DOTDOT_NAME := by
  have hself : D = a := by
    by_contra hne
    rcases Forest.exists_parent h.once (((h.mem_nodes ht).mp hD).resolve_left hnew) with
      hroot | ⟨E, -, hE⟩
    · exact hne (List.mem_singleton.mp hroot)
    · have hlink := (h.links E D hE).1
      rw [htype] at hlink
      cases hlink
  rw [hself] at htype hnew
  obtain ⟨dot, dotdot, hroots, hdot, hdotdot⟩ := h.dots htype
  have hlist : (Forest.cons a k .nil).childrenOf a = [dot, dotdot] := by
    rw [Forest.childrenOf_cons, if_pos rfl, hroots]
  have hlink₁ := h.links a dot (hlist ▸ List.mem_cons_self)
  have hlink₂ := h.links a dotdot (hlist ▸ List.mem_cons_of_mem _ List.mem_cons_self)
  rw [hself, h.childrenOf_new ht hnew]
  exact ⟨dot, dotdot, hlist, hlink₁.1, hdot, hlink₂.1, hdotdot⟩

theorem Created.dotsFirst (h : Created T P a k name s s') (ht : FileTree s T)
    (hdots : DotsFirst s T) : DotsFirst s' (Forest.addChild P a k T) := by
  intro D hD htype
  by_cases hold : D ∈ T.nodes
  · obtain ⟨next, hnext⟩ := h.node hold
    rw [hnext] at htype
    obtain ⟨dot, dotdot, rest, hlist, hdot⟩ := hdots D hold htype
    have hmem {x : Nat} (hx : x ∈ T.childrenOf D) := h.node (Forest.childrenOf_subset T hx)
    obtain ⟨next₁, hnext₁⟩ := hmem (hlist ▸ List.mem_cons_self : dot ∈ T.childrenOf D)
    obtain ⟨next₂, hnext₂⟩ :=
      hmem (hlist ▸ List.mem_cons_of_mem _ List.mem_cons_self : dotdot ∈ T.childrenOf D)
    rw [h.childrenOf ht hold, hlist]
    split
    · refine ⟨dot, dotdot, rest ++ [a], rfl, ?_⟩
      rw [hnext₁, hnext₂]
      exact hdot
    · refine ⟨dot, dotdot, rest, rfl, ?_⟩
      rw [hnext₁, hnext₂]
      exact hdot
  · obtain ⟨dot, dotdot, hlist, hlinks⟩ := h.new_directory ht hD hold htype
    exact ⟨dot, dotdot, [], hlist, hlinks⟩

theorem Created.namesDistinct (h : Created T P a k name s s') (ht : FileTree s T)
    (hnames : NamesDistinct s T)
    (hnew : ∀ y ∈ T.childrenOf P, (s.node y).name ≠ name.take MAX_FNAME) :
    NamesDistinct s' (Forest.addChild P a k T) := by
  intro D
  by_cases hold : D ∈ T.nodes
  · have hsame : (T.childrenOf D).map (fun x => (s'.node x).name) =
        (T.childrenOf D).map fun x => (s.node x).name := by
      refine List.map_congr_left fun x hx => ?_
      obtain ⟨next, hnext⟩ := h.node (Forest.childrenOf_subset T hx)
      rw [hnext]
    rw [h.childrenOf ht hold]
    split
    · next heq =>
      rw [List.map_append, hsame, List.map_singleton, List.nodup_append]
      refine ⟨hnames D, List.nodup_singleton _, ?_⟩
      intro x hx y hy hxy
      obtain ⟨z, hz, rfl⟩ := List.mem_map.mp hx
      rw [List.mem_singleton.mp hy, h.nameEq] at hxy
      exact hnew z (heq ▸ hz) hxy
    · rw [hsame]
      exact hnames D
  · have ht' := h.toAttached.fileTree ht
    by_cases hD : D ∈ (Forest.addChild P a k T).nodes
    · by_cases htype : (s'.node D).type = .directory
      · obtain ⟨dot, dotdot, hlist, -, hdot, -, hdotdot⟩ := h.new_directory ht hD hold htype
        rw [hlist, List.map_cons, List.map_singleton, hdot, hdotdot]
        decide
      · rw [ht'.childrenOf_leaf hD htype]
        exact List.nodup_nil
    · rw [Forest.childrenOf_of_not_mem hD]
      exact List.nodup_nil

/-! ## The first tree -/

/-- The state before `ramfs_init`: a heap above the static `root`, which is all zeros. -/
structure Boot (s : Ramfs) : Prop where
  heap : s.heap.Ok
  above : ROOT < s.heap.currentPointer
  zero : s.node ROOT = zeroNode

theorem Dotted.firstTree {s₁ : Ramfs} {ino c u : Nat} (h : Dotted s s₁ ROOT ROOT c u)
    (hroot : s.node ROOT = newNode [] ino .directory 0) (hbelow : ROOT < s.heap.currentPointer)
    (hpos : ROOT ≠ 0) : FileTree { s₁ with root := ROOT } (.cons ROOT (linkPair c u) .nil) := by
  have hsize : SIZEOF_NODE = 200 := rfl
  have hc := h.dotAddr
  have hu := h.dotdotAddr
  have hpointer := h.pointer
  obtain ⟨dotIno, hdot⟩ := h.dot
  obtain ⟨dotdotIno, hdotdot⟩ := h.dotdot
  have hdir : s₁.node ROOT = newNode [] ino .directory c := by
    rw [h.dir, hroot]
    rfl
  -- The two links are the only children there are, both of the root directory.
  have hlink : ∀ D, ∀ x ∈ (Forest.cons ROOT (linkPair c u) .nil).childrenOf D,
      (s₁.node x).type = .symlink ∧
        LinkOk { s₁ with root := ROOT } (.cons ROOT (linkPair c u) .nil) D x := by
    intro D x hx
    obtain ⟨rfl, rfl | rfl⟩ := childrenOf_linkPair hx
    · rw [LinkOk, hdot]
      exact ⟨rfl, .inl ⟨rfl, rfl⟩⟩
    · rw [LinkOk, hdotdot]
      exact ⟨rfl, .inr ⟨rfl, .inr ⟨rfl, rfl⟩⟩⟩
  constructor
  · rfl
  · rfl
  · have hd : s₁.childPtr ROOT = c ∧ s₁.nextPtr ROOT = 0 := by
      rw [Ramfs.childPtr, Ramfs.nextPtr, hdir]
      exact ⟨rfl, rfl⟩
    have hc' : s₁.childPtr c = 0 ∧ s₁.nextPtr c = u := by
      rw [Ramfs.childPtr, Ramfs.nextPtr, hdot]
      exact ⟨rfl, rfl⟩
    have hu' : s₁.childPtr u = 0 ∧ s₁.nextPtr u = 0 := by
      rw [Ramfs.childPtr, Ramfs.nextPtr, hdotdot]
      exact ⟨rfl, rfl⟩
    exact ⟨rfl, hpos, ⟨hd.1, by omega, hc'.1, hc'.2, by omega, hu'.1, hu'.2⟩, hd.2⟩
  · simp only [linkPair, Forest.nodes, List.append_nil, List.nil_append, List.nodup_cons,
      List.mem_cons, List.not_mem_nil, or_false, not_or, List.nodup_nil, and_true, not_false_eq_true]
    refine ⟨⟨?_, ?_⟩, ?_⟩ <;> omega
  · intro x hx
    rcases mem_linkPair.mp hx with rfl | rfl | rfl <;> dsimp only <;> omega
  · exact h.heap
  · exact congrArg RamfsFileHeader.type hdir
  · intro x hx
    rcases mem_linkPair.mp hx with rfl | rfl | rfl
    · show NodeOk (s₁.node ROOT)
      rw [hdir]
      exact newNode_ok _ _ (.inl rfl) fun hne => absurd rfl hne
    · show NodeOk (s₁.node x)
      rw [hdot]
      exact linkNode_ok _ _ _ _
    · show NodeOk (s₁.node x)
      rw [hdotdot]
      exact linkNode_ok _ _ _ _
  · exact fun D x hx _ => (hlink D x hx).2
  · exact fun D x hx htype => absurd (hlink D x hx).1 htype

/-- After `ramfs_init` the root directory has its two links and nothing else. -/
theorem Boot.init_links (h : Boot s) (hrun : ramfsInit s = some (s', .ok)) :
    ∃ c u, FileTree s' (.cons ROOT (linkPair c u) .nil) ∧ (s'.node ROOT).length = 0 ∧
      (∃ ino, s'.node c = linkNode DOT_NAME ino ROOT u) ∧
      ∃ ino, s'.node u = linkNode DOTDOT_NAME ino ROOT 0 := by
  have hroot : (ROOT : Nat) ≠ 0 := by decide
  rw [ramfsInit, update_eq hroot, Option.bind_some] at hrun
  dsimp only [fsNewInoId] at hrun
  generalize hs₁ : Ramfs.setNode _ ROOT _ = s₁ at hrun
  have hself : s₁.node ROOT = newNode [] s.lastIno .directory 0 := by
    rw [← hs₁, setNode_self, h.zero]
    rfl
  have hheap : s₁.heap = s.heap := by
    rw [← hs₁]
    rfl
  have hbelow : ROOT < s₁.heap.currentPointer := hheap ▸ h.above
  split at hrun
  · exact absurd (Prod.mk.inj (Option.some.inj hrun)).2 RfsErr.noConfusion
  · next hc =>
    have h₂ := ramfsAllocNode_fresh (hheap ▸ h.heap) hc
    rw [h₂.link (by decide), Option.bind_some] at hrun
    generalize hs₃ : (ramfsAllocNode s₁).2.takeIno.setNode (ramfsAllocNode s₁).1
      (linkNode DOT_NAME s₁.lastIno ROOT 0) = s₃ at hrun
    split at hrun
    · exact absurd (Prod.mk.inj (Option.some.inj hrun)).2 RfsErr.noConfusion
    · next hu =>
      have hheap₃ : s₃.heap.Ok := hs₃ ▸ (h₂.keeps (T := .nil) nofun _).heap
      have h₄ := ramfsAllocNode_fresh hheap₃ hu
      rw [h₄.link (by decide), Option.bind_some] at hrun
      obtain ⟨s₆, hlink, hdotted⟩ := Dotted.of_fresh (P := ROOT) hroot hbelow
        (by rw [hself]; rfl) h₂ hs₃.symm h₄ rfl
      rw [hlink] at hrun
      rw [Option.map_some] at hrun
      obtain rfl := (Prod.mk.inj (Option.some.inj hrun)).1
      have hlength : (s₆.node ROOT).length = 0 := by
        rw [hdotted.dir, hself]
        rfl
      exact ⟨_, _, hdotted.firstTree hself hbelow hroot, hlength, hdotted.dot, hdotted.dotdot⟩

theorem Boot.init (h : Boot s) (hrun : ramfsInit s = some (s', .ok)) :
    ∃ T, FileTree s' T ∧ DotsFirst s' T ∧ NamesDistinct s' T := by
  obtain ⟨c, u, htree, -, ⟨dotIno, hdot⟩, ⟨dotdotIno, hdotdot⟩⟩ := h.init_links hrun
  have hchildren := childrenOf_linkPair_self ROOT c u
  refine ⟨_, htree, ?_, ?_⟩
  · intro D hD htype
    rcases mem_linkPair.mp hD with rfl | rfl | rfl
    · refine ⟨c, u, [], hchildren, ?_⟩
      rw [hdot, hdotdot]
      exact ⟨rfl, rfl, rfl, rfl⟩
    · exact absurd (hdot ▸ htype : (linkNode _ _ _ _).type = _) FType.noConfusion
    · exact absurd (hdotdot ▸ htype : (linkNode _ _ _ _).type = _) FType.noConfusion
  · intro D
    by_cases hD : D = ROOT
    · rw [hD, hchildren, List.map_cons, List.map_singleton, hdot, hdotdot]
      exact (by decide : [DOT_NAME, DOTDOT_NAME].Nodup)
    · have hnil : (Forest.cons ROOT (linkPair c u) .nil).childrenOf D = [] :=
        List.eq_nil_iff_forall_not_mem.mpr fun x hx => hD (childrenOf_linkPair hx).1
      rw [hnil]
      exact List.nodup_nil

end TalOS
