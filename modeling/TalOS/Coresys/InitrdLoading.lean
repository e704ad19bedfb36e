-- SUMMARY: What loading an initrd builds: the nodes of each entry, and the lists they are linked into.
import TalOS.Coresys.Creation
import TalOS.Coresys.Initrd

/-!
# What loading builds

Everything the loader makes lies behind the allocator's pointer. Of what was there
before it changes one node: the last one of the list it appends to. So a step is
described by the node that is new, and by the node that may have changed; the rest of a
directory is built on top of that without touching it.
-/

open MachineInt

namespace TalOS

/-! ## What a step leaves alone -/

/-- Nothing below the allocator's pointer has changed, but for the node `t`. -/
structure LoadKeeps (t : Nat) (s s' : Ramfs) : Prop where
  root : s'.root = s.root
  heap : s'.heap.Ok
  limit : s'.heap.limit = s.heap.limit
  grow : s.heap.currentPointer ≤ s'.heap.currentPointer
  node : ∀ x < s.heap.currentPointer, x ≠ t → s'.node x = s.node x
  mem : ∀ a < s.heap.currentPointer, s'.heap.mem a = s.heap.mem a

variable {s s₁ s₂ s' : Ramfs} {t t' p a size : Nat}

theorem LoadKeeps.refl (hok : s.heap.Ok) : LoadKeeps t s s :=
  ⟨rfl, hok, rfl, Nat.le_refl _, fun _ _ _ => rfl, fun _ _ => rfl⟩

/-- The second step may change a node that the first one has made. -/
theorem LoadKeeps.trans (h : LoadKeeps t s s₁) (h' : LoadKeeps t' s₁ s')
    (ht : t' = t ∨ s.heap.currentPointer ≤ t') : LoadKeeps t s s' where
  root := h'.root.trans h.root
  heap := h'.heap
  limit := h'.limit.trans h.limit
  grow := Nat.le_trans h.grow h'.grow
  node := fun x hx hne => by
    have hne' : x ≠ t' := by
      rcases ht with rfl | hbehind
      · exact hne
      · exact Nat.ne_of_lt (Nat.lt_of_lt_of_le hx hbehind)
    rw [h'.node x (Nat.lt_of_lt_of_le hx h.grow) hne', h.node x hx hne]
  mem := fun a ha => by
    rw [h'.mem a (Nat.lt_of_lt_of_le ha h.grow), h.mem a ha]

theorem LoadKeeps.setNode (h : LoadKeeps t s s') (n : RamfsFileHeader)
    (hp : p = t ∨ s.heap.currentPointer ≤ p) : LoadKeeps t s (s'.setNode p n) where
  root := h.root
  heap := h.heap
  limit := h.limit
  grow := h.grow
  node := fun x hx hne => by
    have hne' : x ≠ p := by
      rcases hp with rfl | hbehind
      · exact hne
      · exact Nat.ne_of_lt (Nat.lt_of_lt_of_le hx hbehind)
    rw [setNode_ne _ hne']
    exact h.node x hx hne
  mem := h.mem

theorem LoadKeeps.takeIno (h : LoadKeeps t s s') : LoadKeeps t s s'.takeIno :=
  ⟨h.root, h.heap, h.limit, h.grow, h.node, h.mem⟩

/-- The state with bytes stored in memory. -/
def Ramfs.store (s : Ramfs) (start : Nat) (data : List UInt8) : Ramfs :=
  { s with heap := { s.heap with mem := Memory.writeAt s.heap.mem start data } }

theorem LoadKeeps.store (h : LoadKeeps t s s') {start : Nat} (hstart : s.heap.currentPointer ≤ start)
    (data : List UInt8) : LoadKeeps t s (s'.store start data) where
  root := h.root
  heap := ⟨h.heap.start, h.heap.above, h.heap.below, h.heap.high⟩
  limit := h.limit
  grow := h.grow
  node := h.node
  mem := fun a ha =>
    (Memory.writeAt_of_lt _ (Nat.lt_of_lt_of_le ha hstart)).trans (h.mem a ha)

/-! ## Allocating -/

/-- There is room for `n` more bytes. -/
def Ramfs.Fits (s : Ramfs) (n : Nat) : Prop := s.heap.currentPointer + n ≤ s.heap.limit

instance (s : Ramfs) (n : Nat) : Decidable (s.Fits n) := inferInstanceAs (Decidable (_ ≤ _))

/-- Nothing below the allocator's pointer has changed at all: a node behind it is as good as any
other. -/
theorem LoadKeeps.other (h : LoadKeeps t s s') (ht : s.heap.currentPointer ≤ t) (t' : Nat) :
    LoadKeeps t' s s' where
  root := h.root
  heap := h.heap
  limit := h.limit
  grow := h.grow
  node := fun x hx _ => h.node x hx (Nat.ne_of_lt (Nat.lt_of_lt_of_le hx ht))
  mem := h.mem

theorem roomFor (hok : s.heap.Ok) (hfits : s.Fits (roundUp size)) : s.heap.Room size := by
  refine ⟨hfits, ?_⟩
  have hhigh := hok.high
  unfold MEM_MIN_SIZE
  omega

/-- The state after a `kmalloc` for which there is room. -/
theorem LoadKeeps.kmalloc (hok : s.heap.Ok) (hfits : s.Fits (roundUp size)) :
    LoadKeeps t s { s with heap := (TalOS.kmalloc s.heap size).2 } := by
  have hroom := roomFor hok hfits
  rw [kmalloc_of_room hroom]
  refine ⟨rfl, ⟨hok.start, ?_, hroom.1, hok.high⟩, rfl, Nat.le_add_right _ _, fun _ _ _ => rfl, ?_⟩
  · exact Nat.le_trans hok.above (Nat.le_add_right _ _)
  · exact fun a ha => Memory.writeAt_of_lt _ (Nat.lt_add_right _ ha)

/-- A node for which there is room. -/
theorem ramfsAllocNode_fits (hok : s.heap.Ok) (hfits : s.Fits SIZEOF_NODE) :
    ∃ s₁, ramfsAllocNode s = (s.heap.currentPointer, s₁) ∧ Fresh s s₁ s.heap.currentPointer ∧
      LoadKeeps t s s₁ := by
  have hroom : s.heap.Room SIZEOF_NODE := roomFor hok hfits
  have hblock : (TalOS.kmalloc s.heap SIZEOF_NODE).1 = s.heap.currentPointer := by
    rw [kmalloc_of_room hroom]
  have hne : (ramfsAllocNode s).1 ≠ 0 := by
    unfold ramfsAllocNode
    dsimp only
    rw [hblock, if_neg hok.pointer_ne]
    exact hok.pointer_ne
  have hfresh := ramfsAllocNode_fresh hok hne
  have hkeeps : LoadKeeps t s { s with heap := (TalOS.kmalloc s.heap SIZEOF_NODE).2 } :=
    .kmalloc hok hfits
  have hheap : (ramfsAllocNode s).2.heap = (TalOS.kmalloc s.heap SIZEOF_NODE).2 := by
    unfold ramfsAllocNode
    dsimp only
    split <;> rfl
  generalize ramfsAllocNode s = r at hfresh hheap
  obtain ⟨a, s₁⟩ := r
  obtain rfl : a = s.heap.currentPointer := hfresh.addr
  refine ⟨s₁, rfl, hfresh, hfresh.root, hfresh.heap, hfresh.limit, ?_,
    fun x hx _ => hfresh.other x (Nat.ne_of_lt hx), ?_⟩
  · rw [hfresh.pointer]
    exact Nat.le_add_right _ _
  · rw [hheap]
    exact hkeeps.mem

/-- A node that was handed out had room. -/
theorem ramfsAllocNode_room (hok : s.heap.Ok) (hne : (ramfsAllocNode s).1 ≠ 0) : s.Fits SIZEOF_NODE := by
  by_contra hfull
  refine hne ?_
  have hblock := (hok.kmalloc SIZEOF_NODE (by decide) (by decide)).2.2.1
  rw [if_neg (show ¬ s.heap.currentPointer + SIZEOF_NODE ≤ s.heap.limit from hfull)] at hblock
  unfold ramfsAllocNode
  dsimp only
  rw [if_pos hblock]

/-! ## The entries of a directory -/

/-- The entries of a directory: files with their contents, and directories. -/
inductive DirEntries where
  | nil
  | file (name contents : List UInt8) (rest : DirEntries)
  | dir (name : List UInt8) (below rest : DirEntries)
deriving Repr, DecidableEq

/-- The node of a file that has been loaded. -/
def fileNode (name : List UInt8) (ino length filePtr next : Nat) : RamfsFileHeader where
  name := name
  ino := ino
  type := .regular
  length := length
  callbacks := regCallbacks
  nodePtr := 0
  filePtr := filePtr
  next := next
  children := 0

/-- The node of a directory that has been loaded. -/
def dirNode (name : List UInt8) (ino children next : Nat) : RamfsFileHeader where
  name := name
  ino := ino
  type := .directory
  length := 0
  callbacks := dirCallbacks
  nodePtr := 0
  filePtr := 0
  next := next
  children := children

/-- The list of nodes that starts at `p` holds the entries of the directory `D`. All nodes and buffers
lie between `lo` and `hi`. -/
def EntriesAt (s : Ramfs) (lo hi : Nat) : Nat → DirEntries → Nat → Prop
  | _, .nil, p => p = 0
  | D, .file name contents rest, p =>
    (lo ≤ p ∧ p < hi) ∧
      (∃ ino filePtr, s.node p = fileNode name ino contents.length filePtr (s.nextPtr p) ∧
        lo ≤ filePtr ∧ filePtr + contents.length ≤ hi ∧
          Memory.readAt s.heap.mem filePtr contents.length = contents) ∧
      EntriesAt s lo hi D rest (s.nextPtr p)
  | D, .dir name below rest, p =>
    (lo ≤ p ∧ p < hi) ∧
      (∃ ino c u, s.node p = dirNode name ino c (s.nextPtr p) ∧ (lo ≤ c ∧ c < hi) ∧ (lo ≤ u ∧ u < hi) ∧
        (∃ ino, s.node c = linkNode DOT_NAME ino p u) ∧
        (∃ ino, s.node u = linkNode DOTDOT_NAME ino D (s.nextPtr u)) ∧
          EntriesAt s lo hi p below (s.nextPtr u)) ∧
      EntriesAt s lo hi D rest (s.nextPtr p)

/-- DirEntries are as they were if the nodes and the memory between the bounds are. -/
theorem EntriesAt.mono {lo hi lo' hi' D : Nat} {es : DirEntries} (h : EntriesAt s lo hi D es p)
    (hlo : lo' ≤ lo) (hhi : hi ≤ hi') (hnode : ∀ x, lo ≤ x → x < hi → s'.node x = s.node x)
    (hmem : ∀ a, lo ≤ a → a < hi → s'.heap.mem a = s.heap.mem a) : EntriesAt s' lo' hi' D es p := by
  have hnext {x : Nat} (hx : lo ≤ x ∧ x < hi) : s'.nextPtr x = s.nextPtr x :=
    congrArg RamfsFileHeader.next (hnode x hx.1 hx.2)
  have hin {x : Nat} (hx : lo ≤ x ∧ x < hi) : lo' ≤ x ∧ x < hi' :=
    ⟨Nat.le_trans hlo hx.1, Nat.lt_of_lt_of_le hx.2 hhi⟩
  induction es generalizing D p with
  | nil => exact h
  | file name contents rest ih =>
    obtain ⟨hp, ⟨ino, filePtr, hself, hlow, hhigh, hread⟩, hrest⟩ := h
    refine ⟨hin hp, ⟨ino, filePtr, ?_, Nat.le_trans hlo hlow, Nat.le_trans hhigh hhi, ?_⟩, ?_⟩
    · rw [hnode p hp.1 hp.2, hnext hp]
      exact hself
    · rw [← hread, hread]
      refine (Memory.readAt_congr fun i hi => ?_).trans hread
      exact hmem _ (Nat.le_trans hlow (Nat.le_add_right _ _)) (by omega)
    · rw [hnext hp]
      exact ih hrest
  | dir name below rest ihbelow ihrest =>
    obtain ⟨hp, ⟨ino, c, u, hself, hc, hu, ⟨dotIno, hdot⟩, ⟨dotdotIno, hdotdot⟩, hbelow⟩, hrest⟩ := h
    refine ⟨hin hp, ⟨ino, c, u, ?_, hin hc, hin hu, ⟨dotIno, ?_⟩, ⟨dotdotIno, ?_⟩, ?_⟩, ?_⟩
    · rw [hnode p hp.1 hp.2, hnext hp]
      exact hself
    · rw [hnode c hc.1 hc.2]
      exact hdot
    · rw [hnode u hu.1 hu.2, hnext hu]
      exact hdotdot
    · rw [hnext hu]
      exact ihbelow hbelow
    · rw [hnext hp]
      exact ihrest hrest

/-! ## Loading one entry -/

/-- The header at `h` is that of a file, with the data it points to. -/
structure FileRead (image : Access.Mem) (base h : Nat) (name contents : List UInt8) : Prop where
  name : readName image MAX_FNAME h = .ok name
  length : headerLength image h = .ok contents.length
  data : ∃ start, headerStartFileOff image h = .ok start ∧
    readBytes image (base + start) contents.length = .ok contents

/-- A file was made: its node at the allocator's pointer, and its buffer behind it. -/
structure FileMade (s s' : Ramfs) (name contents : List UInt8) : Prop where
  pointer : s'.heap.currentPointer = s.heap.currentPointer + SIZEOF_NODE + roundUp contents.length
  node : ∃ ino filePtr,
    s'.node s.heap.currentPointer = fileNode name ino contents.length filePtr 0 ∧
      s.heap.currentPointer ≤ filePtr ∧ filePtr + contents.length ≤ s'.heap.currentPointer ∧
        Memory.readAt s'.heap.mem filePtr contents.length = contents

variable {image : Access.Mem} {base h : Nat} {name contents : List UInt8}

/-- A node that has just been filled in. -/
def loadedNode (name : List UInt8) (ino : Nat) (type : FType) (length : Nat) : RamfsFileHeader :=
  { zeroNode with
    name := name
    ino := ino
    type := type
    length := length
    callbacks := if type = .regular then regCallbacks else dirCallbacks }

theorem Fresh.fillLoaded (hfresh : Fresh s s₁ a) (name : List UInt8) (type : FType) (length : Nat) :
    fillLoaded s₁ a name type length =
      some (s₁.takeIno.setNode a (loadedNode name s.lastIno type length)) := by
  rw [TalOS.fillLoaded, update_eq hfresh.pos, ← hfresh.lastIno]
  dsimp only [fsNewInoId]
  rw [hfresh.zero]
  rfl

theorem ok_bind {α β : Type} (a : α) (f : α → Except LoadStop β) : (Except.ok a >>= f) = f a := rfl

theorem defined_some_bind {α β : Type} (a : α) (f : α → Except LoadStop β) :
    (defined (some a) >>= f) = f a := rfl

theorem loadInitrdRegFile_fits (hok : s.heap.Ok) (hread : FileRead image base h name contents)
    (hfits : s.Fits (SIZEOF_NODE + roundUp contents.length)) :
    ∃ s', loadInitrdRegFile image base h s = .ok (s', s.heap.currentPointer) ∧
      LoadKeeps t s s' ∧ FileMade s s' name contents := by
  have hfitsNode : s.Fits SIZEOF_NODE := Nat.le_trans (by omega) hfits
  obtain ⟨s₁, halloc, hfresh, hkeeps⟩ := ramfsAllocNode_fits (t := t) hok hfitsNode
  obtain ⟨start, hstart, hdata⟩ := hread.data
  -- The node is filled in, then its buffer is allocated and copied to.
  generalize hfilled : s₁.takeIno.setNode s.heap.currentPointer
    (loadedNode name s.lastIno .regular contents.length) = s₂
  have hkeeps₂ : LoadKeeps t s s₂ := hfilled ▸ hkeeps.takeIno.setNode _ (.inr (Nat.le_refl _))
  have hheap₂ : s₂.heap = s₁.heap := by
    rw [← hfilled]
    rfl
  have hpointer₂ : s₂.heap.currentPointer = s.heap.currentPointer + SIZEOF_NODE := by
    rw [hheap₂, hfresh.pointer]
  have hfits₂ : s₂.Fits (roundUp contents.length) := by
    rw [Ramfs.Fits, hpointer₂, hkeeps₂.limit, Nat.add_assoc]
    exact hfits
  have hblock := kmalloc_of_room (roomFor hkeeps₂.heap hfits₂)
  have hkmalloc : LoadKeeps t s₂ { s₂ with heap := (kmalloc s₂.heap contents.length).2 } :=
    .kmalloc hkeeps₂.heap hfits₂
  generalize hr : kmalloc s₂.heap contents.length = r at hblock hkmalloc
  have hptr : r.1 = s₂.heap.currentPointer := congrArg Prod.fst hblock
  have hend : r.2.currentPointer = s₂.heap.currentPointer + roundUp contents.length :=
    congrArg (fun r => r.2.currentPointer) hblock
  have hinside : ¬ r.1 + contents.length > r.2.limit := by
    have hle := le_roundUp contents.length
    have hlimit : r.2.limit = s₂.heap.limit := hkmalloc.limit
    have hfits₂ : s₂.heap.currentPointer + roundUp contents.length ≤ s₂.heap.limit := hfits₂
    omega
  have hkeeps₃ := (hkeeps₂.trans hkmalloc (.inl rfl)).setNode (p := s.heap.currentPointer)
    { s₂.node s.heap.currentPointer with filePtr := r.1 } (.inr (Nat.le_refl _))
  generalize hs₃ : ({ s₂ with heap := r.2 } : Ramfs).setNode s.heap.currentPointer
    { s₂.node s.heap.currentPointer with filePtr := r.1 } = s₃ at hkeeps₃
  have hheap₃ : s₃.heap = r.2 := by
    rw [← hs₃]
    rfl
  have hbehind : s.heap.currentPointer ≤ r.1 := by
    rw [hptr, hpointer₂]
    exact Nat.le_add_right _ _
  refine ⟨s₃.store r.1 contents, ?_, hkeeps₃.store hbehind contents, ⟨?_, s.lastIno, r.1, ?_, hbehind,
    ?_, Memory.readAt_writeAt _ _ _⟩⟩
  · rw [loadInitrdRegFile, halloc]
    dsimp only
    rw [if_neg hfresh.pos, hread.length, ok_bind, hread.name, ok_bind, hfresh.fillLoaded,
      defined_some_bind, hfilled, hr, update_eq hfresh.pos, defined_some_bind]
    have hne : ¬ r.1 = 0 := hptr ▸ hkeeps₂.heap.pointer_ne
    rw [if_neg hne, hstart, ok_bind, hdata, ok_bind]
    change (defined (copyData (({ s₂ with heap := r.2 } : Ramfs).setNode s.heap.currentPointer
      { s₂.node s.heap.currentPointer with filePtr := r.1 }) r.1 contents) >>= _) = _
    have hcopy : copyData s₃ r.1 contents = some (s₃.store r.1 contents) := by
      rw [copyData, if_neg (by rw [hheap₃]; exact hinside), Ramfs.store]
    rw [hs₃, hcopy, defined_some_bind]
    rfl
  · change s₃.heap.currentPointer = _
    rw [hheap₃, hend, hpointer₂]
  · change s₃.node _ = _
    rw [← hs₃, setNode_self, ← hfilled, setNode_self]
    rfl
  · change _ ≤ s₃.heap.currentPointer
    rw [hheap₃, hend, hptr]
    exact Nat.add_le_add_left (le_roundUp _) _

/-- A directory was made, without its links. -/
structure DirMade (s s' : Ramfs) (name : List UInt8) : Prop where
  pointer : s'.heap.currentPointer = s.heap.currentPointer + SIZEOF_NODE
  node : ∃ ino, s'.node s.heap.currentPointer = dirNode name ino 0 0

theorem loadInitrdDirFile_fits (hok : s.heap.Ok) (hname : readName image MAX_FNAME h = .ok name)
    (hfits : s.Fits SIZEOF_NODE) :
    ∃ s', loadInitrdDirFile image h s = .ok (s', s.heap.currentPointer) ∧ LoadKeeps t s s' ∧
      DirMade s s' name := by
  obtain ⟨s₁, halloc, hfresh, hkeeps⟩ := ramfsAllocNode_fits (t := t) hok hfits
  refine ⟨_, ?_, (hkeeps.takeIno.setNode (loadedNode name s.lastIno .directory 0)
    (.inr (Nat.le_refl _))).setNode (dirNode name s.lastIno 0 0) (.inr (Nat.le_refl _)), ?_,
    s.lastIno, setNode_self _⟩
  · rw [loadInitrdDirFile, halloc]
    dsimp only
    rw [if_neg hfresh.pos, hname, ok_bind, hfresh.fillLoaded, defined_some_bind,
      update_eq hfresh.pos, setNode_self]
    rfl
  · rw [setNode_heap, setNode_heap, takeIno_heap]
    exact hfresh.pointer

/-! ## The links of a directory -/

theorem update_eq_some {f : RamfsFileHeader → RamfsFileHeader} (hrun : s.update p f = some s') :
    s' = s.setNode p (f (s.node p)) := by
  by_cases hp : p = 0
  · rw [Ramfs.update, if_pos hp] at hrun
    cases hrun
  · rw [update_eq hp] at hrun
    exact (Option.some.inj hrun).symm

theorem LoadKeeps.getSimlink (h : LoadKeeps t s s₁) {target : Nat}
    (hp : s.heap.currentPointer ≤ p) (hrun : fsGetSimlink s₁ name target p = some s₂) :
    LoadKeeps t s s₂ := by
  rw [fsGetSimlink] at hrun
  rw [update_eq_some hrun]
  exact h.takeIno.setNode _ (.inr hp)

theorem LoadKeeps.linkDots {d c u : Nat} (h : LoadKeeps d s s₁) (hc : s.heap.currentPointer ≤ c)
    (hu : s.heap.currentPointer ≤ u) (hrun : linkDots s₁ d c u = some s₂) : LoadKeeps d s s₂ := by
  rw [TalOS.linkDots] at hrun
  obtain ⟨n, -, hrun⟩ := Option.bind_eq_some_iff.mp hrun
  split at hrun
  · obtain ⟨s₃, hdir, hrun⟩ := Option.bind_eq_some_iff.mp hrun
    obtain ⟨s₄, hdot, hdotdot⟩ := Option.bind_eq_some_iff.mp hrun
    rw [update_eq_some hdotdot, update_eq_some hdot, update_eq_some hdir]
    exact ((h.setNode _ (.inl rfl)).setNode _ (.inr hc)).setNode _ (.inr hu)
  · exact Option.some.inj hrun ▸ h

theorem linkDots_storeDots {d c u : Nat} (hd : d ≠ 0) (hchildren : (s.node d).children = 0) :
    linkDots s d c u = storeDots s d c u := by
  rw [linkDots, Ramfs.deref, if_neg hd, Option.bind_some, if_pos hchildren, storeDots]

/-- A directory without children gets its links. -/
theorem loadDots_fits {d P : Nat} (hok : s.heap.Ok) (hd : d ≠ 0) (hbelow : d < s.heap.currentPointer)
    (hchildren : (s.node d).children = 0) (hfits : s.Fits (2 * SIZEOF_NODE)) :
    ∃ s' c u, loadDots s P d = some (s', some u) ∧ LoadKeeps d s s' ∧ Dotted s s' d P c u := by
  have hsize : SIZEOF_NODE = 200 := rfl
  unfold Ramfs.Fits at hfits
  have hfitsDot : s.Fits SIZEOF_NODE := Nat.le_trans (by omega) hfits
  obtain ⟨s₃, halloc, h₃, hkeeps₃⟩ := ramfsAllocNode_fits (t := d) hok hfitsDot
  generalize hc : s.heap.currentPointer = c at *
  have hdot := h₃.link (show DOT_NAME.length ≤ MAX_FNAME by decide) d
  generalize hs₄ : s₃.takeIno.setNode c (linkNode DOT_NAME s.lastIno d 0) = s₄ at hdot
  have hkeeps₄ : LoadKeeps d s s₄ := hkeeps₃.getSimlink (Nat.le_of_eq hc) hdot
  have hpointer₄ : s₄.heap.currentPointer = c + SIZEOF_NODE := by
    rw [← hs₄, setNode_heap, takeIno_heap]
    exact h₃.pointer
  have hfitsDotdot : s₄.Fits SIZEOF_NODE := by
    rw [Ramfs.Fits, hpointer₄, hkeeps₄.limit]
    omega
  obtain ⟨s₅, halloc', h₅, hkeeps₅⟩ := ramfsAllocNode_fits (t := d) hkeeps₄.heap hfitsDotdot
  generalize hu : s₄.heap.currentPointer = u at *
  have hdotdot := h₅.link (show DOTDOT_NAME.length ≤ MAX_FNAME by decide) P
  generalize hs₆ : s₅.takeIno.setNode u (linkNode DOTDOT_NAME s₄.lastIno P 0) = s₆ at hdotdot
  have hbehind : s.heap.currentPointer ≤ u := by omega
  have hkeeps₆ : LoadKeeps d s s₆ := (hkeeps₄.trans hkeeps₅ (.inl rfl)).getSimlink hbehind hdotdot
  obtain ⟨s₇, hlink, hdotted⟩ :=
    Dotted.of_fresh hd (hc ▸ hbelow) hchildren h₃ hs₄.symm h₅ hs₆.symm
  have hkeeps₇ : LoadKeeps d s s₇ := hkeeps₆.linkDots (Nat.le_of_eq hc) hbehind hlink
  have hchildren₆ : (s₆.node d).children = 0 := by
    rw [← hs₆, setNode_ne _ (by omega)]
    refine (congrArg _ (h₅.other d (by omega))).trans ?_
    rw [← hs₄, setNode_ne _ (by omega)]
    exact (congrArg _ (h₃.other d (by omega))).trans hchildren
  refine ⟨s₇, c, u, ?_, hkeeps₇, hdotted⟩
  rw [loadDots, Ramfs.deref, if_neg hd, Option.bind_some, if_pos hchildren, halloc]
  dsimp only
  rw [if_neg h₃.pos, hdot, Option.bind_some, halloc']
  dsimp only
  rw [if_neg h₅.pos, hdotdot, Option.bind_some, ← linkDots_storeDots hd hchildren₆, hlink]
  rfl

/-! ## The end of the list -/

/-- The state with `a` linked in behind `t`. -/
def Ramfs.linkBehind (s : Ramfs) (t a : Nat) : Ramfs := s.setNode t { s.node t with next := a }

@[simp] theorem linkBehind_heap : (s.linkBehind t a).heap = s.heap := rfl
@[simp] theorem linkBehind_self : (s.linkBehind t a).node t = { s.node t with next := a } := setNode_self _

theorem linkBehind_ne {x : Nat} (h : x ≠ t) : (s.linkBehind t a).node x = s.node x := setNode_ne _ h

/-- A node has been made at the allocator's pointer, with what belongs to it behind it; no other node
leads to it, and it leads to no other. -/
structure NodeMade (s s' : Ramfs) : Prop where
  keeps : LoadKeeps s.heap.currentPointer s s'
  below : s.heap.currentPointer < s'.heap.currentPointer
  next : s'.nextPtr s.heap.currentPointer = 0

/-- `t` is the last node of the list that is appended to: `..`, as long as nothing is behind it, or the
node loaded last. -/
structure LoadTail (s : Ramfs) (up prev t : Nat) : Prop where
  upBelow : up < s.heap.currentPointer
  below : t < s.heap.currentPointer
  pos : t ≠ 0
  last : s.nextPtr t = 0
  which : t = up ∨ t = prev ∧ up ≠ 0 ∧ s.nextPtr up ≠ 0

variable {up prev : Nat}

theorem NodeMade.tail (hmade : NodeMade s s') (h : LoadTail s up prev t) : LoadTail s' up prev t := by
  have hnode {x : Nat} (hx : x < s.heap.currentPointer) : s'.nextPtr x = s.nextPtr x :=
    congrArg RamfsFileHeader.next (hmade.keeps.node x hx (Nat.ne_of_lt hx))
  refine ⟨Nat.lt_trans h.upBelow hmade.below, Nat.lt_trans h.below hmade.below, h.pos, ?_, ?_⟩
  · rw [hnode h.below]
    exact h.last
  · rw [hnode h.upBelow]
    exact h.which

theorem LoadTail.linkLoaded (h : LoadTail s up prev t) (a : Nat) :
    linkLoaded s up prev a = some (s.linkBehind t a) := by
  rcases h.which with rfl | ⟨rfl, hup, hnext⟩
  · rw [TalOS.linkLoaded, Ramfs.deref, if_neg h.pos, Option.bind_some,
      if_pos (show (s.node t).next = 0 from h.last), update_eq h.pos, Ramfs.linkBehind]
  · rw [TalOS.linkLoaded, Ramfs.deref, if_neg hup, Option.bind_some,
      if_neg (show ¬ (s.node up).next = 0 from hnext), update_eq h.pos, Ramfs.linkBehind]

/-- The node that was made is linked in behind the last one, and is the last one then. -/
theorem NodeMade.append (hmade : NodeMade s s') (hok : s.heap.Ok) (h : LoadTail s up prev t) :
    TalOS.linkLoaded s' up prev s.heap.currentPointer = some (s'.linkBehind t s.heap.currentPointer) ∧
      LoadTail (s'.linkBehind t s.heap.currentPointer) up s.heap.currentPointer s.heap.currentPointer := by
  have h' := hmade.tail h
  refine ⟨h'.linkLoaded _, h'.upBelow, hmade.below, hok.pointer_ne, ?_, .inr ⟨rfl, ?_⟩⟩
  · rw [Ramfs.nextPtr, linkBehind_ne (Nat.ne_of_gt h.below)]
    exact hmade.next
  · rcases h'.which with rfl | ⟨-, hup, hnextUp⟩
    · refine ⟨h.pos, ?_⟩
      rw [Ramfs.nextPtr, linkBehind_self]
      exact hok.pointer_ne
    · have hupt : up ≠ t := fun heq => hnextUp (heq ▸ h'.last)
      refine ⟨hup, ?_⟩
      rw [Ramfs.nextPtr, linkBehind_ne hupt]
      exact hnextUp

/-! ## Loading the entries of a directory -/

/-- What loading entries takes from the heap. -/
def DirEntries.cost : DirEntries → Nat
  | .nil => 0
  | .file _ contents rest => SIZEOF_NODE + roundUp contents.length + rest.cost
  | .dir _ below rest => SIZEOF_NODE + 2 * SIZEOF_NODE + below.cost + rest.cost

/-- The `n` slots from the entry `i` on, of the directory with its header at `h`, hold these entries;
slots of other types are passed over. -/
inductive Row (image : Access.Mem) (base : Nat) : Nat → Nat → Nat → DirEntries → Prop where
  | nil (h i : Nat) : Row image base h i 0 .nil
  | file {h i n : Nat} {name contents : List UInt8} {rest : DirEntries}
      (htype : headerType image (childHeader h i) = .ok INITRD_FTYPE_REGULAR)
      (hfile : FileRead image base (childHeader h i) name contents)
      (hrest : Row image base h (i + 1) n rest) :
      Row image base h i (n + 1) (.file name contents rest)
  | dir {h i n m : Nat} {name : List UInt8} {below rest : DirEntries}
      (htype : headerType image (childHeader h i) = .ok INITRD_FTYPE_DIR)
      (hname : readName image MAX_FNAME (childHeader h i) = .ok name)
      (hcount : headerDirNfiles image (childHeader h i) = .ok m)
      (hbelow : Row image base (childHeader h i) 0 m below)
      (hrest : Row image base h (i + 1) n rest) :
      Row image base h i (n + 1) (.dir name below rest)
  | skip {h i n type : Nat} {es : DirEntries}
      (htype : headerType image (childHeader h i) = .ok type)
      (hother : type ≠ INITRD_FTYPE_REGULAR ∧ type ≠ INITRD_FTYPE_DIR)
      (hrest : Row image base h (i + 1) n es) :
      Row image base h i (n + 1) es

/-- The entries of the directory `D` have been appended behind the node `t`. -/
structure Loaded (s s' : Ramfs) (t D : Nat) (es : DirEntries) : Prop where
  keeps : LoadKeeps t s s'
  tail : s'.node t = { s.node t with next := s'.nextPtr t }
  pointer : s'.heap.currentPointer = s.heap.currentPointer + es.cost
  entries : EntriesAt s' s.heap.currentPointer s'.heap.currentPointer D es (s'.nextPtr t)

variable {D : Nat} {below rest : DirEntries}

theorem Loaded.nil (hok : s.heap.Ok) (hlast : s.nextPtr t = 0) : Loaded s s t D .nil where
  keeps := .refl hok
  tail := rfl
  pointer := rfl
  entries := hlast

/-- Linking a node in that was made, and loading what comes behind it. -/
theorem NodeMade.link_keeps (hmade : NodeMade s s₁)
    (hrest : Loaded (s₁.linkBehind t s.heap.currentPointer) s' s.heap.currentPointer D rest) :
    LoadKeeps t s s' := by
  have hlink : LoadKeeps t s (s₁.linkBehind t s.heap.currentPointer) :=
    (hmade.keeps.other (Nat.le_refl _) t).setNode _ (.inl rfl)
  exact hlink.trans hrest.keeps (.inr (Nat.le_refl _))

theorem NodeMade.link_tail (hmade : NodeMade s s₁) (ht : t < s.heap.currentPointer)
    (hrest : Loaded (s₁.linkBehind t s.heap.currentPointer) s' s.heap.currentPointer D rest) :
    s'.node t = { s.node t with next := s.heap.currentPointer } := by
  have hne : t ≠ s.heap.currentPointer := Nat.ne_of_lt ht
  rw [hrest.keeps.node t (Nat.lt_trans ht hmade.below) hne, linkBehind_self, hmade.keeps.node t ht hne]

theorem FileMade.nodeMade (hmade : FileMade s s' name contents)
    (hkeeps : LoadKeeps s.heap.currentPointer s s') : NodeMade s s' where
  keeps := hkeeps
  below := by
    rw [hmade.pointer, Nat.add_assoc]
    exact Nat.lt_add_of_pos_right (Nat.add_pos_left (by decide) _)
  next := by
    obtain ⟨ino, filePtr, hnode, -⟩ := hmade.node
    rw [Ramfs.nextPtr, hnode]
    rfl

theorem Loaded.file (hkeeps : LoadKeeps s.heap.currentPointer s s₁)
    (hmade : FileMade s s₁ name contents) (ht : t < s.heap.currentPointer)
    (hrest : Loaded (s₁.linkBehind t s.heap.currentPointer) s' s.heap.currentPointer D rest) :
    Loaded s s' t D (.file name contents rest) := by
  have hnodeMade := hmade.nodeMade hkeeps
  have htail := hnodeMade.link_tail ht hrest
  have hnext : s'.nextPtr t = s.heap.currentPointer := congrArg RamfsFileHeader.next htail
  have hgrow := hrest.keeps.grow
  rw [linkBehind_heap] at hgrow
  have hpointer := hmade.pointer
  obtain ⟨ino, filePtr, hnode, hlow, hhigh, hread⟩ := hmade.node
  refine ⟨hnodeMade.link_keeps hrest, ?_, ?_, ?_⟩
  · rw [hnext]
    exact htail
  · rw [hrest.pointer, linkBehind_heap, hpointer, DirEntries.cost]
    omega
  · rw [hnext]
    refine ⟨⟨Nat.le_refl _, Nat.lt_of_lt_of_le hnodeMade.below hgrow⟩,
      ⟨ino, filePtr, ?_, hlow, Nat.le_trans hhigh hgrow, ?_⟩, ?_⟩
    · rw [hrest.tail, linkBehind_ne (Nat.ne_of_gt ht), hnode]
      rfl
    · refine (Memory.readAt_congr fun j hj => ?_).trans hread
      exact hrest.keeps.mem _ (by rw [linkBehind_heap]; omega)
    · exact hrest.entries.mono hkeeps.grow (Nat.le_refl _) (fun _ _ _ => rfl) fun _ _ _ => rfl

/-- A directory has been made at the allocator's pointer, to be put into `D`; `c` and `u` are its links. -/
structure DirLinked (s s₁ s₂ : Ramfs) (name : List UInt8) (D c u : Nat) : Prop where
  keepsMade : LoadKeeps s.heap.currentPointer s s₁
  made : DirMade s s₁ name
  keepsLinks : LoadKeeps s.heap.currentPointer s₁ s₂
  links : Dotted s₁ s₂ s.heap.currentPointer D c u

theorem loadDir_fits (D : Nat) (hok : s.heap.Ok) (hname : readName image MAX_FNAME h = .ok name)
    (hfits : s.Fits (SIZEOF_NODE + 2 * SIZEOF_NODE)) :
    ∃ s₁ s₂ c u, loadInitrdDirFile image h s = .ok (s₁, s.heap.currentPointer) ∧
      loadDots s₁ D s.heap.currentPointer = some (s₂, some u) ∧ DirLinked s s₁ s₂ name D c u := by
  unfold Ramfs.Fits at hfits
  obtain ⟨s₁, hrun, hkeeps, hmade⟩ := loadInitrdDirFile_fits (t := s.heap.currentPointer) hok hname
    (by unfold Ramfs.Fits; omega)
  have hpointer := hmade.pointer
  have hbelow : s.heap.currentPointer < s₁.heap.currentPointer := by
    rw [hpointer]
    exact Nat.lt_add_of_pos_right (by decide)
  obtain ⟨ino, hdir⟩ := hmade.node
  have hchildren : (s₁.node s.heap.currentPointer).children = 0 := by
    rw [hdir]
    rfl
  obtain ⟨s₂, c, u, hdots, hkeeps', hdotted⟩ := loadDots_fits (P := D) hkeeps.heap hok.pointer_ne
    hbelow hchildren (by rw [Ramfs.Fits, hkeeps.limit]; omega)
  exact ⟨s₁, s₂, c, u, hrun, hdots, hkeeps, hmade, hkeeps', hdotted⟩

section Dir

variable {s₃ : Ramfs} {c u : Nat} (hdir : DirLinked s s₁ s₂ name D c u)
include hdir

theorem DirLinked.limit : s₂.heap.limit = s.heap.limit := hdir.keepsLinks.limit.trans hdir.keepsMade.limit

/-- The nodes of the directory and of its links, one behind the other. -/
theorem DirLinked.pointers : c = s.heap.currentPointer + SIZEOF_NODE ∧ u = c + SIZEOF_NODE ∧
    s₂.heap.currentPointer = u + SIZEOF_NODE :=
  ⟨hdir.links.dotAddr.trans hdir.made.pointer, hdir.links.dotdotAddr, hdir.links.pointer⟩

/-- What is in the directory goes behind its link `..`. -/
theorem DirLinked.tail : LoadTail s₂ u 0 u := by
  have hsize : SIZEOF_NODE = 200 := rfl
  obtain ⟨hc, hu, hpointer⟩ := hdir.pointers
  obtain ⟨ino, hdotdot⟩ := hdir.links.dotdot
  refine ⟨by omega, by omega, by omega, ?_, .inl rfl⟩
  rw [Ramfs.nextPtr, hdotdot]
  rfl

/-- With what is in it, the directory is a node that was made. -/
theorem DirLinked.nodeMade (hbelow : Loaded s₂ s₃ u s.heap.currentPointer below) : NodeMade s s₃ := by
  have hsize : SIZEOF_NODE = 200 := rfl
  obtain ⟨hc, hu, hpointer⟩ := hdir.pointers
  have hgrow := hbelow.keeps.grow
  obtain ⟨ino, hnode⟩ := hdir.made.node
  refine ⟨(hdir.keepsMade.trans hdir.keepsLinks (.inl rfl)).trans hbelow.keeps (.inr (by omega)),
    by omega, ?_⟩
  rw [Ramfs.nextPtr, hbelow.keeps.node _ (by omega) (by omega), hdir.links.dir, hnode]
  rfl

/-- A directory, what is in it, and what comes behind it. -/
theorem DirLinked.loaded (hbelow : Loaded s₂ s₃ u s.heap.currentPointer below) (ht : t < s.heap.currentPointer)
    (hrest : Loaded (s₃.linkBehind t s.heap.currentPointer) s' s.heap.currentPointer D rest) :
    Loaded s s' t D (.dir name below rest) := by
  have hsize : SIZEOF_NODE = 200 := rfl
  obtain ⟨hc, hu, hpointer⟩ := hdir.pointers
  have hmade := hdir.nodeMade hbelow
  have htail := hmade.link_tail ht hrest
  have hnext : s'.nextPtr t = s.heap.currentPointer := congrArg RamfsFileHeader.next htail
  have hgrow := hbelow.keeps.grow
  have hgrow' := hrest.keeps.grow
  rw [linkBehind_heap] at hgrow'
  -- A node below the entries of the directory is as the directory's links have left it.
  have hnode {x : Nat} (hx : x < s₂.heap.currentPointer) (hxt : x ≠ t)
      (hxd : x ≠ s.heap.currentPointer) : s'.node x = s₃.node x := by
    rw [hrest.keeps.node x (Nat.lt_of_lt_of_le hx hgrow) hxd, linkBehind_ne hxt]
  obtain ⟨ino, hself⟩ := hdir.made.node
  obtain ⟨dotIno, hdot⟩ := hdir.links.dot
  obtain ⟨dotdotIno, hdotdot⟩ := hdir.links.dotdot
  refine ⟨hmade.link_keeps hrest, ?_, ?_, ?_⟩
  · rw [hnext]
    exact htail
  · rw [hrest.pointer, linkBehind_heap, hbelow.pointer, DirEntries.cost]
    omega
  · rw [hnext]
    refine ⟨⟨Nat.le_refl _, by omega⟩, ⟨ino, c, u, ?_, ⟨by omega, by omega⟩, ⟨by omega, by omega⟩,
      ⟨dotIno, ?_⟩, ⟨dotdotIno, ?_⟩, ?_⟩, ?_⟩
    · rw [hrest.tail, linkBehind_ne (Nat.ne_of_gt ht), hbelow.keeps.node _ (by omega) (by omega),
        hdir.links.dir, hself]
      rfl
    · rw [hnode (by omega) (by omega) (by omega), hbelow.keeps.node _ (by omega) (by omega), hdot]
    · have hup : s'.node u = s₃.node u := hnode (by omega) (by omega) (by omega)
      rw [hup, Ramfs.nextPtr, hup, hbelow.tail, hdotdot]
      rfl
    · have hup : s'.nextPtr u = s₃.nextPtr u :=
        congrArg RamfsFileHeader.next (hnode (by omega) (by omega) (by omega))
      rw [hup]
      refine hbelow.entries.mono (by omega) hgrow' (fun x hx hx' => ?_) fun a _ ha => ?_
      · rw [hrest.keeps.node x (by rw [linkBehind_heap]; exact hx') (by omega), linkBehind_ne (by omega)]
      · exact hrest.keeps.mem a (by rw [linkBehind_heap]; exact ha)
    · exact hrest.entries.mono hmade.keeps.grow (Nat.le_refl _) (fun _ _ _ => rfl) fun _ _ _ => rfl

end Dir

/-! ## Runs in which every allocation succeeds -/

mutual

/-- In a run of `LoadInitrdFiles` every node and every buffer is handed out. -/
def FilesAllocate (image : Access.Mem) (initrdBase : Nat) : Nat → Nat → Nat → Nat → Ramfs → Prop
  | 0, _, _, _, _ => True
  | fuel + 1, parent, currentDir, h, s =>
    ∀ s₁ up, loadDots s parent currentDir = some (s₁, up) →
      ∃ u, up = some u ∧ ChildrenAllocate image initrdBase fuel currentDir u h 0 0 s₁

/-- In a run of the loop of `LoadInitrdFiles` every node and every buffer is handed out. -/
def ChildrenAllocate (image : Access.Mem) (initrdBase : Nat) :
    Nat → Nat → Nat → Nat → Nat → Nat → Ramfs → Prop
  | 0, _, _, _, _, _, _ => True
  | fuel + 1, currentDir, up, h, i, prev, s =>
    ∀ dirNfiles, headerDirNfiles image h = .ok dirNfiles → i < dirNfiles →
      ∀ type, headerType image (childHeader h i) = .ok type →
        if type = INITRD_FTYPE_REGULAR then
          ∀ s₁ curr, loadInitrdRegFile image initrdBase (childHeader h i) s = .ok (s₁, curr) →
            curr ≠ 0 ∧ ∀ s₂, linkLoaded s₁ up prev curr = some s₂ →
              ChildrenAllocate image initrdBase fuel currentDir up h (i + 1) curr s₂
        else if type = INITRD_FTYPE_DIR then
          ∀ s₁ curr, loadInitrdDirFile image (childHeader h i) s = .ok (s₁, curr) →
            curr ≠ 0 ∧ FilesAllocate image initrdBase fuel currentDir curr (childHeader h i) s₁ ∧
              ∀ s₂ s₃, loadInitrdFiles image initrdBase fuel currentDir curr (childHeader h i) s₁ =
                  .ok (s₂, VFS_T_OK) → linkLoaded s₂ up prev curr = some s₃ →
                ChildrenAllocate image initrdBase fuel currentDir up h (i + 1) curr s₃
        else ChildrenAllocate image initrdBase fuel currentDir up h (i + 1) prev s

end

/-- In a run of `ramfs_loadInitrd` every allocation succeeds. -/
def AllocationsSucceed (image : Access.Mem) (fuel initrdPtr : Nat) (path : List UInt8) (s : Ramfs) :
    Prop :=
  ∀ currDir, fsGetNode s 0 path = some currDir →
    FilesAllocate image initrdPtr fuel (s.node (s.nextPtr (s.node currDir).children)).nodePtr currDir
      (u32 (initrdPtr + SIZEOF_INITRD_HEADER)) s

section Allocate

variable {image : Access.Mem} {base h i count fuel curr up prev : Nat}

theorem ChildrenAllocate.nil {D : Nat} (hcount : headerDirNfiles image h = .ok i) :
    ChildrenAllocate image base (fuel + 1) D up h i prev s := by
  rw [ChildrenAllocate]
  intro count hcount' hlt
  obtain rfl := Except.ok.inj (hcount.symm.trans hcount')
  exact absurd hlt (Nat.lt_irrefl i)

theorem ChildrenAllocate.file {D : Nat}
    (htype : headerType image (childHeader h i) = .ok INITRD_FTYPE_REGULAR)
    (hrun : loadInitrdRegFile image base (childHeader h i) s = .ok (s₁, curr)) (hcurr : curr ≠ 0)
    (hlink : linkLoaded s₁ up prev curr = some s₂)
    (hrest : ChildrenAllocate image base fuel D up h (i + 1) curr s₂) :
    ChildrenAllocate image base (fuel + 1) D up h i prev s := by
  rw [ChildrenAllocate]
  intro _ _ _ type htype'
  obtain rfl := Except.ok.inj (htype.symm.trans htype')
  rw [if_pos rfl]
  intro s₁' curr' hrun'
  obtain ⟨rfl, rfl⟩ := Prod.mk.inj (Except.ok.inj (hrun.symm.trans hrun'))
  refine ⟨hcurr, fun s₂' hlink' => ?_⟩
  obtain rfl := Option.some.inj (hlink.symm.trans hlink')
  exact hrest

theorem ChildrenAllocate.dir {D : Nat} {s₃ : Ramfs}
    (htype : headerType image (childHeader h i) = .ok INITRD_FTYPE_DIR)
    (hmake : loadInitrdDirFile image (childHeader h i) s = .ok (s₁, curr)) (hcurr : curr ≠ 0)
    (hbelow : FilesAllocate image base fuel D curr (childHeader h i) s₁)
    (hload : loadInitrdFiles image base fuel D curr (childHeader h i) s₁ = .ok (s₂, VFS_T_OK))
    (hlink : linkLoaded s₂ up prev curr = some s₃)
    (hrest : ChildrenAllocate image base fuel D up h (i + 1) curr s₃) :
    ChildrenAllocate image base (fuel + 1) D up h i prev s := by
  rw [ChildrenAllocate]
  intro _ _ _ type htype'
  obtain rfl := Except.ok.inj (htype.symm.trans htype')
  rw [if_neg (by decide), if_pos rfl]
  intro s₁' curr' hmake'
  obtain ⟨rfl, rfl⟩ := Prod.mk.inj (Except.ok.inj (hmake.symm.trans hmake'))
  refine ⟨hcurr, hbelow, fun s₂' s₃' hload' hlink' => ?_⟩
  obtain ⟨rfl, -⟩ := Prod.mk.inj (Except.ok.inj (hload.symm.trans hload'))
  obtain rfl := Option.some.inj (hlink.symm.trans hlink')
  exact hrest

theorem ChildrenAllocate.skip {D type : Nat} (htype : headerType image (childHeader h i) = .ok type)
    (hother : type ≠ INITRD_FTYPE_REGULAR ∧ type ≠ INITRD_FTYPE_DIR)
    (hrest : ChildrenAllocate image base fuel D up h (i + 1) prev s) :
    ChildrenAllocate image base (fuel + 1) D up h i prev s := by
  rw [ChildrenAllocate]
  intro _ _ _ type' htype'
  obtain rfl := Except.ok.inj (htype.symm.trans htype')
  rw [if_neg hother.1, if_neg hother.2]
  exact hrest

theorem FilesAllocate.of_children {D parent : Nat} (hdots : loadDots s parent D = some (s₁, some up))
    (hbelow : ChildrenAllocate image base fuel D up h 0 0 s₁) :
    FilesAllocate image base (fuel + 1) parent D h s := by
  rw [FilesAllocate]
  intro s₁' up' hdots'
  obtain ⟨rfl, rfl⟩ := Prod.mk.inj (Option.some.inj (hdots.symm.trans hdots'))
  exact ⟨up, rfl, hbelow⟩

end Allocate

/-! ## The loop -/

/-- With enough fuel, and room for what is in its slots, the loop loads the entries of a row, and every
allocation in it succeeds. -/
theorem Row.load {n i : Nat} {es : DirEntries} (hrow : Row image base h i n es) :
    ∃ fuel₀, ∀ fuel ≥ fuel₀, ∀ {s : Ramfs} {D up prev t : Nat},
      LoadTail s up prev t → headerDirNfiles image h = .ok (i + n) → s.heap.Ok → s.Fits es.cost →
      ∃ s', loadChildren image base fuel D up h i prev s = .ok (s', VFS_T_OK) ∧
        Loaded s s' t D es ∧ ChildrenAllocate image base fuel D up h i prev s := by
  -- Each slot takes its nodes from the pointer on, so the rest of the row has the rest of the room.
  unfold Ramfs.Fits
  induction hrow with
  | nil h i =>
    refine ⟨1, fun fuel hfuel s D up prev t htail hcount hok _ => ⟨s, ?_, .nil hok htail.last, ?_⟩⟩
    · obtain ⟨fuel, rfl⟩ := Nat.exists_eq_add_of_le' hfuel
      rw [loadChildren, hcount, ok_bind, if_neg (by omega)]
      rfl
    · obtain ⟨fuel, rfl⟩ := Nat.exists_eq_add_of_le' hfuel
      exact .nil hcount
  | @file h i n name contents rest htype hfile _ ihrest =>
    obtain ⟨fuel₀, ihrest⟩ := ihrest
    refine ⟨fuel₀ + 1, fun fuel hfuel s D up prev t htail hcount hok hfits => ?_⟩
    obtain ⟨fuel, rfl⟩ := Nat.exists_eq_add_of_le' (Nat.le_trans (Nat.le_add_left 1 fuel₀) hfuel)
    rw [DirEntries.cost] at hfits
    obtain ⟨s₁, hrun, hkeeps, hmade⟩ := loadInitrdRegFile_fits (t := s.heap.currentPointer) hok hfile
      (by unfold Ramfs.Fits; omega)
    have hpointer := hmade.pointer
    obtain ⟨hlink, htail'⟩ := (hmade.nodeMade hkeeps).append hok htail
    obtain ⟨s', hload, hrest, halloc⟩ := ihrest fuel (Nat.le_of_succ_le_succ hfuel) (D := D) htail'
      (hcount.trans (congrArg Except.ok (by omega))) hkeeps.heap
      (by rw [linkBehind_heap, hkeeps.limit]; omega)
    refine ⟨s', ?_, .file hkeeps hmade htail.below hrest, .file htype hrun hok.pointer_ne hlink halloc⟩
    rw [loadChildren, hcount, ok_bind, if_pos (by omega), htype, ok_bind, if_pos rfl, hrun, ok_bind,
      hlink, defined_some_bind]
    exact hload
  | @dir h i n m name below rest htype hname hcountBelow _ _ ihbelow ihrest =>
    obtain ⟨fuelBelow, ihbelow⟩ := ihbelow
    obtain ⟨fuelRest, ihrest⟩ := ihrest
    refine ⟨fuelBelow + fuelRest + 2, fun fuel hfuel s D up prev t htail hcount hok hfits => ?_⟩
    obtain ⟨fuel, rfl⟩ := Nat.exists_eq_add_of_le' (Nat.le_trans (Nat.le_add_left 2 _) hfuel)
    rw [DirEntries.cost] at hfits
    obtain ⟨s₁, s₂, c, u, hmake, hdots, hdir⟩ := loadDir_fits D hok hname
      (by unfold Ramfs.Fits; omega)
    obtain ⟨hc, hu, hpointer⟩ := hdir.pointers
    -- What is in the directory goes behind its `..`, and then the directory into its parent's list.
    obtain ⟨s₃, hloadBelow, hbelow, hallocBelow⟩ := ihbelow fuel (by omega) (D := s.heap.currentPointer)
      hdir.tail (hcountBelow.trans (by rw [Nat.zero_add])) hdir.keepsLinks.heap
      (by rw [hdir.limit]; omega)
    have hloadFiles : loadInitrdFiles image base (fuel + 1) D s.heap.currentPointer (childHeader h i) s₁ =
        .ok (s₃, VFS_T_OK) := by
      rw [loadInitrdFiles, hdots, defined_some_bind]
      exact hloadBelow
    have hmade := hdir.nodeMade hbelow
    obtain ⟨hlink, htail'⟩ := hmade.append hok htail
    obtain ⟨s', hload, hrest, halloc⟩ := ihrest (fuel + 1) (by omega) (D := D) htail'
      (hcount.trans (congrArg Except.ok (by omega))) hmade.keeps.heap
      (by rw [linkBehind_heap, hmade.keeps.limit, hbelow.pointer]; omega)
    refine ⟨s', ?_, hdir.loaded hbelow htail.below hrest,
      .dir htype hmake hok.pointer_ne (.of_children hdots hallocBelow) hloadFiles hlink halloc⟩
    rw [loadChildren, hcount, ok_bind, if_pos (by omega), htype, ok_bind, if_neg (by decide), if_pos rfl,
      hmake, ok_bind, hloadFiles, ok_bind, if_neg (not_not_intro rfl), hlink, defined_some_bind]
    exact hload
  | @skip h i n type es htype hother _ ihrest =>
    obtain ⟨fuel₀, ihrest⟩ := ihrest
    refine ⟨fuel₀ + 1, fun fuel hfuel s D up prev t htail hcount hok hfits => ?_⟩
    obtain ⟨fuel, rfl⟩ := Nat.exists_eq_add_of_le' (Nat.le_trans (Nat.le_add_left 1 fuel₀) hfuel)
    obtain ⟨s', hload, hrest, halloc⟩ := ihrest fuel (Nat.le_of_succ_le_succ hfuel) (D := D) htail
      (hcount.trans (congrArg Except.ok (by omega))) hok hfits
    refine ⟨s', ?_, hrest, .skip htype hother halloc⟩
    rw [loadChildren, hcount, ok_bind, if_pos (by omega), htype, ok_bind, if_neg hother.1,
      if_neg hother.2]
    exact hload

end TalOS
