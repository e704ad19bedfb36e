-- SUMMARY: Creations that run out of memory: which of them undo what they have allocated.
import TalOS.Coresys.FileBounds
import TalOS.Coresys.Initrd

/-!
# Failed creations

`ramfs_init`, `ramfs_mkDir` and `LoadInitrdFiles` allocate nodes one after the other and
undo them at labels behind the `return`, each of which falls through to the next. Every
node is a block of the same size behind the allocator's pointer, so what has been
allocated can be read off the pointer, and what has been undone off the list of freed
blocks.
-/

namespace TalOS

/-! ## What a failed creation may leave -/

/-- A block that the tree uses: a node, or the buffer of a file with contents. -/
def Live (s : Ramfs) (T : Forest Nat) (p : Nat) : Prop :=
  p ∈ T.nodes ∨ ∃ x ∈ T.nodes, 0 < (s.node x).length ∧ (s.node x).filePtr = p

/-- A node was allocated at `p` between the two heaps. -/
def NodeAllocated (h h' : Kheap) (p : Nat) : Prop :=
  ∃ i, p = h.currentPointer + i * SIZEOF_NODE ∧ p < h'.currentPointer

/-- Every node allocated between the two heaps has been freed, once, and nothing in use has been. -/
def Undone (inUse : Nat → Prop) (h h' : Kheap) : Prop :=
  ∃ frees, h'.freed = h.freed ++ frees ∧ (∀ p, NodeAllocated h h' p → frees.count p = 1) ∧
    ∀ p ∈ frees, ¬ inUse p

/-- The root directory may have been filled in afresh; everything below it is as it was. -/
structure KeepsBelow (T : Forest Nat) (s s' : Ramfs) : Prop where
  root : s'.root = s.root
  node : ∀ x ∈ T.nodes, x ≠ ROOT → s'.node x = s.node x
  children : (s'.node ROOT).children = (s.node ROOT).children
  next : (s'.node ROOT).next = (s.node ROOT).next
  filePtr : (s'.node ROOT).filePtr = (s.node ROOT).filePtr

/-- The three functions with their arguments. -/
inductive CreationCall where
  | init
  | mkDir (name path : List UInt8)
  | loadFiles (image : Access.Mem) (initrdBase fuel parent currentDir h : Nat)

/-- The call gets as far as its first allocation. -/
def CreationCall.Allocates (s : Ramfs) : CreationCall → Prop
  | .init => True
  | .mkDir name path => ∃ P, creationParent s name path = some (.ok, P)
  | .loadFiles _ _ _ _ currentDir _ => currentDir ≠ 0 ∧ (s.node currentDir).children = 0

/-- The call returns its failure value. -/
def CreationCall.Fails (s s' : Ramfs) : CreationCall → Prop
  | .init => ramfsInit s = some (s', .nok)
  | .mkDir name path => ramfsMkDir s name path = some (s', 0, .nok)
  | .loadFiles image initrdBase fuel parent currentDir h =>
    loadInitrdFiles image initrdBase (fuel + 1) parent currentDir h s = .ok (s', VFS_T_NOK)

/-- What the call does to the tree when it fails. -/
def CreationCall.Keeps (T : Forest Nat) (s s' : Ramfs) : CreationCall → Prop
  | .init => KeepsBelow T s s'
  | .mkDir .. | .loadFiles .. => KeepsTree T s s'

/-- The block that the caller has handed in. -/
def CreationCall.Held (p : Nat) : CreationCall → Prop
  | .init | .mkDir .. => False
  | .loadFiles _ _ _ _ currentDir _ => p = currentDir

/-- The number of nodes the call allocates. -/
def CreationCall.allocations : CreationCall → Nat
  | .init => 2
  | .mkDir .. => 3
  | .loadFiles .. => 2

/-- The number of these, from the first on, whose failure leads to the right label. -/
def CreationCall.undoneAllocations : CreationCall → Nat
  | .init => 2
  | .mkDir .. => 2
  | .loadFiles .. => 1

/-- The call fails, the tree is as it was, and the call has undone what it had allocated. -/
def FailsCleanly (T : Forest Nat) (s : Ramfs) (c : CreationCall) : Prop :=
  ∃ s', c.Fails s s' ∧ c.Keeps T s s' ∧ Undone (fun p => Live s T p ∨ c.Held p) s.heap s'.heap

variable {s s₁ s' : Ramfs} {T : Forest Nat} {k d parent : Nat} {frees : List Nat} {inUse : Nat → Prop}

/-! ## Counting blocks -/

theorem OutOfRoom.nodeAllocated {p : Nat} (h : OutOfRoom s s' k frees) :
    NodeAllocated s.heap s'.heap p ↔ ∃ i < k, p = s.heap.currentPointer + i * SIZEOF_NODE := by
  have hsize : 0 < SIZEOF_NODE := by decide
  constructor
  · rintro ⟨i, rfl, hlt⟩
    rw [h.pointer] at hlt
    exact ⟨i, Nat.lt_of_mul_lt_mul_right (Nat.lt_of_add_lt_add_left hlt), rfl⟩
  · rintro ⟨i, hi, rfl⟩
    refine ⟨i, rfl, ?_⟩
    rw [h.pointer]
    exact Nat.add_lt_add_left (Nat.mul_lt_mul_of_pos_right hi hsize) _

/-- What is undone depends on the number of nodes that fitted, and on what was freed. -/
theorem OutOfRoom.undone_iff (h : OutOfRoom s s' k frees) :
    Undone inUse s.heap s'.heap ↔
      (∀ i < k, frees.count (s.heap.currentPointer + i * SIZEOF_NODE) = 1) ∧
        ∀ p ∈ frees, ¬ inUse p := by
  constructor
  · rintro ⟨frees', hfreed, honce, hkept⟩
    rw [h.freed] at hfreed
    obtain rfl := List.append_cancel_left hfreed
    exact ⟨fun i hi => honce _ (h.nodeAllocated.mpr ⟨i, hi, rfl⟩), hkept⟩
  · rintro ⟨honce, hkept⟩
    refine ⟨frees, h.freed, fun p hp => ?_, hkept⟩
    obtain ⟨i, hi, rfl⟩ := h.nodeAllocated.mp hp
    exact honce i hi

theorem OutOfRoom.lt_iff (h : OutOfRoom s s' k frees) (n : Nat) :
    s.heap.limit < s.heap.currentPointer + n * SIZEOF_NODE ↔ k < n := by
  constructor
  · intro hlt
    refine Nat.lt_of_mul_lt_mul_right (a := SIZEOF_NODE) ?_
    exact Nat.lt_of_add_lt_add_left (Nat.lt_of_le_of_lt h.fits hlt)
  · intro hk
    refine Nat.lt_of_lt_of_le h.full (Nat.add_le_add_left ?_ _)
    exact Nat.mul_le_mul_right _ hk

/-- A state that the file system can be in when one of the calls is made. -/
structure Settled (s : Ramfs) (T : Forest Nat) : Prop where
  heap : s.heap.Ok
  above : ROOT < s.heap.currentPointer
  below : ∀ x ∈ T.nodes, x < s.heap.currentPointer
  live : ∀ p, Live s T p → p ≠ 0 ∧ p < s.heap.currentPointer

theorem FileTree.settled (h : FileTree s T) (hbuffers : BuffersOk s T) : Settled s T where
  heap := h.heap
  above := h.below _ h.root_mem
  below := h.below
  live := by
    rintro p (hp | ⟨x, hx, hpos, rfl⟩)
    · exact ⟨h.ne_zero hp, h.below p hp⟩
    · obtain ⟨hptr, hlt⟩ := hbuffers.below x hx 0 hpos
      exact ⟨Nat.pos_iff_ne_zero.mp hptr, hlt⟩

theorem Boot.settled (h : Boot s) : Settled s .nil where
  heap := h.heap
  above := h.above
  below := nofun
  live := by
    rintro p (hp | ⟨x, hx, -⟩)
    · cases hp
    · cases hx

/-! ## The three calls -/

/-- `ramfs_init` describes the root directory; then it is the same as for any directory. -/
theorem Settled.init_fails (h : Settled s T)
    (hfull : s.heap.limit < s.heap.currentPointer + 2 * SIZEOF_NODE) :
    ∃ s₁ s' k, s₁.heap = s.heap ∧ KeepsBelow T s s₁ ∧ ramfsInit s = some (s', .nok) ∧ k < 2 ∧
      OutOfRoom s₁ s' k (if k = 0 then [] else [s.heap.currentPointer]) := by
  rw [ramfsInit, update_eq (by decide : ROOT ≠ 0), Option.bind_some]
  dsimp only [fsNewInoId]
  generalize hs₁ : Ramfs.setNode _ ROOT _ = s₁
  have hheap : s₁.heap = s.heap := hs₁ ▸ rfl
  have hkeeps : KeepsBelow T s s₁ := by
    have hself : (s₁.node ROOT).children = (s.node ROOT).children ∧
        (s₁.node ROOT).next = (s.node ROOT).next ∧
          (s₁.node ROOT).filePtr = (s.node ROOT).filePtr := by
      rw [← hs₁, setNode_self]
      exact ⟨rfl, rfl, rfl⟩
    refine ⟨hs₁ ▸ rfl, fun x _ hne => ?_, hself.1, hself.2.1, hself.2.2⟩
    rw [← hs₁, setNode_ne _ hne]
  have hok : s₁.heap.Ok := by
    rw [hheap]
    exact h.heap
  rcases allocDots_cases hok ROOT ROOT with ⟨hc, hnone⟩ | ⟨hc, haddr, s₄, hdot, hup⟩
  · rw [if_pos hc]
    exact ⟨s₁, _, 0, hheap, hkeeps, rfl, by decide, hnone⟩
  · rw [if_neg hc, hdot, Option.bind_some]
    rcases hup with ⟨hu, hnone⟩ | ⟨hu, hroom, -⟩
    · rw [if_pos hu]
      refine ⟨s₁, _, 1, hheap, hkeeps, rfl, by decide, ?_⟩
      rw [if_neg (by decide), ← hheap, ← haddr]
      exact hnone.kfree _
    · rw [hheap] at hroom
      exact absurd hfull (Nat.not_lt.mpr hroom)

/-- Where the second node does not fit, `LoadInitrdFiles` frees the directory. -/
theorem Settled.loadDots_fails (h : Settled s T) (parent : Nat) (hd : d ≠ 0)
    (hempty : (s.node d).children = 0)
    (hfull : s.heap.limit < s.heap.currentPointer + 2 * SIZEOF_NODE) :
    ∃ s' k, loadDots s parent d = some (s', none) ∧ k < 2 ∧
      OutOfRoom s s' k (if k = 0 then [] else [d]) := by
  rw [loadDots, Ramfs.deref, if_neg hd, Option.bind_some, if_pos hempty]
  dsimp only
  rcases allocDots_cases h.heap d parent with ⟨hc, hnone⟩ | ⟨hc, -, s₄, hdot, hup⟩
  · rw [if_pos hc]
    exact ⟨_, 0, rfl, by decide, hnone⟩
  · rw [if_neg hc, hdot, Option.bind_some]
    rcases hup with ⟨hu, hnone⟩ | ⟨-, hroom, -⟩
    · rw [if_pos hu]
      exact ⟨_, 1, rfl, by decide, hnone.kfree d⟩
    · exact absurd hfull (Nat.not_lt.mpr hroom)

/-- A block at the allocator's pointer or behind it is not in use. -/
theorem Settled.not_live {p : Nat} (h : Settled s T) (hp : p = 0 ∨ s.heap.currentPointer ≤ p) :
    ¬ Live s T p := by
  intro hlive
  obtain ⟨hne, hlt⟩ := h.live p hlive
  rcases hp with hzero | hle
  · exact hne hzero
  · exact Nat.not_le.mpr hlt hle

theorem Settled.init_failsCleanly (h : Settled s T)
    (hfull : s.heap.limit < s.heap.currentPointer + 2 * SIZEOF_NODE) : FailsCleanly T s .init := by
  obtain ⟨s₁, s', k, hheap, hfirst, hrun, hk, hnone⟩ := h.init_fails hfull
  have hroot := hnone.node ROOT (hheap ▸ h.above)
  refine ⟨s', hrun, ?_, ?_⟩
  · refine ⟨hnone.root.trans hfirst.root, fun x hx hne => ?_, ?_, ?_, ?_⟩
    · exact (hnone.node x (hheap ▸ h.below x hx)).trans (hfirst.node x hx hne)
    · rw [hroot, hfirst.children]
    · rw [hroot, hfirst.next]
    · rw [hroot, hfirst.filePtr]
  · rw [← hheap, hnone.undone_iff]
    rcases Nat.le_one_iff_eq_zero_or_eq_one.mp (Nat.le_of_lt_succ hk) with rfl | rfl
    · exact ⟨nofun, nofun⟩
    · rw [if_neg (by decide), hheap]
      constructor
      · intro i hi
        rw [Nat.lt_one_iff.mp hi, Nat.zero_mul, Nat.add_zero, List.count_singleton_self]
      · intro p hp
        rw [List.mem_singleton.mp hp]
        rintro (hlive | hheld)
        · exact h.not_live (.inr (Nat.le_refl _)) hlive
        · exact hheld

/-- The third node of a directory does not fit, and only the second is freed. -/
theorem Settled.mkDir_failsCleanly_iff {name path : List UInt8} {P : Nat} (h : Settled s T)
    (hparent : creationParent s name path = some (.ok, P))
    (hfull : s.heap.limit < s.heap.currentPointer + 3 * SIZEOF_NODE) :
    FailsCleanly T s (.mkDir name path) ↔
      s.heap.limit < s.heap.currentPointer + 2 * SIZEOF_NODE := by
  obtain ⟨s', k, hk, hrun, hnone⟩ :=
    (ramfsMkDir_cases h.heap hparent).resolve_right fun hroom => Nat.not_le.mpr hfull hroom.1
  have hpos : s.heap.currentPointer ≠ 0 := Nat.ne_zero_of_lt h.above
  have hsize : SIZEOF_NODE ≠ 0 := by decide
  have hclean : FailsCleanly T s (.mkDir name path) ↔
      Undone (fun p => Live s T p ∨ False) s.heap s'.heap := by
    constructor
    · rintro ⟨s'', hrun', -, hundone⟩
      obtain ⟨rfl, -⟩ := Prod.mk.inj (Option.some.inj (hrun.symm.trans hrun'))
      exact hundone
    · exact fun hundone => ⟨s', hrun, hnone.keeps h.below, hundone⟩
  rw [hclean, hnone.undone_iff, hnone.lt_iff]
  match k, hk with
  | 0, _ => exact iff_of_true ⟨nofun, nofun⟩ (by decide)
  | 1, _ =>
    refine iff_of_true ⟨fun i hi => ?_, fun p hp => ?_⟩ (by decide)
    · rw [Nat.lt_one_iff.mp hi, Nat.zero_mul, Nat.add_zero, mkDirFrees, List.count_cons_self,
        List.count_eq_zero_of_not_mem (by simpa using hpos)]
    · rw [or_false]
      rcases List.mem_pair.mp hp with rfl | rfl
      · exact h.not_live (.inr (Nat.le_refl _))
      · exact h.not_live (.inl rfl)
  | 2, _ =>
    refine iff_of_false (fun hundone => ?_) (by decide)
    -- the directory itself is not freed
    have honce := hundone.1 0 (by decide)
    rw [Nat.zero_mul, Nat.add_zero, mkDirFrees,
      List.count_eq_zero_of_not_mem (by simpa using hsize)] at honce
    · cases honce
    all_goals decide

theorem Settled.loadFiles_failsCleanly_iff {image : Access.Mem} {initrdBase fuel hdr : Nat}
    (h : Settled s T) (hd : d ≠ 0) (hempty : (s.node d).children = 0)
    (hfull : s.heap.limit < s.heap.currentPointer + 2 * SIZEOF_NODE) :
    FailsCleanly T s (.loadFiles image initrdBase fuel parent d hdr) ↔
      s.heap.limit < s.heap.currentPointer + 1 * SIZEOF_NODE := by
  obtain ⟨s', k, hdots, hk, hnone⟩ := h.loadDots_fails parent hd hempty hfull
  have hrun : loadInitrdFiles image initrdBase (fuel + 1) parent d hdr s = .ok (s', VFS_T_NOK) := by
    rw [loadInitrdFiles, hdots]
    rfl
  have hclean : FailsCleanly T s (.loadFiles image initrdBase fuel parent d hdr) ↔
      Undone (fun p => Live s T p ∨ p = d) s.heap s'.heap := by
    constructor
    · rintro ⟨s'', hrun', -, hundone⟩
      obtain ⟨rfl, -⟩ := Prod.mk.inj (Except.ok.inj (hrun.symm.trans hrun'))
      exact hundone
    · exact fun hundone => ⟨s', hrun, hnone.keeps h.below, hundone⟩
  rw [hclean, hnone.undone_iff, hnone.lt_iff]
  rcases Nat.le_one_iff_eq_zero_or_eq_one.mp (Nat.le_of_lt_succ hk) with rfl | rfl
  · exact iff_of_true ⟨by simp, by simp⟩ (by decide)
  · refine iff_of_false (fun hundone => ?_) (by decide)
    exact hundone.2 d (List.mem_singleton.mpr rfl) (.inr rfl)

/-- A call whose allocation fails undoes what it has allocated exactly if the failure leads to the
right label: always in `ramfs_init`, for the first two of three in `ramfs_mkDir`, for the first of two
in `LoadInitrdFiles`. -/
theorem creation_failsCleanly_iff (c : CreationCall) (s : Ramfs) (T : Forest Nat)
    (hstate : FileTree s T ∧ BuffersOk s T ∨ Boot s ∧ T = .nil) (hreach : c.Allocates s)
    (hfull : s.heap.limit < s.heap.currentPointer + c.allocations * SIZEOF_NODE) :
    FailsCleanly T s c ↔
      s.heap.limit < s.heap.currentPointer + c.undoneAllocations * SIZEOF_NODE := by
  have h : Settled s T := by
    rcases hstate with ⟨htree, hbuffers⟩ | ⟨hboot, rfl⟩
    · exact htree.settled hbuffers
    · exact hboot.settled
  cases c with
  | init => exact iff_of_true (h.init_failsCleanly hfull) hfull
  | mkDir name path =>
    obtain ⟨P, hparent⟩ := hreach
    exact h.mkDir_failsCleanly_iff hparent hfull
  | loadFiles image initrdBase fuel parent currentDir hdr =>
    exact h.loadFiles_failsCleanly_iff hreach.1 hreach.2 hfull

/-- There is room for the directory, but not for its first link. -/
theorem creation_failsCleanly_second :
    ∃ s T, kernelRun (bootTight 600) [] = some s ∧ FileTree s T ∧
      FailsCleanly T s (.mkDir [0x61] [SLASH]) := by
  have hcheck : (kernelRun (bootTight 600) []).any (fun s =>
      (creationParent s [0x61] [SLASH]).any (fun r => r.1 = .ok) &&
        decide (s.heap.limit < s.heap.currentPointer + 2 * SIZEOF_NODE)) = true := by
    decide +kernel
  obtain ⟨s, hs, hcheck⟩ := (Option.any_eq_true ..).mp hcheck
  simp only [Bool.and_eq_true, decide_eq_true_eq] at hcheck
  obtain ⟨⟨⟨err, P⟩, hparent, herr⟩, hfull⟩ := hcheck.imp_left (Option.any_eq_true ..).mp
  obtain rfl : err = .ok := of_decide_eq_true herr
  obtain ⟨T, htree, hbuffers⟩ := kernelRun_tree (bootTight_boot 600 (by decide)) (by decide) hs
  have hfull' : s.heap.limit < s.heap.currentPointer + 3 * SIZEOF_NODE :=
    Nat.lt_of_lt_of_le hfull (Nat.add_le_add_left (by decide) _)
  exact ⟨s, T, hs, htree, (creation_failsCleanly_iff (.mkDir [0x61] [SLASH]) s T
    (.inl ⟨htree, hbuffers⟩) ⟨P, hparent⟩ hfull').mpr hfull⟩

/-- There is room for the directory and its first link; the directory is not freed. -/
theorem ramfsMkDir_leaks :
    ∃ s T, kernelRun (bootTight 800) [] = some s ∧ FileTree s T ∧
      (∃ s', ramfsMkDir s [0x61] [SLASH] = some (s', 0, .nok)) ∧
      ¬ FailsCleanly T s (.mkDir [0x61] [SLASH]) := by
  have hcheck : (kernelRun (bootTight 800) []).any (fun s =>
      (creationParent s [0x61] [SLASH]).any (fun r => r.1 = .ok) &&
        decide (s.heap.limit < s.heap.currentPointer + 3 * SIZEOF_NODE) &&
        !decide (s.heap.limit < s.heap.currentPointer + 2 * SIZEOF_NODE)) = true := by
    decide +kernel
  obtain ⟨s, hs, hcheck⟩ := (Option.any_eq_true ..).mp hcheck
  simp only [Bool.and_eq_true, decide_eq_true_eq, Bool.not_eq_true', decide_eq_false_iff_not] at hcheck
  obtain ⟨⟨hcheck, hfull⟩, hroom⟩ := hcheck
  obtain ⟨⟨err, P⟩, hparent, herr⟩ := (Option.any_eq_true ..).mp hcheck
  obtain rfl : err = .ok := of_decide_eq_true herr
  obtain ⟨T, htree, hbuffers⟩ := kernelRun_tree (bootTight_boot 800 (by decide)) (by decide) hs
  obtain ⟨s', k, -, hrun, -⟩ := (ramfsMkDir_cases htree.heap hparent).resolve_right fun hfits =>
    Nat.not_le.mpr hfull hfits.1
  exact ⟨s, T, hs, htree, ⟨s', hrun⟩, fun hclean =>
    hroom (((htree.settled hbuffers).mkDir_failsCleanly_iff hparent hfull).mp hclean)⟩

end TalOS
