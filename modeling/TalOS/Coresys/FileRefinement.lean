-- SUMMARY: The file system as a hierarchy that calls change, and that every call of ramfs is such a change.
import TalOS.Coresys.FileChanges

/-!
# The file system as a hierarchy

What a file system is for can be said without nodes, pointers and a heap: it keeps what each
place holds, and a call changes one place, or takes one out. What a call of ramfs does to the
nodes is such a change if it reports success, and none if it reports a failure; and what is
found and read by a path is what the place of the path holds.
-/

open MachineInt

namespace TalOS

open Hierarchy

variable {s s₁ s' : Ramfs} {T k : Forest Nat} {x y a P D node offset : Nat} {name path buf : List UInt8}
  {p q : List (List UInt8)} {err : RfsErr} {e : Entry (List UInt8)}

/-! ## The calls on a hierarchy -/

/-- Make an entry in the directory at a path. -/
def Files.make (fs : Files) (name path : List UInt8) (e : Entry (List UInt8)) : Option Files :=
  if PlainName name ∧ SLASH ∉ name then (fs.lookup path).bind fun p => fs.create p name e else none

/-- What a call should do; none if it should fail. -/
def RamfsOp.change : RamfsOp → Files → Option Files
  | .mkDir name path, fs => fs.make name path .directory
  | .newRegFile name path, fs => fs.make name path (.file [])
  | .write path buf offset, fs =>
    (fs.lookup path).bind fun p => fs.modify p fun bytes =>
      if offset ≤ bytes.length then some (overwrite bytes offset buf) else none
  | .deleteNode path, fs => (fs.lookup path).bind fun p => fs.remove p

/-- The call reports that it succeeded. -/
def RamfsOp.succeeds : RamfsOp → Ramfs → Bool
  | .mkDir name path, s => (ramfsMkDir s name path).any fun r => r.2.2 = .ok
  | .newRegFile name path, s => (ramfsNewRegFile s name path).any fun r => r.2.2 = .ok
  | .write path buf offset, s =>
    (fsGetNode s 0 path).any fun node => (ramfsWrite s node buf offset).any fun r => r.2 ≠ -1
  | .deleteNode path, s => (ramfsDeleteNode s path).any fun r => r.2 = .ok

/-- A call that reports a failure should change nothing, and neither should the rest of the kernel. -/
def KernelOp.change : KernelOp → Ramfs → Files → Option Files
  | .ramfs op, s, fs => if op.succeeds s then op.change fs else some fs
  | .other _ _, _, fs => some fs

/-- After `ramfs_init` there is the root directory only. -/
def emptyFiles : Files := fun p => if p = [] then some .directory else none

/-- What a path leads to: the node that `fs_get_node` finds, behind links, and of a file what `ramfs_read`
reads. -/
def readPath (s : Ramfs) (path : List UInt8) : Option (Option (Entry (List UInt8))) :=
  (fsGetNode s 0 path).bind fun x =>
    if x = 0 then some none
    else
      (vfsNodeFromSimlink s POINTERS x).bind fun y =>
        if (s.node y).type = .directory then some (some .directory)
        else (ramfsRead s y (s.node y).length 0).map fun bytes => some (.file bytes)

/-- What the place of a path holds. -/
def Files.read (fs : Files) (path : List UInt8) : Option (Entry (List UInt8)) := (fs.lookup path).bind fs

/-! ## What a call must meet -/

/-- An address in the buffer of a file. -/
def InFile (s : Ramfs) (addr : Nat) : Prop :=
  ∃ T x i, FileTree s T ∧ x ∈ T.nodes ∧ i < (s.node x).length ∧ addr = (s.node x).filePtr + i

/-- A call that does what it should: names have room for their NUL; the move of a file keeps its bytes, and
a move that fails copies nothing into a file; no link is deleted; and the rest of the kernel stores into no
file. -/
def KernelOp.Clean : KernelOp → Ramfs → Prop
  | .ramfs (.mkDir name path), _ | .ramfs (.newRegFile name path), _ =>
    0 ∉ name ∧ 0 ∉ path ∧ name.length < MAX_FNAME
  | .ramfs (.write path buf offset), s =>
    0 ∉ path ∧ ∀ node, fsGetNode s 0 path = some node → KeepsPrefix s node buf offset ∧
      (s.heap.Refuses (u32 (buf.length + offset)) → ∀ addr, InFile s addr →
        copiedBytes s.heap (s.node node).filePtr (u32 (buf.length + offset)) ≤ addr)
  | .ramfs (.deleteNode path), _ => 0 ∉ path ∧ ∀ word ∈ (comps path).getLast?, PlainName word
  | .other mem _, s => ∀ addr, InFile s addr → mem addr = s.heap.mem addr

/-- The state and the hierarchy belong together. -/
def Represents (s : Ramfs) (fs : Files) : Prop :=
  ∃ T, TidyTree s T ∧ BuffersOk s T ∧ filesOf s T = fs

/-! ## Creations -/

theorem FileTree.mkDir_entry (h : FileTree s T) (hrun : ramfsMkDir s name path = some (s', x, .ok)) :
    entryOf s' x = some .directory := by
  rcases h.mkDir hrun with ⟨-, herr, -⟩ | ⟨-, P, s₁, -, hnew, happend⟩
  · exact absurd rfl herr
  · refine entryOf_directory.mpr ⟨hnew.pos, ?_⟩
    rw [(appendChild_node happend x).2, hnew.dir]
    rfl

theorem FileTree.newRegFile_entry (h : FileTree s T)
    (hrun : ramfsNewRegFile s name path = some (s', x, .ok)) : entryOf s' x = some (.file []) := by
  rcases h.newRegFile hrun with ⟨-, herr, -⟩ | ⟨-, P, s₁, -, hnew, happend⟩
  · exact absurd rfl herr
  · rw [entryOf, if_neg hnew.pos, (appendChild_node happend x).2, setNode_self]
    rfl

/-- A creation that reports success makes the entry, and one that fails changes nothing. -/
theorem TidyTree.creation_represents (ht : TidyTree s T) (hb : BuffersOk s T)
    (hclean : 0 ∉ name ∧ 0 ∉ path ∧ name.length < MAX_FNAME)
    (hout : CreationOutcome T name path s s' x err) (hmem : StoresBehind s s')
    (hentry : err = .ok → entryOf s' x = some e) :
    ∃ fs, (if err = .ok then (filesOf s T).make name path e else some (filesOf s T)) = some fs ∧
      Represents s' fs := by
  obtain ⟨hnul, hpath, hshort⟩ := hclean
  rcases hout with ⟨-, herr, hkeeps⟩ | ⟨herr, P, k, hparent, hcreated⟩
  · rw [if_neg herr]
    refine ⟨_, rfl, T, hkeeps.alike.tidy ht, hb.keep hkeeps, ?_⟩
    refine hkeeps.alike.filesOf_eq ht.tree fun y hy => ?_
    have hnode := hkeeps.node y hy
    exact entryOf_congr (by rw [hnode]) (by rw [hnode]) (by rw [hnode]) fun i hi =>
      hmem.mem _ (hb.below y hy i hi).2
  · obtain ⟨hcheck, hget, hP, hfind⟩ := ht.tree.creationParent hparent
    obtain ⟨p, hlookup, hplace⟩ := ht.lookup_of_get hpath hget (ht.tree.ne_zero hP)
    have hlegal := fileName_of_check hcheck hnul
    rw [strncpy, List.take_of_length_le (Nat.le_of_lt hshort)] at hlegal
    have hname : PlainName name := ⟨hnul, hlegal.dot, hlegal.dotdot⟩
    obtain ⟨hfiles, hdir, hfree⟩ := hcreated.filesOf ht hb hmem hplace hname hshort hfind (hentry herr)
    rw [if_pos herr, Files.make, if_pos ⟨hname, hlegal.slash⟩, hlookup, Option.bind_some]
    exact ⟨_, create_eq_some hdir hfree, _, hcreated.tidy ht hnul hshort hfind,
      hb.attach ht.tree hcreated.toAttached, hfiles⟩

/-! ## Writes -/

/-- A node that is no link is at its place. -/
theorem PlaceOf.walk_self (h : PlaceOf s T p x) (htype : (s.node x).type ≠ .symlink) : TalOS.walk s T p ROOT = x :=
  h.walk.trans (resolve_of_ne htype)

theorem TidyTree.write_represents (ht : TidyTree s T) (hb : BuffersOk s T)
    (hclean : (KernelOp.ramfs (.write path buf offset)).Clean s) {n : Int}
    (hget : fsGetNode s 0 path = some node) (hrun : ramfsWrite s node buf offset = some (s', n)) :
    ∃ fs, (if n ≠ -1 then (RamfsOp.write path buf offset).change (filesOf s T) else some (filesOf s T)) = some fs ∧
      Represents s' fs := by
  obtain ⟨hpath, hmove⟩ := hclean
  obtain ⟨hkeeps, hspared⟩ := hmove node hget
  have halike := ht.tree.write_alike hrun
  have htidy := halike.tidy ht
  have hbuffers := hb.write ht.tree.heap hrun
  by_cases hn : n = -1
  · subst hn
    rw [if_neg (not_not.mpr rfl)]
    refine ⟨_, rfl, T, htidy, hbuffers, halike.filesOf_eq ht.tree fun y hy => ?_⟩
    have hnodes : s'.node = s.node := by
      rcases ramfsWrite_cases ht.tree.heap hrun with ⟨-, hnodes, -⟩ | ⟨hlen, -⟩
      · exact hnodes
      · omega
    refine entryOf_congr (by rw [hnodes]) (by rw [hnodes]) (by rw [hnodes]) fun i hi => ?_
    exact ramfsWrite_fails ht.tree.heap hrun (hb.below y hy i hi).2 fun hrefuse =>
      hspared hrefuse _ ⟨T, y, i, ht.tree, hy, hi, rfl⟩
  · rw [if_pos hn]
    obtain ⟨hne, htype, hoff⟩ := (ramfsWrite_accepted hrun).resolve_left hn
    obtain ⟨p, hlookup, hplace⟩ := ht.lookup_of_get hpath hget hne
    have hwalk := hplace.walk_self (by rw [htype]; exact FType.noConfusion)
    obtain ⟨hself, hothers⟩ := ramfsWrite_entries ht.tree hb hplace.mem hrun hn hkeeps
    have hold : filesOf s T p =
        some (.file (Memory.readAt s.heap.mem (s.node node).filePtr (s.node node).length)) := by
      rw [filesOf_plain hplace.plain, hwalk, entryOf, if_neg hne, htype]
    have hlen := Memory.length_readAt s.heap.mem (s.node node).filePtr (s.node node).length
    generalize Memory.readAt s.heap.mem (s.node node).filePtr (s.node node).length = bytes at hself hold hlen
    rw [RamfsOp.change, hlookup, Option.bind_some]
    refine ⟨_, modify_eq_some hold (if_pos (hlen ▸ hoff)), T, htidy, hbuffers, ?_⟩
    refine filesOf_eq_update hplace.plain ?_ fun q hq hother => ?_
    · rw [halike.walk ht.tree ht.tree.root_mem, hwalk, hself]
    · rw [halike.walk ht.tree ht.tree.root_mem]
      rcases walk_mem_or ht.tree q with hzero | hmem
      · rw [hzero]
        rfl
      · refine hothers _ hmem fun heq => hother ?_
        exact ht.walk_inj hq hplace.plain (heq ▸ hne) (heq.trans hwalk.symm)

/-! ## Deletions -/

/-- The node that a path with a plain last component leads to is no link. -/
theorem TidyTree.get_plain (ht : TidyTree s T) (hget : fsGetNode s 0 path = some x) (hx : x ≠ 0)
    (hlast : ∀ word ∈ (comps path).getLast?, PlainName word) (hroot : x ≠ ROOT) :
    (s.node x).type ≠ .symlink := by
  obtain ⟨-, -, hwalk, -⟩ := ht.tree.fsGetNode_some hget hx
  rcases List.eq_nil_or_concat (comps path) with hnil | ⟨init, word, hcomps⟩
  · rw [hnil] at hwalk
    exact absurd hwalk hroot
  · rw [List.concat_eq_append] at hcomps
    rw [hcomps] at hwalk hlast
    obtain ⟨-, hstep⟩ := walk_concat (ht.tree.ne_zero ht.tree.root_mem) (hwalk ▸ hx)
    rw [hwalk, hstep]
    exact ht.tree.findIn_plain (hlast word List.getLast?_concat) (hstep ▸ hwalk ▸ hx)

theorem filesOf_freed (nodes : List Nat) : filesOf (s.freed nodes) T = filesOf s T :=
  filesOf_congr fun q _ => by
    rw [walk_freed]
    rfl

theorem TidyTree.delete_represents (ht : TidyTree s T) (hb : BuffersOk s T)
    (hclean : (KernelOp.ramfs (.deleteNode path)).Clean s) (hrun : ramfsDeleteNode s path = some (s', err)) :
    ∃ fs, (if err = .ok then (RamfsOp.deleteNode path).change (filesOf s T) else some (filesOf s T)) = some fs ∧
      Represents s' fs := by
  obtain ⟨hpath, hlast⟩ := hclean
  rcases ht.tree.deleteNode_outcome hrun with ⟨rfl, rfl⟩ | ⟨D, x, s₁, nodes, hget, hx, hunlinked, rfl, rfl⟩
  · rw [if_neg RfsErr.noConfusion]
    exact ⟨_, rfl, T, ht, hb, rfl⟩
  · rw [if_pos rfl]
    have hroot : x ≠ ROOT := fun heq => ht.tree.root_not_child (heq ▸ hunlinked.child)
    have htype := ht.get_plain hget hx hlast hroot
    obtain ⟨p, hlookup, hplace⟩ := ht.lookup_of_get hpath hget hx
    have hwalk := hplace.walk_self htype
    have hne : p ≠ [] := by
      rintro rfl
      exact hroot hwalk.symm
    have hsome : (filesOf s T p).isSome := ht.tree.filesOf_isSome.mpr ⟨hplace.plain, hwalk ▸ hx⟩
    rw [RamfsOp.change, hlookup, Option.bind_some]
    refine ⟨_, remove_eq_some hne hsome, T.remove x, (hunlinked.tidy ht htype).freed nodes,
      hb.unlink hunlinked nodes, ?_⟩
    rw [filesOf_freed, hunlinked.filesOf ht hplace.plain hwalk]

/-! ## All calls -/

/-- What the rest of the kernel does shows nowhere. -/
theorem TidyTree.other_represents (ht : TidyTree s T) (hb : BuffersOk s T) {mem : Nat → UInt8} {size : Nat}
    (hclean : (KernelOp.other mem size).Clean s) (hstep : (KernelOp.other mem size).step s = some s') :
    Represents s' (filesOf s T) := by
  rw [KernelOp.step] at hstep
  split at hstep
  · next hlt =>
    obtain rfl := Option.some.inj hstep
    have hkeeps := kmalloc_keeps mem ht.tree hlt
    refine ⟨T, hkeeps.alike.tidy ht, hb.keep hkeeps, hkeeps.alike.filesOf_eq ht.tree fun y hy => ?_⟩
    refine entryOf_congr rfl rfl rfl fun i hi => ?_
    have hbelow := (hb.below y hy i hi).2
    have hsize : size + MEM_MIN_SIZE - 1 < 2 ^ 32 := by
      unfold roundUp at hlt
      unfold MEM_MIN_SIZE at hlt ⊢
      omega
    have hend : u32 (s.heap.currentPointer + sizeToAlloc size) = s.heap.currentPointer + roundUp size := by
      rw [sizeToAlloc_of_lt hsize, ← roundUp, u32_of_lt hlt]
    rw [kmalloc_mem, hend, Memory.writeAt_of_lt _ (Nat.lt_add_right _ hbelow)]
    exact hclean _ ⟨T, y, i, ht.tree, hy, hi, rfl⟩
  · cases hstep

theorem KernelOp.change_ramfs {op : RamfsOp} {ok : Prop} [Decidable ok] (hok : op.succeeds s = decide ok) (fs : Files) :
    (KernelOp.ramfs op).change s fs = if ok then op.change fs else some fs := by
  simp only [KernelOp.change, hok, decide_eq_true_eq]

/-- Every call that meets its conditions is a step of the hierarchy. -/
theorem KernelOp.represents_step {op : KernelOp} {fs : Files} (hclean : op.Clean s) (h : Represents s fs)
    (hstep : op.step s = some s') : ∃ fs', op.change s fs = some fs' ∧ Represents s' fs' := by
  obtain ⟨T, ht, hb, rfl⟩ := h
  cases op with
  | other mem size => exact ⟨_, rfl, ht.other_represents hb hclean hstep⟩
  | ramfs op =>
    cases op with
    | mkDir name path =>
      obtain ⟨⟨s₁, x, err⟩, hrun, rfl⟩ := Option.map_eq_some_iff.mp hstep
      have hok : (RamfsOp.mkDir name path).succeeds s = decide (err = .ok) := by rw [RamfsOp.succeeds, hrun]; rfl
      rw [KernelOp.change_ramfs hok]
      refine ht.creation_represents hb hclean (ht.tree.mkDir_outcome hclean.1 hrun)
        (ramfsMkDir_stores ht.tree.heap hrun) fun herr => ?_
      exact ht.tree.mkDir_entry (herr ▸ hrun)
    | newRegFile name path =>
      obtain ⟨⟨s₁, x, err⟩, hrun, rfl⟩ := Option.map_eq_some_iff.mp hstep
      have hok : (RamfsOp.newRegFile name path).succeeds s = decide (err = .ok) := by rw [RamfsOp.succeeds, hrun]; rfl
      rw [KernelOp.change_ramfs hok]
      refine ht.creation_represents hb hclean (ht.tree.newRegFile_outcome hclean.1 hrun)
        (ramfsNewRegFile_stores ht.tree.heap hrun) fun herr => ?_
      exact ht.tree.newRegFile_entry (herr ▸ hrun)
    | write path buf offset =>
      obtain ⟨node, hget, hwrite⟩ := Option.bind_eq_some_iff.mp hstep
      obtain ⟨⟨s₁, n⟩, hrun, rfl⟩ := Option.map_eq_some_iff.mp hwrite
      have hok : (RamfsOp.write path buf offset).succeeds s = decide (n ≠ -1) := by
        rw [RamfsOp.succeeds, hget, Option.any_some, hrun]
        rfl
      rw [KernelOp.change_ramfs hok]
      exact ht.write_represents hb hclean hget hrun
    | deleteNode path =>
      obtain ⟨⟨s₁, err⟩, hrun, rfl⟩ := Option.map_eq_some_iff.mp hstep
      have hok : (RamfsOp.deleteNode path).succeeds s = decide (err = .ok) := by rw [RamfsOp.succeeds, hrun]; rfl
      rw [KernelOp.change_ramfs hok]
      exact ht.delete_represents hb hclean hrun

/-- The first tree is that of an empty file system. -/
theorem Boot.represents (h : Boot s) (hrun : ramfsInit s = some (s', .ok)) : Represents s' emptyFiles := by
  obtain ⟨c, u, htree, -, ⟨_, hdot⟩, ⟨_, hdotdot⟩⟩ := h.init_links hrun
  obtain ⟨T, htree', hdots, hnames⟩ := h.init hrun
  obtain rfl := htree'.unique htree
  have hempty : kernelRun s [] = some s' := by
    rw [kernelRun, hrun, Option.bind_some]
    exact if_pos rfl
  have hlink {D y : Nat} (hy : y ∈ (Forest.cons ROOT (linkPair c u) .nil).childrenOf D) :
      (s'.node y).type = .symlink ∧ (s'.node y).name.length < MAX_FNAME := by
    obtain ⟨-, rfl | rfl⟩ := childrenOf_linkPair hy
    · rw [hdot]
      exact ⟨rfl, (by decide : DOT_NAME.length < MAX_FNAME)⟩
    · rw [hdotdot]
      exact ⟨rfl, (by decide : DOTDOT_NAME.length < MAX_FNAME)⟩
  have ht : TidyTree s' (.cons ROOT (linkPair c u) .nil) := ⟨htree, hdots, hnames, fun D y hy => (hlink hy).2⟩
  refine ⟨_, ht, kernelRun_buffers h (List.forall_mem_nil _) hempty htree, ?_⟩
  funext p
  rcases List.eq_nil_or_concat p with rfl | ⟨init, name, rfl⟩
  · exact ht.rooted.root
  · rw [List.concat_eq_append, emptyFiles, if_neg (List.append_ne_nil_of_right_ne_nil _ (List.cons_ne_nil _ _)),
      ← Option.not_isSome_iff_eq_none, htree.filesOf_isSome]
    rintro ⟨hp, hwalk⟩
    exact htree.walk_plain hp hwalk (hlink (ht.walk_step hp hwalk).2.2.1).1

/-- Reading by a path gives what the hierarchy holds there. -/
theorem Represents.readPath {fs : Files} (h : Represents s fs) (hnul : 0 ∉ path) (hlen : path.length < MAX_PATH)
    (habs : path.head? = some SLASH) : readPath s path = some (fs.read path) := by
  obtain ⟨T, ht, hb, rfl⟩ := h
  rcases ht.fsGetNode_lookup hnul hlen habs with ⟨hget, hlookup⟩ | ⟨x, p, hx, hget, hlookup, hplace⟩
  · rw [TalOS.readPath, hget, Files.read, hlookup, Option.bind_some, if_pos rfl]
    rfl
  · have hmem := ht.tree.resolve_mem hplace.mem
    have hne := ht.tree.ne_zero hmem
    rw [TalOS.readPath, hget, Files.read, hlookup, Option.bind_some, if_neg hx,
      ht.tree.vfsNodeFromSimlink hplace.mem, Option.bind_some, Option.bind_some, filesOf_plain hplace.plain,
      hplace.walk]
    rcases (ht.tree.kind _ hmem).type with hdir | hfile | hlink
    · rw [if_pos hdir, entryOf_directory.mpr ⟨hne, hdir⟩]
    · have hreg := ht.tree.isRegFile hmem hfile
      have hlt := hb.length_lt ht.tree.heap hmem
      rw [if_neg (by rw [hfile]; exact FType.noConfusion), ramfsRead, if_neg (hreg.accepted (Nat.zero_le _))]
      dsimp only
      rw [Nat.add_zero, Nat.add_zero, u32_of_lt hlt, if_neg (Nat.lt_irrefl _), entryOf, if_neg hne, hfile]
      rfl
    · exact absurd hlink (ht.tree.resolve_type hplace.mem)

end TalOS
