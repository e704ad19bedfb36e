-- SUMMARY: Loading an image of regular files into a directory that may hold entries already.
import TalOS.Coresys.InitrdBounds
import TalOS.Coresys.InitrdLoading

/-!
# Loading files into a directory

`ramfs_loadInitrd` appends behind the second node of the directory's list, which it
takes to be `..` and the last one. Nothing but the links in the directory, that is so,
and the files of the image follow them. Behind anything else the first file has no node
to be linked to: `prev` is still `NULL`.
-/

open MachineInt
open Forest (Seg)

namespace TalOS

/-! ## An image of files -/

/-- Files with their contents, as the entries of a directory. -/
def DirEntries.ofFiles : List (List UInt8 × List UInt8) → DirEntries
  | [] => .nil
  | (name, contents) :: files => .file name contents (.ofFiles files)

/-- The image at `initrdPtr` has its magic, and its root directory holds these entries. -/
structure ImageHolds (image : Access.Mem) (initrdPtr : Nat) (es : DirEntries) : Prop where
  magic : readWord image initrdPtr = .ok INITRD_MAGIC
  root : ∃ n, headerDirNfiles image (u32 (initrdPtr + SIZEOF_INITRD_HEADER)) = .ok n ∧
    Row image initrdPtr (u32 (initrdPtr + SIZEOF_INITRD_HEADER)) 0 n es

variable {s s' : Ramfs} {T : Forest Nat} {image : Access.Mem} {base h i n x D up prev initrdPtr : Nat}
  {es : DirEntries} {path : List UInt8} {files : List (List UInt8 × List UInt8)} {list : List Nat}

/-- Slots that hold nothing are passed over. -/
theorem Row.load_nil (hrow : Row image base h i n es) (hes : es = .nil) :
    ∃ fuel₀, ∀ fuel ≥ fuel₀, ∀ s D up prev, headerDirNfiles image h = .ok (i + n) →
      loadChildren image base fuel D up h i prev s = .ok (s, VFS_T_OK) := by
  induction hrow with
  | nil h i =>
    refine ⟨1, fun fuel hfuel s D up prev hcount => ?_⟩
    obtain ⟨fuel, rfl⟩ := Nat.exists_eq_add_of_le' hfuel
    rw [loadChildren, hcount, ok_bind, if_neg (by omega)]
    rfl
  | file | dir => cases hes
  | @skip h i n type es htype hother _ ih =>
    obtain ⟨fuel₀, ih⟩ := ih hes
    refine ⟨fuel₀ + 1, fun fuel hfuel s D up prev hcount => ?_⟩
    obtain ⟨fuel, rfl⟩ := Nat.exists_eq_add_of_le' (Nat.le_trans (Nat.le_add_left 1 fuel₀) hfuel)
    have hload := ih fuel (Nat.le_of_succ_le_succ hfuel) s D up prev
      (hcount.trans (congrArg Except.ok (by omega)))
    rw [loadChildren, hcount, ok_bind, if_pos (by omega), htype, ok_bind, if_neg hother.1,
      if_neg hother.2]
    exact hload

/-- Where something is behind the node that is taken for `..`, the first file is linked through
`NULL`. -/
theorem Row.load_stops (hrow : Row image base h i n es) {name contents : List UInt8} {rest : DirEntries}
    (hes : es = .file name contents rest) (hok : s.heap.Ok) (hfits : s.Fits es.cost)
    (hup : up < s.heap.currentPointer) (hpos : up ≠ 0) (hnext : s.nextPtr up ≠ 0)
    (hcount : headerDirNfiles image h = .ok (i + n)) (fuel : Nat) (r : Ramfs × Int) :
    loadChildren image base fuel D up h i 0 s ≠ .ok r := by
  induction hrow generalizing fuel with
  | nil | dir => cases hes
  | @file h i n name' contents' rest' htype hfile =>
    intro hload
    cases fuel with
    | zero =>
      rw [loadChildren] at hload
      cases hload
    | succ fuel =>
      unfold Ramfs.Fits DirEntries.cost at hfits
      obtain ⟨s₁, hrun, hkeeps, -⟩ := loadInitrdRegFile_fits (t := s.heap.currentPointer) hok hfile
        (by unfold Ramfs.Fits; omega)
      have hnext₁ : (s₁.node up).next ≠ 0 := by
        rw [hkeeps.node up hup (Nat.ne_of_lt hup)]
        exact hnext
      have hlink : linkLoaded s₁ up 0 s.heap.currentPointer = none := by
        rw [linkLoaded, Ramfs.deref, if_neg hpos, Option.bind_some, if_neg hnext₁]
        rfl
      rw [loadChildren, hcount, ok_bind, if_pos (by omega), htype, ok_bind, if_pos rfl, hrun, ok_bind,
        hlink] at hload
      cases hload
  | @skip h i n type es htype hother _ ih =>
    intro hload
    cases fuel with
    | zero =>
      rw [loadChildren] at hload
      cases hload
    | succ fuel =>
      rw [loadChildren, hcount, ok_bind, if_pos (by omega), htype, ok_bind, if_neg hother.1,
        if_neg hother.2] at hload
      exact ih hes hfits (hcount.trans (congrArg Except.ok (by omega))) fuel hload

/-! ## The list of a directory -/

/-- The node of a file that has been loaded, behind everything there was. -/
def FileAt (s s' : Ramfs) (file : List UInt8 × List UInt8) (x : Nat) : Prop :=
  s.heap.currentPointer ≤ x ∧ ∃ ino filePtr next,
    s'.node x = fileNode file.1 ino file.2.length filePtr next ∧ s.heap.currentPointer ≤ filePtr ∧
      Memory.readAt s'.heap.mem filePtr file.2.length = file.2

/-- The list of the directory `D` was `list`; it goes on with nodes that hold `files`, in order. Of
what was there before only the last node of `list` has changed, and of that only `next`. -/
structure Appends (s s' : Ramfs) (D : Nat) (list : List Nat) (files : List (List UInt8 × List UInt8)) :
    Prop where
  root : s'.root = s.root
  entries : ∃ news, Seg s'.nextPtr 0 (s'.node D).children (list ++ news) ∧
    List.Forall₂ (FileAt s s') files news
  node : ∀ x < s.heap.currentPointer, (∀ pre, list ≠ pre ++ [x]) → s'.node x = s.node x
  last : ∀ x < s.heap.currentPointer, s'.node x = { s.node x with next := s'.nextPtr x }
  mem : ∀ a < s.heap.currentPointer, s'.heap.mem a = s.heap.mem a

theorem Appends.nothing (hseg : Seg s.nextPtr 0 (s.node D).children list) : Appends s s D list [] where
  root := rfl
  entries := ⟨[], by rwa [List.append_nil], .nil⟩
  node := fun _ _ _ => rfl
  last := fun _ _ => rfl
  mem := fun _ _ => rfl

/-- The nodes of files that have been loaded form a list. -/
theorem EntriesAt.filesAt {hi p : Nat} (h : EntriesAt s' s.heap.currentPointer hi D (.ofFiles files) p)
    (hok : s.heap.Ok) : ∃ news, Seg s'.nextPtr 0 p news ∧ List.Forall₂ (FileAt s s') files news := by
  induction files generalizing p with
  | nil => exact ⟨[], h, .nil⟩
  | cons file files ih =>
    obtain ⟨⟨hp, -⟩, ⟨ino, filePtr, hnode, hlow, -, hread⟩, hrest⟩ := h
    obtain ⟨news, hseg, hnews⟩ := ih hrest
    have hpos : p ≠ 0 := Nat.ne_of_gt (Nat.lt_of_lt_of_le (Nat.pos_of_ne_zero hok.pointer_ne) hp)
    exact ⟨p :: news, ⟨rfl, hpos, hseg⟩, .cons ⟨hp, ino, filePtr, _, hnode, hlow, hread⟩ hnews⟩

/-- Of a node that was there before, at most `next` has changed. -/
theorem Loaded.node_old (h : Loaded s s' up D es) (hx : x < s.heap.currentPointer) :
    s'.node x = { s.node x with next := s'.nextPtr x } := by
  by_cases hne : x = up
  · subst hne
    exact h.tail
  · rw [Ramfs.nextPtr, h.keeps.node x hx hne]

/-- Files behind the two nodes of a list. -/
theorem Loaded.appends {a : Nat} (h : Loaded s s' up D (.ofFiles files)) (hok : s.heap.Ok)
    (hseg : Seg s.nextPtr 0 (s.node D).children [a, up]) (ha : a < s.heap.currentPointer)
    (hup : up < s.heap.currentPointer) (hD : D < s.heap.currentPointer) :
    Appends s s' D [a, up] files := by
  obtain ⟨news, hnews, hfiles⟩ := h.entries.filesAt hok
  obtain ⟨hfirst, hpos, hsecond, hposUp, hend⟩ := hseg
  have hother {x : Nat} (hx : x < s.heap.currentPointer) (hne : x ≠ up) : s'.node x = s.node x :=
    h.keeps.node x hx hne
  have hane : a ≠ up := by
    rintro rfl
    exact hpos (hsecond.symm.trans hend)
  refine ⟨h.keeps.root, ⟨news, ⟨?_, hpos, ?_, hposUp, hnews⟩, hfiles⟩, fun x hx hnot => ?_,
    fun _ => h.node_old, h.keeps.mem⟩
  · rw [h.node_old hD]
    exact hfirst
  · rw [Ramfs.nextPtr, hother ha hane]
    exact hsecond
  · refine hother hx fun heq => ?_
    exact hnot [a] (heq ▸ rfl)

/-! ## The whole call -/

/-- A directory that has children keeps them; the second one is taken for `..`. -/
theorem loadDots_list {a : Nat} (hD : D ≠ 0)
    (hseg : Seg s.nextPtr 0 (s.node D).children (a :: up :: list)) (parent : Nat) :
    loadDots s parent D = some (s, some up) := by
  obtain ⟨hfirst, hpos, hsecond, -⟩ := hseg
  have hnext : (s.node a).next = up := hsecond
  rw [loadDots, Ramfs.deref, if_neg hD, Option.bind_some, if_neg (hfirst ▸ hpos), hfirst, Ramfs.deref,
    if_neg hpos, Option.map_some, hnext]

/-- Two nodes that `ramfs_loadInitrd` follows without a look: the first in the directory's list, and
the one behind it, which it takes for `..`. -/
theorem ramfsLoadInitrd_list (hmagic : readWord image initrdPtr = .ok INITRD_MAGIC)
    (hget : fsGetNode s 0 path = some D) (hD : D ≠ 0) (hdir : (s.node D).type = .directory) {a : Nat}
    (hseg : Seg s.nextPtr 0 (s.node D).children (a :: up :: list)) (fuel : Nat) :
    ramfsLoadInitrd image fuel initrdPtr path s =
      loadInitrdFiles image initrdPtr fuel (s.node up).nodePtr D
        (u32 (initrdPtr + SIZEOF_INITRD_HEADER)) s := by
  obtain ⟨hfirst, hpos, hsecond, hposUp, -⟩ := hseg
  have hnext : (s.node a).next = up := hsecond
  rw [ramfsLoadInitrd, hmagic, ok_bind, if_neg (not_not_intro rfl), hget, defined_some_bind,
    if_neg (not_or.mpr ⟨hD, not_not_intro hdir⟩), hfirst, Ramfs.deref, if_neg hpos, defined_some_bind,
    hnext, Ramfs.deref, if_neg hposUp, defined_some_bind]

/-- With such a list the load is the loop over the slots of the image's root. -/
theorem ramfsLoadInitrd_loop (hmagic : readWord image initrdPtr = .ok INITRD_MAGIC)
    (hget : fsGetNode s 0 path = some D) (hD : D ≠ 0) (hdir : (s.node D).type = .directory) {a : Nat}
    (hseg : Seg s.nextPtr 0 (s.node D).children (a :: up :: list)) (fuel : Nat) :
    ramfsLoadInitrd image (fuel + 1) initrdPtr path s =
      loadChildren image initrdPtr fuel D up (u32 (initrdPtr + SIZEOF_INITRD_HEADER)) 0 0 s := by
  rw [ramfsLoadInitrd_list hmagic hget hD hdir hseg, loadInitrdFiles, loadDots_list hD hseg,
    defined_some_bind]

/-- A list with fewer than two nodes ends in `NULL` where the code follows it. -/
theorem ramfsLoadInitrd_short (hmagic : readWord image initrdPtr = .ok INITRD_MAGIC)
    (hget : fsGetNode s 0 path = some D) (hD : D ≠ 0) (hdir : (s.node D).type = .directory)
    (hseg : Seg s.nextPtr 0 (s.node D).children list) (hshort : list.length < 2) (fuel : Nat)
    (r : Ramfs × Int) : ramfsLoadInitrd image fuel initrdPtr path s ≠ .ok r := by
  intro hload
  rw [ramfsLoadInitrd, hmagic, ok_bind, if_neg (not_not_intro rfl), hget, defined_some_bind,
    if_neg (not_or.mpr ⟨hD, not_not_intro hdir⟩)] at hload
  cases list with
  | nil =>
    rw [show (s.node D).children = 0 from hseg, Ramfs.deref, if_pos rfl] at hload
    cases hload
  | cons a list =>
    cases list with
    | nil =>
      obtain ⟨hfirst, hpos, hend⟩ := hseg
      have hnext : (s.node a).next = 0 := hend
      rw [hfirst, Ramfs.deref, if_neg hpos, defined_some_bind, hnext, Ramfs.deref, if_pos rfl] at hload
      cases hload
    | cons b list =>
      rw [List.length_cons, List.length_cons] at hshort
      omega

/-- A path that ends in a link is refused. -/
theorem ramfsLoadInitrd_link (hmagic : readWord image initrdPtr = .ok INITRD_MAGIC)
    (hget : fsGetNode s 0 path = some x) (htype : (s.node x).type ≠ .directory) (fuel : Nat) :
    ramfsLoadInitrd image fuel initrdPtr path s = .ok (s, VFS_T_NOK) := by
  rw [ramfsLoadInitrd, hmagic, ok_bind, if_neg (not_not_intro rfl), hget, defined_some_bind,
    if_pos (.inr htype)]
  rfl

/-- Loading an image into a directory that holds nothing but two nodes, its links, when there is room. -/
theorem ImageHolds.load (himage : ImageHolds image initrdPtr es) (hok : s.heap.Ok)
    (hget : fsGetNode s 0 path = some D) (hD : D ≠ 0) (hdir : (s.node D).type = .directory) {a : Nat}
    (hseg : Seg s.nextPtr 0 (s.node D).children [a, up]) (hup : up < s.heap.currentPointer)
    (hfits : s.Fits es.cost) :
    ∃ fuel₀, ∀ fuel ≥ fuel₀, ∃ s',
      ramfsLoadInitrd image fuel initrdPtr path s = .ok (s', VFS_T_OK) ∧ Loaded s s' up D es ∧
        AllocationsSucceed image fuel initrdPtr path s := by
  obtain ⟨n, hcount, hrow⟩ := himage.root
  rw [← Nat.zero_add n] at hcount
  obtain ⟨fuel₀, hload⟩ := hrow.load
  refine ⟨fuel₀ + 1, fun fuel hfuel => ?_⟩
  obtain ⟨fuel, rfl⟩ := Nat.exists_eq_add_of_le' (Nat.le_trans (Nat.le_add_left 1 fuel₀) hfuel)
  have htail : LoadTail s up 0 up := ⟨hup, hup, hseg.2.2.2.1, hseg.2.2.2.2, .inl rfl⟩
  obtain ⟨s', hrun, hloaded, halloc⟩ :=
    hload fuel (Nat.le_of_succ_le_succ hfuel) (D := D) htail hcount hok hfits
  refine ⟨s', (ramfsLoadInitrd_loop himage.magic hget hD hdir hseg fuel).trans hrun, hloaded, ?_⟩
  intro currDir hget'
  obtain rfl := Option.some.inj (hget.symm.trans hget')
  exact .of_children (loadDots_list hD hseg _) halloc

/-- The load returns `VFS_T_OK`, with the files behind the entries there were. -/
def LoadsFiles (image : Access.Mem) (initrdPtr : Nat) (path : List UInt8) (s : Ramfs) (D : Nat)
    (list : List Nat) (files : List (List UInt8 × List UInt8)) : Prop :=
  ∃ fuel₀, ∀ fuel ≥ fuel₀, ∃ s', ramfsLoadInitrd image fuel initrdPtr path s = .ok (s', VFS_T_OK) ∧
    Appends s s' D list files

/-- Loading files into the directory `D` keeps what it held if and only if `D` holds nothing but two
nodes, its links, or there are no files. -/
theorem loadsFiles_iff (himage : ImageHolds image initrdPtr (.ofFiles files)) (hok : s.heap.Ok)
    (hget : fsGetNode s 0 path = some D) (hD : D ≠ 0) (hbelow : D < s.heap.currentPointer)
    (hdir : (s.node D).type = .directory) (hseg : Seg s.nextPtr 0 (s.node D).children list)
    (hlist : ∀ x ∈ list, x < s.heap.currentPointer) (hfits : s.Fits (DirEntries.ofFiles files).cost) :
    LoadsFiles image initrdPtr path s D list files ↔
      2 ≤ list.length ∧ (files = [] ∨ list.length = 2) := by
  obtain ⟨n, hcount, hrow⟩ := himage.root
  rw [← Nat.zero_add n] at hcount
  rcases list with - | ⟨a, - | ⟨up, rest⟩⟩
  -- Fewer than two nodes.
  · refine iff_of_false (fun ⟨fuel₀, hload⟩ => ?_) (fun h => by simp at h)
    obtain ⟨s', hload, -⟩ := hload fuel₀ (Nat.le_refl _)
    exact ramfsLoadInitrd_short himage.magic hget hD hdir hseg (by decide) _ _ hload
  · refine iff_of_false (fun ⟨fuel₀, hload⟩ => ?_) (fun h => by simp at h)
    obtain ⟨s', hload, -⟩ := hload fuel₀ (Nat.le_refl _)
    exact ramfsLoadInitrd_short himage.magic hget hD hdir hseg (Nat.lt_succ_self 1) _ _ hload
  · have hrun := ramfsLoadInitrd_loop himage.magic hget hD hdir hseg
    have hup : up < s.heap.currentPointer := hlist up (List.mem_cons_of_mem _ List.mem_cons_self)
    have hpos : up ≠ 0 := hseg.2.2.2.1
    constructor
    · rintro ⟨fuel₀, hload⟩
      refine ⟨Nat.le_add_left 2 _, ?_⟩
      cases files with
      | nil => exact .inl rfl
      | cons file files =>
        cases rest with
        | nil => exact .inr rfl
        | cons b rest =>
          -- There is a node behind the second one.
          obtain ⟨s', hload, -⟩ := hload (fuel₀ + 1) (Nat.le_succ _)
          rw [hrun] at hload
          have hnext : s.nextPtr up ≠ 0 := hseg.2.2.2.2.1 ▸ hseg.2.2.2.2.2.1
          exact absurd hload (hrow.load_stops rfl hok hfits hup hpos hnext hcount _ _)
    · rintro ⟨-, rfl | hlength⟩
      · obtain ⟨fuel₀, hload⟩ := hrow.load_nil rfl
        refine ⟨fuel₀ + 1, fun fuel hfuel => ⟨s, ?_, .nothing hseg⟩⟩
        obtain ⟨fuel, rfl⟩ := Nat.exists_eq_add_of_le' (Nat.le_trans (Nat.le_add_left 1 fuel₀) hfuel)
        rw [hrun]
        exact hload fuel (Nat.le_of_succ_le_succ hfuel) s D up 0 hcount
      · obtain rfl : rest = [] := by simpa using hlength
        obtain ⟨fuel₀, hload⟩ := himage.load hok hget hD hdir hseg hup hfits
        refine ⟨fuel₀, fun fuel hfuel => ?_⟩
        obtain ⟨s', hload, hloaded, -⟩ := hload fuel hfuel
        exact ⟨s', hload, hloaded.appends hok hseg (hlist a List.mem_cons_self) hup hbelow⟩

/-- Loading files into a directory of a file tree keeps what the directory held if and only if the path
ends in the directory itself and not in a link to it, and the directory holds nothing but its links, or
there are no files to be loaded. -/
theorem ramfsLoadInitrd_keeps_iff (h : FileTree s T) (hget : fsGetNode s 0 path = some x) (hx : x ≠ 0)
    (hD : resolve s x = D) (hdir : (s.node D).type = .directory)
    (himage : ImageHolds image initrdPtr (.ofFiles files))
    (hfits : s.Fits (DirEntries.ofFiles files).cost) :
    LoadsFiles image initrdPtr path s D (T.childrenOf D) files ↔
      x = D ∧ 2 ≤ (T.childrenOf D).length ∧ (files = [] ∨ (T.childrenOf D).length = 2) := by
  have hmem := (h.fsGetNode_some hget hx).2.2.2
  by_cases htype : (s.node x).type = .directory
  · rw [resolve_dir htype] at hD
    subst hD
    rw [loadsFiles_iff himage h.heap hget hx (h.below _ hmem) htype (h.seg hmem)
      (fun y hy => h.below y (Forest.childrenOf_subset T hy)) hfits]
    exact (and_iff_right rfl).symm
  · refine iff_of_false ?_ ?_
    · rintro ⟨fuel₀, hload⟩
      obtain ⟨s', hload, -⟩ := hload fuel₀ (Nat.le_refl _)
      rw [ramfsLoadInitrd_link himage.magic hget htype] at hload
      exact absurd (show VFS_T_NOK = VFS_T_OK from congrArg Prod.snd (Except.ok.inj hload)) (by decide)
    · rintro ⟨rfl, -⟩
      exact htype hdir

/-- The image of one file. -/
def oneFile : Access.Mem := .only (imageAt fileImage) 0x200000 317

theorem oneFile_holds : ImageHolds oneFile 0x200000 (.ofFiles [([0x66], [0x2a])]) := by
  refine ⟨by decide +kernel, 1, by decide +kernel, ?_⟩
  refine .file (by decide +kernel) ⟨by decide +kernel, by decide +kernel, 316, ?_⟩ (.nil _ _)
  exact ⟨by decide +kernel, by decide +kernel⟩

/-- After `ramfs_init` the root directory holds only its links, and there is room. -/
theorem ramfsInit_links :
    ∃ s, ∃ T : Forest Nat, ramfsRun bootRamfs [] = some s ∧ FileTree s T ∧
      fsGetNode s 0 [SLASH] = some ROOT ∧ (T.childrenOf ROOT).length = 2 ∧ s.Fits 4096 := by
  have hrun : (ramfsRun bootRamfs []).any (fun s =>
      fsGetNode s 0 [SLASH] = some ROOT && s.Fits 4096 &&
        s.nextPtr (s.nextPtr (s.node ROOT).children) = 0) = true := by
    decide +kernel
  obtain ⟨s, hs, hcheck⟩ := (Option.any_eq_true ..).mp hrun
  simp only [Bool.and_eq_true, decide_eq_true_eq] at hcheck
  obtain ⟨⟨hget, hfits⟩, hend⟩ := hcheck
  obtain ⟨T, htree, hdots⟩ := ramfsRun_creations bootRamfs_boot (by decide) hs
  obtain ⟨dot, dotdot, rest, hlist, -⟩ := hdots ROOT htree.root_mem htree.rootDir
  have hseg := htree.seg htree.root_mem
  rw [hlist] at hseg
  obtain ⟨hfirst, -, hsecond, -, hrest⟩ := hseg
  rw [hfirst, hsecond] at hend
  rw [hend] at hrest
  refine ⟨s, T, hs, htree, hget, ?_, hfits⟩
  cases rest with
  | nil => rw [hlist]; rfl
  | cons x rest => exact absurd hrest.1.symm hrest.2.1

theorem ramfsLoadInitrd_keeps_first :
    ∃ s, ∃ T : Forest Nat, ramfsRun bootRamfs [] = some s ∧
      LoadsFiles oneFile 0x200000 [SLASH] s ROOT (T.childrenOf ROOT) [([0x66], [0x2a])] := by
  obtain ⟨s, T, hs, htree, hget, hlength, hfits⟩ := ramfsInit_links
  exact ⟨s, T, hs, (ramfsLoadInitrd_keeps_iff htree hget (by decide) (resolve_dir htree.rootDir)
    htree.rootDir oneFile_holds (Nat.le_trans (Nat.add_le_add_left (by decide) _) hfits)).mpr
      ⟨rfl, Nat.le_of_eq hlength.symm, .inr hlength⟩⟩

/-- The root directory with one file in it: the load follows `NULL`. -/
theorem ramfsLoadInitrd_into_nonempty :
    ∃ s T, ramfsRun bootRamfs [.newRegFile [0x61] [SLASH]] = some s ∧ FileTree s T ∧ DotsFirst s T ∧
      fsGetNode s 0 [SLASH] = some ROOT ∧
      ImageHolds oneFile 0x200000 (.ofFiles [([0x66], [0x2a])]) ∧
      s.Fits (DirEntries.ofFiles [([0x66], [0x2a])]).cost ∧
      (match ramfsLoadInitrd oneFile 10 0x200000 [SLASH] s with
        | .error .undefined => True
        | _ => False) ∧
      ¬ LoadsFiles oneFile 0x200000 [SLASH] s ROOT (T.childrenOf ROOT) [([0x66], [0x2a])] := by
  have hrun : (ramfsRun bootRamfs [.newRegFile [0x61] [SLASH]]).any (fun s =>
      fsGetNode s 0 [SLASH] = some ROOT &&
        s.Fits (DirEntries.ofFiles [([0x66], [0x2a])]).cost &&
        s.nextPtr (s.nextPtr (s.node ROOT).children) ≠ 0 &&
        match ramfsLoadInitrd oneFile 10 0x200000 [SLASH] s with
        | .error .undefined => true
        | _ => false) = true := by
    decide +kernel
  obtain ⟨s, hs, hcheck⟩ := (Option.any_eq_true ..).mp hrun
  simp only [Bool.and_eq_true, decide_eq_true_eq] at hcheck
  obtain ⟨⟨⟨hget, hfits⟩, hmore⟩, hload⟩ := hcheck
  obtain ⟨T, htree, hdots⟩ := ramfsRun_creations bootRamfs_boot (by decide) hs
  refine ⟨s, T, hs, htree, hdots, hget, oneFile_holds, hfits, ?_, ?_⟩
  · split at hload
    · trivial
    · cases hload
  · have hroot := htree.root_mem
    rw [loadsFiles_iff oneFile_holds htree.heap hget (by decide) (htree.below _ hroot) htree.rootDir
      (htree.seg hroot) (fun y hy => htree.below y (Forest.childrenOf_subset T hy)) hfits]
    rintro ⟨-, hnone | hlength⟩
    · cases hnone
    · have hseg := htree.seg hroot
      obtain ⟨a, b, hlist⟩ := List.length_eq_two.mp hlength
      rw [hlist] at hseg
      obtain ⟨hfirst, -, hsecond, -, hend⟩ := hseg
      rw [hfirst, hsecond] at hmore
      exact hmore hend

end TalOS
