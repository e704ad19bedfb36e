-- SUMMARY: Runs of ramfs with the kernel and with initrd loads, and the runs of a hierarchy that they are.
import TalOS.Coresys.ImagePlaces

/-!
# Runs of the file system

Besides the calls of ramfs there is the load of an initrd image, which adds a whole tree of
entries to an empty directory. A run of all of them that reports of each call whether it
succeeded is a run of the hierarchy, with the calls that failed left out; and what is found
and read by a path afterwards is what the place of the path holds.
-/

open MachineInt

namespace TalOS

open Hierarchy

variable {s s₁ s' : Ramfs} {T : Forest Nat} {D fuel initrdPtr : Nat} {image : Access.Mem}
  {path : List UInt8} {p : List (List UInt8)} {es es' : DirEntries} {fs : Files} {r : Int}

/-! ## Loads -/

/-- Put entries into the directory at a path, in which no entry has a name of theirs. -/
def Files.load (fs : Files) (path : List UInt8) (es : DirEntries) : Option Files :=
  (fs.lookup path).bind fun p =>
    if fs p = some .directory ∧ ∀ name ∈ es.entries.names, fs (p ++ [name]) = none then
      some (plant fs p es.entries)
    else none

open Classical in
/-- The tree that an image holds, if it holds one. -/
noncomputable def imageEntries (image : Access.Mem) (initrdPtr : Nat) : Option DirEntries :=
  if h : ∃ es, ImageHolds image initrdPtr es then some h.choose else none

theorem ImageHolds.unique (h : ImageHolds image initrdPtr es) (h' : ImageHolds image initrdPtr es') : es = es' := by
  obtain ⟨n, hcount, hrow⟩ := h.root
  obtain ⟨n', hcount', hrow'⟩ := h'.root
  obtain rfl := Except.ok.inj (hcount.symm.trans hcount')
  exact hrow.unique hrow'

theorem ImageHolds.imageEntries (h : ImageHolds image initrdPtr es) :
    TalOS.imageEntries image initrdPtr = some es := by
  have hsome : ∃ es, ImageHolds image initrdPtr es := ⟨es, h⟩
  rw [TalOS.imageEntries, dif_pos hsome, hsome.choose_spec.unique h]

/-- A load gets to the entries of its image. -/
def LoadStarts (image : Access.Mem) (initrdPtr : Nat) (path : List UInt8) (s : Ramfs) : Prop :=
  readWord image initrdPtr = .ok INITRD_MAGIC ∧
    ∃ D, fsGetNode s 0 path = some D ∧ D ≠ 0 ∧ (s.node D).type = .directory

/-- The path leads to the directory `D`, in which there are two nodes, its links. -/
structure LeadsToEmpty (s : Ramfs) (path : List UInt8) (D : Nat) : Prop where
  found : fsGetNode s 0 path = some D
  pos : D ≠ 0
  type : (s.node D).type = .directory
  last : s.nextPtr (s.nextPtr (s.node D).children) = 0

/-- A load into an empty directory, of an image that holds a tree with names as a path has them, the
names in one directory different, and with memory for the tree. -/
def LoadsTree (image : Access.Mem) (initrdPtr : Nat) (path : List UInt8) (s : Ramfs) : Prop :=
  ∃ D es, LeadsToEmpty s path D ∧ ImageHolds image initrdPtr es ∧ es.Legal ∧ es.entries.Distinct ∧
    s.Fits es.cost

/-- A load that does not get to the entries returns `VFS_T_NOK`. -/
theorem ramfsLoadInitrd_refuses (hnot : ¬ LoadStarts image initrdPtr path s)
    (hrun : ramfsLoadInitrd image fuel initrdPtr path s = .ok (s', r)) : s' = s ∧ r = VFS_T_NOK := by
  rw [ramfsLoadInitrd] at hrun
  obtain ⟨magic, hmagic, hrun⟩ := loadBind_eq_ok.mp hrun
  split at hrun
  · have hpair := Prod.mk.inj (Except.ok.inj hrun)
    exact ⟨hpair.1.symm, hpair.2.symm⟩
  · next hne =>
    obtain ⟨D, hget, hrun⟩ := loadBind_eq_ok.mp hrun
    split at hrun
    · have hpair := Prod.mk.inj (Except.ok.inj hrun)
      exact ⟨hpair.1.symm, hpair.2.symm⟩
    · next hdir =>
      obtain ⟨hD, htype⟩ := not_or.mp hdir
      exact absurd ⟨not_not.mp hne ▸ hmagic, D, defined_eq_ok.mp hget, hD, not_not.mp htype⟩ hnot

theorem LeadsToEmpty.children (h : LeadsToEmpty s path D) (ht : TidyTree s T) :
    ∃ dot dotdot, T.childrenOf D = [dot, dotdot] ∧ (s.node dot).type = .symlink ∧
      (s.node dotdot).type = .symlink := by
  have hD := (ht.tree.fsGetNode_some h.found h.pos).2.2.2
  obtain ⟨dot, dotdot, rest, hlist, hdot, -, hdotdot, -⟩ := ht.dots D hD h.type
  have hseg := ht.tree.seg hD
  rw [hlist] at hseg
  obtain ⟨hfirst, -, hsecond, -, hrest⟩ := hseg
  have hlast := h.last
  rw [hfirst, hsecond] at hlast
  cases rest with
  | nil => exact ⟨dot, dotdot, hlist, hdot, hdotdot⟩
  | cons x rest => exact absurd (hrest.1.symm.trans hlast) hrest.2.1

/-- Nothing has a place below an empty directory. -/
theorem LeadsToEmpty.free (h : LeadsToEmpty s path D) (ht : TidyTree s T) (hwalk : walk s T p ROOT = D)
    (name : List UInt8) : filesOf s T (p ++ [name]) = none := by
  rw [← Option.not_isSome_iff_eq_none, ht.tree.filesOf_isSome]
  rintro ⟨hplain, hchild⟩
  obtain ⟨-, -, hmem, -⟩ := ht.walk_step hplain hchild
  obtain ⟨dot, dotdot, hlist, hdot, hdotdot⟩ := h.children ht
  rw [hwalk, hlist] at hmem
  refine ht.tree.walk_plain hplain hchild ?_
  rcases List.mem_pair.mp hmem with heq | heq
  · rw [heq]
    exact hdot
  · rw [heq]
    exact hdotdot

/-- A load that meets its conditions plants the tree of the image. -/
theorem TidyTree.load_represents (ht : TidyTree s T) (hb : BuffersOk s T) (hnul : 0 ∉ path)
    (hempty : LeadsToEmpty s path D) (himage : ImageHolds image initrdPtr es) (hlegal : es.Legal)
    (hdistinct : es.entries.Distinct) (hfits : s.Fits es.cost)
    (hrun : ramfsLoadInitrd image fuel initrdPtr path s = .ok (s', r)) :
    r = VFS_T_OK ∧ ∃ p, (filesOf s T).lookup path = some p ∧ filesOf s T p = some .directory ∧
      (∀ name, filesOf s T (p ++ [name]) = none) ∧ Represents s' (plant (filesOf s T) p es.entries) := by
  obtain ⟨-, -, -, hD⟩ := ht.tree.fsGetNode_some hempty.found hempty.pos
  obtain ⟨dot, dotdot, hlist, -⟩ := hempty.children ht
  have hconcat : T.childrenOf D = [dot] ++ [dotdot] := hlist
  have hseg := ht.tree.seg hD
  rw [hlist] at hseg
  have hup : dotdot < s.heap.currentPointer := ht.tree.below dotdot (last_mem hconcat)
  -- The load is the loop over the slots of the root.
  rw [ramfsLoadInitrd_list himage.magic hempty.found hempty.pos hempty.type hseg] at hrun
  obtain ⟨fuel', hloop⟩ := loadInitrdFiles_loop (loadDots_list hempty.pos hseg _) hrun
  obtain ⟨n, hcount, hrow⟩ := himage.root
  rw [← Nat.zero_add n] at hcount
  have htail : LoadTail s dotdot 0 dotdot := ⟨hup, hup, hseg.2.2.2.1, hseg.2.2.2.2, .inl rfl⟩
  obtain ⟨hr, hbuilds⟩ := hrow.builds htail hcount ht.tree.heap hfits hloop
  obtain ⟨p, hlookup, hplace⟩ := ht.lookup_of_get hnul hempty.found hempty.pos
  have hwalk := hplace.walk.trans (resolve_dir hempty.type)
  have hfree := hempty.free ht hwalk
  obtain ⟨T', ht', hb', hfiles, -⟩ := hbuilds.planted ht hb hplace.plain hwalk hD hconcat hlegal hdistinct
    fun name _ => hfree name
  refine ⟨hr, p, hlookup, ?_, hfree, T', ht', hb', hfiles⟩
  rw [hplace.directory ht.tree, resolve_dir hempty.type]
  exact hempty.type

theorem Files.load_eq_some (hlookup : fs.lookup path = some p) (hdir : fs p = some .directory)
    (hfree : ∀ name, fs (p ++ [name]) = none) : fs.load path es = some (plant fs p es.entries) := by
  rw [Files.load, hlookup, Option.bind_some]
  exact if_pos ⟨hdir, fun name _ => hfree name⟩

/-! ## All operations -/

/-- The operations of a run: the calls of ramfs with the rest of the kernel, and loads of an image. -/
inductive FileOp where
  | kernel (op : KernelOp)
  | loadInitrd (image : Access.Mem) (fuel initrdPtr : Nat) (path : List UInt8)

def FileOp.step : FileOp → Ramfs → Option Ramfs
  | .kernel op, s => op.step s
  | .loadInitrd image fuel initrdPtr path, s =>
    (ramfsLoadInitrd image fuel initrdPtr path s).toOption.map Prod.fst

/-- A load that reports a failure should change nothing. -/
noncomputable def FileOp.change : FileOp → Ramfs → Files → Option Files
  | .kernel op, s, fs => op.change s fs
  | .loadInitrd image fuel initrdPtr path, s, fs =>
    if (ramfsLoadInitrd image fuel initrdPtr path s).toOption.any fun r => r.2 = VFS_T_OK then
      (imageEntries image initrdPtr).bind fun es => fs.load path es
    else some fs

/-- An operation that does what it should. -/
def FileOp.Clean : FileOp → Ramfs → Prop
  | .kernel op, s => op.Clean s
  | .loadInitrd image _ initrdPtr path, s =>
    0 ∉ path ∧ (LoadStarts image initrdPtr path s → LoadsTree image initrdPtr path s)

theorem toOption_eq_some {ε α : Type} {x : Except ε α} {a : α} : x.toOption = some a ↔ x = .ok a := by
  cases x with
  | error e => exact iff_of_false nofun nofun
  | ok b => exact ⟨fun h => congrArg _ (Option.some.inj h), fun h => congrArg some (Except.ok.inj h)⟩

/-- Every operation that meets its conditions is a step of the hierarchy. -/
theorem FileOp.represents_step {op : FileOp} (hclean : op.Clean s) (h : Represents s fs)
    (hstep : op.step s = some s') : ∃ fs', op.change s fs = some fs' ∧ Represents s' fs' := by
  cases op with
  | kernel op => exact KernelOp.represents_step hclean h hstep
  | loadInitrd image fuel initrdPtr path =>
    obtain ⟨⟨s₁, r⟩, hok, rfl⟩ := Option.map_eq_some_iff.mp hstep
    have hrun := toOption_eq_some.mp hok
    have hchange : (FileOp.loadInitrd image fuel initrdPtr path).change s fs =
        if r = VFS_T_OK then (imageEntries image initrdPtr).bind fun es => fs.load path es else some fs := by
      simp only [FileOp.change, hok, Option.any_some, decide_eq_true_eq]
    by_cases hstarts : LoadStarts image initrdPtr path s
    · obtain ⟨D, es, hempty, himage, hlegal, hdistinct, hfits⟩ := hclean.2 hstarts
      obtain ⟨T, ht, hb, rfl⟩ := h
      obtain ⟨hr, p, hlookup, hdir, hfree, hplanted⟩ :=
        ht.load_represents hb hclean.1 hempty himage hlegal hdistinct hfits hrun
      rw [hchange, if_pos hr, himage.imageEntries, Option.bind_some]
      exact ⟨_, Files.load_eq_some hlookup hdir hfree, hplanted⟩
    · obtain ⟨rfl, rfl⟩ := ramfsLoadInitrd_refuses hstarts hrun
      exact ⟨fs, hchange.trans (if_neg (by decide)), h⟩

/-! ## Runs -/

/-- A run after `ramfs_init`. -/
def fileRun (s : Ramfs) (ops : List FileOp) : Option Ramfs :=
  (ramfsInit s).bind fun r => if r.2 = .ok then Run.run FileOp.step ops r.1 else none

theorem fileRun_represents {s₀ : Ramfs} {ops : List FileOp} (hboot : Boot s₀)
    (hops : ∀ r, ramfsInit s₀ = some r → Run.Along FileOp.step FileOp.Clean ops r.1)
    (hrun : fileRun s₀ ops = some s) :
    ∃ s₁ fs, ramfsInit s₀ = some (s₁, .ok) ∧
      Run.run (Run.beside FileOp.step FileOp.change) ops (s₁, emptyFiles) = some (s, fs) ∧ Represents s fs := by
  obtain ⟨s₁, hinit, hrun⟩ : ∃ s₁, ramfsInit s₀ = some (s₁, .ok) ∧ Run.run FileOp.step ops s₁ = some s :=
    ramfsInit_bind_eq_some hrun
  have hstep (op : FileOp) (s s' : Ramfs) (fs : Files) (hclean : op.Clean s) (h : Represents s fs)
      (hop : op.step s = some s') : ∃ fs', op.change s fs = some fs' ∧ Represents s' fs' :=
    FileOp.represents_step hclean h hop
  obtain ⟨fs, hfiles, h⟩ := Run.run_refines hstep (hops _ hinit) hrun (hboot.represents hinit)
  exact ⟨s₁, fs, hinit, hfiles, h⟩

/-- A file and a directory with a file in it. -/
def fileAndDirectory : DirEntries := .file [0x66] [1, 2, 3] (.dir [0x64] (.file [0x67] [4] .nil) .nil)

theorem fileAndDirectory_packs : fileAndDirectory.Packs := ⟨.inr rfl, trivial, trivial⟩

theorem fileAndDirectory_legal : fileAndDirectory.Legal := by
  refine ⟨?_, ?_, ⟨?_, trivial⟩, trivial⟩ <;> decide

theorem fileAndDirectory_distinct : fileAndDirectory.entries.Distinct := by decide

/-- A load of the image at the root, and then changes of what has been loaded. -/
def loadAndChange : List FileOp :=
  [.loadInitrd (imageMem fileAndDirectory.image 0x200000) 20 0x200000 [SLASH],
    .kernel (.ramfs (.write [SLASH, 0x64, SLASH, 0x67] [9] 0)),
    .kernel (.ramfs (.newRegFile [0x68] [SLASH, 0x64])), .kernel (.ramfs (.deleteNode [SLASH, 0x66]))]

/-- After `ramfs_init` the root directory is empty. -/
theorem ramfsInit_leadsToEmpty {r : Ramfs × RfsErr} (hr : ramfsInit bootKernel = some r) :
    LeadsToEmpty r.1 [SLASH] ROOT ∧ r.1.Fits fileAndDirectory.cost := by
  have hcheck : (ramfsInit bootKernel).all (fun r =>
      decide (fsGetNode r.1 0 [SLASH] = some ROOT) && decide ((r.1.node ROOT).type = .directory) &&
        decide (r.1.nextPtr (r.1.nextPtr (r.1.node ROOT).children) = 0) &&
          decide (r.1.heap.currentPointer + fileAndDirectory.cost ≤ r.1.heap.limit)) = true := by
    decide +kernel
  rw [hr, Option.all_some] at hcheck
  simp only [Bool.and_eq_true, decide_eq_true_eq] at hcheck
  obtain ⟨⟨⟨hget, htype⟩, hlast⟩, hfits⟩ := hcheck
  exact ⟨⟨hget, by decide, htype, hlast⟩, hfits⟩

end TalOS
