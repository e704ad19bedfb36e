-- SUMMARY: A load of an image told as a derivation, one node after the other, and what such a derivation does not touch.
import TalOS.Coresys.ImageTrees

/-!
# Loads as derivations

The loader fills a directory before it links it into its parent, so in the middle of a load
the tree does not show what is being built. A derivation says of each entry what made it and
what follows it. Since it touches no older node but the one it appends to, it can be replayed
in a state in which the directory is linked in already.
-/

open MachineInt

namespace TalOS

variable {s s₁ s₂ s₃ s' : Ramfs} {t D c u x : Nat} {name contents : List UInt8}
  {es below rest : DirEntries} {image : Access.Mem} {base h i n : Nat}

/-- The entries have been made in the directory `D` one after the other, each linked in behind the one
before it, and the first behind `t`. -/
inductive LoadBuilds : Ramfs → Nat → Nat → DirEntries → Ramfs → Prop where
  | nil (s : Ramfs) (t D : Nat) : LoadBuilds s t D .nil s
  | file {s s₁ s' : Ramfs} {t D : Nat} {name contents : List UInt8} {rest : DirEntries}
      (hkeeps : LoadKeeps s.heap.currentPointer s s₁) (hmade : FileMade s s₁ name contents)
      (hrest : LoadBuilds (s₁.linkBehind t s.heap.currentPointer) s.heap.currentPointer D rest s') :
      LoadBuilds s t D (.file name contents rest) s'
  | dir {s s₁ s₂ s₃ s' : Ramfs} {t D c u : Nat} {name : List UInt8} {below rest : DirEntries}
      (hdir : DirLinked s s₁ s₂ name D c u)
      (hbelow : LoadBuilds s₂ u s.heap.currentPointer below s₃)
      (hrest : LoadBuilds (s₃.linkBehind t s.heap.currentPointer) s.heap.currentPointer D rest s') :
      LoadBuilds s t D (.dir name below rest) s'

/-- What a derivation has made is appended to the list. -/
theorem LoadBuilds.loaded (hb : LoadBuilds s t D es s') (hok : s.heap.Ok) (ht : t < s.heap.currentPointer)
    (hlast : s.nextPtr t = 0) : Loaded s s' t D es := by
  -- A node that has just been linked in is the last of the list.
  have hlinked {s s₁ : Ramfs} {t : Nat} (hmade : NodeMade s s₁) (ht : t < s.heap.currentPointer) :
      (s₁.linkBehind t s.heap.currentPointer).nextPtr s.heap.currentPointer = 0 := by
    rw [Ramfs.nextPtr, linkBehind_ne (Nat.ne_of_gt ht)]
    exact hmade.next
  induction hb with
  | nil => exact .nil hok hlast
  | file hkeeps hmade _ ih =>
    have hnode := hmade.nodeMade hkeeps
    exact .file hkeeps hmade ht (ih hkeeps.heap hnode.below (hlinked hnode ht))
  | dir hdir _ _ ihbelow ihrest =>
    have hbelow := ihbelow hdir.keepsLinks.heap hdir.tail.below hdir.tail.last
    have hnode := hdir.nodeMade hbelow
    exact hdir.loaded hbelow ht (ihrest hnode.keeps.heap hnode.below (hlinked hnode ht))

theorem LoadBuilds.grow (hb : LoadBuilds s t D es s') : s.heap.currentPointer ≤ s'.heap.currentPointer := by
  induction hb with
  | nil => exact Nat.le_refl _
  | file hkeeps _ _ ih => exact Nat.le_trans hkeeps.grow ih
  | dir hdir _ _ ihbelow ihrest =>
    exact Nat.le_trans (Nat.le_trans hdir.keepsMade.grow hdir.keepsLinks.grow) (Nat.le_trans ihbelow ihrest)

/-! ## Runs of the loop -/

theorem loadChildren_fuel {fuel up prev : Nat} {r : Ramfs × Int}
    (hrun : loadChildren image base fuel D up h i prev s = .ok r) : ∃ fuel', fuel = fuel' + 1 := by
  cases fuel with
  | zero =>
    rw [loadChildren] at hrun
    cases hrun
  | succ fuel => exact ⟨fuel, rfl⟩

/-- With its links a directory is ready for the loop. -/
theorem loadInitrdFiles_loop {fuel parent : Nat} {r : Ramfs × Int} (hdots : loadDots s parent D = some (s₁, some u))
    (hrun : loadInitrdFiles image base fuel parent D h s = .ok r) :
    ∃ fuel', loadChildren image base fuel' D u h 0 0 s₁ = .ok r := by
  cases fuel with
  | zero =>
    rw [loadInitrdFiles] at hrun
    cases hrun
  | succ fuel =>
    rw [loadInitrdFiles, hdots, defined_some_bind] at hrun
    exact ⟨fuel, hrun⟩

/-- A loop that has room for the entries of its slots makes them, if it ends at all. -/
theorem Row.builds (hrow : Row image base h i n es) {fuel up prev : Nat} {r : Int} (htail : LoadTail s up prev t)
    (hcount : headerDirNfiles image h = .ok (i + n)) (hok : s.heap.Ok) (hfits : s.Fits es.cost)
    (hrun : loadChildren image base fuel D up h i prev s = .ok (s', r)) :
    r = VFS_T_OK ∧ LoadBuilds s t D es s' := by
  unfold Ramfs.Fits at hfits
  induction hrow generalizing s s' D up prev t fuel r with
  | nil h i =>
    obtain ⟨fuel, rfl⟩ := loadChildren_fuel hrun
    rw [loadChildren, hcount, ok_bind, if_neg (by omega)] at hrun
    obtain ⟨rfl, rfl⟩ := Prod.mk.inj (Except.ok.inj hrun)
    exact ⟨rfl, .nil _ t D⟩
  | @file h i n name contents rest htype hfile _ ih =>
    obtain ⟨fuel, rfl⟩ := loadChildren_fuel hrun
    rw [DirEntries.cost] at hfits
    obtain ⟨s₁, hmake, hkeeps, hmade⟩ := loadInitrdRegFile_fits (t := s.heap.currentPointer) hok hfile
      (by unfold Ramfs.Fits; omega)
    have hpointer := hmade.pointer
    obtain ⟨hlink, htail'⟩ := (hmade.nodeMade hkeeps).append hok htail
    rw [loadChildren, hcount, ok_bind, if_pos (by omega), htype, ok_bind, if_pos rfl, hmake, ok_bind,
      hlink, defined_some_bind] at hrun
    obtain ⟨hr, hrest⟩ := ih htail' (hcount.trans (congrArg Except.ok (by omega))) hkeeps.heap
      (by rw [linkBehind_heap, hkeeps.limit]; omega) hrun
    exact ⟨hr, .file hkeeps hmade hrest⟩
  | @dir h i n m name below rest htype hname hcountBelow _ _ ihbelow ihrest =>
    obtain ⟨fuel, rfl⟩ := loadChildren_fuel hrun
    rw [DirEntries.cost] at hfits
    obtain ⟨s₁, s₂, c, u, hmake, hdots, hdir⟩ := loadDir_fits D hok hname (by unfold Ramfs.Fits; omega)
    obtain ⟨hc, hu, hpointer⟩ := hdir.pointers
    rw [loadChildren, hcount, ok_bind, if_pos (by omega), htype, ok_bind, if_neg (by decide), if_pos rfl,
      hmake, ok_bind] at hrun
    -- What is in the directory is loaded before anything leads to it.
    obtain ⟨⟨s₃, status⟩, hload, hrun⟩ := loadBind_eq_ok.mp hrun
    obtain ⟨fuel', hloop⟩ := loadInitrdFiles_loop hdots hload
    obtain ⟨hstatus, hbuilds⟩ := ihbelow hdir.tail (hcountBelow.trans (by rw [Nat.zero_add]))
      hdir.keepsLinks.heap (by rw [hdir.limit]; omega) hloop
    have hbelow := hbuilds.loaded hdir.keepsLinks.heap hdir.tail.below hdir.tail.last
    have hmade := hdir.nodeMade hbelow
    obtain ⟨hlink, htail'⟩ := hmade.append hok htail
    rw [if_neg (not_not_intro hstatus), hlink, defined_some_bind] at hrun
    obtain ⟨hr, hrest⟩ := ihrest htail' (hcount.trans (congrArg Except.ok (by omega))) hmade.keeps.heap
      (by rw [linkBehind_heap, hmade.keeps.limit, hbelow.pointer]; omega) hrun
    exact ⟨hr, .dir hdir hbuilds hrest⟩
  | @skip h i n type es htype hother _ ih =>
    obtain ⟨fuel, rfl⟩ := loadChildren_fuel hrun
    rw [loadChildren, hcount, ok_bind, if_pos (by omega), htype, ok_bind, if_neg hother.1,
      if_neg hother.2] at hrun
    exact ih htail (hcount.trans (congrArg Except.ok (by omega))) hok hfits hrun

/-! ## Older nodes -/

theorem setNode_comm {y : Nat} (hne : x ≠ y) (nx ny : RamfsFileHeader) :
    (s.setNode x nx).setNode y ny = (s.setNode y ny).setNode x nx := by
  unfold Ramfs.setNode
  congr 1
  funext z
  dsimp only
  by_cases hy : z = y
  · rw [if_pos hy, if_neg fun hx => hne (hx.symm.trans hy), if_pos hy]
  · rw [if_neg hy, if_neg hy]

theorem linkBehind_setNode {a : Nat} (hne : x ≠ t) (nx : RamfsFileHeader) :
    (s.setNode x nx).linkBehind t a = (s.linkBehind t a).setNode x nx := by
  rw [Ramfs.linkBehind, Ramfs.linkBehind, setNode_ne _ (Ne.symm hne), setNode_comm hne]

section Frame

variable {nx : RamfsFileHeader}

theorem LoadKeeps.frame (hk : LoadKeeps t s s') : LoadKeeps t (s.setNode x nx) (s'.setNode x nx) where
  root := hk.root
  heap := hk.heap
  limit := hk.limit
  grow := hk.grow
  node := fun y hy hne => by
    by_cases heq : y = x
    · rw [heq, setNode_self, setNode_self]
    · rw [setNode_ne _ heq, setNode_ne _ heq]
      exact hk.node y hy hne
  mem := hk.mem

theorem FileMade.frame (hmade : FileMade s s' name contents) (hx : x < s.heap.currentPointer) :
    FileMade (s.setNode x nx) (s'.setNode x nx) name contents where
  pointer := hmade.pointer
  node := by
    rw [setNode_heap, setNode_ne _ (Nat.ne_of_gt hx)]
    exact hmade.node

theorem DirLinked.frame (hdir : DirLinked s s₁ s₂ name D c u) (hx : x < s.heap.currentPointer) :
    DirLinked (s.setNode x nx) (s₁.setNode x nx) (s₂.setNode x nx) name D c u := by
  have hsize : SIZEOF_NODE = 200 := rfl
  obtain ⟨hc, hu, -⟩ := hdir.pointers
  have hnode {s : Ramfs} {y : Nat} (hy : x < y) : (s.setNode x nx).node y = s.node y :=
    setNode_ne _ (Nat.ne_of_gt hy)
  have hlinks := hdir.links
  refine ⟨hdir.keepsMade.frame, ⟨hdir.made.pointer, ?_⟩, hdir.keepsLinks.frame, hlinks.dotAddr,
    hlinks.dotdotAddr, hlinks.root, hlinks.heap, hlinks.pointer, ?_, ?_, ?_, fun q hqd hqc hqu => ?_⟩
  · rw [setNode_heap, hnode hx]
    exact hdir.made.node
  · rw [setNode_heap, hnode hx, hnode hx]
    exact hlinks.dir
  · rw [setNode_heap, hnode (by omega)]
    exact hlinks.dot
  · rw [hnode (by omega)]
    exact hlinks.dotdot
  · by_cases heq : q = x
    · rw [heq, setNode_self, setNode_self]
    · rw [setNode_ne _ heq, setNode_ne _ heq]
      exact hlinks.other q hqd hqc hqu

/-- A derivation goes the same way whatever is in an older node that it does not append to. -/
theorem LoadBuilds.frame (hb : LoadBuilds s t D es s') (hx : x < s.heap.currentPointer) (hne : x ≠ t) :
    LoadBuilds (s.setNode x nx) t D es (s'.setNode x nx) := by
  induction hb with
  | nil => exact .nil _ _ _
  | @file s s₁ s' t D name contents rest hkeeps hmade _ ih =>
    have hrest := ih (Nat.lt_of_lt_of_le hx hkeeps.grow) (Nat.ne_of_lt hx)
    rw [← linkBehind_setNode hne] at hrest
    exact .file hkeeps.frame (hmade.frame hx) hrest
  | @dir s s₁ s₂ s₃ s' t D c u name below rest hdir hbelow _ ihbelow ihrest =>
    have hsize : SIZEOF_NODE = 200 := rfl
    obtain ⟨hc, hu, hpointer⟩ := hdir.pointers
    have hgrow := hbelow.grow
    have hrest := ihrest (Nat.lt_of_lt_of_le (by omega : x < s₂.heap.currentPointer) hgrow) (Nat.ne_of_lt hx)
    rw [← linkBehind_setNode hne] at hrest
    exact .dir (hdir.frame hx) (ihbelow (by omega) (by omega)) hrest

end Frame

/-- A load into a directory of which the list of the parent has been extended before. -/
theorem LoadBuilds.linkBehind (hb : LoadBuilds s t D es s') (hl : Loaded s s' t D es) {a : Nat}
    (hx : x < s.heap.currentPointer) (hne : x ≠ t) :
    LoadBuilds (s.linkBehind x a) t D es (s'.linkBehind x a) := by
  have hframe : LoadBuilds (s.setNode x { s.node x with next := a }) t D es
      (s'.setNode x { s.node x with next := a }) := hb.frame hx hne
  rwa [← Ramfs.linkBehind, ← hl.keeps.node x hx hne, ← Ramfs.linkBehind] at hframe

end TalOS
