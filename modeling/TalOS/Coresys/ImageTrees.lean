-- SUMMARY: Which directory trees an initrd image can carry.
import TalOS.Coresys.ImageLayout

/-!
# Trees an image can carry

The loader looks for a directory's entries right behind its header, and reads the entries
after it in its parent from the same slots. So a load builds only trees in which one of
the two is the beginning of the other, and every tree whose entries can be put into such
an order has an image. Two directories with different files in them do not.
-/

open MachineInt
open Forest (Seg)

namespace TalOS

/-! ## The order of entries -/

def DirEntries.append : DirEntries → DirEntries → DirEntries
  | .nil, es => es
  | .file name contents rest, es => .file name contents (rest.append es)
  | .dir name below rest, es => .dir name below (rest.append es)

/-- The same entries in any order, also in every directory below. -/
inductive DirEntries.Same : DirEntries → DirEntries → Prop where
  | nil : Same .nil .nil
  | file {name contents : List UInt8} {rest : DirEntries} (pre post : DirEntries)
      (hrest : Same rest (pre.append post)) :
      Same (.file name contents rest) (pre.append (.file name contents post))
  | dir {name : List UInt8} {below below' rest : DirEntries} (pre post : DirEntries)
      (hbelow : Same below below') (hrest : Same rest (pre.append post)) :
      Same (.dir name below rest) (pre.append (.dir name below' post))

/-- How many of the directories in a directory are not empty. -/
def DirEntries.branches : DirEntries → Nat
  | .nil => 0
  | .file _ _ rest => rest.branches
  | .dir _ below rest => (if below = .nil then 0 else 1) + rest.branches

/-- Every directory below holds at most one directory that is not empty. -/
def DirEntries.NarrowBelow : DirEntries → Prop
  | .nil => True
  | .file _ _ rest => rest.NarrowBelow
  | .dir _ below rest => (below.branches ≤ 1 ∧ below.NarrowBelow) ∧ rest.NarrowBelow

/-- Every directory of the tree holds at most one directory that is not empty. -/
def DirEntries.Narrow (es : DirEntries) : Prop := es.branches ≤ 1 ∧ es.NarrowBelow

variable {es es' tail below rest : DirEntries} {name contents : List UInt8}

theorem append_nil (es : DirEntries) : es.append .nil = es := by
  induction es with
  | nil => rfl
  | file name contents rest ih => rw [DirEntries.append, ih]
  | dir name below rest _ ih => rw [DirEntries.append, ih]

theorem DirEntries.Same.refl (es : DirEntries) : es.Same es := by
  induction es with
  | nil => exact .nil
  | file name contents rest ih => exact .file .nil rest ih
  | dir name below rest ihbelow ihrest => exact .dir .nil rest ihbelow ihrest

theorem cost_append (es tail : DirEntries) : (es.append tail).cost = es.cost + tail.cost := by
  induction es with
  | nil => exact (Nat.zero_add _).symm
  | file name contents rest ih =>
    simp only [DirEntries.append, DirEntries.cost, ih]
    omega
  | dir name below rest _ ih =>
    simp only [DirEntries.append, DirEntries.cost, ih]
    omega

theorem legalNames_append : (es.append tail).LegalNames ↔ es.LegalNames ∧ tail.LegalNames := by
  induction es with
  | nil => exact (and_iff_right trivial).symm
  | file name contents rest ih =>
    simp only [DirEntries.append, DirEntries.LegalNames, ih, and_assoc]
  | dir name below rest _ ih =>
    simp only [DirEntries.append, DirEntries.LegalNames, ih, and_assoc]

theorem DirEntries.Same.cost (h : es.Same es') : es'.cost = es.cost := by
  induction h with
  | nil => rfl
  | file pre post _ ih =>
    rw [cost_append] at ih ⊢
    simp only [DirEntries.cost]
    omega
  | dir pre post _ _ ihbelow ihrest =>
    rw [cost_append] at ihrest ⊢
    simp only [DirEntries.cost]
    omega

theorem DirEntries.Same.legalNames (h : es.Same es') (hlegal : es.LegalNames) : es'.LegalNames := by
  induction h with
  | nil => trivial
  | file pre post _ ih =>
    have hrest := legalNames_append.mp (ih hlegal.2)
    exact legalNames_append.mpr ⟨hrest.1, hlegal.1, hrest.2⟩
  | dir pre post _ _ ihbelow ihrest =>
    have hrest := legalNames_append.mp (ihrest hlegal.2.2)
    exact legalNames_append.mpr ⟨hrest.1, hlegal.1, ihbelow hlegal.2.1, hrest.2⟩

/-- The entries can be put into an order, in every directory, in which they can be laid out. -/
def DirEntries.Packable (es : DirEntries) : Prop := ∃ es', es.Same es' ∧ es'.Packs

/-- Files and empty directories may stand in front of anything. -/
theorem packs_append (hes : es.branches = 0) (htail : tail.Packs) : (es.append tail).Packs := by
  induction es with
  | nil => exact htail
  | file name contents rest ih => exact ih hes
  | dir name below rest _ ih =>
    rw [DirEntries.branches] at hes
    by_cases hbelow : below = .nil
    · subst hbelow
      exact ⟨.inl rfl, trivial, ih (by omega)⟩
    · rw [if_neg hbelow] at hes
      omega

/-- The one directory with entries of its own goes last. -/
theorem DirEntries.Narrow.packable (h : es.Narrow) : es.Packable := by
  obtain ⟨hbranches, hnarrow⟩ := h
  induction es with
  | nil => exact ⟨.nil, .nil, trivial⟩
  | file name contents rest ih =>
    obtain ⟨rest', hsame, hpacks⟩ := ih hbranches hnarrow
    exact ⟨.file name contents rest', .file .nil rest' hsame, hpacks⟩
  | dir name below rest ihbelow ihrest =>
    rw [DirEntries.branches] at hbranches
    by_cases hempty : below = .nil
    · subst hempty
      obtain ⟨rest', hsame, hpacks⟩ := ihrest (by omega) hnarrow.2
      exact ⟨.dir name .nil rest', .dir .nil rest' .nil hsame, .inl rfl, trivial, hpacks⟩
    · rw [if_neg hempty] at hbranches
      obtain ⟨below', hsame, hpacks⟩ := ihbelow hnarrow.1.1 hnarrow.1.2
      have hrest : rest.Same (rest.append .nil) := by
        rw [append_nil]
        exact .refl rest
      exact ⟨rest.append (.dir name below' .nil), .dir rest .nil hsame hrest,
        packs_append (by omega) ⟨.inr rfl, hpacks, trivial⟩⟩

/-! ## Trees with an image -/

/-- Behind its two links, the directory `D` holds these entries in some order, and every directory
among them what is in it. -/
def HoldsTree (s : Ramfs) (D : Nat) (es : DirEntries) : Prop :=
  ∃ held lo hi, 0 < lo ∧ es.Same held ∧
    EntriesAt s lo hi D held (s.nextPtr (s.nextPtr (s.node D).children))

/-- `D` is an empty directory of the tree, found under `path`. -/
structure EmptyDir (s : Ramfs) (T : Forest Nat) (path : List UInt8) (D : Nat) : Prop where
  tree : FileTree s T
  found : fsGetNode s 0 path = some D
  pos : D ≠ 0
  type : (s.node D).type = .directory
  links : (T.childrenOf D).length = 2

variable {s s' : Ramfs} {T : Forest Nat} {path : List UInt8} {D : Nat}

theorem EmptyDir.seg (h : EmptyDir s T path D) : ∃ a up, Seg s.nextPtr 0 (s.node D).children [a, up] ∧
    a < s.heap.currentPointer ∧ up < s.heap.currentPointer ∧ D < s.heap.currentPointer := by
  have hmem := (h.tree.fsGetNode_some h.found h.pos).2.2.2
  obtain ⟨a, up, hlist⟩ := List.length_eq_two.mp h.links
  have hbelow (x : Nat) (hx : x ∈ T.childrenOf D) := h.tree.below x (Forest.childrenOf_subset T hx)
  refine ⟨a, up, hlist ▸ h.tree.seg hmem, hbelow a ?_, hbelow up ?_, h.tree.below D hmem⟩
  · rw [hlist]
    exact List.mem_cons_self
  · rw [hlist]
    exact List.mem_cons_of_mem _ List.mem_cons_self

/-- The entries that were loaded stand behind the directory's links. -/
theorem Loaded.entriesAt {a up : Nat} (h : Loaded s s' up D es)
    (hseg : Seg s.nextPtr 0 (s.node D).children [a, up]) (ha : a < s.heap.currentPointer)
    (hup : up < s.heap.currentPointer) (hD : D < s.heap.currentPointer) :
    EntriesAt s' s.heap.currentPointer s'.heap.currentPointer D es
      (s'.nextPtr (s'.nextPtr (s'.node D).children)) := by
  obtain ⟨hfirst, hpos, hsecond, -, hend⟩ := hseg
  have hane : a ≠ up := by
    rintro rfl
    exact hpos (hsecond.symm.trans hend)
  have hchildren : (s'.node D).children = a := by
    by_cases hne : D = up
    · rw [hne, h.tail, ← hne]
      exact hfirst
    · rw [h.keeps.node D hD hne]
      exact hfirst
  have hnext : s'.nextPtr a = up := by
    rw [Ramfs.nextPtr, h.keeps.node a ha hane]
    exact hsecond
  rw [hchildren, hnext]
  exact h.entries

/-- Every tree that packs has an image: wherever it stands, loading it into an empty directory with room
for the tree builds the tree, and of what was there before at most a `next` pointer changes. -/
theorem exists_image (hlegal : es.LegalNames) (hpackable : es.Packable) :
    ∃ image : List UInt8, ∀ initrdPtr s T path D, EmptyDir s T path D → s.Fits es.cost →
      ∃ fuel₀, ∀ fuel ≥ fuel₀,
        AllocationsSucceed (imageMem image initrdPtr) fuel initrdPtr path s ∧ ∃ s',
          ramfsLoadInitrd (imageMem image initrdPtr) fuel initrdPtr path s = .ok (s', VFS_T_OK) ∧
          HoldsTree s' D es ∧
          ∀ x < s.heap.currentPointer, s'.node x = { s.node x with next := s'.nextPtr x } := by
  obtain ⟨es', hsame, hpacks⟩ := hpackable
  have hlegal' := hsame.legalNames hlegal
  refine ⟨es'.image, fun initrdPtr s T path D hempty hfits => ?_⟩
  rw [← hsame.cost] at hfits
  -- A heap with room for the tree is larger than its image.
  have hlen : es'.image.length < 2 ^ 32 := by
    have hcost := length_slots_le_cost es'
    have hhigh := hempty.tree.heap.high
    have habove := hempty.tree.heap.above
    unfold Ramfs.Fits Kheap.limit at hfits
    rw [length_image hlegal', DirEntries.dataStart]
    unfold SIZEOF_INITRD_HEADER SIZEOF_INITRD_FILE_HEADER at *
    omega
  obtain ⟨a, up, hseg, ha, hup, hD⟩ := hempty.seg
  obtain ⟨fuel₀, hload⟩ := (image_holds hpacks hlegal' initrdPtr hlen).load hempty.tree.heap
    hempty.found hempty.pos hempty.type hseg hup hfits
  refine ⟨fuel₀, fun fuel hfuel => ?_⟩
  obtain ⟨s', hrun, hloaded, halloc⟩ := hload fuel hfuel
  have hpos : 0 < s.heap.currentPointer := Nat.pos_of_ne_zero hempty.tree.heap.pointer_ne
  refine ⟨halloc, s', hrun, ⟨es', _, _, hpos, hsame, hloaded.entriesAt hseg ha hup hD⟩, fun x hx => ?_⟩
  exact hloaded.node_old hx

/-! ## What a load has built -/

variable {image : Access.Mem} {base h i prev t up : Nat}

theorem loadBind_eq_ok {α β : Type} {x : Except LoadStop α} {f : α → Except LoadStop β} {b : β} :
    (x >>= f) = .ok b ↔ ∃ a, x = .ok a ∧ f a = .ok b := by
  cases x with
  | error e => exact iff_of_false nofun (fun ⟨_, h, _⟩ => nomatch h)
  | ok a => exact ⟨fun h => ⟨a, rfl, h⟩, fun ⟨_, h, hf⟩ => Except.ok.inj h ▸ hf⟩

theorem defined_eq_ok {α : Type} {x : Option α} {a : α} : defined x = .ok a ↔ x = some a := by
  cases x with
  | none => exact iff_of_false nofun nofun
  | some b => exact ⟨fun h => congrArg some (Except.ok.inj h), fun h => congrArg _ (Option.some.inj h)⟩

theorem readBytes_length {a n : Nat} {data : List UInt8} (hread : readBytes image a n = .ok data) :
    data.length = n := by
  unfold readBytes Access.loadBytes at hread
  split at hread
  · obtain rfl := Except.ok.inj hread
    rw [List.length_map, List.length_range]
  · cases hread

/-- A file that was made has a name and data in the image, and there was room for it. -/
theorem loadInitrdRegFile_room (hok : s.heap.Ok) {s₁ : Ramfs} {curr : Nat}
    (hrun : loadInitrdRegFile image base h s = .ok (s₁, curr)) (hne : curr ≠ 0) :
    ∃ name contents, FileRead image base h name contents ∧
      s.Fits (SIZEOF_NODE + roundUp contents.length) := by
  have hnode : (ramfsAllocNode s).1 ≠ 0 := by
    intro hzero
    rw [loadInitrdRegFile] at hrun
    dsimp only at hrun
    rw [if_pos hzero] at hrun
    exact hne (Prod.mk.inj (Except.ok.inj hrun)).2.symm
  obtain ⟨s₂, halloc, hfresh, hkeeps⟩ :=
    ramfsAllocNode_fits (t := 0) hok (ramfsAllocNode_room hok hnode)
  rw [loadInitrdRegFile, halloc] at hrun
  dsimp only at hrun
  rw [if_neg hfresh.pos] at hrun
  obtain ⟨length, hlength, hrun⟩ := loadBind_eq_ok.mp hrun
  obtain ⟨name, hname, hrun⟩ := loadBind_eq_ok.mp hrun
  rw [hfresh.fillLoaded, defined_some_bind] at hrun
  generalize hfilled : s₂.takeIno.setNode s.heap.currentPointer
    (loadedNode name s.lastIno .regular length) = s₃ at hrun
  have hkeeps₃ : LoadKeeps 0 s s₃ := hfilled ▸ hkeeps.takeIno.setNode _ (.inr (Nat.le_refl _))
  have hpointer₃ : s₃.heap.currentPointer = s.heap.currentPointer + SIZEOF_NODE := by
    rw [← hfilled, setNode_heap, takeIno_heap, hfresh.pointer]
  have hinside : (kmalloc s₃.heap length).1 ≠ 0 → _ := room_of_inside hkeeps₃.heap
  have hblock : (kmalloc s₃.heap length).1 ≠ 0 → _ := kmalloc_ne_zero
  generalize kmalloc s₃.heap length = r at hrun hinside hblock
  rw [update_eq hfresh.pos, defined_some_bind] at hrun
  split at hrun
  · exact absurd (Prod.mk.inj (Except.ok.inj hrun)).2.symm hne
  · next hpos =>
    obtain ⟨start, hstart, hrun⟩ := loadBind_eq_ok.mp hrun
    obtain ⟨contents, hdata, hrun⟩ := loadBind_eq_ok.mp hrun
    obtain ⟨s₄, hcopy, -⟩ := loadBind_eq_ok.mp hrun
    obtain rfl := readBytes_length hdata
    rw [defined_eq_ok, copyData] at hcopy
    split at hcopy
    · cases hcopy
    · next hfit =>
      obtain ⟨hstartBlock, hlimit⟩ := hblock hpos
      rw [setNode_heap, hlimit, hstartBlock] at hfit
      have hroom := hinside hpos (Nat.not_lt.mp hfit)
      refine ⟨name, contents, ⟨hname, hlength, start, hstart, hdata⟩, ?_⟩
      have hend : s₃.heap.currentPointer + roundUp contents.length ≤ s₃.heap.limit := hroom.1
      rw [hpointer₃, hkeeps₃.limit] at hend
      rw [Ramfs.Fits, ← Nat.add_assoc]
      exact hend

theorem loadInitrdDirFile_room (hok : s.heap.Ok) {s₁ : Ramfs} {curr : Nat}
    (hrun : loadInitrdDirFile image h s = .ok (s₁, curr)) (hne : curr ≠ 0) :
    ∃ name, readName image MAX_FNAME h = .ok name ∧ s.Fits SIZEOF_NODE := by
  rw [loadInitrdDirFile] at hrun
  split at hrun
  · exact absurd (Prod.mk.inj (Except.ok.inj hrun)).2.symm hne
  · next hnode =>
    obtain ⟨name, hname, -⟩ := loadBind_eq_ok.mp hrun
    exact ⟨name, hname, ramfsAllocNode_room hok hnode⟩

/-- Links that were made had room. -/
theorem loadDots_room {d P u : Nat} {s₁ : Ramfs} (hok : s.heap.Ok) (hd : d ≠ 0)
    (hchildren : (s.node d).children = 0) (hrun : loadDots s P d = some (s₁, some u)) :
    s.Fits (2 * SIZEOF_NODE) := by
  rw [loadDots, Ramfs.deref, if_neg hd, Option.bind_some, if_pos hchildren] at hrun
  rcases allocDots_cases hok d P with ⟨hzero, -⟩ | ⟨hne, -, s₄, hdot, hrest⟩
  · rw [if_pos hzero] at hrun
    simp at hrun
  · rw [if_neg hne, hdot, Option.bind_some] at hrun
    rcases hrest with ⟨hzero, -⟩ | ⟨-, hfits, -⟩
    · rw [if_pos hzero] at hrun
      simp at hrun
    · exact hfits

/-- A file that was made is as it is when there is room. -/
theorem loadInitrdRegFile_made (hok : s.heap.Ok) {s₁ : Ramfs} {curr : Nat}
    (hrun : loadInitrdRegFile image base h s = .ok (s₁, curr)) (hne : curr ≠ 0) :
    ∃ name contents, curr = s.heap.currentPointer ∧ FileRead image base h name contents ∧
      s.Fits (SIZEOF_NODE + roundUp contents.length) ∧ LoadKeeps s.heap.currentPointer s s₁ ∧
      FileMade s s₁ name contents := by
  obtain ⟨name, contents, hread, hfits⟩ := loadInitrdRegFile_room hok hrun hne
  obtain ⟨s₁', hrun', hkeeps, hmade⟩ :=
    loadInitrdRegFile_fits (t := s.heap.currentPointer) hok hread hfits
  obtain ⟨rfl, hcurr⟩ := Prod.mk.inj (Except.ok.inj (hrun.symm.trans hrun'))
  exact ⟨name, contents, hcurr, hread, hfits, hkeeps, hmade⟩

/-- A directory that was made with its links is as it is when there is room. -/
theorem loadDir_made (hok : s.heap.Ok) {s₁ s₂ : Ramfs} {curr u : Nat}
    (hmake : loadInitrdDirFile image h s = .ok (s₁, curr)) (hne : curr ≠ 0)
    (hdots : loadDots s₁ D curr = some (s₂, some u)) :
    ∃ name c, curr = s.heap.currentPointer ∧ readName image MAX_FNAME h = .ok name ∧
      s.Fits (SIZEOF_NODE + 2 * SIZEOF_NODE) ∧ DirLinked s s₁ s₂ name D c u := by
  obtain ⟨name, hname, hfits⟩ := loadInitrdDirFile_room hok hmake hne
  obtain ⟨s₁', hmake₁, hkeeps, hmade⟩ :=
    loadInitrdDirFile_fits (t := s.heap.currentPointer) hok hname hfits
  obtain ⟨rfl, rfl⟩ := Prod.mk.inj (Except.ok.inj (hmake.symm.trans hmake₁))
  have hchildren : (s₁.node s.heap.currentPointer).children = 0 := by
    obtain ⟨ino, hdir⟩ := hmade.node
    rw [hdir]
    rfl
  have hfitsDots := loadDots_room hkeeps.heap hne hchildren hdots
  have hfitsDir : s.Fits (SIZEOF_NODE + 2 * SIZEOF_NODE) := by
    rw [Ramfs.Fits, hmade.pointer, hkeeps.limit] at hfitsDots
    rw [Ramfs.Fits, ← Nat.add_assoc]
    exact hfitsDots
  obtain ⟨s₁', s₂', c, u', hmake', hdots', hdir⟩ := loadDir_fits D hok hname hfitsDir
  obtain ⟨rfl, -⟩ := Prod.mk.inj (Except.ok.inj (hmake.symm.trans hmake'))
  obtain ⟨rfl, hup⟩ := Prod.mk.inj (Option.some.inj (hdots.symm.trans hdots'))
  obtain rfl := Option.some.inj hup
  exact ⟨name, c, rfl, hname, hfitsDir, hdir⟩

/-- A turn of the loop that ends well: at the end, with a file, with a directory, or with a slot that is
passed over. -/
inductive LoadTurnOk (image : Access.Mem) (base fuel D up h i prev : Nat) (s s' : Ramfs) : Prop where
  | done {count : Nat} (hcount : headerDirNfiles image h = .ok count) (hend : count ≤ i) (hs : s' = s)
  | file {count curr : Nat} {s₁ s₂ : Ramfs} (hcount : headerDirNfiles image h = .ok count)
      (hlt : i < count) (htype : headerType image (childHeader h i) = .ok INITRD_FTYPE_REGULAR)
      (hmake : loadInitrdRegFile image base (childHeader h i) s = .ok (s₁, curr))
      (hlink : linkLoaded s₁ up prev curr = some s₂)
      (hrest : loadChildren image base fuel D up h (i + 1) curr s₂ = .ok (s', VFS_T_OK))
  | dir {count curr : Nat} {s₁ s₂ s₃ : Ramfs} (hcount : headerDirNfiles image h = .ok count)
      (hlt : i < count) (htype : headerType image (childHeader h i) = .ok INITRD_FTYPE_DIR)
      (hmake : loadInitrdDirFile image (childHeader h i) s = .ok (s₁, curr))
      (hload : loadInitrdFiles image base fuel D curr (childHeader h i) s₁ = .ok (s₂, VFS_T_OK))
      (hlink : linkLoaded s₂ up prev curr = some s₃)
      (hrest : loadChildren image base fuel D up h (i + 1) curr s₃ = .ok (s', VFS_T_OK))
  | skip {count type : Nat} (hcount : headerDirNfiles image h = .ok count) (hlt : i < count)
      (htype : headerType image (childHeader h i) = .ok type)
      (hother : type ≠ INITRD_FTYPE_REGULAR ∧ type ≠ INITRD_FTYPE_DIR)
      (hrest : loadChildren image base fuel D up h (i + 1) prev s = .ok (s', VFS_T_OK))

theorem loadChildren_ok {fuel : Nat}
    (hrun : loadChildren image base (fuel + 1) D up h i prev s = .ok (s', VFS_T_OK)) :
    LoadTurnOk image base fuel D up h i prev s s' := by
  rw [loadChildren] at hrun
  obtain ⟨count, hcount, hrun⟩ := loadBind_eq_ok.mp hrun
  split at hrun
  case isFalse hend =>
    exact .done hcount (Nat.le_of_not_lt hend) (Prod.mk.inj (Except.ok.inj hrun)).1.symm
  case isTrue hlt =>
  obtain ⟨type, htype, hrun⟩ := loadBind_eq_ok.mp hrun
  split at hrun
  case isTrue hregular =>
    subst hregular
    obtain ⟨⟨s₁, curr⟩, hmake, hrun⟩ := loadBind_eq_ok.mp hrun
    obtain ⟨s₂, hlink, hrest⟩ := loadBind_eq_ok.mp hrun
    exact .file hcount hlt htype hmake (defined_eq_ok.mp hlink) hrest
  case isFalse hregular =>
  split at hrun
  case isTrue hdir =>
    subst hdir
    obtain ⟨⟨s₁, curr⟩, hmake, hrun⟩ := loadBind_eq_ok.mp hrun
    obtain ⟨⟨s₂, status⟩, hload, hrun⟩ := loadBind_eq_ok.mp hrun
    dsimp only at hload hrun
    split at hrun
    · exact absurd (show VFS_T_NOK = VFS_T_OK from (Prod.mk.inj (Except.ok.inj hrun)).2) (by decide)
    · next hstatus =>
      obtain rfl := not_not.mp hstatus
      obtain ⟨s₃, hlink, hrest⟩ := loadBind_eq_ok.mp hrun
      exact .dir hcount hlt htype hmake hload (defined_eq_ok.mp hlink) hrest
  case isFalse hdir => exact .skip hcount hlt htype ⟨hregular, hdir⟩ hrun

theorem loadInitrdFiles_ok {fuel parent : Nat}
    (hrun : loadInitrdFiles image base fuel parent D h s = .ok (s', VFS_T_OK)) :
    ∃ n s₁ u, fuel = n + 1 ∧ loadDots s parent D = some (s₁, some u) ∧
      loadChildren image base n D u h 0 0 s₁ = .ok (s', VFS_T_OK) := by
  cases fuel with
  | zero =>
    rw [loadInitrdFiles] at hrun
    cases hrun
  | succ fuel =>
    rw [loadInitrdFiles] at hrun
    obtain ⟨⟨s₁, up⟩, hdots, hrun⟩ := loadBind_eq_ok.mp hrun
    cases up with
    | none => exact absurd (show VFS_T_NOK = VFS_T_OK from (Prod.mk.inj (Except.ok.inj hrun)).2) (by decide)
    | some u => exact ⟨fuel, s₁, u, rfl, defined_eq_ok.mp hdots, hrun⟩

theorem FilesAllocate.children {fuel parent u : Nat} {s₁ : Ramfs}
    (halloc : FilesAllocate image base (fuel + 1) parent D h s)
    (hdots : loadDots s parent D = some (s₁, some u)) :
    ChildrenAllocate image base fuel D u h 0 0 s₁ := by
  rw [FilesAllocate] at halloc
  obtain ⟨u', hu, hbelow⟩ := halloc _ _ hdots
  obtain rfl := Option.some.inj hu
  exact hbelow

/-- What a loop that ends well has loaded, if every allocation in it succeeds, are the entries of a
row. -/
theorem loadChildren_row {fuel : Nat} {s s' : Ramfs} {D up h i prev t : Nat}
    (htail : LoadTail s up prev t) (hok : s.heap.Ok)
    (hrun : loadChildren image base fuel D up h i prev s = .ok (s', VFS_T_OK))
    (halloc : ChildrenAllocate image base fuel D up h i prev s)
    (hi : ∀ count, headerDirNfiles image h = .ok count → i ≤ count) :
    ∃ n es, headerDirNfiles image h = .ok (i + n) ∧ Row image base h i n es ∧ s.Fits es.cost ∧
      Loaded s s' t D es := by
  -- A directory's entries are loaded with two less fuel than the directory.
  induction fuel using Nat.strong_induction_on generalizing s s' D up h i prev t with
  | _ fuel ih =>
  cases fuel with
  | zero =>
    rw [loadChildren] at hrun
    cases hrun
  | succ fuel =>
  rw [ChildrenAllocate] at halloc
  -- Behind a slot that is there, the loop goes on within the directory.
  have hnext {count : Nat} (hcount : headerDirNfiles image h = .ok count) (hlt : i < count) (count' : Nat)
      (hcount' : headerDirNfiles image h = .ok count') : i + 1 ≤ count' :=
    Except.ok.inj (hcount.symm.trans hcount') ▸ hlt
  have hshift (n : Nat) : i + 1 + n = i + (n + 1) := by omega
  cases loadChildren_ok hrun with
  | done hcount hend hs =>
    subst hs
    obtain rfl := Nat.le_antisymm hend (hi _ hcount)
    exact ⟨0, .nil, hcount, .nil h _, hok.below, .nil hok htail.last⟩
  | file hcount hlt htype hmake hlink hrest =>
    replace halloc := halloc _ hcount hlt _ htype
    rw [if_pos rfl] at halloc
    obtain ⟨hcurr, halloc⟩ := halloc _ _ hmake
    obtain ⟨name, contents, rfl, hread, hfits, hkeeps, hmade⟩ := loadInitrdRegFile_made hok hmake hcurr
    obtain ⟨hlink', htail'⟩ := (hmade.nodeMade hkeeps).append hok htail
    obtain rfl := Option.some.inj (hlink'.symm.trans hlink)
    obtain ⟨n, es, hcount', hrow, hfitsRest, hloaded⟩ :=
      ih fuel (Nat.lt_succ_self fuel) htail' hkeeps.heap hrest (halloc _ hlink') (hnext hcount hlt)
    refine ⟨n + 1, .file name contents es, hshift n ▸ hcount', .file htype hread hrow, ?_,
      .file hkeeps hmade htail.below hloaded⟩
    rw [Ramfs.Fits, linkBehind_heap, hkeeps.limit, hmade.pointer] at hfitsRest
    rw [Ramfs.Fits, DirEntries.cost]
    omega
  | dir hcount hlt htype hmake hload hlink hrest =>
    replace halloc := halloc _ hcount hlt _ htype
    rw [if_neg (by decide), if_pos rfl] at halloc
    obtain ⟨hcurr, hallocFiles, halloc⟩ := halloc _ _ hmake
    obtain ⟨fuel, s₁, u, rfl, hdots, hloadBelow⟩ := loadInitrdFiles_ok hload
    obtain ⟨name, c, rfl, hname, hfits, hdir⟩ := loadDir_made hok hmake hcurr hdots
    obtain ⟨m, below, hcountBelow, hrowBelow, hfitsBelow, hbelow⟩ := ih fuel (by omega) hdir.tail
      hdir.keepsLinks.heap hloadBelow (hallocFiles.children hdots) fun _ _ => Nat.zero_le _
    rw [Nat.zero_add] at hcountBelow
    have hmade := hdir.nodeMade hbelow
    obtain ⟨hlink', htail'⟩ := hmade.append hok htail
    obtain rfl := Option.some.inj (hlink'.symm.trans hlink)
    obtain ⟨n, es, hcount', hrow, hfitsRest, hloaded⟩ := ih (fuel + 1) (Nat.lt_succ_self _) htail'
      hmade.keeps.heap hrest (halloc _ _ hload hlink') (hnext hcount hlt)
    refine ⟨n + 1, .dir name below es, hshift n ▸ hcount', .dir htype hname hcountBelow hrowBelow hrow, ?_,
      hdir.loaded hbelow htail.below hloaded⟩
    obtain ⟨hc, hu, hpointer⟩ := hdir.pointers
    rw [Ramfs.Fits, linkBehind_heap, hmade.keeps.limit, hbelow.pointer] at hfitsRest
    rw [Ramfs.Fits, DirEntries.cost]
    omega
  | skip hcount hlt htype hother hrest =>
    replace halloc := halloc _ hcount hlt _ htype
    rw [if_neg hother.1, if_neg hother.2] at halloc
    obtain ⟨n, es, hcount', hrow, hfits, hloaded⟩ :=
      ih fuel (Nat.lt_succ_self fuel) htail hok hrest halloc (hnext hcount hlt)
    exact ⟨n + 1, es, hshift n ▸ hcount', .skip htype hother hrow, hfits, hloaded⟩

/-! ## What is in the slots -/

theorem FileRead.unique {name' contents' : List UInt8} (h₁ : FileRead image base h name contents)
    (h₂ : FileRead image base h name' contents') : name = name' ∧ contents = contents' := by
  obtain rfl := Except.ok.inj (h₁.name.symm.trans h₂.name)
  have hlength := Except.ok.inj (h₁.length.symm.trans h₂.length)
  obtain ⟨start, hstart, hdata⟩ := h₁.data
  obtain ⟨start', hstart', hdata'⟩ := h₂.data
  obtain rfl := Except.ok.inj (hstart.symm.trans hstart')
  rw [← hlength] at hdata'
  exact ⟨rfl, Except.ok.inj (hdata.symm.trans hdata')⟩

/-- A row, by the type of its first slot. -/
theorem Row.at_file {n : Nat} (hrow : Row image base h i (n + 1) es)
    (htype : headerType image (childHeader h i) = .ok INITRD_FTYPE_REGULAR) :
    ∃ name contents rest, es = .file name contents rest ∧ FileRead image base (childHeader h i) name contents ∧
      Row image base h (i + 1) n rest := by
  cases hrow with
  | file _ hfile hrest => exact ⟨_, _, _, rfl, hfile, hrest⟩
  | dir htype' => exact absurd (Except.ok.inj (htype.symm.trans htype')) (by decide)
  | skip htype' hother => exact absurd (Except.ok.inj (htype'.symm.trans htype)) hother.1

theorem Row.at_dir {n : Nat} (hrow : Row image base h i (n + 1) es)
    (htype : headerType image (childHeader h i) = .ok INITRD_FTYPE_DIR) :
    ∃ name m below rest, es = .dir name below rest ∧ readName image MAX_FNAME (childHeader h i) = .ok name ∧
      headerDirNfiles image (childHeader h i) = .ok m ∧ Row image base (childHeader h i) 0 m below ∧
      Row image base h (i + 1) n rest := by
  cases hrow with
  | file htype' => exact absurd (Except.ok.inj (htype'.symm.trans htype)) (by decide)
  | dir _ hname hcount hbelow hrest => exact ⟨_, _, _, _, rfl, hname, hcount, hbelow, hrest⟩
  | skip htype' hother => exact absurd (Except.ok.inj (htype'.symm.trans htype)) hother.2

theorem Row.at_other {n type : Nat} (hrow : Row image base h i (n + 1) es)
    (htype : headerType image (childHeader h i) = .ok type)
    (hother : type ≠ INITRD_FTYPE_REGULAR ∧ type ≠ INITRD_FTYPE_DIR) : Row image base h (i + 1) n es := by
  cases hrow with
  | file htype' => exact absurd (Except.ok.inj (htype.symm.trans htype')) hother.1
  | dir htype' => exact absurd (Except.ok.inj (htype.symm.trans htype')) hother.2
  | skip _ _ hrest => exact hrest

/-- Slots hold the entries of one tree only. -/
theorem Row.unique {n : Nat} (hrow : Row image base h i n es) (hrow' : Row image base h i n es') :
    es = es' := by
  induction hrow generalizing es' with
  | nil => cases hrow' with
    | nil => rfl
  | file htype hfile _ ih =>
    obtain ⟨name', contents', rest', rfl, hfile', hrest'⟩ := hrow'.at_file htype
    obtain ⟨rfl, rfl⟩ := hfile.unique hfile'
    rw [ih hrest']
  | dir htype hname hcount _ _ ihbelow ihrest =>
    obtain ⟨name', m', below', rest', rfl, hname', hcount', hbelow', hrest'⟩ := hrow'.at_dir htype
    obtain rfl := Except.ok.inj (hname.symm.trans hname')
    obtain rfl := Except.ok.inj (hcount.symm.trans hcount')
    rw [ihbelow hbelow', ihrest hrest']
  | skip htype hother _ ih => exact ih (hrow'.at_other htype hother)

theorem sameSlots_succ {k i' : Nat} (hsame : ∀ j, childHeader k (i + j) = childHeader h (i' + j)) (j : Nat) :
    childHeader k (i + 1 + j) = childHeader h (i' + 1 + j) := by
  rw [Nat.add_assoc, Nat.add_assoc]
  exact hsame (1 + j)

/-- Of two rows in the same slots one is the beginning of the other. -/
theorem Row.begins {k i' m n : Nat} (hrow : Row image base k i m es) (hrow' : Row image base h i' n es')
    (hsame : ∀ j, childHeader k (i + j) = childHeader h (i' + j)) : es.begins es' ∨ es'.begins es := by
  induction hrow generalizing i' n es' with
  | nil => exact .inl rfl
  | @file k i m name contents rest htype hfile _ ih =>
    have hslot : childHeader k i = childHeader h i' := hsame 0
    rw [hslot] at htype hfile
    cases n with
    | zero =>
      cases hrow'
      exact .inr rfl
    | succ n =>
      obtain ⟨name', contents', rest', rfl, hfile', hrest'⟩ := hrow'.at_file htype
      obtain ⟨rfl, rfl⟩ := hfile.unique hfile'
      rw [begins_file, begins_file]
      exact ih hrest' (sameSlots_succ hsame)
  | @dir k i m m' name below rest htype hname hcount hbelow _ _ ih =>
    have hslot : childHeader k i = childHeader h i' := hsame 0
    rw [hslot] at htype hname hcount hbelow
    cases n with
    | zero =>
      cases hrow'
      exact .inr rfl
    | succ n =>
      obtain ⟨name', m'', below', rest', rfl, hname', hcount', hbelow', hrest'⟩ := hrow'.at_dir htype
      obtain rfl := Except.ok.inj (hname.symm.trans hname')
      obtain rfl := Except.ok.inj (hcount.symm.trans hcount')
      obtain rfl := hbelow.unique hbelow'
      rw [begins_dir, begins_dir]
      exact ih hrest' (sameSlots_succ hsame)
  | @skip k i m type es htype hother hrest ih =>
    have hslot : childHeader k i = childHeader h i' := hsame 0
    rw [hslot] at htype
    cases n with
    | zero =>
      cases hrow'
      exact .inr rfl
    | succ n => exact ih (hrow'.at_other htype hother) (sameSlots_succ hsame)

theorem childHeader_childHeader (h i j : Nat) :
    childHeader (childHeader h i) (0 + j) = childHeader h (i + 1 + j) := by
  unfold childHeader SIZEOF_INITRD_FILE_HEADER u32
  omega

/-- The entries of a row can be laid out: they are. -/
theorem Row.packs {n : Nat} (hrow : Row image base h i n es) : es.Packs := by
  induction hrow with
  | nil => trivial
  | file _ _ _ ih => exact ih
  | @dir h i n m name below rest _ _ _ hbelow hrest ihbelow ihrest =>
    exact ⟨hbelow.begins hrest (childHeader_childHeader h i), ihbelow, ihrest⟩
  | skip _ _ _ ih => exact ih

/-- A list of nodes holds the entries of one tree only. -/
theorem EntriesAt.unique {lo hi lo' hi' D' p : Nat} (hlo : 0 < lo) (hlo' : 0 < lo')
    (h : EntriesAt s lo hi D es p) (h' : EntriesAt s lo' hi' D' es' p) : es = es' := by
  induction es generalizing es' D D' p with
  | nil =>
    obtain rfl : p = 0 := h
    cases es' with
    | nil => rfl
    | file | dir => exact absurd h'.1.1 (Nat.not_le.mpr hlo')
  | file name contents rest ih =>
    obtain ⟨hp, ⟨ino, filePtr, hnode, -, -, hread⟩, hrest⟩ := h
    cases es' with
    | nil =>
      obtain rfl : p = 0 := h'
      exact absurd hp.1 (Nat.not_le.mpr hlo)
    | file name' contents' rest' =>
      obtain ⟨-, ⟨ino', filePtr', hnode', -, -, hread'⟩, hrest'⟩ := h'
      rw [hnode'] at hnode
      obtain rfl : name' = name := congrArg RamfsFileHeader.name hnode
      have hlength : contents'.length = contents.length := congrArg RamfsFileHeader.length hnode
      have hptr : filePtr' = filePtr := congrArg RamfsFileHeader.filePtr hnode
      rw [hptr, hlength, hread] at hread'
      rw [hread', ih hrest hrest']
    | dir =>
      obtain ⟨-, ⟨ino', c, u, hnode', -⟩, -⟩ := h'
      rw [hnode'] at hnode
      cases congrArg RamfsFileHeader.type hnode
  | dir name below rest ihbelow ihrest =>
    obtain ⟨hp, ⟨ino, c, u, hnode, -, -, ⟨dotIno, hdot⟩, -, hbelow⟩, hrest⟩ := h
    cases es' with
    | nil =>
      obtain rfl : p = 0 := h'
      exact absurd hp.1 (Nat.not_le.mpr hlo)
    | file =>
      obtain ⟨-, ⟨ino', filePtr', hnode', -⟩, -⟩ := h'
      rw [hnode'] at hnode
      cases congrArg RamfsFileHeader.type hnode
    | dir name' below' rest' =>
      obtain ⟨-, ⟨ino', c', u', hnode', -, -, ⟨dotIno', hdot'⟩, -, hbelow'⟩, hrest'⟩ := h'
      rw [hnode'] at hnode
      obtain rfl : name' = name := congrArg RamfsFileHeader.name hnode
      obtain rfl : c' = c := congrArg RamfsFileHeader.children hnode
      rw [hdot'] at hdot
      obtain rfl : u' = u := congrArg RamfsFileHeader.next hdot
      rw [ihbelow hbelow hbelow', ihrest hrest hrest']

/-- A tree that a load has built packs. -/
theorem HoldsTree.packable {fuel initrdPtr : Nat} (hempty : EmptyDir s T path D)
    (halloc : AllocationsSucceed image fuel initrdPtr path s)
    (hrun : ramfsLoadInitrd image fuel initrdPtr path s = .ok (s', VFS_T_OK)) (hholds : HoldsTree s' D es) :
    es.Packable := by
  obtain ⟨held, lo, hi, hlo, hsame, hheld⟩ := hholds
  obtain ⟨a, up, hseg, ha, hup, hD⟩ := hempty.seg
  have hpos : 0 < s.heap.currentPointer := Nat.pos_of_ne_zero hempty.tree.heap.pointer_ne
  have hmagic : readWord image initrdPtr = .ok INITRD_MAGIC := by
    rw [ramfsLoadInitrd] at hrun
    obtain ⟨magic, hmagic, hrun⟩ := loadBind_eq_ok.mp hrun
    split at hrun
    · exact absurd (show VFS_T_NOK = VFS_T_OK from (Prod.mk.inj (Except.ok.inj hrun)).2) (by decide)
    · next hok => rw [hmagic, not_not.mp hok]
  rw [ramfsLoadInitrd_list hmagic hempty.found hempty.pos hempty.type hseg] at hrun
  obtain ⟨fuel, s₁, u, rfl, hdots, hrun⟩ := loadInitrdFiles_ok hrun
  obtain ⟨rfl, hu⟩ := Prod.mk.inj (Option.some.inj ((loadDots_list hempty.pos hseg _).symm.trans hdots))
  obtain rfl := Option.some.inj hu
  have halloc := (halloc D hempty.found).children (loadDots_list hempty.pos hseg _)
  have htail : LoadTail s up 0 up := ⟨hup, hup, hseg.2.2.2.1, hseg.2.2.2.2, .inl rfl⟩
  obtain ⟨n, es', -, hrow, -, hloaded⟩ :=
    loadChildren_row htail hempty.tree.heap hrun halloc fun _ _ => Nat.zero_le _
  obtain rfl := (hloaded.entriesAt hseg ha hup hD).unique hpos hlo hheld
  exact ⟨es', hsame, hrow.packs⟩

/-- The root directory after `ramfs_init`. -/
theorem ramfsInit_empty : ∃ s, ∃ T : Forest Nat,
    ramfsRun bootRamfs [] = some s ∧ EmptyDir s T [SLASH] ROOT ∧ s.Fits 4096 := by
  obtain ⟨s, T, hs, htree, hget, hlength, hfits⟩ := ramfsInit_links
  exact ⟨s, T, hs, ⟨htree, hget, by decide, htree.rootDir, hlength⟩, hfits⟩

/-- There is an image from which a tree is built in an empty directory with room for it, all allocations
succeeding, if and only if the tree packs. -/
theorem ramfsLoadInitrd_builds_iff (hlegal : es.LegalNames) (hempty : EmptyDir s T path D)
    (hfits : s.Fits es.cost) :
    (∃ image initrdPtr fuel s', AllocationsSucceed image fuel initrdPtr path s ∧
      ramfsLoadInitrd image fuel initrdPtr path s = .ok (s', VFS_T_OK) ∧ HoldsTree s' D es) ↔
        es.Packable := by
  constructor
  · rintro ⟨image, initrdPtr, fuel, s', halloc, hrun, hholds⟩
    exact hholds.packable hempty halloc hrun
  · intro hpackable
    obtain ⟨image, hload⟩ := exists_image hlegal hpackable
    obtain ⟨fuel₀, hload⟩ := hload 0 s T path D hempty hfits
    obtain ⟨halloc, s', hrun, hholds, -⟩ := hload fuel₀ (Nat.le_refl _)
    exact ⟨_, _, _, s', halloc, hrun, hholds⟩

/-- The files `/a/b/y` and `/b/y`: what is in `a` is also what comes after it. -/
def sharedDir : DirEntries :=
  .dir [0x61] (.dir [0x62] (.file [0x79] [0x2a] .nil) .nil) (.dir [0x62] (.file [0x79] [0x2a] .nil) .nil)

theorem ramfsLoadInitrd_builds_sharedDir :
    ∃ s, ∃ T : Forest Nat, ramfsRun bootRamfs [] = some s ∧ EmptyDir s T [SLASH] ROOT ∧
      ∃ image initrdPtr fuel s', AllocationsSucceed image fuel initrdPtr [SLASH] s ∧
        ramfsLoadInitrd image fuel initrdPtr [SLASH] s = .ok (s', VFS_T_OK) ∧
          HoldsTree s' ROOT sharedDir := by
  obtain ⟨s, T, hs, hempty, hfits⟩ := ramfsInit_empty
  have hlegal : sharedDir.LegalNames := by simp [sharedDir, DirEntries.LegalNames, MAX_FNAME]
  have hpacks : sharedDir.Packs := ⟨.inl rfl, ⟨.inr rfl, trivial, trivial⟩, .inr rfl, trivial, trivial⟩
  exact ⟨s, T, hs, hempty, (ramfsLoadInitrd_builds_iff hlegal hempty
    (Nat.le_trans (Nat.add_le_add_left (by decide) _) hfits)).mpr ⟨_, .refl _, hpacks⟩⟩

theorem append_eq_nil (h : es.append tail = .nil) : es = .nil ∧ tail = .nil := by
  cases es with
  | nil => exact ⟨rfl, h⟩
  | file | dir => cases h

theorem same_nil (h : DirEntries.nil.Same es) : es = .nil := by
  generalize hes : DirEntries.nil = es' at h
  cases h with
  | nil => rfl
  | file | dir => cases hes

/-- There is one order only for one file. -/
theorem same_file (h : (DirEntries.file name contents .nil).Same es) : es = .file name contents .nil := by
  cases h with
  | file pre post hrest =>
    obtain ⟨rfl, rfl⟩ := append_eq_nil (same_nil hrest)
    rfl

theorem same_dir (h : (DirEntries.dir name below .nil).Same es) :
    ∃ below', below.Same below' ∧ es = .dir name below' .nil := by
  cases h with
  | dir pre post hbelow hrest =>
    obtain ⟨rfl, rfl⟩ := append_eq_nil (same_nil hrest)
    exact ⟨_, hbelow, rfl⟩

/-- Two directories with a file in each: `/a/x` and `/b/y`. -/
def twoDirs : DirEntries :=
  .dir [0x61] (.file [0x78] [0x2a] .nil) (.dir [0x62] (.file [0x79] [0x2a] .nil) .nil)

/-- Either directory of `twoDirs` may come first. -/
theorem twoDirs_same (h : twoDirs.Same es) :
    es = twoDirs ∨
      es = .dir [0x62] (.file [0x79] [0x2a] .nil) (.dir [0x61] (.file [0x78] [0x2a] .nil) .nil) := by
  cases h with
  | dir pre post hbelow hrest =>
    obtain rfl := same_file hbelow
    obtain ⟨below, hbelow', hes⟩ := same_dir hrest
    obtain rfl := same_file hbelow'
    cases pre with
    | nil =>
      obtain rfl : post = _ := hes
      exact .inl rfl
    | file => cases hes
    | dir name below rest =>
      obtain ⟨rfl, rfl, hnil⟩ := DirEntries.dir.inj hes
      obtain ⟨rfl, rfl⟩ := append_eq_nil hnil
      exact .inr rfl

/-- No image carries `twoDirs`: whatever it is and wherever it stands, no load of it into an empty
directory in which every allocation succeeds returns `VFS_T_OK` and builds that tree. There are empty
directories with room for it. -/
theorem twoDirs_no_image :
    twoDirs.LegalNames ∧
      (∃ s, ∃ T : Forest Nat,
        ramfsRun bootRamfs [] = some s ∧ EmptyDir s T [SLASH] ROOT ∧ s.Fits twoDirs.cost) ∧
      ¬ ∃ image initrdPtr fuel s T path D s', EmptyDir s T path D ∧
        AllocationsSucceed image fuel initrdPtr path s ∧
        ramfsLoadInitrd image fuel initrdPtr path s = .ok (s', VFS_T_OK) ∧ HoldsTree s' D twoDirs := by
  refine ⟨by simp [twoDirs, DirEntries.LegalNames, MAX_FNAME], ?_, ?_⟩
  · obtain ⟨s, T, hs, hempty, hfits⟩ := ramfsInit_empty
    exact ⟨s, T, hs, hempty, Nat.le_trans (Nat.add_le_add_left (by decide) _) hfits⟩
  · rintro ⟨image, initrdPtr, fuel, s, T, path, D, s', hempty, halloc, hrun, hholds⟩
    obtain ⟨es, hsame, hpacks⟩ := hholds.packable hempty halloc hrun
    rcases twoDirs_same hsame with rfl | rfl
    · exact absurd hpacks.1 (by decide)
    · exact absurd hpacks.1 (by decide)

end TalOS
