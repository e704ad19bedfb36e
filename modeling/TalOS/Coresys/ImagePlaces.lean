-- SUMMARY: What the nodes that a load makes are in the hierarchy: the tree of the image, planted in its directory.
import TalOS.Coresys.FileRefinement
import TalOS.Coresys.ImageBuilding

/-!
# Images in the hierarchy

Each node that a load makes and links in is one more place: a directory as `ramfs_mkDir`
would make it, or a file as `ramfs_newRegFile` would, with its contents filled in. So the
places a load adds are those of the tree that the image holds.
-/

open MachineInt

namespace TalOS

open Hierarchy

variable {s s₁ s₂ s' S : Ramfs} {T T' k : Forest Nat} {D a t c u : Nat} {name contents : List UInt8}
  {p : List (List UInt8)} {es : DirEntries} {e : Entry (List UInt8)} {pre : List Nat}

/-- The entries of an image, as names and contents. -/
def DirEntries.entries : DirEntries → Listing (List UInt8) (List UInt8)
  | .nil => .nil
  | .file name contents rest => .file name contents rest.entries
  | .dir name below rest => .directory name below.entries rest.entries

/-- A name that a path can hold, with room for its NUL. -/
def LegalName (name : List UInt8) : Prop := PlainName name ∧ SLASH ∉ name ∧ name.length < MAX_FNAME

instance : DecidablePred LegalName := fun _ => inferInstanceAs (Decidable (_ ∧ _ ∧ _))

/-- Every name of the tree is legal. -/
def DirEntries.Legal : DirEntries → Prop
  | .nil => True
  | .file name _ rest => LegalName name ∧ rest.Legal
  | .dir name below rest => LegalName name ∧ below.Legal ∧ rest.Legal

theorem DirEntries.Legal.legalNames (h : es.Legal) : es.LegalNames := by
  induction es with
  | nil => trivial
  | file name contents rest ih => exact ⟨⟨h.1.2.2, h.1.1.1⟩, ih h.2⟩
  | dir name below rest ihbelow ihrest => exact ⟨⟨h.1.2.2, h.1.1.1⟩, ihbelow h.2.1, ihrest h.2.2⟩

theorem LegalName.cut (hname : LegalName name) : (strncpy name MAX_FNAME).bytes = name :=
  List.take_of_length_le (Nat.le_of_lt hname.2.2)

theorem LegalName.fileName (hname : LegalName name) : FileName name where
  length := Nat.le_of_lt hname.2.2
  nul := hname.1.1
  slash := hname.2.1
  dot := hname.1.2.1
  dotdot := hname.1.2.2

/-! ## One more place -/

/-- Nodes have been added: in the list of `D`, and in directories that are new. -/
structure Grows (s s' : Ramfs) (T T' : Forest Nat) (D : Nat) : Prop where
  nodes : ∀ x ∈ T.nodes, x ∈ T'.nodes
  lists : ∀ E ∈ T.nodes, E ≠ D → T'.childrenOf E = T.childrenOf E
  walk : ∀ q, PlainPath q → walk s T q ROOT ≠ 0 → walk s' T' q ROOT = walk s T q ROOT

theorem Grows.refl : Grows s s T T D := ⟨fun _ hx => hx, fun _ _ _ => rfl, fun _ _ _ => rfl⟩

/-- What is added next may go into a directory that is new. -/
theorem Grows.trans {E : Nat} {T₁ : Forest Nat} (h : Grows s s₁ T T₁ D) (h' : Grows s₁ s' T₁ T' E)
    (hE : E = D ∨ E ∉ T.nodes) : Grows s s' T T' D where
  nodes := fun x hx => h'.nodes x (h.nodes x hx)
  lists := fun F hF hne => by
    have hneE : F ≠ E := by
      rcases hE with rfl | hnew
      · exact hne
      · exact fun heq => hnew (heq ▸ hF)
    rw [h'.lists F (h.nodes F hF) hneE, h.lists F hF hne]
  walk := fun q hq hwalk => by
    have hmid := h.walk q hq hwalk
    rw [h'.walk q hq (hmid ▸ hwalk), hmid]

/-- The node `a` with the entry `e` is the new last child of the directory `D` at the place `p`. -/
structure Makes (s s' : Ramfs) (T T' : Forest Nat) (p : List (List UInt8)) (D a : Nat) (name : List UInt8)
    (e : Entry (List UInt8)) : Prop where
  tidy : TidyTree s' T'
  buffers : BuffersOk s' T'
  files : filesOf s' T' = Function.update (filesOf s T) (p ++ [name]) (some e)
  list : T'.childrenOf D = T.childrenOf D ++ [a]
  mem : a ∈ T'.nodes
  new : a ∉ T.nodes
  place : walk s' T' (p ++ [name]) ROOT = a
  grows : Grows s s' T T' D

theorem Created.makes (hc : Created T D a k name s s') (ht : TidyTree s T) (hb : BuffersOk s T)
    (hmem : StoresBehind s s') (hp : PlainPath p) (hwalk : TalOS.walk s T p ROOT = D) (hname : LegalName name)
    (hfree : TalOS.filesOf s T (p ++ [name]) = none) (he : entryOf s' a = some e) :
    Makes s s' T (Forest.addChild D a k T) p D a name e := by
  obtain ⟨hplain, -, hshort⟩ := hname
  have hdir := hc.parent_directory ht.tree
  have hplace : PlaceOf s T p D := ⟨hp, hc.parent, hwalk.trans (resolve_dir hdir).symm⟩
  have hpath := plainPath_concat.mpr ⟨hp, hplain⟩
  have hnone : TalOS.walk s T (p ++ [name]) ROOT = 0 := by
    by_contra hsome
    have hentry := ht.tree.filesOf_isSome.mpr ⟨hpath, hsome⟩
    rw [hfree] at hentry
    cases hentry
  have hfind : TalOS.findIn s T D name = 0 := by
    rwa [walk_append _ _ (ht.tree.ne_zero ht.tree.root_mem), hwalk, if_neg (ht.tree.ne_zero hc.parent),
      walk_singleton] at hnone
  have hafter {q : List (List UInt8)} (hq : PlainPath q) := hc.walk_plain ht hplace hplain hshort hfind hq
  refine ⟨hc.tidy ht hplain.1 hshort hfind, hb.attach ht.tree hc.toAttached,
    (hc.filesOf ht hb hmem hplace hplain hshort hfind he).1, ?_, ?_, hc.new ht.tree List.mem_cons_self, ?_,
    fun x hx => (hc.mem_nodes ht.tree).mpr (.inl hx), fun E hE hne => ?_, fun q hq hsome => ?_⟩
  · rw [hc.childrenOf ht.tree hc.parent, if_pos rfl]
  · exact (hc.mem_nodes ht.tree).mpr (.inr List.mem_cons_self)
  · rw [hafter hpath, if_pos rfl]
  · rw [hc.childrenOf ht.tree hE, if_neg hne]
  · have hother : q ≠ p ++ [name] := by
      rintro rfl
      exact hsome hnone
    rw [hafter hq, if_neg hother]

/-! ## Inode numbers -/

def Ramfs.withIno (s : Ramfs) (ino : Nat) : Ramfs := { s with lastIno := ino }

theorem withIno_keeps (hok : s.heap.Ok) (ino : Nat) : KeepsTree T s (s.withIno ino) :=
  ⟨rfl, fun _ _ => rfl, hok, Nat.le_refl _⟩

/-- Which inode number a node gets shows nowhere in the hierarchy. -/
theorem Created.makes_withIno {ino : Nat} (hc : Created T D a k name (s.withIno ino) s') (ht : TidyTree s T)
    (hb : BuffersOk s T) (hmem : StoresBehind (s.withIno ino) s') (hp : PlainPath p)
    (hwalk : TalOS.walk s T p ROOT = D) (hname : LegalName name)
    (hfree : TalOS.filesOf s T (p ++ [name]) = none) (he : entryOf s' a = some e) :
    Makes s s' T (Forest.addChild D a k T) p D a name e := by
  have hsame := withIno_keeps (T := T) ht.tree.heap ino
  have hfiles : TalOS.filesOf (s.withIno ino) T = TalOS.filesOf s T :=
    hsame.alike.filesOf_eq ht.tree fun _ _ => rfl
  have hwalks (q : List (List UInt8)) : TalOS.walk (s.withIno ino) T q ROOT = TalOS.walk s T q ROOT :=
    hsame.alike.walk ht.tree ht.tree.root_mem
  have hm := hc.makes (hsame.alike.tidy ht) (hb.keep hsame) hmem hp ((hwalks p).trans hwalk) hname
    (hfiles ▸ hfree) he
  refine ⟨hm.tidy, hm.buffers, ?_, hm.list, hm.mem, hm.new, hm.place, hm.grows.nodes, hm.grows.lists,
    fun q hq hsome => ?_⟩
  · rw [hm.files, hfiles]
  · rw [hm.grows.walk q hq ((hwalks q).symm ▸ hsome), hwalks]

/-! ## Linking in what was made -/

theorem Sprout.created (hsprout : Sprout s s₁ D a k) (ht : FileTree s T) (hD : D ∈ T.nodes)
    (hlist : T.childrenOf D = pre ++ [t]) (hname : (s₁.node a).name = name.take MAX_FNAME)
    (hino : (s₁.node a).ino = s.lastIno)
    (hdots : (s₁.node a).type = .directory → ∃ dot dotdot, k.roots = [dot, dotdot] ∧
      (s₁.node dot).name = DOT_NAME ∧ (s₁.node dotdot).name = DOTDOT_NAME) :
    Created T D a k name s (s₁.linkBehind t a) := by
  have happend : appendChild s₁ D a = some (s₁.linkBehind t a) :=
    (ht.keep (hsprout.keeps ht.below)).appendChild_of_concat hD hlist a
  have hnode {x : Nat} (hx : x ∈ (Forest.cons a k .nil).nodes) :
      (s₁.linkBehind t a).node x = s₁.node x :=
    hsprout.node_new ht hD happend (hsprout.fresh x hx).1
  have hself := hnode List.mem_cons_self
  refine ⟨hsprout.attached ht hD happend, hself ▸ hname, hself ▸ hino, fun htype => ?_⟩
  obtain ⟨dot, dotdot, hroots, hdot, hdotdot⟩ := hdots (hself ▸ htype)
  have hin {x : Nat} (hx : x ∈ k.roots) : x ∈ (Forest.cons a k .nil).nodes :=
    List.mem_cons_of_mem _ (List.mem_append_left _ (Forest.roots_subset_nodes k hx))
  refine ⟨dot, dotdot, hroots, ?_, ?_⟩
  · rw [hnode (hin (hroots ▸ List.mem_cons_self))]
    exact hdot
  · rw [hnode (hin (hroots ▸ List.mem_cons_of_mem _ List.mem_cons_self))]
    exact hdotdot

theorem LoadKeeps.stores (hk : LoadKeeps t s s₁) (ino : Nat) (hheap : S.heap = s₁.heap) :
    StoresBehind (s.withIno ino) S :=
  StoresBehind.of_heap (s := s.withIno ino) ⟨hk.heap, hk.grow, hk.mem⟩ hheap

theorem last_mem (hlist : T.childrenOf D = pre ++ [t]) : t ∈ T.nodes := by
  refine Forest.childrenOf_subset T (x := D) ?_
  rw [hlist]
  exact List.mem_append_right _ List.mem_cons_self

/-- A directory with its links, linked in behind the last child of `D`. -/
theorem DirLinked.makes (hdir : DirLinked s s₁ s₂ name D c u) (ht : TidyTree s T) (hb : BuffersOk s T)
    (hp : PlainPath p) (hwalk : walk s T p ROOT = D) (hD : D ∈ T.nodes) (hlist : T.childrenOf D = pre ++ [t])
    (hname : LegalName name) (hfree : filesOf s T (p ++ [name]) = none) :
    ∃ T', Makes s (s₂.linkBehind t s.heap.currentPointer) T T' p D s.heap.currentPointer name .directory ∧
      T'.childrenOf s.heap.currentPointer = [c] ++ [u] := by
  have hsize : SIZEOF_NODE = 200 := rfl
  obtain ⟨hc, hu, hpointer⟩ := hdir.pointers
  obtain ⟨ino, hself⟩ := hdir.made.node
  have hkeeps : LoadKeeps s.heap.currentPointer s s₂ := hdir.keepsMade.trans hdir.keepsLinks (.inl rfl)
  have hnode : s₂.node s.heap.currentPointer = newNode name ino .directory c := by
    rw [hdir.links.dir, hself, newNode, hname.cut]
    rfl
  have hnewDir : NewDir (s.withIno ino) s₂ D s.heap.currentPointer name := by
    refine ⟨rfl, ht.tree.heap.pointer_ne, hkeeps.root, hkeeps.heap, by omega, ?_, ?_, ?_, fun q hq => ?_⟩
    · rw [hnode, hc]
      rfl
    · rw [← hc, Nat.two_mul, ← Nat.add_assoc, ← hc, ← hu]
      exact hdir.links.dot
    · rw [Nat.two_mul, ← Nat.add_assoc, ← hc, ← hu]
      exact hdir.links.dotdot
    · exact hkeeps.node q hq (Nat.ne_of_lt hq)
  have htree : FileTree (s.withIno ino) T := ht.tree.keep (withIno_keeps ht.tree.heap ino)
  have hsprout := hnewDir.sprout (hname.cut.symm ▸ hname.fileName)
  rw [Nat.two_mul, ← Nat.add_assoc, ← hc, ← hu] at hsprout
  have hcreated : Created T D s.heap.currentPointer (linkPair c u) name (s.withIno ino)
      (s₂.linkBehind t s.heap.currentPointer) :=
    hsprout.created htree hD hlist (by rw [hnode]; rfl) (by rw [hnode]; rfl) fun _ => by
      obtain ⟨_, hdot⟩ := hdir.links.dot
      obtain ⟨_, hdotdot⟩ := hdir.links.dotdot
      exact ⟨c, u, rfl, by rw [hdot]; rfl, by rw [hdotdot]; rfl⟩
  have hentry : entryOf (s₂.linkBehind t s.heap.currentPointer) s.heap.currentPointer = some .directory := by
    refine entryOf_directory.mpr ⟨ht.tree.heap.pointer_ne, ?_⟩
    rw [linkBehind_ne (Nat.ne_of_gt (ht.tree.below t (last_mem hlist))), hnode]
    rfl
  refine ⟨_, hcreated.makes_withIno ht hb (hkeeps.stores ino rfl) hp hwalk hname hfree hentry, ?_⟩
  rw [hcreated.childrenOf_new htree (hcreated.new htree List.mem_cons_self), childrenOf_linkPair_self]
  rfl

/-- A node without children, before it is linked in. -/
theorem Sprout.leaf {ino : Nat} (haddr : a = s.heap.currentPointer) (hpos : a ≠ 0) (hroot : s₁.root = s.root)
    (hheap : s₁.heap.Ok) (hbelow : a < s₁.heap.currentPointer)
    (hnode : s₁.node a = newNode name ino .regular 0) (hlegal : FileName (s₁.node a).name)
    (hother : ∀ q < s.heap.currentPointer, s₁.node q = s.node q) (D : Nat) : Sprout s s₁ D a .nil where
  root := hroot
  heap := hheap
  fresh := fun x hx => by
    rw [List.mem_singleton.mp hx]
    exact ⟨Nat.le_of_eq haddr.symm, hbelow⟩
  once := List.nodup_singleton a
  spans := by
    rw [Forest.Spans, Ramfs.childPtr, Ramfs.nextPtr, hnode]
    exact ⟨rfl, hpos, rfl, rfl⟩
  kind := fun x hx => by
    rw [List.mem_singleton.mp hx, hnode]
    exact newNode_ok _ _ (.inr rfl) fun _ => rfl
  type := by
    rw [hnode]
    exact FType.noConfusion
  legal := hlegal
  links := fun E x hx => by
    rw [Forest.childrenOf_cons] at hx
    split at hx <;> cases hx
  empty := fun x hx => by
    rw [List.mem_singleton.mp hx, hnode]
    rfl
  other := hother

/-- A file gets contents in a block that lies behind the contents of all others. -/
theorem BuffersOk.fill (hb : BuffersOk S T) (hheap : s'.heap = S.heap) (hother : ∀ x ≠ a, s'.node x = S.node x)
    (hself : ∀ i < (s'.node a).length,
      0 < (s'.node a).filePtr ∧ (s'.node a).filePtr + i < s'.heap.currentPointer)
    (hold : ∀ x ∈ T.nodes, x ≠ a → ∀ i < (S.node x).length, (S.node x).filePtr + i < (s'.node a).filePtr) :
    BuffersOk s' T := by
  have hbefore {x i j : Nat} (hx : x ∈ T.nodes) (hxa : x ≠ a) (hi : i < (s'.node x).length) :
      (s'.node x).filePtr + i ≠ (s'.node a).filePtr + j := by
    rw [hother x hxa] at hi ⊢
    have hlt := hold x hx hxa i hi
    omega
  refine ⟨fun x hx i hi => ?_, fun x hx y hy i hi j hj heq => ?_⟩
  · by_cases hxa : x = a
    · subst hxa
      exact hself i hi
    · rw [hother x hxa] at hi ⊢
      rw [hheap]
      exact hb.below x hx i hi
  · by_cases hxa : x = a <;> by_cases hya : y = a
    · rw [hxa, hya]
    · subst hxa
      exact absurd heq.symm (hbefore hy hya hj)
    · subst hya
      exact absurd heq (hbefore hx hxa hi)
    · rw [hother x hxa] at hi heq
      rw [hother y hya] at hj heq
      exact hb.disjoint x hx y hy i hi j hj heq

theorem entryOf_file {x : Nat} (h : entryOf s x = some (.file contents)) : (s.node x).type = .regular := by
  unfold entryOf at h
  split at h
  · cases h
  · split at h
    · cases h
    · next hregular => exact hregular
    · cases h

/-- The contents of a file that is new, in a block behind all others. -/
theorem Makes.fill (hm : Makes s S T T' p D a name (.file [])) (hp : PlainPath (p ++ [name])) {filePtr : Nat}
    (hroot : s'.root = S.root) (hheap : s'.heap = S.heap) (hother : ∀ x ≠ a, s'.node x = S.node x)
    (hself : s'.node a = { S.node a with length := contents.length, filePtr := filePtr })
    (hpos : 0 < s.heap.currentPointer) (hlow : s.heap.currentPointer ≤ filePtr)
    (hhigh : filePtr + contents.length ≤ s'.heap.currentPointer)
    (hread : Memory.readAt s'.heap.mem filePtr contents.length = contents)
    (hold : ∀ x ∈ T'.nodes, x ≠ a → ∀ i < (S.node x).length, (S.node x).filePtr + i < s.heap.currentPointer) :
    Makes s s' T T' p D a name (.file contents) := by
  have hmade := hm.tidy
  have hane := hmade.tree.ne_zero hm.mem
  have halike : Alike T' S s' := by
    refine ⟨hroot, fun x hx => ?_, hheap ▸ hmade.tree.heap, Nat.le_of_eq (by rw [hheap])⟩
    by_cases hx : x = a
    · subst hx
      exact ⟨_, _, hself⟩
    · exact ⟨_, _, hother x hx⟩
  have hwalk (q : List (List UInt8)) : walk s' T' q ROOT = walk S T' q ROOT :=
    halike.walk hmade.tree hmade.tree.root_mem
  have hptr : (s'.node a).length = contents.length ∧ (s'.node a).filePtr = filePtr := by
    rw [hself]
    exact ⟨rfl, rfl⟩
  have hbuffers : BuffersOk s' T' := by
    refine hm.buffers.fill hheap hother (fun i hi => ?_) fun x hx hxa i hi => ?_
    · rw [hptr.1] at hi
      rw [hptr.2]
      omega
    · rw [hptr.2]
      exact Nat.lt_of_lt_of_le (hold x hx hxa i hi) hlow
  have htype : (S.node a).type = .regular := by
    have hentry : entryOf S a = some (.file []) := by
      rw [← hm.place, ← filesOf_plain hp, hm.files, Function.update_self]
    exact entryOf_file hentry
  refine ⟨halike.tidy hmade, hbuffers, ?_, hm.list, hm.mem, hm.new, (hwalk _).trans hm.place, hm.grows.nodes,
    hm.grows.lists, fun q hq hsome => (hwalk q).trans (hm.grows.walk q hq hsome)⟩
  have hfilled : Function.update (filesOf s T) (p ++ [name]) (some (.file contents)) =
      Function.update (filesOf S T') (p ++ [name]) (some (.file contents)) := by
    rw [hm.files, Function.update_idem]
  rw [hfilled]
  refine filesOf_eq_update hp ?_ fun q hq hne => ?_
  · rw [hwalk, hm.place, entryOf, if_neg hane, hself, htype]
    dsimp only
    rw [hread]
  · have hxa : walk S T' q ROOT ≠ a := fun heq =>
      hne (hmade.walk_inj hq hp (heq ▸ hane) (heq.trans hm.place.symm))
    have hnode := hother _ hxa
    rw [hwalk]
    exact entryOf_congr (by rw [hnode]) (by rw [hnode]) (by rw [hnode]) fun i _ => by rw [hheap]

/-- A file with its contents, linked in behind the last child of `D`. -/
theorem FileMade.makes (hmade : FileMade s s₁ name contents) (hkeeps : LoadKeeps s.heap.currentPointer s s₁)
    (ht : TidyTree s T) (hb : BuffersOk s T) (hp : PlainPath p) (hwalk : walk s T p ROOT = D) (hD : D ∈ T.nodes)
    (hlist : T.childrenOf D = pre ++ [t]) (hname : LegalName name) (hfree : filesOf s T (p ++ [name]) = none) :
    ∃ T', Makes s (s₁.linkBehind t s.heap.currentPointer) T T' p D s.heap.currentPointer name (.file contents) := by
  have hbelow := (hmade.nodeMade hkeeps).below
  have hpos := ht.tree.heap.pointer_ne
  have ht' := ht.tree.below t (last_mem hlist)
  obtain ⟨ino, filePtr, hself, hlow, hhigh, hread⟩ := hmade.node
  -- First the node without contents.
  generalize hblank : s₁.setNode s.heap.currentPointer (newNode name ino .regular 0) = s₀
  have hnode : s₀.node s.heap.currentPointer = newNode name ino .regular 0 := by rw [← hblank, setNode_self]
  have hother {x : Nat} (hx : x ≠ s.heap.currentPointer) : s₀.node x = s₁.node x := by rw [← hblank, setNode_ne _ hx]
  have hheap : s₀.heap = s₁.heap := by rw [← hblank, setNode_heap]
  have hlegal : FileName (s₀.node s.heap.currentPointer).name := by
    rw [hnode]
    change FileName (strncpy name MAX_FNAME).bytes
    rw [hname.cut]
    exact hname.fileName
  have hsprout : Sprout (s.withIno ino) s₀ D s.heap.currentPointer .nil := by
    refine Sprout.leaf (s := s.withIno ino) rfl hpos ?_ (hheap ▸ hkeeps.heap) (by rw [hheap]; exact hbelow)
      hnode hlegal (fun q hq => ?_) D
    · rw [← hblank]
      exact hkeeps.root
    · rw [hother (Nat.ne_of_lt hq)]
      exact hkeeps.node q hq (Nat.ne_of_lt hq)
  have htree : FileTree (s.withIno ino) T := ht.tree.keep (withIno_keeps ht.tree.heap ino)
  have hcreated : Created T D s.heap.currentPointer .nil name (s.withIno ino)
      (s₀.linkBehind t s.heap.currentPointer) :=
    hsprout.created htree hD hlist (by rw [hnode]; rfl) (by rw [hnode]; rfl) fun htype => by
      rw [hnode] at htype
      cases htype
  have hlinked : (s₀.linkBehind t s.heap.currentPointer).node s.heap.currentPointer = newNode name ino .regular 0 := by
    rw [linkBehind_ne (Nat.ne_of_gt ht'), hnode]
  have hentry : entryOf (s₀.linkBehind t s.heap.currentPointer) s.heap.currentPointer = some (.file []) := by
    rw [entryOf, if_neg hpos, hlinked]
    rfl
  have hmakes := hcreated.makes_withIno ht hb (hkeeps.stores ino hheap) hp hwalk hname hfree hentry
  -- Then its contents.
  refine ⟨_, hmakes.fill (plainPath_concat.mpr ⟨hp, hname.1⟩) ?_ ?_ (fun x hx => ?_) ?_
    (Nat.pos_of_ne_zero hpos) hlow hhigh hread fun x hx hxa i hi => ?_⟩
  · rw [← hblank]
    rfl
  · exact hheap.symm
  · by_cases hxt : x = t
    · subst hxt
      rw [linkBehind_self, linkBehind_self, hother hx]
    · rw [linkBehind_ne hxt, linkBehind_ne hxt, hother hx]
  · rw [linkBehind_ne (Nat.ne_of_gt ht'), hlinked, hself, newNode, hname.cut]
    rfl
  · have hold := ((hcreated.mem_nodes htree).mp hx).resolve_right fun hnew => hxa (List.mem_singleton.mp hnew)
    obtain ⟨next, hnext⟩ := hcreated.node hold
    rw [hnext] at hi ⊢
    exact (hb.below x hold i hi).2

/-! ## A whole tree -/

theorem prefix_siblings {word : List UInt8} (hne : word ≠ name) : ¬ p ++ [name] <+: p ++ [word] := by
  rw [List.prefix_append_right_inj, List.cons_prefix_cons]
  exact fun hboth => hne hboth.1.symm

/-- The entries that a derivation makes in the directory at `p` are planted there. -/
theorem LoadBuilds.planted (hbuilds : LoadBuilds s t D es s') (ht : TidyTree s T) (hb : BuffersOk s T)
    (hp : PlainPath p) (hwalk : walk s T p ROOT = D) (hD : D ∈ T.nodes) (hlist : T.childrenOf D = pre ++ [t])
    (hlegal : es.Legal) (hdistinct : es.entries.Distinct)
    (hfree : ∀ name ∈ es.entries.names, filesOf s T (p ++ [name]) = none) :
    ∃ T', TidyTree s' T' ∧ BuffersOk s' T' ∧ filesOf s' T' = plant (filesOf s T) p es.entries ∧
      Grows s s' T T' D := by
  induction es generalizing s s' T t D p pre with
  | nil =>
    cases hbuilds
    exact ⟨T, ht, hb, plant_nil.symm, .refl⟩
  | file name contents rest ih =>
    obtain ⟨hname, hlegal⟩ := hlegal
    obtain ⟨hnew, hdistinct⟩ := hdistinct
    cases hbuilds with
    | file hkeeps hmade hrest =>
      obtain ⟨T₁, hm⟩ := hmade.makes hkeeps ht hb hp hwalk hD hlist hname (hfree name List.mem_cons_self)
      have hplace := (hm.grows.walk p hp (hwalk ▸ ht.tree.ne_zero hD)).trans hwalk
      obtain ⟨T', ht', hb', hfiles, hgrows⟩ := ih hrest hm.tidy hm.buffers hp hplace (hm.grows.nodes D hD)
        hm.list hlegal hdistinct fun word hword => by
          have hne : p ++ [word] ≠ p ++ [name] := fun heq =>
            hnew ((List.append_singleton_inj.mp heq).2 ▸ hword)
          rw [hm.files, Function.update_of_ne hne]
          exact hfree word (List.mem_cons_of_mem _ hword)
      exact ⟨T', ht', hb', by rw [hfiles, hm.files, DirEntries.entries, plant_file hnew],
        hm.grows.trans hgrows (.inl rfl)⟩
  | dir name below rest ihbelow ihrest =>
    obtain ⟨hname, hlegalBelow, hlegal⟩ := hlegal
    obtain ⟨hnew, hdistinctBelow, hdistinct⟩ := hdistinct
    cases hbuilds with
    | @dir _ _ s₂ s₃ _ _ _ c u _ _ _ hdir hbelow hrest =>
      have hsize : SIZEOF_NODE = 200 := rfl
      obtain ⟨hc, hu, hpointer⟩ := hdir.pointers
      have htail := ht.tree.below t (last_mem hlist)
      obtain ⟨T₂, hm, hkids⟩ := hdir.makes ht hb hp hwalk hD hlist hname (hfree name List.mem_cons_self)
      have hother {word : List UInt8} (hword : word ∈ rest.entries.names) : word ≠ name := fun heq =>
        hnew (heq ▸ hword)
      -- The directory is filled as if it had been linked in before.
      have hloaded := hbelow.loaded hdir.keepsLinks.heap hdir.tail.below hdir.tail.last
      have hlinked := hbelow.linkBehind hloaded (a := s.heap.currentPointer) (x := t) (by omega) (by omega)
      obtain ⟨T₃, ht₃, hb₃, hfiles₃, hgrows₃⟩ := ihbelow hlinked hm.tidy hm.buffers
        (plainPath_concat.mpr ⟨hp, hname.1⟩) hm.place hm.mem hkids hlegalBelow hdistinctBelow fun word _ => by
          have hne : p ++ [name] ++ [word] ≠ p ++ [name] := fun heq =>
            List.cons_ne_nil word [] (List.append_cancel_left (heq.trans (List.append_nil _).symm))
          rw [hm.files, Function.update_of_ne hne, ← Option.not_isSome_iff_eq_none]
          intro hsome
          have hdirectory := ht.rooted.above _ _ hsome
          rw [hfree name List.mem_cons_self] at hdirectory
          cases hdirectory
      have hgrows := hm.grows.trans hgrows₃ (.inr hm.new)
      have hplace := (hgrows.walk p hp (hwalk ▸ ht.tree.ne_zero hD)).trans hwalk
      have hlist₃ := (hgrows₃.lists D (hm.grows.nodes D hD) fun heq => hm.new (heq ▸ hD)).trans hm.list
      obtain ⟨T', ht', hb', hfiles, hgrows'⟩ := ihrest hrest ht₃ hb₃ hp hplace (hgrows.nodes D hD) hlist₃ hlegal
        hdistinct fun word hword => by
          have hne : p ++ [word] ≠ p ++ [name] := fun heq =>
            hother hword (List.append_singleton_inj.mp heq).2
          rw [hfiles₃, plant_outside (prefix_siblings (hother hword)), hm.files, Function.update_of_ne hne]
          exact hfree word (List.mem_cons_of_mem _ hword)
      exact ⟨T', ht', hb', by rw [hfiles, hfiles₃, hm.files, DirEntries.entries, plant_directory hnew],
        hgrows.trans hgrows' (.inl rfl)⟩

end TalOS
