-- SUMMARY: What each call of ramfs does to the hierarchy of places: creations, writes and deletions.
import TalOS.Coresys.CreatedEntries
import TalOS.Coresys.FreshFiles
import TalOS.Coresys.PlainPaths

/-!
# Changes of the hierarchy

A creation adds one place, a write changes what one place holds, and a deletion takes out a
place with all below it. Nothing else that the hierarchy shows changes, since what a call
stores outside the nodes of the tree lies behind the blocks that were handed out before.
-/

open MachineInt

namespace TalOS

open Hierarchy

variable {s s₁ s' : Ramfs} {T k : Forest Nat} {x y a P D node offset : Nat} {name path buf : List UInt8}
  {p q : List (List UInt8)}

/-! ## Memory during a creation -/

/-- Nothing is stored below the allocator's pointer. -/
structure StoresBehind (s s' : Ramfs) : Prop where
  heap : s'.heap.Ok
  grow : s.heap.currentPointer ≤ s'.heap.currentPointer
  mem : ∀ a < s.heap.currentPointer, s'.heap.mem a = s.heap.mem a

theorem StoresBehind.refl (hok : s.heap.Ok) : StoresBehind s s := ⟨hok, Nat.le_refl _, fun _ _ => rfl⟩

theorem StoresBehind.trans (h : StoresBehind s s₁) (h' : StoresBehind s₁ s') : StoresBehind s s' where
  heap := h'.heap
  grow := Nat.le_trans h.grow h'.grow
  mem := fun a ha => (h'.mem a (Nat.lt_of_lt_of_le ha h.grow)).trans (h.mem a ha)

theorem StoresBehind.of_heap (h : StoresBehind s s₁) (hheap : s'.heap = s₁.heap) : StoresBehind s s' := by
  obtain ⟨hok, hgrow, hmem⟩ := h
  rw [← hheap] at hok hgrow hmem
  exact ⟨hok, hgrow, hmem⟩

theorem StoresBehind.kfree (h : StoresBehind s s') (ptr : Nat) : StoresBehind s (s'.kfree ptr) :=
  ⟨⟨h.heap.start, h.heap.above, h.heap.below, h.heap.high⟩, h.grow, h.mem⟩

theorem StoresBehind.allocNode (h : StoresBehind s s') : StoresBehind s (ramfsAllocNode s').2 := by
  refine h.trans ?_
  have hok := h.heap
  have hheap : (ramfsAllocNode s').2.heap = (kmalloc s'.heap SIZEOF_NODE).2 := by
    unfold ramfsAllocNode
    dsimp only
    split <;> rfl
  rw [kmalloc_of_ok hok (by decide) (by decide)] at hheap
  split at hheap
  · next hfits =>
    refine StoresBehind.of_heap (?_ : StoresBehind s' { s' with heap := _ }) hheap
    exact ⟨⟨hok.start, Nat.le_trans hok.above (Nat.le_add_right _ _), hfits, hok.high⟩,
      Nat.le_add_right _ _, fun a ha => Memory.writeAt_of_lt _ (Nat.lt_add_right _ ha)⟩
  · refine StoresBehind.of_heap (?_ : StoresBehind s' { s' with heap := _ }) hheap
    exact ⟨⟨hok.start, hok.above, hok.below, hok.high⟩, Nat.le_refl _,
      fun a ha => Memory.writeAt_of_lt _ (Nat.lt_add_right _ ha)⟩

theorem StoresBehind.update (h : StoresBehind s s₁) {f : RamfsFileHeader → RamfsFileHeader}
    (hrun : s₁.update y f = some s') : StoresBehind s s' := by
  rw [update_eq_some hrun]
  exact ⟨h.heap, h.grow, h.mem⟩

theorem StoresBehind.newIno (h : StoresBehind s s') : StoresBehind s (fsNewInoId s').2 :=
  ⟨h.heap, h.grow, h.mem⟩

theorem StoresBehind.link (h : StoresBehind s s₁) {inNode link : Nat}
    (hrun : fsGetSimlink s₁ name inNode link = some s') : StoresBehind s s' := by
  rw [fsGetSimlink] at hrun
  exact h.newIno.update hrun

theorem StoresBehind.fill (h : StoresBehind s s₁) {type : FType} {callbacks : Callbacks}
    (hrun : fillNode s₁ node name type callbacks = some s') : StoresBehind s s' := by
  rw [fillNode] at hrun
  exact h.newIno.update hrun

theorem StoresBehind.linkDots (h : StoresBehind s s₁) {dot dotdot : Nat}
    (hrun : linkDots s₁ D dot dotdot = some s') : StoresBehind s s' := by
  obtain ⟨n, -, hrun⟩ := Option.bind_eq_some_iff.mp hrun
  split at hrun
  · obtain ⟨s₂, hdir, hrun⟩ := Option.bind_eq_some_iff.mp hrun
    obtain ⟨s₃, hdot, hdotdot⟩ := Option.bind_eq_some_iff.mp hrun
    exact ((h.update hdir).update hdot).update hdotdot
  · obtain rfl := Option.some.inj hrun
    exact h

theorem ramfsNewRegFile_stores {r : Ramfs × Nat × RfsErr} (hok : s.heap.Ok)
    (hrun : ramfsNewRegFile s name path = some r) : StoresBehind s r.1 := by
  have hself := StoresBehind.refl hok
  obtain ⟨parent, -, hrun⟩ := Option.bind_eq_some_iff.mp hrun
  split at hrun
  · obtain rfl := Option.some.inj hrun
    exact hself
  · dsimp only at hrun
    split at hrun
    · obtain rfl := Option.some.inj hrun
      exact hself.allocNode
    · obtain ⟨s₂, hfill, hrun⟩ := Option.bind_eq_some_iff.mp hrun
      obtain ⟨s₃, happend, rfl⟩ := Option.map_eq_some_iff.mp hrun
      exact (hself.allocNode.fill hfill).of_heap (appendChild_node happend 0).1

theorem ramfsMkDir_stores {r : Ramfs × Nat × RfsErr} (hok : s.heap.Ok)
    (hrun : ramfsMkDir s name path = some r) : StoresBehind s r.1 := by
  have hself := StoresBehind.refl hok
  obtain ⟨parent, -, hrun⟩ := Option.bind_eq_some_iff.mp hrun
  split at hrun
  · obtain rfl := Option.some.inj hrun
    exact hself
  · dsimp only at hrun
    split at hrun
    · obtain rfl := Option.some.inj hrun
      exact hself.allocNode
    · obtain ⟨s₂, hfill, hrun⟩ := Option.bind_eq_some_iff.mp hrun
      have hdir := hself.allocNode.fill hfill
      split at hrun
      · obtain rfl := Option.some.inj hrun
        exact (hdir.allocNode.kfree _).kfree _
      · obtain ⟨s₃, hdot, hrun⟩ := Option.bind_eq_some_iff.mp hrun
        have hcurrent := hdir.allocNode.link hdot
        split at hrun
        · obtain rfl := Option.some.inj hrun
          exact hcurrent.allocNode.kfree _
        · obtain ⟨s₄, hdotdot, hrun⟩ := Option.bind_eq_some_iff.mp hrun
          obtain ⟨s₅, hlink, hrun⟩ := Option.bind_eq_some_iff.mp hrun
          obtain ⟨s₆, happend, rfl⟩ := Option.map_eq_some_iff.mp hrun
          exact ((hcurrent.allocNode.link hdotdot).linkDots hlink).of_heap (appendChild_node happend 0).1

/-! ## What nodes hold -/

/-- A node of the same type with the same bytes in its buffer holds the same. -/
theorem entryOf_congr (htype : (s'.node x).type = (s.node x).type) (hlen : (s'.node x).length = (s.node x).length)
    (hptr : (s'.node x).filePtr = (s.node x).filePtr)
    (hmem : ∀ i < (s.node x).length,
      s'.heap.mem ((s.node x).filePtr + i) = s.heap.mem ((s.node x).filePtr + i)) :
    entryOf s' x = entryOf s x := by
  unfold entryOf
  rw [htype, hlen, hptr, Memory.readAt_congr hmem]

/-- A change of one place. -/
theorem filesOf_eq_update {T' : Forest Nat} {e : Entry (List UInt8)} (hp : PlainPath p)
    (hself : entryOf s' (walk s' T' p ROOT) = some e)
    (hother : ∀ q, PlainPath q → q ≠ p →
      entryOf s' (walk s' T' q ROOT) = entryOf s (walk s T q ROOT)) :
    filesOf s' T' = Function.update (filesOf s T) p (some e) := by
  funext q
  by_cases hq : PlainPath q
  · rw [filesOf_plain hq]
    by_cases heq : q = p
    · rw [heq, Function.update_self, hself]
    · rw [Function.update_of_ne heq, filesOf_plain hq, hother q hq heq]
  · have hne : q ≠ p := fun heq => hq (heq ▸ hp)
    rw [Function.update_of_ne hne, filesOf, filesOf, if_neg hq, if_neg hq]

theorem filesOf_congr {T' : Forest Nat} (h : ∀ q, PlainPath q →
    entryOf s' (walk s' T' q ROOT) = entryOf s (walk s T q ROOT)) : filesOf s' T' = filesOf s T := by
  funext q
  unfold filesOf
  split
  · next hq => exact h q hq
  · rfl

/-! ## Creations -/

theorem Created.tidy (h : Created T P a k name s s') (ht : TidyTree s T) (hnul : 0 ∉ name)
    (hshort : name.length < MAX_FNAME) (hfind : TalOS.findIn s T P name = 0) :
    TidyTree s' (Forest.addChild P a k T) := by
  have hcut : name.take MAX_FNAME = name := List.take_of_length_le (Nat.le_of_lt hshort)
  have hdiffer : ∀ y ∈ T.childrenOf P, (s.node y).name ≠ name.take MAX_FNAME := by
    intro y hy
    rw [hcut]
    exact ht.tree.name_ne hnul hshort hfind hy
  refine ⟨h.toAttached.fileTree ht.tree, h.dotsFirst ht.tree ht.dots,
    h.namesDistinct ht.tree ht.names hdiffer, fun D x hx => ?_⟩
  rcases h.mem_childrenOf ht.tree hx with hold | ⟨-, rfl⟩ | ⟨-, hnew⟩
  · obtain ⟨next, hnext⟩ := h.node (Forest.childrenOf_subset T hold)
    rw [hnext]
    exact ht.short D x hold
  · rw [h.nameEq, hcut]
    exact hshort
  · rcases (h.links D x hnew).2 with ⟨hname, -⟩ | ⟨hname, -⟩
    · rw [hname]
      decide
    · rw [hname]
      decide

/-- Nothing is found in the new node under a plain name. -/
theorem Created.findIn_new (h : Created T P a k name s s') (ht : FileTree s T) {word : List UInt8}
    (hword : PlainName word) : TalOS.findIn s' (Forest.addChild P a k T) a word = 0 := by
  have ht' := h.toAttached.fileTree ht
  by_contra hfound
  obtain ⟨-, -, hchild, -⟩ := findIn_ne_zero hfound
  rw [resolve_of_ne h.type, h.childrenOf_new ht (h.new ht List.mem_cons_self)] at hchild
  exact ht'.findIn_plain hword hfound (h.links a _ hchild).1

/-- A plain path leads to the new node only if it is that of its directory and its name. -/
theorem Created.walk_plain (h : Created T P a k name s s') (ht : TidyTree s T) (hplace : PlaceOf s T p P)
    (hname : PlainName name) (hshort : name.length < MAX_FNAME) (hfind : TalOS.findIn s T P name = 0)
    (hq : PlainPath q) :
    TalOS.walk s' (Forest.addChild P a k T) q ROOT = if q = p ++ [name] then a else TalOS.walk s T q ROOT := by
  have hroot := ht.tree.ne_zero ht.tree.root_mem
  have hP : TalOS.walk s T p ROOT = P := hplace.walk.trans (resolve_dir (h.parent_directory ht.tree))
  have hPne := ht.tree.ne_zero h.parent
  have hnone : TalOS.walk s T (p ++ [name]) ROOT = 0 := by
    rw [walk_append _ _ hroot, hP, if_neg hPne, walk_singleton, hfind]
  have hnamed (word : List UInt8) (hword : 0 ∉ word) : TalOS.named s' word a = true ↔ word = name := by
    rw [h.named_new hname.1 hword, if_pos hshort]
  induction q using List.reverseRecOn with
  | nil => exact (if_neg (List.append_ne_nil_of_right_ne_nil _ (List.cons_ne_nil _ _)).symm).symm
  | append_singleton q word ih =>
    obtain ⟨hplain, hword⟩ := plainPath_concat.mp hq
    rw [walk_append _ _ hroot, walk_append _ _ hroot, walk_singleton, walk_singleton, ih hplain]
    simp only [List.append_singleton_inj]
    by_cases hbelow : q = p ++ [name]
    · -- The new node has links below it only.
      have hlonger : ¬ (q = p ∧ word = name) := by
        rintro ⟨heq, -⟩
        have hlen := congrArg List.length (heq.symm.trans hbelow)
        rw [List.length_append, List.length_singleton] at hlen
        omega
      rw [if_pos hbelow, h.findIn_new ht.tree hword, if_neg hlonger, hbelow, hnone, if_pos rfl, ite_self]
    · rw [if_neg hbelow]
      by_cases hzero : TalOS.walk s T q ROOT = 0
      · have hother : ¬ (q = p ∧ word = name) := fun hboth => hPne (hP.symm.trans (hboth.1 ▸ hzero))
        rw [if_pos hzero, if_pos hzero, if_neg hother]
      · have hmem := walk_mem ht.tree.root_mem hzero
        have hself := resolve_of_ne (ht.tree.walk_plain hplain hzero)
        have hat : TalOS.walk s T q ROOT = P ↔ q = p := by
          constructor
          · exact fun heq => ht.walk_inj hplain hplace.plain hzero (heq.trans hP.symm)
          · rintro rfl
            exact hP
        rw [if_neg hzero, if_neg hzero, h.findIn ht.tree hmem word, hself]
        simp only [hnamed word hword.1, hat]
        by_cases hboth : q = p ∧ word = name
        · rw [if_pos hboth, if_pos hboth, hboth.1, hboth.2, hP, if_pos hfind]
        · rw [if_neg hboth, if_neg hboth]
          split
          · next hnothing => exact hnothing.symm
          · rfl

/-- A creation adds the place of the new node, and nothing else. -/
theorem Created.filesOf (h : Created T P a k name s s') (ht : TidyTree s T) (hb : BuffersOk s T)
    (hmem : StoresBehind s s') (hplace : PlaceOf s T p P) (hname : PlainName name)
    (hshort : name.length < MAX_FNAME) (hfind : TalOS.findIn s T P name = 0) {e : Entry (List UInt8)}
    (he : entryOf s' a = some e) :
    TalOS.filesOf s' (Forest.addChild P a k T) = Function.update (TalOS.filesOf s T) (p ++ [name]) (some e) ∧
      TalOS.filesOf s T p = some .directory ∧ TalOS.filesOf s T (p ++ [name]) = none := by
  have hP : TalOS.walk s T p ROOT = P := hplace.walk.trans (resolve_dir (h.parent_directory ht.tree))
  have hplain := plainPath_concat.mpr ⟨hplace.plain, hname⟩
  have hwalk {q : List (List UInt8)} (hq : PlainPath q) := h.walk_plain ht hplace hname hshort hfind hq
  refine ⟨filesOf_eq_update hplain ?_ fun q hq hne => ?_, ?_, ?_⟩
  · rw [hwalk hplain, if_pos rfl, he]
  · rw [hwalk hq, if_neg hne]
    rcases walk_mem_or ht.tree q with hzero | hnode
    · rw [hzero]
      rfl
    · obtain ⟨next, hnext⟩ := h.node hnode
      exact entryOf_congr (by rw [hnext]) (by rw [hnext]) (by rw [hnext]) fun i hi =>
        hmem.mem _ (hb.below _ hnode i hi).2
  · rw [hplace.directory ht.tree, resolve_dir (h.parent_directory ht.tree)]
    exact h.parent_directory ht.tree
  · rw [filesOf_plain hplain, walk_append _ _ (ht.tree.ne_zero ht.tree.root_mem), hP,
      if_neg (ht.tree.ne_zero h.parent), walk_singleton, hfind]
    rfl

/-! ## Changes of contents -/

theorem Alike.tidy (hk : Alike T s s') (ht : TidyTree s T) : TidyTree s' T where
  tree := ht.tree.alike hk
  dots := ht.dots.alike hk
  names := ht.names.alike hk
  short := fun D x hx => by
    obtain ⟨_, _, hnode⟩ := hk.node x (Forest.childrenOf_subset T hx)
    rw [hnode]
    exact ht.short D x hx

theorem Alike.findIn (hk : Alike T s s') (ht : FileTree s T) (hy : y ∈ T.nodes) (word : List UInt8) :
    findIn s' T y word = findIn s T y word := by
  have hself : resolve s' y = resolve s y := by
    obtain ⟨_, _, hnode⟩ := hk.node y hy
    rw [TalOS.resolve, TalOS.resolve, hnode]
  have hnamed : (T.childrenOf (resolve s y)).find? (named s' word) =
      (T.childrenOf (resolve s y)).find? (named s word) := by
    refine List.find?_congr fun z hz => ?_
    obtain ⟨_, _, hnode⟩ := hk.node z (Forest.childrenOf_subset T hz)
    rw [TalOS.named, hnode]
    rfl
  obtain ⟨_, _, hnode⟩ := hk.node _ (ht.resolve_mem hy)
  rw [TalOS.findIn, TalOS.findIn, hself, childNamed, childNamed, hnamed, hnode]

theorem Alike.walk (hk : Alike T s s') (ht : FileTree s T) {names : List (List UInt8)} (hy : y ∈ T.nodes) :
    walk s' T names y = walk s T names y := by
  induction names generalizing y with
  | nil => rfl
  | cons word names ih =>
    rw [TalOS.walk, TalOS.walk, hk.findIn ht hy]
    split
    · rfl
    · next hfound => exact ih (findIn_mem hfound)

/-- Where the files hold what they held, the hierarchy is what it was. -/
theorem Alike.filesOf_eq (hk : Alike T s s') (ht : FileTree s T)
    (hsame : ∀ x ∈ T.nodes, entryOf s' x = entryOf s x) : filesOf s' T = filesOf s T := by
  refine filesOf_congr fun q _ => ?_
  rw [hk.walk ht ht.root_mem]
  rcases walk_mem_or ht q with hzero | hmem
  · rw [hzero]
    rfl
  · exact hsame _ hmem

/-- The bytes of a file with `buf` written over them from `offset` on. -/
def overwrite (bytes : List UInt8) (offset : Nat) (buf : List UInt8) : List UInt8 :=
  bytes.take offset ++ buf ++ bytes.drop (offset + buf.length)

theorem readAt_overwrite {m m' : Nat → UInt8} {ptr ptr' n n' : Nat} (hoff : offset ≤ n)
    (hlen : n' = max n (offset + buf.length)) (hbefore : ∀ i < offset, m' (ptr' + i) = m (ptr + i))
    (hinside : ∀ i, (hi : i < buf.length) → m' (ptr' + offset + i) = buf[i])
    (hafter : ∀ i < n, offset + buf.length ≤ i → m' (ptr' + i) = m (ptr + i)) :
    Memory.readAt m' ptr' n' = overwrite (Memory.readAt m ptr n) offset buf := by
  have htake : ((Memory.readAt m ptr n).take offset).length = offset := by
    rw [List.length_take, Memory.length_readAt, Nat.min_eq_left hoff]
  rw [overwrite]
  refine List.ext_getElem ?_ fun i hi hi' => ?_
  · rw [List.length_append, List.length_append, htake, List.length_drop, Memory.length_readAt,
      Memory.length_readAt]
    omega
  · rw [Memory.getElem_readAt]
    rw [Memory.length_readAt] at hi
    rcases Nat.lt_or_ge i offset with hlt | hge
    · rw [List.getElem_append_left (by rw [List.length_append, htake]; omega),
        List.getElem_append_left (by rw [htake]; exact hlt), List.getElem_take, Memory.getElem_readAt]
      exact hbefore i hlt
    · obtain ⟨d, rfl⟩ := Nat.exists_eq_add_of_le hge
      rcases Nat.lt_or_ge d buf.length with hd | hd
      · rw [List.getElem_append_left (by rw [List.length_append, htake]; omega),
          List.getElem_append_right (by rw [htake]; exact hge), ← Nat.add_assoc, hinside d hd]
        simp only [htake, Nat.add_sub_cancel_left]
      · have hn : offset + d < n := by omega
        rw [List.getElem_append_right (by rw [List.length_append, htake]; omega), List.getElem_drop,
          Memory.getElem_readAt, hafter _ hn (by omega), List.length_append, htake]
        congr 2
        omega

/-- An accepted write is one to a regular file, from inside it on. -/
theorem ramfsWrite_accepted {n : Int} (hrun : ramfsWrite s node buf offset = some (s', n)) :
    n = -1 ∨ node ≠ 0 ∧ (s.node node).type = .regular ∧ offset ≤ (s.node node).length := by
  unfold ramfsWrite at hrun
  split at hrun
  · exact .inl (Prod.mk.inj (Option.some.inj hrun)).2.symm
  · next haccepted =>
    simp only [not_or, not_not, Nat.not_lt] at haccepted
    exact .inr ⟨haccepted.1, haccepted.2.2.1, haccepted.2.2.2⟩

/-- A write that fails stores nothing but the marker behind the heap, and what `krealloc` copies to
`NULL`. -/
theorem ramfsWrite_fails (hok : s.heap.Ok) (hrun : ramfsWrite s node buf offset = some (s', (-1 : Int)))
    {addr : Nat} (haddr : addr < s.heap.currentPointer)
    (hspared : s.heap.Refuses (u32 (buf.length + offset)) →
      copiedBytes s.heap (s.node node).filePtr (u32 (buf.length + offset)) ≤ addr) :
    s'.heap.mem addr = s.heap.mem addr := by
  have hcast (m : Nat) : (-1 : Int) ≠ m := by omega
  unfold ramfsWrite at hrun
  split at hrun
  · rw [(Prod.mk.inj (Option.some.inj hrun)).1]
  · dsimp only at hrun
    split at hrun
    · next hgrow =>
      have hblock := krealloc_eq s.heap (s.node node).filePtr (Nat.zero_lt_of_lt hgrow)
      generalize u32 (buf.length + offset) = newLen at hrun hblock hspared
      rw [hblock] at hrun
      dsimp only at hrun
      split at hrun
      · next hzero =>
        have hrefuse : s.heap.Refuses newLen := (kmalloc_eq_zero_iff hok).mp hzero
        have hbehind : addr < u32 (s.heap.currentPointer + sizeToAlloc newLen) :=
          Nat.lt_trans (Nat.lt_of_lt_of_le haddr hok.below) hrefuse
        obtain rfl := (Prod.mk.inj (Option.some.inj hrun)).1
        have hcopied := hspared hrefuse
        dsimp only [Ramfs.kfree, kfree] at hzero ⊢
        rw [hzero, memcpyLoop_outside (.inr (by omega)), kmalloc_mem, Memory.writeAt_of_lt _ hbehind]
      · split at hrun
        · cases hrun
        · obtain ⟨s₁, -, hpair⟩ := Option.map_eq_some_iff.mp hrun
          exact absurd (Prod.mk.inj hpair).2.symm (hcast _)
    · split at hrun
      · cases hrun
      · exact absurd (Prod.mk.inj (Option.some.inj hrun)).2.symm (hcast _)

/-- Where `KeepsPrefix` holds, the bytes before `offset` arrive in the new block. -/
theorem Grown.prefix_arrives (hgrown : Grown s s' node buf offset) (hok : s.heap.Ok) (hb : BuffersOk s T)
    (hnode : node ∈ T.nodes) (hoff : offset ≤ (s.node node).length) (hkeeps : KeepsPrefix s node buf offset)
    {i : Nat} (hi : i < offset) :
    s'.heap.mem (s.heap.currentPointer + i) = s.heap.mem ((s.node node).filePtr + i) := by
  have hlonger := hgrown.longer
  have hlt : buf.length + offset < 2 ^ 32 := by
    have hroom := hgrown.room.1
    have hbytes := le_roundUp (buf.length + offset)
    have hhigh := hok.high
    rw [← roundUp] at hroom
    omega
  rw [hgrown.mem_prefix hi (hb.below node hnode i (Nat.lt_of_lt_of_le hi hoff)).2]
  split
  · rfl
  · next hleft =>
    rw [lt_copiedBytes s.heap (s.node node).filePtr hlt (by omega), not_or] at hleft
    have hmoved := (hkeeps.resolve_left (by omega)).resolve_left hleft.1
    refine hmoved i hi ?_
    simpa using hleft.2

/-- What the file holds after a write that reports success, and that the others hold what they held. -/
theorem ramfsWrite_entries {n : Int} (ht : FileTree s T) (hb : BuffersOk s T) (hnode : node ∈ T.nodes)
    (hrun : ramfsWrite s node buf offset = some (s', n)) (hn : n ≠ -1) (hkeeps : KeepsPrefix s node buf offset) :
    entryOf s' node = some (.file (overwrite
      (Memory.readAt s.heap.mem (s.node node).filePtr (s.node node).length) offset buf)) ∧
      ∀ y ∈ T.nodes, y ≠ node → entryOf s' y = entryOf s y := by
  obtain ⟨hne, htype, hoff⟩ := (ramfsWrite_accepted hrun).resolve_left hn
  have hfile {s' : Ramfs} {bytes : List UInt8} (htype : (s'.node node).type = .regular)
      (hbytes : Memory.readAt s'.heap.mem (s'.node node).filePtr (s'.node node).length = bytes) :
      entryOf s' node = some (.file bytes) := by
    rw [entryOf, if_neg hne, htype, ← hbytes]
  rcases ramfsWrite_cases ht.heap hrun with ⟨hfail, -⟩ | ⟨-, ⟨hfit, rfl⟩ | hgrown⟩
  · exact absurd hfail hn
  · constructor
    · refine hfile htype (readAt_overwrite hoff (by dsimp only; omega) ?_ ?_ ?_)
      · exact fun i hi => Memory.writeAt_of_lt _ (Nat.add_lt_add_left hi _)
      · exact fun i hi => Memory.writeAt_getElem hi
      · exact fun i _ hi => Memory.writeAt_of_ge (by dsimp only; omega)
    · intro y hy hother
      exact entryOf_congr rfl rfl rfl fun i hi => hb.not_written hnode hy hother hi hfit
  · have hlonger := hgrown.longer
    constructor
    · refine hfile (by rw [hgrown.file]; exact htype) ?_
      rw [hgrown.file]
      refine readAt_overwrite hoff (by dsimp only; omega) ?_ ?_ ?_
      · exact fun i hi => hgrown.prefix_arrives ht.heap hb hnode hoff hkeeps hi
      · intro i hi
        rw [hgrown.mem, Memory.writeAt_getElem hi]
      · exact fun i hi hbehind => by omega
    · intro y hy hother
      have hsame := hgrown.other y hother
      exact entryOf_congr (by rw [hsame]) (by rw [hsame]) (by rw [hsame]) fun i hi =>
        hgrown.mem_below (hb.below y hy i hi).2

/-! ## Deletions -/

theorem Unlinked.tidy (h : Unlinked T D x s s') (ht : TidyTree s T) (htype : (s.node x).type ≠ .symlink) :
    TidyTree s' (T.remove x) where
  tree := h.fileTree ht.tree
  dots := h.dotsFirst ht.tree ht.dots htype
  names := h.namesDistinct ht.tree ht.names
  short := fun E y hy => by
    obtain ⟨_, _, hnode, -⟩ := h.node y
    rw [hnode]
    exact ht.short E y (Forest.childrenOf_remove_subset ht.tree.once hy)

theorem TidyTree.freed (h : TidyTree s T) (nodes : List Nat) : TidyTree (s.freed nodes) T :=
  (h.tree.freed_keeps nodes).alike.tidy h

/-- Where the node was found nothing is found any more, since no other entry has its name. -/
theorem Unlinked.findIn_gone (h : Unlinked T D x s s') (ht : TidyTree s T) {word : List UInt8} (hword : 0 ∉ word)
    (hfind : TalOS.findIn s T y word = x) : TalOS.findIn s' (T.remove x) y word = 0 := by
  have hx := Forest.childrenOf_subset T h.child
  by_contra hother
  obtain ⟨-, -, hchild, hnamed⟩ := findIn_ne_zero hother
  obtain ⟨-, -, hchild', hnamed'⟩ := findIn_ne_zero (hfind ▸ ht.tree.ne_zero hx : TalOS.findIn s T y word ≠ 0)
  rw [h.resolve] at hchild
  rw [h.named] at hnamed
  rw [hfind] at hchild' hnamed'
  have hold := Forest.childrenOf_remove_subset ht.tree.once hchild
  have hname {z : Nat} (hz : z ∈ T.childrenOf (TalOS.resolve s y)) (hpass : TalOS.named s word z = true) :
      word = (s.node z).name := (named_short (ht.short _ _ hz) (ht.tree.name_nul hz) hword).mp hpass
  have heq := List.inj_on_of_nodup_map (ht.names _) hold hchild'
    ((hname hold hnamed).symm.trans (hname hchild' hnamed'))
  have hgone := Forest.childrenOf_subset _ hchild
  rw [heq, mem_remove_iff ht.tree hx] at hgone
  exact hgone.2 List.mem_cons_self

/-- A plain path leads nowhere any more exactly if it goes through the place of the node. -/
theorem Unlinked.walk_plain (h : Unlinked T D x s s') (ht : TidyTree s T) (hp : PlainPath p)
    (hx : TalOS.walk s T p ROOT = x) (hq : PlainPath q) :
    TalOS.walk s' (T.remove x) q ROOT = if p <+: q then 0 else TalOS.walk s T q ROOT := by
  have ht' := h.fileTree ht.tree
  have hroot := ht.tree.ne_zero ht.tree.root_mem
  have hxne := ht.tree.ne_zero (Forest.childrenOf_subset T h.child)
  induction q using List.reverseRecOn with
  | nil =>
    have hpne : ¬ p <+: [] := by
      intro hnil
      rw [List.prefix_nil.mp hnil] at hx
      exact ht.tree.root_not_child (hx ▸ h.child)
    exact (if_neg hpne).symm
  | append_singleton q word ih =>
    obtain ⟨hplain, hword⟩ := plainPath_concat.mp hq
    have hwalk := ih hplain
    rw [walk_append _ _ hroot, walk_append _ _ hroot, walk_singleton, walk_singleton]
    by_cases hthrough : p <+: q
    · rw [hwalk, if_pos hthrough, if_pos rfl, if_pos (hthrough.trans (List.prefix_append q [word]))]
    · rw [if_neg hthrough] at hwalk
      by_cases hzero : TalOS.walk s T q ROOT = 0
      · rw [hwalk, if_pos hzero, if_pos hzero, ite_self]
      · have hstay := walk_mem ht'.root_mem (hwalk ▸ hzero)
        have hstep : TalOS.walk s T (q ++ [word]) ROOT = TalOS.findIn s T (TalOS.walk s T q ROOT) word := by
          rw [walk_append _ _ hroot, if_neg hzero, walk_singleton]
        rw [hwalk] at hstay ⊢
        rw [if_neg hzero, if_neg hzero]
        by_cases hfind : TalOS.findIn s T (TalOS.walk s T q ROOT) word = x
        · have heq : p = q ++ [word] :=
            ht.walk_inj hp hq (hx ▸ hxne) (hx.trans (hfind.symm.trans hstep.symm))
          rw [h.findIn_gone ht hword.1 hfind, heq, if_pos (List.prefix_refl _)]
        · have hclear : ¬ p <+: q ++ [word] := by
            intro hpre
            rcases List.prefix_concat_iff.mp hpre with heq | hpre
            · exact hfind (hstep.symm.trans (heq ▸ hx))
            · exact hthrough hpre
          rw [h.findIn ht.tree hstay hfind, if_neg hclear]

/-- A deletion takes out the place of the node with all below it. -/
theorem Unlinked.filesOf (h : Unlinked T D x s s') (ht : TidyTree s T) (hp : PlainPath p)
    (hx : TalOS.walk s T p ROOT = x) :
    TalOS.filesOf s' (T.remove x) = fun q => if p <+: q then none else TalOS.filesOf s T q := by
  funext q
  by_cases hq : PlainPath q
  · rw [filesOf_plain hq, filesOf_plain hq, h.walk_plain ht hp hx hq]
    split
    · rfl
    · obtain ⟨_, _, hnode, -⟩ := h.node (TalOS.walk s T q ROOT)
      exact entryOf_congr (by rw [hnode]) (by rw [hnode]) (by rw [hnode]) fun i _ => by rw [h.heap]
  · rw [TalOS.filesOf, TalOS.filesOf, if_neg hq, if_neg hq, ite_self]

end TalOS
