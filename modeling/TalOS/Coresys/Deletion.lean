-- SUMMARY: Deleting nodes: what `ramfs_deleteNode` unlinks from the file tree and what it frees.
import TalOS.Coresys.Operations
import TalOS.Coresys.PathNames

/-!
# Deleting nodes

`ramfs_deleteNode` leads one pointer past the node, which takes the node with all
below it out of the tree. What it then frees is everything the node's two pointers
lead to: what is below it, and also its later siblings, which stay in the tree.
-/

namespace TalOS

open Forest (Seg)

variable {s s' : Ramfs} {T : Forest Nat} {x D : Nat}

/-! ## Unlinking -/

/-- One pointer to `x` has been led past it: from its directory, or from the child before it. -/
structure Unlinked (T : Forest Nat) (D x : Nat) (s s' : Ramfs) : Prop where
  child : x ∈ T.childrenOf D
  store : (∃ post, T.childrenOf D = x :: post ∧
      s' = s.setNode D { s.node D with children := (s.node x).next }) ∨
    ∃ pre prev post, T.childrenOf D = pre ++ prev :: x :: post ∧
      s' = s.setNode prev { s.node prev with next := (s.node x).next }

theorem unlinkLoop_seg {prev curr fuel : Nat} {l : List Nat} (hprev : prev ≠ 0)
    (hseg : Seg s.nextPtr 0 curr l) (hx : x ≠ 0) (hfuel : l.length < fuel) :
    x ∉ l ∧ unlinkLoop s x fuel prev curr = some none ∨
      ∃ pre p post, prev :: l = pre ++ p :: x :: post ∧
        unlinkLoop s x fuel prev curr =
          some (some (s.setNode p { s.node p with next := (s.node x).next })) := by
  induction l generalizing prev curr fuel with
  | nil =>
    obtain ⟨fuel, rfl⟩ := Nat.exists_eq_add_one.mpr hfuel
    exact .inl ⟨List.not_mem_nil, if_pos hseg⟩
  | cons a l ih =>
    obtain ⟨rfl, hcurr, hrest⟩ := hseg
    obtain ⟨fuel, rfl⟩ := Nat.exists_eq_add_one.mpr (Nat.zero_lt_of_lt hfuel)
    rw [unlinkLoop, if_neg hcurr]
    by_cases heq : curr = x
    · subst heq
      rw [if_pos rfl, update_eq hprev]
      exact .inr ⟨[], prev, l, rfl, rfl⟩
    · rw [if_neg heq]
      rcases ih hcurr hrest (Nat.lt_of_succ_lt_succ hfuel) with ⟨hmem, hrun⟩ | hfound
      · refine .inl ⟨?_, hrun⟩
        rw [List.mem_cons, not_or]
        exact ⟨Ne.symm heq, hmem⟩
      · obtain ⟨pre, p, post, hsplit, hrun⟩ := hfound
        exact .inr ⟨prev :: pre, p, post, congrArg (prev :: ·) hsplit, hrun⟩

/-- A child of the directory is unlinked; nothing else is. -/
theorem FileTree.unlinkChild (h : FileTree s T) (hD : D ∈ T.nodes) (hx : x ≠ 0) :
    x ∉ T.childrenOf D ∧ (∀ s', unlinkChild s D x ≠ some (some s')) ∨
      ∃ s', unlinkChild s D x = some (some s') ∧ Unlinked T D x s s' := by
  have hseg := h.seg hD
  have hlength := h.length_childrenOf (D := D)
  unfold TalOS.unlinkChild
  cases hlist : T.childrenOf D with
  | nil =>
    rw [hlist] at hseg
    have hzero : (s.node D).children = 0 := hseg
    rw [hzero, if_neg (Ne.symm hx)]
    exact .inl ⟨List.not_mem_nil, fun _ hrun => by cases hrun⟩
  | cons a l =>
    rw [hlist] at hseg hlength
    obtain ⟨hfirst, hpos, hrest⟩ := hseg
    rw [hfirst]
    by_cases heq : a = x
    · subst heq
      rw [if_pos rfl, update_eq (h.ne_zero hD)]
      exact .inr ⟨_, rfl, hlist ▸ List.mem_cons_self, .inl ⟨l, hlist, rfl⟩⟩
    · rw [if_neg heq, Ramfs.deref, if_neg hpos, Option.bind_some]
      rcases unlinkLoop_seg hpos hrest hx (Nat.lt_of_succ_lt hlength) with ⟨hmem, hrun⟩ | hfound
      · refine .inl ⟨?_, fun s' hrun' => ?_⟩
        · rw [List.mem_cons, not_or]
          exact ⟨Ne.symm heq, hmem⟩
        · exact absurd (hrun.symm.trans hrun') (by simp)
      · obtain ⟨pre, p, post, hsplit, hrun⟩ := hfound
        refine .inr ⟨_, hrun, ?_, .inr ⟨pre, p, post, hlist.trans hsplit, rfl⟩⟩
        rw [hlist, hsplit]
        exact List.mem_append_right _ (List.mem_cons_of_mem _ List.mem_cons_self)

theorem Unlinked.heap (h : Unlinked T D x s s') : s'.heap = s.heap := by
  rcases h.store with ⟨_, -, rfl⟩ | ⟨_, _, _, -, rfl⟩ <;> rfl

theorem Unlinked.root (h : Unlinked T D x s s') : s'.root = s.root := by
  rcases h.store with ⟨_, -, rfl⟩ | ⟨_, _, _, -, rfl⟩ <;> rfl

/-- Only pointers change, and `children` only in the directory. -/
theorem Unlinked.node (h : Unlinked T D x s s') (b : Nat) :
    ∃ children next, s'.node b = { s.node b with children := children, next := next } ∧
      (b ≠ D → children = (s.node b).children) := by
  rcases h.store with ⟨_, -, rfl⟩ | ⟨_, q, _, -, rfl⟩
  · by_cases hb : b = D
    · subst hb
      rw [setNode_self]
      exact ⟨_, _, rfl, fun hne => absurd rfl hne⟩
    · rw [setNode_ne _ hb]
      exact ⟨_, _, rfl, fun _ => rfl⟩
  · by_cases hb : b = q
    · subst hb
      rw [setNode_self]
      exact ⟨_, _, rfl, fun _ => rfl⟩
    · rw [setNode_ne _ hb]
      exact ⟨_, _, rfl, fun _ => rfl⟩

/-- An element stands at one place of a list of children. -/
theorem FileTree.split_unique (h : FileTree s T) {pre post pre' post' : List Nat}
    (hl : T.childrenOf D = pre ++ x :: post) (hl' : T.childrenOf D = pre' ++ x :: post') :
    pre = pre' ∧ post = post' := by
  have hnodup := Forest.nodup_childrenOf (x := D) h.once
  rw [hl] at hnodup hl'
  have hpre : x ∉ pre := fun hmem => by
    rw [List.nodup_append] at hnodup
    exact hnodup.2.2 x hmem x List.mem_cons_self rfl
  have hpre' : x ∉ pre' := fun hmem => by
    rw [hl', List.nodup_append] at hnodup
    exact hnodup.2.2 x hmem x List.mem_cons_self rfl
  have heq := (List.append_eq_append_iff.mp hl')
  rcases heq with ⟨mid, rfl, hmid⟩ | ⟨mid, rfl, hmid⟩
  · cases mid with
    | nil => exact ⟨(List.append_nil _).symm, (List.cons.inj hmid).2⟩
    | cons c mid =>
      obtain ⟨rfl, -⟩ := List.cons.inj hmid
      exact absurd (List.mem_append_right _ List.mem_cons_self) hpre'
  · cases mid with
    | nil => exact ⟨List.append_nil _, (List.cons.inj hmid).2.symm⟩
    | cons c mid =>
      obtain ⟨rfl, -⟩ := List.cons.inj hmid
      exact absurd (List.mem_append_right _ List.mem_cons_self) hpre

/-- Leading the one pointer past the node takes it out of the tree. -/
theorem Unlinked.spans (h : Unlinked T D x s s') (ht : FileTree s T) :
    (T.remove x).Spans s'.childPtr s'.nextPtr 0 ROOT := by
  have hmem := Forest.childrenOf_subset T h.child
  have hnull := ht.ne_zero hmem
  have hroot : ROOT ≠ x := fun heq => ht.root_not_child (heq ▸ h.child)
  have hspans : (T.remove x).Spans s'.childPtr s'.nextPtr 0
      (Forest.redirect s.nextPtr x ROOT) := by
    refine ht.spans.remove ht.once hnull fun b hb => ?_
    obtain ⟨hchild, hnext⟩ := ht.spans.pointer_to ht.once h.child
      ((Forest.nodes_remove_sublist x T).subset hb)
    have hseg := ht.seg (Forest.parent_mem h.child)
    rcases h.store with ⟨post₀, hlist, rfl⟩ | ⟨pre₀, q, post₀, hlist, rfl⟩
    · have hnext' : s.nextPtr b ≠ x := by
        intro heq
        obtain ⟨pre, post, hsplit⟩ := hnext heq
        rw [List.append_cons] at hsplit
        exact List.cons_ne_nil _ _ (List.append_eq_nil_iff.mp (ht.split_unique hsplit hlist).1).2
      rw [hlist] at hseg
      by_cases hb' : b = D
      · subst hb'
        have hfirst : s.childPtr b = x := hseg.1
        rw [hfirst, Forest.redirect_self, Forest.redirect_ne hnext', childPtr_setNode_self,
          nextPtr_setNode_self]
        exact ⟨rfl, rfl⟩
      · have hchild' : s.childPtr b ≠ x := fun heq => hb' (hchild heq).1
        rw [Forest.redirect_ne hchild', Forest.redirect_ne hnext',
          childPtr_setNode_ne _ hb', nextPtr_setNode_ne _ hb']
        exact ⟨rfl, rfl⟩
    · have hlist' := hlist
      rw [List.append_cons] at hlist'
      have hchild' : s.childPtr b ≠ x := by
        intro heq
        obtain ⟨-, post, hsplit⟩ := hchild heq
        exact List.cons_ne_nil _ _
          (List.append_eq_nil_iff.mp (ht.split_unique hlist' (hsplit : _ = [] ++ x :: post)).1).2
      by_cases hb' : b = q
      · subst hb'
        have hq : s.nextPtr b = x := hseg.next_of_split hlist
        rw [Forest.redirect_ne hchild', hq, Forest.redirect_self, childPtr_setNode_self,
          nextPtr_setNode_self]
        exact ⟨rfl, rfl⟩
      · have hnext' : s.nextPtr b ≠ x := by
          intro heq
          obtain ⟨pre, post, hsplit⟩ := hnext heq
          rw [List.append_cons] at hsplit
          have hsame := (ht.split_unique hsplit hlist').1
          exact hb' (List.append_singleton_inj.mp hsame).2
        rw [Forest.redirect_ne hchild', Forest.redirect_ne hnext',
          childPtr_setNode_ne _ hb', nextPtr_setNode_ne _ hb']
        exact ⟨rfl, rfl⟩
  rwa [Forest.redirect, if_neg hroot] at hspans

/-- What stays is a file tree. -/
theorem Unlinked.fileTree (h : Unlinked T D x s s') (ht : FileTree s T) :
    FileTree s' (T.remove x) := by
  have hstay {y : Nat} (hy : y ∈ (T.remove x).nodes) : y ∈ T.nodes :=
    (Forest.nodes_remove_sublist x T).subset hy
  have hold {D y : Nat} (hy : y ∈ (T.remove x).childrenOf D) : y ∈ T.childrenOf D :=
    Forest.childrenOf_remove_subset ht.once hy
  have hroot : x ≠ ROOT := fun heq => ht.root_not_child (heq ▸ h.child)
  refine ⟨h.root.trans ht.root, ?_, h.spans ht, Forest.nodup_remove ht.once, ?_, ?_, ?_, ?_, ?_, ?_⟩
  · rw [Forest.roots_remove ht.once, ht.top, List.erase_of_not_mem]
    exact fun hmem => hroot (List.mem_singleton.mp hmem)
  · intro y hy
    rw [h.heap]
    exact ht.below y (hstay hy)
  · rw [h.heap]
    exact ht.heap
  · obtain ⟨children, next, hnode, -⟩ := h.node ROOT
    rw [hnode]
    exact ht.rootDir
  · intro y hy
    obtain ⟨children, next, hnode, hkeep⟩ := h.node y
    have hkind := ht.kind y (hstay hy)
    rw [hnode]
    refine ⟨hkind.type, hkind.callbacks, fun htype => ?_⟩
    have hy' : y ≠ D := fun heq => htype (heq ▸ ht.parent_directory h.child)
    exact (hkeep hy').trans (hkind.children htype)
  · intro E y hy htype
    obtain ⟨children, next, hnode, -⟩ := h.node y
    rw [hnode] at htype
    rw [LinkOk, hnode]
    refine (ht.links E y (hold hy) htype).imp_right fun hup => ⟨hup.1, hup.2.imp_left fun hparent => ?_⟩
    exact Forest.mem_childrenOf_remove ht.once hparent (Forest.parent_mem hy)
  · intro E y hy htype
    obtain ⟨children, next, hnode, -⟩ := h.node y
    rw [hnode] at htype ⊢
    exact ht.names E y (hold hy) htype

/-- Taking out a node that is no link leaves the links at the front. -/
theorem Unlinked.dotsFirst (h : Unlinked T D x s s') (ht : FileTree s T) (hdots : DotsFirst s T)
    (htype : (s.node x).type ≠ .symlink) : DotsFirst s' (T.remove x) := by
  intro E hE hdir
  obtain ⟨children, next, hnode, -⟩ := h.node E
  rw [hnode] at hdir
  obtain ⟨dot, dotdot, rest, hlist, hlink₁, hdot, hlink₂, hdotdot⟩ :=
    hdots E ((Forest.nodes_remove_sublist x T).subset hE) hdir
  have hne₁ : dot ≠ x := fun heq => htype (heq ▸ hlink₁)
  have hne₂ : dotdot ≠ x := fun heq => htype (heq ▸ hlink₂)
  obtain ⟨_, _, hnode₁, -⟩ := h.node dot
  obtain ⟨_, _, hnode₂, -⟩ := h.node dotdot
  refine ⟨dot, dotdot, rest.erase x, ?_, ?_⟩
  · rw [Forest.childrenOf_remove ht.once hE, hlist, List.erase_cons_tail (by simpa using hne₁),
      List.erase_cons_tail (by simpa using hne₂)]
  · rw [hnode₁, hnode₂]
    exact ⟨hlink₁, hdot, hlink₂, hdotdot⟩

theorem Unlinked.namesDistinct (h : Unlinked T D x s s') (ht : FileTree s T)
    (hnames : NamesDistinct s T) : NamesDistinct s' (T.remove x) := by
  intro E
  by_cases hE : E ∈ (T.remove x).nodes
  · have hsame : ((T.remove x).childrenOf E).map (fun y => (s'.node y).name) =
        ((T.remove x).childrenOf E).map fun y => (s.node y).name := by
      refine List.map_congr_left fun y _ => ?_
      obtain ⟨_, _, hnode, -⟩ := h.node y
      rw [hnode]
    rw [hsame, Forest.childrenOf_remove ht.once hE]
    exact (hnames E).sublist ((List.erase_sublist).map _)
  · rw [Forest.childrenOf_of_not_mem hE]
    exact List.nodup_nil

/-! ## Freeing -/

/-- The state after some more nodes, each with its contents, were handed to `kfree`. -/
def Ramfs.freed (s : Ramfs) (nodes : List Nat) : Ramfs :=
  { s with
    heap := { s.heap with freed := s.heap.freed ++ nodes.flatMap fun p => [(s.node p).filePtr, p] }
    deallocated := s.deallocated ++ nodes }

@[simp] theorem freed_node (nodes : List Nat) : (s.freed nodes).node = s.node := rfl

theorem freed_nil (s : Ramfs) : s.freed [] = s := by
  rw [Ramfs.freed, List.flatMap_nil, List.append_nil, List.append_nil]

theorem freed_freed (s : Ramfs) (l l' : List Nat) : (s.freed l).freed l' = s.freed (l ++ l') := by
  simp only [Ramfs.freed, List.flatMap_append, List.append_assoc]

theorem ramfsDeallocNode_eq (s : Ramfs) (p : Nat) : ramfsDeallocNode s p = s.freed [p] := by
  simp only [ramfsDeallocNode, Ramfs.kfree, kfree, Ramfs.freed, List.flatMap_cons, List.flatMap_nil,
    List.append_nil, List.append_assoc, List.singleton_append]

/-- A pointer that may be `NULL` is followed if it is not. -/
theorem spans_delete {F : Forest Nat} {p fuel : Nat} (hspans : F.Spans s.childPtr s.nextPtr 0 p)
    (h : p ≠ 0 → ramfsInterDeleteNode fuel p s = some (s.freed F.postorder)) :
    (if p ≠ 0 then ramfsInterDeleteNode fuel p s else some s) = some (s.freed F.postorder) := by
  cases F with
  | nil =>
    have hzero : p = 0 := hspans
    rw [if_neg (not_not.mpr hzero), Forest.postorder, freed_nil]
  | cons a kids rest =>
    have hne : p ≠ 0 := fun hzero => hspans.2.1 (hspans.1.symm.trans hzero)
    rw [if_pos hne]
    exact h hne

/-- `ramfs_inter_deleteNode` frees all that the pointers of the node span, children and following
siblings before the node. -/
theorem ramfsInterDeleteNode_spans {F : Forest Nat} {p fuel : Nat}
    (hspans : F.Spans s.childPtr s.nextPtr 0 p) (hp : p ≠ 0) (hfuel : F.nodes.length ≤ fuel) :
    ramfsInterDeleteNode fuel p s = some (s.freed F.postorder) := by
  induction F generalizing p fuel s with
  | nil => exact absurd hspans hp
  | cons a kids rest ihk ihr =>
    obtain ⟨rfl, -, hkids, hrest⟩ := hspans
    rw [Forest.nodes, List.length_cons, List.length_append] at hfuel
    obtain ⟨fuel, rfl⟩ := Nat.exists_eq_add_one.mpr (Nat.lt_of_lt_of_le (Nat.succ_pos _) hfuel)
    have hfuel' := Nat.le_of_succ_le_succ hfuel
    have hchildren := spans_delete hkids fun hne =>
      ihk hkids hne (Nat.le_trans (Nat.le_add_right _ _) hfuel')
    have hsiblings := spans_delete (s := s.freed kids.postorder) (p := s.nextPtr p) hrest fun hne =>
      ihr hrest hne (Nat.le_trans (Nat.le_add_left _ _) hfuel')
    rw [ramfsInterDeleteNode, Ramfs.deref, if_neg hp, Option.bind_some]
    rw [Ramfs.childPtr] at hchildren
    rw [hchildren, Option.bind_some, freed_node]
    rw [Ramfs.nextPtr] at hsiblings
    rw [hsiblings, Option.map_some, ramfsDeallocNode_eq, freed_freed, freed_freed, Forest.postorder,
      List.append_assoc]

/-- What the pointers of an unlinked node span: all below it, and its later siblings. -/
theorem Unlinked.behind (h : Unlinked T D x s s') (ht : FileTree s T) :
    ∃ rest, (Forest.cons x (T.kidsOf x) rest).Spans s'.childPtr s'.nextPtr 0 x ∧
      (Forest.cons x (T.kidsOf x) rest).nodes.Sublist (T.kidsOf D).nodes ∧
      rest.Spans s.childPtr s.nextPtr 0 (s.nextPtr x) := by
  have hD := Forest.parent_mem h.child
  have hx := Forest.childrenOf_subset T h.child
  have hkids := ht.spans.kidsOf hD
  have hnodup : (T.kidsOf D).nodes.Nodup := Forest.nodup_kidsOf ht.once
  have hfound : ∃ F : Forest Nat, F.Spans s.childPtr s.nextPtr 0 x ∧
      F.nodes.Sublist (T.kidsOf D).nodes ∧ ∀ b ∈ F.nodes, s'.node b = s.node b := by
    rcases h.store with ⟨post, hlist, rfl⟩ | ⟨pre, q, post, hlist, rfl⟩
    · have hfirst : s.childPtr D = x := by
        have hseg := ht.seg hD
        rw [hlist] at hseg
        exact hseg.1
      refine ⟨T.kidsOf D, hfirst ▸ hkids, .refl _, fun b hb => setNode_ne _ fun heq => ?_⟩
      exact Forest.not_mem_kidsOf ht.once (heq ▸ hb)
    · have hnext : s.nextPtr q = x := (ht.seg hD).next_of_split hlist
      have hq : q ∈ (T.kidsOf D).roots := by
        have hmem : q ∈ T.childrenOf D := by
          rw [hlist]
          exact List.mem_append_right _ List.mem_cons_self
        exact hmem
      refine ⟨(T.kidsOf D).after q, hnext ▸ hkids.after hq, Forest.after_sublist q _,
        fun b hb => setNode_ne _ fun heq => ?_⟩
      exact Forest.not_mem_after hnodup (heq ▸ hb)
  obtain ⟨F, hspans, hsub, hsame⟩ := hfound
  cases F with
  | nil => exact absurd hspans (ht.ne_zero hx)
  | cons a kids rest =>
    have hspans' : (Forest.cons a kids rest).Spans s'.childPtr s'.nextPtr 0 x :=
      hspans.congr fun b hb => by
        rw [Ramfs.childPtr, Ramfs.childPtr, Ramfs.nextPtr, Ramfs.nextPtr, hsame b hb]
        exact ⟨rfl, rfl⟩
    obtain ⟨rfl, -, hbelow, hrest⟩ := hspans
    obtain rfl : kids = T.kidsOf x := hbelow.unique (ht.spans.kidsOf hx)
    exact ⟨rest, hspans', hsub, hrest⟩

theorem FileTree.length_kidsOf (h : FileTree s T) : (T.kidsOf D).nodes.length ≤ POINTERS := by
  have hsubperm := List.subperm_of_subset (Forest.nodup_kidsOf (x := D) h.once)
    (Forest.nodes_kidsOf_subset T)
  exact Nat.le_trans hsubperm.length_le (Nat.le_of_lt h.length_nodes)

/-- After unlinking, the node, all below it and its later siblings are freed. -/
theorem Unlinked.delete (h : Unlinked T D x s s') (ht : FileTree s T) :
    ∃ rest : Forest Nat, rest.Spans s.childPtr s.nextPtr 0 (s.nextPtr x) ∧
      (Forest.cons x (T.kidsOf x) rest).nodes.Sublist (T.kidsOf D).nodes ∧
      ramfsInterDeleteNode POINTERS x s' =
        some (s'.freed (Forest.cons x (T.kidsOf x) rest).postorder) := by
  obtain ⟨rest, hspans, hsub, hrest⟩ := h.behind ht
  have hx := ht.ne_zero (Forest.childrenOf_subset T h.child)
  exact ⟨rest, hrest, hsub, ramfsInterDeleteNode_spans hspans hx
    (Nat.le_trans hsub.length_le ht.length_kidsOf)⟩

theorem FileTree.freed_keeps (h : FileTree s T) (nodes : List Nat) : KeepsTree T s (s.freed nodes) :=
  ⟨rfl, fun _ _ => rfl, ⟨h.heap.start, h.heap.above, h.heap.below, h.heap.high⟩, Nat.le_refl _⟩

theorem FileTree.freed (h : FileTree s T) (nodes : List Nat) : FileTree (s.freed nodes) T :=
  h.keep (h.freed_keeps nodes)

/-- `ramfs_deleteNode` leaves all as it was, or unlinks the node at the path. -/
theorem FileTree.deleteNode_outcome (h : FileTree s T) {path : List UInt8} {err : RfsErr}
    (hrun : ramfsDeleteNode s path = some (s', err)) :
    s' = s ∧ err = .nok ∨ ∃ D x s₁ nodes, TalOS.fsGetNode s 0 path = some x ∧ x ≠ 0 ∧
      Unlinked T D x s s₁ ∧ s' = s₁.freed nodes ∧ err = .ok := by
  obtain ⟨parentPath, -, hrun⟩ := Option.bind_eq_some_iff.mp hrun
  cases parentPath with
  | none =>
    obtain ⟨rfl, rfl⟩ : s = s' ∧ RfsErr.nok = err := by simpa using hrun
    exact .inl ⟨rfl, rfl⟩
  | some parentPath =>
    obtain ⟨D, hD, hrun⟩ := Option.bind_eq_some_iff.mp hrun
    split at hrun
    · obtain ⟨rfl, rfl⟩ : s = s' ∧ RfsErr.nok = err := by simpa using hrun
      exact .inl ⟨rfl, rfl⟩
    · next hDne =>
      obtain ⟨x, hx, hrun⟩ := Option.bind_eq_some_iff.mp hrun
      split at hrun
      · obtain ⟨rfl, rfl⟩ : s = s' ∧ RfsErr.nok = err := by simpa using hrun
        exact .inl ⟨rfl, rfl⟩
      · next hxne =>
        obtain ⟨unlinked, hunlink, hrun⟩ := Option.bind_eq_some_iff.mp hrun
        have hDmem := (h.fsGetNode_some hD hDne).2.2.2
        cases unlinked with
        | none =>
          obtain ⟨rfl, rfl⟩ : s = s' ∧ RfsErr.nok = err := by simpa using hrun
          exact .inl ⟨rfl, rfl⟩
        | some s₁ =>
          rcases h.unlinkChild hDmem hxne with ⟨-, hfail⟩ | ⟨s₂, hunlink', hunlinked⟩
          · exact absurd hunlink (hfail s₁)
          · rw [hunlink] at hunlink'
            obtain rfl : s₁ = s₂ := by simpa using hunlink'
            obtain ⟨rest, -, -, hdelete⟩ := hunlinked.delete h
            dsimp only at hrun
            rw [hdelete] at hrun
            obtain ⟨rfl, rfl⟩ : _ = s' ∧ RfsErr.ok = err := by simpa using hrun
            exact .inr ⟨D, x, s₁, _, hx, hxne, hunlinked, rfl, rfl⟩

/-! ## Lookups in what stays -/

theorem find?_erase {l : List Nat} {p : Nat → Bool} (h : l.find? p ≠ some x) :
    (l.erase x).find? p = l.find? p := by
  induction l with
  | nil => rfl
  | cons a l ih =>
    by_cases ha : p a = true
    · have hne : a ≠ x := fun heq => h (heq ▸ List.find?_cons_of_pos ha)
      rw [List.erase_cons_tail (by simpa using hne), List.find?_cons_of_pos ha,
        List.find?_cons_of_pos ha]
    · rw [List.find?_cons_of_neg ha] at h ⊢
      by_cases hax : a = x
      · rw [hax, List.erase_cons_head]
      · rw [List.erase_cons_tail (by simpa using hax), List.find?_cons_of_neg ha]
        exact ih h

theorem Unlinked.named (h : Unlinked T D x s s') (name : List UInt8) : named s' name = named s name := by
  funext y
  obtain ⟨_, _, hnode, -⟩ := h.node y
  rw [TalOS.named, hnode]
  rfl

theorem Unlinked.resolve (h : Unlinked T D x s s') (y : Nat) : resolve s' y = resolve s y := by
  obtain ⟨_, _, hnode, -⟩ := h.node y
  rw [TalOS.resolve, TalOS.resolve, hnode]

/-- From a node that stays every lookup that does not find the node taken out has the same result. -/
theorem Unlinked.findIn (h : Unlinked T D x s s') (ht : FileTree s T) {y : Nat} {name : List UInt8}
    (hy : y ∈ (T.remove x).nodes) (hfind : findIn s T y name ≠ x) :
    findIn s' (T.remove x) y name = findIn s T y name := by
  have hstay : TalOS.resolve s y ∈ (T.remove x).nodes := by
    rw [← h.resolve]
    exact (h.fileTree ht).resolve_mem hy
  obtain ⟨_, _, hnode, -⟩ := h.node (TalOS.resolve s y)
  unfold TalOS.findIn at hfind ⊢
  rw [h.resolve, hnode]
  split
  · next htype =>
    rw [if_pos htype, childNamed] at hfind
    rw [childNamed, childNamed, h.named, Forest.childrenOf_remove ht.once hstay, find?_erase]
    intro hfound
    rw [hfound] at hfind
    exact hfind rfl
  · rfl

/-- A walk that keeps clear of what is taken out has the same result. -/
theorem Unlinked.walk (h : Unlinked T D x s s') (ht : FileTree s T) {y : Nat}
    {names : List (List UInt8)} (hy : y ∈ (T.remove x).nodes)
    (hclear : ∀ pre, pre <+: names → walk s T pre y ∉ x :: (T.kidsOf x).nodes) :
    walk s' (T.remove x) names y = walk s T names y := by
  induction names generalizing y with
  | nil => rfl
  | cons name names ih =>
    by_cases hzero : TalOS.findIn s T y name = 0
    · have hne : TalOS.findIn s T y name ≠ x := by
        rw [hzero]
        exact Ne.symm (ht.ne_zero (Forest.childrenOf_subset T h.child))
      rw [TalOS.walk, TalOS.walk, h.findIn ht hy hne, if_pos hzero, if_pos hzero]
    · have hstep : TalOS.findIn s T y name ∉ x :: (T.kidsOf x).nodes := by
        have hpre := hclear [name] (List.cons_prefix_cons.mpr ⟨rfl, List.nil_prefix⟩)
        rw [TalOS.walk, if_neg hzero] at hpre
        exact hpre
      have hne : TalOS.findIn s T y name ≠ x := fun heq => hstep (heq ▸ List.mem_cons_self)
      have hnext : TalOS.findIn s T y name ∈ (T.remove x).nodes := by
        have hmem := Forest.nodes_remove ht.once (Forest.childrenOf_subset T h.child) |>.mem_iff.mp
          (findIn_mem hzero)
        exact (List.mem_append.mp hmem).resolve_right hstep
      rw [TalOS.walk, TalOS.walk, h.findIn ht hy hne, if_neg hzero, if_neg hzero]
      refine ih hnext fun pre hpre => ?_
      have hclear' := hclear (name :: pre) (List.cons_prefix_cons.mpr ⟨rfl, hpre⟩)
      rwa [TalOS.walk, if_neg hzero] at hclear'

/-! ## Deleting one subtree -/

/-- A node with all below it. -/
def subtree (T : Forest Nat) (x : Nat) : List Nat := x :: (T.kidsOf x).nodes

/-- A path that at no step leads to one of the nodes. -/
def Avoids (s : Ramfs) (T : Forest Nat) (nodes : List Nat) (path : List UInt8) : Prop :=
  ∀ pre, pre <+: comps path → walk s T pre ROOT ∉ nodes

/-- Deleting the node at a path frees the node with all below it, each once, and leaves a tree of
all others, where every path that keeps clear of what was deleted leads where it led. -/
def DeletesSubtree (s : Ramfs) (T : Forest Nat) (path : List UInt8) (x : Nat) : Prop :=
  ∃ s' freed T', ramfsDeleteNode s path = some (s', .ok) ∧
    s'.deallocated = s.deallocated ++ freed ∧ freed.Perm (subtree T x) ∧
    FileTree s' T' ∧ (∀ y, y ∈ T'.nodes ↔ y ∈ T.nodes ∧ y ∉ subtree T x) ∧
    (∀ y ∈ T'.nodes, y ∉ freed) ∧
    ∀ path', path'.length < MAX_PATH → path'.head? = some SLASH → Avoids s T (subtree T x) path' →
      fsGetNode s' 0 path' = fsGetNode s 0 path'

/-- The component before the last one is no link. -/
def DirectParent (path : List UInt8) : Prop :=
  ∀ name ∈ (comps path).dropLast.getLast?, name ≠ DOT_NAME ∧ name ≠ DOTDOT_NAME

instance (path : List UInt8) : Decidable (DirectParent path) :=
  inferInstanceAs (Decidable (∀ name ∈ (comps path).dropLast.getLast?, _))

theorem findIn_freed (nodes : List Nat) (y : Nat) (name : List UInt8) :
    findIn (s.freed nodes) T y name = findIn s T y name := rfl

theorem walk_freed (nodes : List Nat) (names : List (List UInt8)) (y : Nat) :
    walk (s.freed nodes) T names y = walk s T names y := by
  induction names generalizing y with
  | nil => rfl
  | cons name names ih => rw [walk, walk, findIn_freed, ih]

theorem mem_remove_iff (h : FileTree s T) (hx : x ∈ T.nodes) {y : Nat} :
    y ∈ (T.remove x).nodes ↔ y ∈ T.nodes ∧ y ∉ subtree T x := by
  have hperm := Forest.nodes_remove h.once hx
  have hnodup := hperm.nodup_iff.mp h.once
  rw [hperm.mem_iff, List.mem_append]
  constructor
  · intro hy
    exact ⟨.inl hy, fun hsub => (List.nodup_append.mp hnodup).2.2 y hy y hsub rfl⟩
  · rintro ⟨hmem, hout⟩
    exact hmem.resolve_right hout

/-- What deleting does once the node is unlinked. -/
theorem Unlinked.deletesSubtree (h : Unlinked T D x s s') (ht : FileTree s T) {path : List UInt8}
    (hrun : ramfsDeleteNode s path =
      (ramfsInterDeleteNode POINTERS x s').map fun s => (s, .ok)) :
    DeletesSubtree s T path x ↔ (s.node x).next = 0 := by
  have hx := Forest.childrenOf_subset T h.child
  have hroot : ROOT ≠ x := fun heq => ht.root_not_child (heq ▸ h.child)
  obtain ⟨rest, hrest, -, hdelete⟩ := h.delete ht
  have hdealloc : s'.deallocated = s.deallocated := by
    rcases h.store with ⟨_, -, rfl⟩ | ⟨_, _, _, -, rfl⟩ <;> rfl
  rw [hdelete, Option.map_some] at hrun
  have hpost := Forest.postorder_perm (Forest.cons x (T.kidsOf x) rest)
  constructor
  · rintro ⟨s₁, freed, T', hrun', hfreed, hperm, -⟩
    rw [hrun] at hrun'
    obtain rfl := (Prod.mk.inj (Option.some.inj hrun')).1
    have heq : freed = (Forest.cons x (T.kidsOf x) rest).postorder := by
      rw [Ramfs.freed, hdealloc] at hfreed
      exact (List.append_cancel_left hfreed).symm
    have hlength := (heq ▸ hperm).length_eq
    rw [hpost.length_eq, subtree, Forest.nodes, List.length_cons, List.length_cons,
      List.length_append] at hlength
    cases rest with
    | nil => exact hrest
    | cons a _ _ =>
      rw [Forest.nodes, List.length_cons] at hlength
      omega
  · intro hnext
    obtain rfl : rest = .nil := hrest.unique hnext
    have hfreed : (Forest.cons x (T.kidsOf x) .nil).postorder.Perm (subtree T x) := by
      rwa [Forest.nodes, Forest.nodes, List.append_nil] at hpost
    have ht' := (h.fileTree ht).freed (Forest.cons x (T.kidsOf x) .nil).postorder
    refine ⟨_, _, T.remove x, hrun, ?_, hfreed, ht', fun y => mem_remove_iff ht hx, ?_, ?_⟩
    · rw [Ramfs.freed, hdealloc]
    · intro y hy hmem
      exact ((mem_remove_iff ht hx).mp hy).2 (hfreed.mem_iff.mp hmem)
    · intro path' hlen habs hclear
      have hwalk := h.walk ht ((h.fileTree ht).root_mem) hclear
      rw [ht'.fsGetNode 0 hlen habs, ht.fsGetNode 0 hlen habs, ← hwalk, walk_freed]

/-- The node before the last component, and the lookup of the last component in it. -/
theorem FileTree.parent_step (h : FileTree s T) {path dir word : List UInt8}
    (hlast : LastComponent path dir word) (hget : TalOS.fsGetNode s 0 path = some x) (hx : x ≠ 0) :
    ∃ P, P ≠ 0 ∧ P ∈ T.nodes ∧ P = walk s T (comps dir) ROOT ∧ x = findIn s T P word := by
  obtain ⟨-, -, hwalk, -⟩ := h.fsGetNode_some hget hx
  rw [hlast.comps] at hwalk
  obtain ⟨hP, hstep⟩ := walk_concat (h.ne_zero h.root_mem) (hwalk ▸ hx)
  exact ⟨_, hP, walk_mem h.root_mem hP, rfl, hwalk.trans hstep⟩

/-- `ramfs_deleteNode` for a path without trailing slash: the node is taken out of the list of what
the path without its last component names. -/
theorem FileTree.deleteNode_eq (h : FileTree s T) {path dir word : List UInt8} {P : Nat}
    (hlast : LastComponent path dir word) (hlen : path.length < MAX_FNAME)
    (hget : TalOS.fsGetNode s 0 path = some x) (hx : x ≠ 0) (hP : P ≠ 0)
    (hdir : P = walk s T (comps dir) ROOT) :
    ramfsDeleteNode s path =
      (TalOS.unlinkChild s P x).bind fun unlinked =>
        match unlinked with
        | none => some (s, .nok)
        | some s => (ramfsInterDeleteNode POINTERS x s).map fun s => (s, .ok) := by
  obtain ⟨-, habs, -, -⟩ := h.fsGetNode_some hget hx
  have hparent : TalOS.fsGetNode s 0 (if dir = [] then [SLASH] else dir) = some P := by
    have hshort : dir.length < MAX_PATH := by
      have hlength := congrArg List.length hlast.eq
      rw [List.length_append] at hlength
      have hmax : MAX_FNAME < MAX_PATH := by decide
      omega
    split
    · next hnil =>
      rw [h.fsGetNode 0 (by decide) rfl, hdir, hnil]
      rfl
    · next hne =>
      have habs' : dir.head? = some SLASH := by
        rw [hlast.eq, List.head?_append_of_ne_nil _ hne] at habs
        exact habs
      rw [h.fsGetNode 0 hshort habs', hdir]
  rw [ramfsDeleteNode, hlast.fsGetParentPath hlen, Option.bind_some]
  dsimp only
  rw [hparent, Option.bind_some, if_neg hP, hget, Option.bind_some]
  exact if_neg hx

/-- The parent is no link exactly if the component before the last is none. -/
theorem FileTree.directParent (h : FileTree s T) {path dir word : List UInt8} {P : Nat}
    (hlast : LastComponent path dir word) (hnul : 0 ∉ path) (hP : P ≠ 0)
    (hdir : P = walk s T (comps dir) ROOT) :
    DirectParent path ↔ (s.node P).type ≠ .symlink := by
  rw [DirectParent, hlast.comps, List.dropLast_concat]
  rcases List.eq_nil_or_concat (comps dir) with hnil | ⟨init, name, hcomps⟩
  · rw [hnil] at hdir ⊢
    rw [show P = ROOT from hdir, h.rootDir]
    exact ⟨fun _ => FType.noConfusion, fun _ name hname => by cases hname⟩
  · rw [List.concat_eq_append] at hcomps
    have hname : 0 ∉ name := by
      intro hzero
      have hmem : name ∈ comps dir := hcomps ▸ List.mem_append_right _ List.mem_cons_self
      refine hnul (hlast.eq ▸ List.mem_append_left _ ((comps_part hmem).subset hzero))
    rw [hcomps] at hdir ⊢
    obtain ⟨-, hstep⟩ := walk_concat (h.ne_zero h.root_mem) (hdir ▸ hP)
    rw [← hdir] at hstep
    obtain ⟨-, -, hchild, hnamed⟩ := findIn_ne_zero (hstep ▸ hP)
    rw [← hstep] at hchild hnamed
    rw [ne_eq, h.link_iff hchild hname hnamed, not_or, List.getLast?_concat]
    exact ⟨fun hdirect => hdirect name rfl, fun hne other hother => Option.mem_some.mp hother ▸ hne⟩

/-- A path that names a file or a directory deletes it with all below it, and nothing else, exactly
if it is the last of its siblings and the component before it is no link. -/
theorem ramfsDeleteNode_deletesSubtree_iff (s : Ramfs) (T : Forest Nat) (path : List UInt8) (x : Nat)
    (h : FileTree s T) (hlen : path.length < MAX_FNAME) (htrail : path.getLast? ≠ some SLASH)
    (hnul : 0 ∉ path) (hget : fsGetNode s 0 path = some x) (hx : x ≠ 0) :
    DeletesSubtree s T path x ↔ (s.node x).next = 0 ∧ DirectParent path := by
  obtain ⟨-, habs, -, -⟩ := h.fsGetNode_some hget hx
  obtain ⟨dir, word, hlast⟩ := exists_lastComponent habs htrail
  obtain ⟨P, hP, hPmem, hdir, hstep⟩ := h.parent_step hlast hget hx
  obtain ⟨hdirType, -, hchild, -⟩ := findIn_ne_zero (hstep ▸ hx : findIn s T P word ≠ 0)
  rw [← hstep] at hchild
  have hrun := h.deleteNode_eq hlast hlen hget hx hP hdir
  rw [h.directParent hlast hnul hP hdir]
  by_cases hlink : (s.node P).type = .symlink
  · -- a link has no children
    constructor
    · rintro ⟨s', _, _, hok, -⟩
      have hnone : T.childrenOf P = [] := h.childrenOf_leaf hPmem (by rw [hlink]; exact FType.noConfusion)
      rcases h.unlinkChild hPmem hx with ⟨-, hfail⟩ | ⟨s₁, -, hunlinked⟩
      · rw [hrun] at hok
        obtain ⟨unlinked, hunlink, hok⟩ := Option.bind_eq_some_iff.mp hok
        cases unlinked with
        | none => exact absurd (Prod.mk.inj (Option.some.inj hok)).2 RfsErr.noConfusion
        | some s₁ => exact absurd hunlink (hfail s₁)
      · have hmem := hunlinked.child
        rw [hnone] at hmem
        cases hmem
    · exact fun hboth => absurd hlink hboth.2
  · have hself : resolve s P = P := if_neg hlink
    rw [hself] at hchild
    rcases h.unlinkChild hPmem hx with ⟨hmem, -⟩ | ⟨s₁, hunlink, hunlinked⟩
    · exact absurd hchild hmem
    · rw [hunlink, Option.bind_some] at hrun
      rw [hunlinked.deletesSubtree h hrun]
      exact ⟨fun hnext => ⟨hnext, hlink⟩, fun hboth => hboth.1⟩

/-- The one entry of the root directory is deleted. -/
theorem ramfsDeleteNode_deletesSubtree_only :
    ∃ s T x, ramfsRun bootRamfs [.mkDir [0x61] [SLASH]] = some s ∧ DeletesSubtree s T [SLASH, 0x61] x := by
  have hrun : (ramfsRun bootRamfs [.mkDir [0x61] [SLASH]]).any (fun s =>
      (fsGetNode s 0 [SLASH, 0x61]).any fun x =>
        x ≠ 0 && (s.node x).next = 0) = true := by
    decide +kernel
  obtain ⟨s, hs, hget⟩ := (Option.any_eq_true ..).mp hrun
  obtain ⟨x, hx, hnode⟩ := (Option.any_eq_true ..).mp hget
  obtain ⟨T, htree, -⟩ := ramfsRun_creations bootRamfs_boot (by decide) hs
  simp only [Bool.and_eq_true, decide_eq_true_eq] at hnode
  exact ⟨s, T, x, hs, (ramfsDeleteNode_deletesSubtree_iff s T _ x htree (by decide) (by decide)
    (by decide) hx hnode.1).mpr ⟨hnode.2, by decide⟩⟩

/-- With two directories in the root directory, deleting the first also frees the second, which can
still be reached. -/
theorem ramfsDeleteNode_frees_sibling :
    ∃ s T x, ramfsRun bootRamfs [.mkDir [0x61] [SLASH], .mkDir [0x62] [SLASH]] = some s ∧
      FileTree s T ∧ DotsFirst s T ∧ fsGetNode s 0 [SLASH, 0x61] = some x ∧ x ≠ 0 ∧
      (s.node x).type = .directory ∧ ¬ DeletesSubtree s T [SLASH, 0x61] x := by
  have hrun : (ramfsRun bootRamfs [.mkDir [0x61] [SLASH], .mkDir [0x62] [SLASH]]).any (fun s =>
      ((fsGetNode s 0 [SLASH, 0x61]).any fun x => x ≠ 0 && (s.node x).type = .directory) &&
        s.deallocated = [] &&
        (ramfsDeleteNode s [SLASH, 0x61]).any fun r =>
          (fsGetNode r.1 0 [SLASH, 0x62]).any fun y => y ≠ 0 && y ∈ r.1.deallocated) = true := by
    decide +kernel
  obtain ⟨s, hs, hcheck⟩ := (Option.any_eq_true ..).mp hrun
  obtain ⟨hcheck, hdelete⟩ := Bool.and_eq_true_iff.mp hcheck
  obtain ⟨hget, hnone⟩ := Bool.and_eq_true_iff.mp hcheck
  obtain ⟨x, hx, hnode⟩ := (Option.any_eq_true ..).mp hget
  obtain ⟨⟨s', err⟩, hs', hfreed⟩ := (Option.any_eq_true ..).mp hdelete
  obtain ⟨y, hy, hmem⟩ := (Option.any_eq_true ..).mp hfreed
  simp only [Bool.and_eq_true, decide_eq_true_eq] at hnode hmem hnone
  obtain ⟨T, htree, hdots⟩ := ramfsRun_creations bootRamfs_boot (by decide) hs
  refine ⟨s, T, x, hs, htree, hdots, hx, hnode.1, hnode.2, ?_⟩
  rintro ⟨s₁, freed, T', hrun', hlist, -, htree', -, hkept, -⟩
  obtain rfl : s' = s₁ := (Prod.mk.inj (Option.some.inj (hs'.symm.trans hrun'))).1
  rw [hnone, List.nil_append] at hlist
  have hreach : y ∈ T'.nodes := (htree'.fsGetNode_some hy hmem.1).2.2.2
  exact hkept y hreach (hlist ▸ hmem.2)

end TalOS
